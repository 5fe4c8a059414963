import AsioTest.AsyncSocket
import AsioTest.ByteStrings

/-!
`chat_message`: a buffer for a header of four bytes and a body of at most 512, and the length of
the body. The bytes behind the buffer and before `body_length_` are padding: what is written there
is not kept. A read or a write is handed a part of this buffer.
-/

namespace AsioTest.Chat

open AsyncSocket ByteStrings

abbrev headerLength : Nat := 4

abbrev maxBodyLength : Nat := 512

/-- The buffer has its size, and the body fits into it. -/
structure ChatMessage where
  data_ : Bytes
  bodyLength_ : Nat
  data_length : data_.length = headerLength + maxBodyLength
  bodyLength_le : bodyLength_ ≤ maxBodyLength
  deriving DecidableEq

/-- The bytes of `data_` from `offset` on that are handed to an operation. -/
structure Span where
  offset : Nat
  size : Nat
  deriving DecidableEq

/-- The span lies within `data_`. -/
def Span.Within (b : Span) : Prop := b.offset + b.size ≤ headerLength + maxBodyLength

instance (b : Span) : Decidable b.Within := inferInstanceAs (Decidable (_ ≤ _))

/-- The conversion of an `int` to `size_t`. -/
def toSizeT (v : Int) : Nat := (v % 2 ^ 64).toNat

namespace ChatMessage

/-- A message whose buffer holds zeroes. -/
def blank : ChatMessage := ⟨List.replicate 516 0, 0, List.length_replicate, Nat.zero_le _⟩

def length (m : ChatMessage) : Nat := headerLength + m.bodyLength_

/-- `buffer(data(), n)` -/
def dataSpan (n : Nat) : Span := ⟨0, n⟩

/-- `buffer(body(), n)` -/
def bodySpan (n : Nat) : Span := ⟨headerLength, n⟩

/-- `data()[0..length())` -/
def wire (m : ChatMessage) : Bytes := m.data_.take m.length

/-- The setter `body_length`. -/
def setBodyLength (m : ChatMessage) (newLength : Nat) : ChatMessage :=
  { m with bodyLength_ := min newLength maxBodyLength, bodyLength_le := Nat.min_le_right _ _ }

/-- Bytes stored into `data_`. -/
def store (m : ChatMessage) (offset : Nat) (bytes : Bytes) : ChatMessage :=
  { m with
    data_ := overwrite m.data_ offset bytes
    data_length := (overwrite_length _ _ _).trans m.data_length }

/-- The number `decode_header` reads: the header is copied up to its first NUL. -/
def headerValue (m : ChatMessage) : Nat := toSizeT (atoi (cString (m.data_.take headerLength)))

def decodeHeader (m : ChatMessage) : ChatMessage × Bool :=
  if h : m.headerValue > maxBodyLength then
    ({ m with bodyLength_ := 0, bodyLength_le := Nat.zero_le _ }, false)
  else ({ m with bodyLength_ := m.headerValue, bodyLength_le := Nat.le_of_not_lt h }, true)

def encodeHeader (m : ChatMessage) : ChatMessage :=
  m.store 0 ((padded 4 m.bodyLength_).take headerLength)

variable (m : ChatMessage)

theorem length_le : m.length ≤ headerLength + maxBodyLength :=
  Nat.add_le_add_left m.bodyLength_le headerLength

@[simp] theorem wire_length : m.wire.length = m.length := by
  rw [wire, List.length_take, m.data_length]
  exact Nat.min_eq_left m.length_le

@[simp] theorem store_bodyLength (offset : Nat) (bytes : Bytes) :
    (m.store offset bytes).bodyLength_ = m.bodyLength_ := rfl

@[simp] theorem store_length (offset : Nat) (bytes : Bytes) :
    (m.store offset bytes).length = m.length := rfl

@[simp] theorem encodeHeader_bodyLength : m.encodeHeader.bodyLength_ = m.bodyLength_ := rfl

@[simp] theorem encodeHeader_length : m.encodeHeader.length = m.length := rfl

/-- An accepted header leaves its number as the length of the body. -/
theorem decodeHeader_accepted (h : m.decodeHeader.2 = true) :
    m.decodeHeader.1.bodyLength_ = m.headerValue := by
  rw [decodeHeader] at h ⊢
  split_ifs at h ⊢
  rfl

/-- A header is accepted when its number is not too large. -/
theorem decodeHeader_accepts : m.decodeHeader.2 = true ↔ m.headerValue ≤ maxBodyLength := by
  rw [decodeHeader]
  split_ifs with h
  · exact iff_of_false nofun (Nat.not_le_of_lt h)
  · exact iff_of_true rfl (Nat.le_of_not_lt h)

/-- After a header has been stored its bytes alone decide on the number. -/
theorem store_headerValue {bytes : Bytes} (h : bytes.length = headerLength) :
    (m.store 0 bytes).headerValue = toSizeT (atoi (cString bytes)) := by
  have htake : (m.store 0 bytes).data_.take headerLength = bytes := by
    show (overwrite m.data_ 0 bytes).take headerLength = bytes
    rw [overwrite, List.take_take, m.data_length, List.take_zero, List.nil_append,
      Nat.min_eq_left (Nat.le_add_right _ _), ← h, List.take_left]
  rw [headerValue, htake]

theorem wire_within : (dataSpan m.length).Within := by
  rw [Span.Within, dataSpan, Nat.zero_add]
  exact m.length_le

theorem header_within : (dataSpan headerLength).Within := by decide

end ChatMessage

/-! ### Operations on a message -/

/-- An operation and the part of `data_` it is handed: of `read_msg_`, or of the message written. -/
inductive ChatOp where
  | readHeader (buffer : Span)
  | readBody (buffer : Span)
  | write (msg : ChatMessage) (buffer : Span)
  deriving DecidableEq

def ChatOp.buffer : ChatOp → Span
  | .readHeader buffer => buffer
  | .readBody buffer => buffer
  | .write _ buffer => buffer

/-- The operation stays within the buffer it is handed a part of. -/
def ChatOp.Within (op : ChatOp) : Prop := op.buffer.Within

/-- What a write is handed. -/
abbrev WriteRequest := ChatMessage × Span

/-- The request for a whole message. -/
def ChatMessage.request (m : ChatMessage) : WriteRequest := (m, dataSpan m.length)

def ChatOp.request : ChatOp → Option WriteRequest
  | .write msg buffer => some (msg, buffer)
  | _ => none

/-- The bytes a completed write has sent. -/
def sentBytes (request : WriteRequest) : Bytes :=
  (request.1.data_.drop request.2.offset).take request.2.size

@[simp] theorem sentBytes_request (m : ChatMessage) : sentBytes m.request = m.wire := rfl

/-- What an operation has read. -/
def ChatOp.received : ChatOp → Completion Bytes → List Bytes
  | .write _ _, _ => []
  | _, .success bytes => [bytes]
  | _, _ => []

/-- A read that succeeds has read exactly as many bytes as it was asked for. -/
def ChatOp.Fits : ChatOp → Completion Bytes → Bool
  | .readHeader buffer, .success bytes => bytes.length = buffer.size
  | .readBody buffer, .success bytes => bytes.length = buffer.size
  | _, _ => true

end AsioTest.Chat
