import AsioTest.ChatWireForm

/-!
The member functions of `chat_message`, one assignment after the other, on any values of the two
members, and every sequence of calls of them. Their results are those of `ChatMessage`, which keeps
the size of the buffer and the bound of the body as fields; so these hold at every point, and what
`encode_header` writes fits its local buffer.
-/

namespace AsioTest.Chat

open ByteStrings TransitionRuns

/-- The members of `chat_message`. -/
structure RawMessage where
  data_ : Bytes
  bodyLength_ : Nat
  deriving DecidableEq

/-- `static_cast<int>` of a `size_t`. -/
def toInt (n : Nat) : Int := (n : Int).bmod (2 ^ 32)

/-- The text of `%4d`. -/
def formatted (v : Int) : Bytes :=
  let text := if v < 0 then chr '-' :: decimal v.natAbs else decimal v.natAbs
  List.replicate (4 - text.length) (chr ' ') ++ text

/-- The calls; the last stands for whatever else writes to `data()` or `body()`. -/
inductive MessageCall where
  | bodyLength (newLength : Nat)
  | encodeHeader
  | decodeHeader
  | overwrite (offset : Nat) (bytes : Bytes)

namespace RawMessage

/-- The constructor leaves `data_` as it is. -/
def fresh (data_ : Fin (headerLength + maxBodyLength) → Byte) : RawMessage := ⟨List.ofFn data_, 0⟩

def length (m : RawMessage) : Nat := (headerLength + m.bodyLength_) % 2 ^ 64

def header (m : RawMessage) : Bytes := m.data_.take headerLength

def setBodyLength (m : RawMessage) (newLength : Nat) : RawMessage :=
  let m := { m with bodyLength_ := newLength }
  if m.bodyLength_ > maxBodyLength then { m with bodyLength_ := maxBodyLength } else m

def decodeHeader (m : RawMessage) : RawMessage × Bool :=
  let m := { m with bodyLength_ := toSizeT (atoi (cString m.header)) }
  if m.bodyLength_ > maxBodyLength then ({ m with bodyLength_ := 0 }, false) else (m, true)

/-- What `sprintf` writes to the local `header`, its NUL included. -/
def printed (m : RawMessage) : Bytes := formatted (toInt m.bodyLength_) ++ [0]

/-- `none` when `sprintf` writes past the end of its buffer. -/
def encodeHeader (m : RawMessage) : Option RawMessage :=
  if m.printed.length > headerLength + 1 then none
  else some { m with data_ := overwrite m.data_ 0 (m.printed.take headerLength) }

def step (m : RawMessage) : MessageCall → Option RawMessage
  | .bodyLength newLength => some (m.setBodyLength newLength)
  | .encodeHeader => m.encodeHeader
  | .decodeHeader => some m.decodeHeader.1
  | .overwrite offset bytes => some { m with data_ := overwrite m.data_ offset bytes }

end RawMessage

namespace ChatMessage

/-- The members of a message. -/
def raw (m : ChatMessage) : RawMessage := ⟨m.data_, m.bodyLength_⟩

def apply (m : ChatMessage) : MessageCall → ChatMessage
  | .bodyLength newLength => m.setBodyLength newLength
  | .encodeHeader => m.encodeHeader
  | .decodeHeader => m.decodeHeader.1
  | .overwrite offset bytes => m.store offset bytes

variable (m : ChatMessage)

theorem raw_setBodyLength (newLength : Nat) :
    m.raw.setBodyLength newLength = (m.setBodyLength newLength).raw := by
  show (if newLength > maxBodyLength then (⟨m.data_, maxBodyLength⟩ : RawMessage)
    else ⟨m.data_, newLength⟩) = ⟨m.data_, min newLength maxBodyLength⟩
  split_ifs with hlarge
  · rw [Nat.min_eq_right (Nat.le_of_lt hlarge)]
  · rw [Nat.min_eq_left (Nat.le_of_not_lt hlarge)]

theorem raw_decodeHeader :
    m.raw.decodeHeader = (m.decodeHeader.1.raw, m.decodeHeader.2) := by
  show (if m.headerValue > maxBodyLength then ((⟨m.data_, 0⟩ : RawMessage), false)
    else (⟨m.data_, m.headerValue⟩, true)) = _
  rw [decodeHeader]
  split_ifs
  · rfl
  · rfl

theorem toInt_bodyLength : toInt m.bodyLength_ = m.bodyLength_ := by
  have hle : m.bodyLength_ ≤ 512 := m.bodyLength_le
  exact Int.bmod_eq_of_le_mul_two (by push_cast; omega) (by push_cast; omega)

theorem formatted_natCast (n : Nat) : formatted n = padded 4 n := by
  have hnonneg : ¬ (n : Int) < 0 := by omega
  simp only [formatted, if_neg hnonneg, Int.natAbs_natCast]
  rfl

/-- The text of `sprintf` has four characters, and its NUL takes the fifth of the buffer. -/
theorem raw_printed : m.raw.printed = padded 4 m.bodyLength_ ++ [0] := by
  show formatted (toInt m.bodyLength_) ++ [0] = _
  rw [toInt_bodyLength, formatted_natCast]

theorem raw_printed_length : m.raw.printed.length = headerLength + 1 := by
  rw [raw_printed, List.length_append, m.padded_bodyLength]
  rfl

theorem raw_encodeHeader : m.raw.encodeHeader = some m.encodeHeader.raw := by
  have hfits : ¬ m.raw.printed.length > headerLength + 1 := by
    rw [raw_printed_length]
    exact Nat.lt_irrefl _
  have htext : m.raw.printed.take headerLength = (padded 4 m.bodyLength_).take headerLength := by
    rw [raw_printed, List.take_append_of_le_length (Nat.le_of_eq m.padded_bodyLength.symm)]
  rw [RawMessage.encodeHeader, if_neg hfits, htext]
  rfl

/-! ### Sequences of calls -/

/-- Every call leaves what it leaves of the message with its invariant. -/
theorem raw_step (call : MessageCall) : m.raw.step call = some (m.apply call).raw := by
  cases call with
  | bodyLength newLength => exact congrArg some (m.raw_setBodyLength newLength)
  | encodeHeader => exact m.raw_encodeHeader
  | decodeHeader => exact congrArg (fun r => some r.1) m.raw_decodeHeader
  | overwrite offset bytes => rfl

theorem raw_run (calls : List MessageCall) :
    run RawMessage.step m.raw calls = some (calls.foldl apply m).raw := by
  induction calls generalizing m with
  | nil => rfl
  | cons call calls ih => exact run_cons.mpr ⟨_, m.raw_step call, ih (m.apply call)⟩

/-- A message with any bytes in its buffer. -/
def fresh (data_ : Fin (headerLength + maxBodyLength) → Byte) : ChatMessage :=
  ⟨List.ofFn data_, 0, List.length_ofFn, Nat.zero_le _⟩

/-- The number in a header is read back, whatever the length has been set to since. -/
theorem decodeHeader_of_header_eq {r : ChatMessage} (h : r.header = m.encodeHeader.header) :
    r.decodeHeader.2 = true ∧ r.decodeHeader.1.bodyLength_ = m.bodyLength_ := by
  have hvalue : r.headerValue = m.bodyLength_ := by
    rw [← m.encodeHeader_headerValue]
    exact congrArg (fun header => toSizeT (atoi (cString header))) h
  have haccepted : r.decodeHeader.2 = true := by
    rw [decodeHeader_accepts, hvalue]
    exact m.bodyLength_le
  exact ⟨haccepted, (r.decodeHeader_accepted haccepted).trans hvalue⟩

end ChatMessage

namespace RawMessage

/-- The bounds hold; `encode_header` stays in its local buffer, replaces the header by four
characters and leaves the body as it is; and as long as the header stands, whatever is called,
`decode_header` brings the length back that was encoded. -/
structure Consistent (m : RawMessage) : Prop where
  bodyLength_le : m.bodyLength_ ≤ maxBodyLength
  length_le : m.length ≤ headerLength + maxBodyLength
  encodes : ∃ m', m.encodeHeader = some m' ∧ m.printed.length = headerLength + 1 ∧
    m'.header = m.printed.take headerLength ∧
    m'.data_.drop headerLength = m.data_.drop headerLength
  restores : ∀ m' calls m'', m.encodeHeader = some m' → run step m' calls = some m'' →
    m''.header = m'.header →
      m''.decodeHeader.2 = true ∧ m''.decodeHeader.1.bodyLength_ = m.bodyLength_

theorem consistent_raw (m : ChatMessage) : m.raw.Consistent where
  bodyLength_le := m.bodyLength_le
  length_le := (Nat.mod_le _ _).trans m.length_le
  encodes := by
    refine ⟨_, m.raw_encodeHeader, m.raw_printed_length, ?_, ?_⟩
    · rw [m.raw_printed, List.take_left' m.padded_bodyLength]
      exact m.encodeHeader_header
    · show m.encodeHeader.data_.drop headerLength = m.data_.drop headerLength
      rw [m.encodeHeader_data, List.drop_left' m.padded_bodyLength]
  restores := by
    intro m' calls m'' hencode hrun hheader
    obtain rfl : m.encodeHeader.raw = m' := Option.some.inj (m.raw_encodeHeader.symm.trans hencode)
    rw [m.encodeHeader.raw_run] at hrun
    obtain rfl := Option.some.inj hrun
    rw [ChatMessage.raw_decodeHeader]
    exact m.decodeHeader_of_header_eq hheader

/-- After any calls on a fresh message, none of which leaves a buffer. -/
theorem message_consistent (data_ : Fin (headerLength + maxBodyLength) → Byte)
    (calls : List MessageCall) :
    ∃ m, run step (fresh data_) calls = some m ∧ m.Consistent := by
  have hfresh : fresh data_ = (ChatMessage.fresh data_).raw := by
    simp only [fresh, ChatMessage.raw, ChatMessage.fresh]
  rw [hfresh, ChatMessage.raw_run]
  exact ⟨_, rfl, consistent_raw _⟩

end RawMessage

end AsioTest.Chat
