import AsioTest.ChatClient

/-!
The wire form of a message: a header of four bytes that announces the length of the body, and the
body. `encode_header` writes such a header; `main` of the client does not call it, so that the
header of a line it sends is what the buffer of the fresh message happened to hold.
-/

namespace AsioTest.Chat

open AsyncSocket ByteStrings TransitionRuns

/-! ### Headers -/

theorem toSizeT_natCast {n : Nat} (h : n < 2 ^ 64) : toSizeT n = n := by
  rw [toSizeT]
  omega

/-- Every message that reads these bytes as its header accepts a body of `n` bytes. -/
def Announces (header : Bytes) (n : Nat) : Prop := ∀ r : ChatMessage,
  (r.store 0 header).decodeHeader.2 = true ∧ (r.store 0 header).decodeHeader.1.bodyLength_ = n

/-- What a header announces is the number in it, when that is not too large. -/
theorem announces_iff {header : Bytes} (h : header.length = headerLength) {n : Nat} :
    Announces header n ↔
      toSizeT (atoi (cString header)) = n ∧ toSizeT (atoi (cString header)) ≤ maxBodyLength := by
  constructor
  · intro hall
    obtain ⟨haccepted, hvalue⟩ := hall .blank
    rw [ChatMessage.decodeHeader_accepted _ haccepted, ChatMessage.store_headerValue _ h] at hvalue
    rw [ChatMessage.decodeHeader_accepts, ChatMessage.store_headerValue _ h] at haccepted
    exact ⟨hvalue, haccepted⟩
  · rintro ⟨hvalue, hle⟩ r
    have haccepted : (r.store 0 header).decodeHeader.2 = true := by
      rw [ChatMessage.decodeHeader_accepts, ChatMessage.store_headerValue _ h]
      exact hle
    refine ⟨haccepted, ?_⟩
    rw [ChatMessage.decodeHeader_accepted _ haccepted, ChatMessage.store_headerValue _ h, hvalue]

namespace ChatMessage

variable (m : ChatMessage)

def header : Bytes := m.data_.take headerLength

/-- The bytes of the body. -/
def body : Bytes := (m.data_.drop headerLength).take m.bodyLength_

theorem wire_eq : m.wire = m.header ++ m.body := List.take_add

@[simp] theorem header_length : m.header.length = headerLength := by
  rw [header, List.length_take, m.data_length]
  exact Nat.min_eq_left (Nat.le_add_right _ _)

@[simp] theorem body_length : m.body.length = m.bodyLength_ := by
  have hle := m.bodyLength_le
  rw [body, List.length_take, List.length_drop, m.data_length]
  omega

theorem body_eq_drop_wire : m.body = m.wire.drop headerLength := by
  rw [wire_eq, List.drop_left' m.header_length]

theorem padded_bodyLength : (padded 4 m.bodyLength_).length = headerLength := by
  exact padded_length (by decide) (m.bodyLength_le.trans_lt (by decide))

theorem encodeHeader_data : m.encodeHeader.data_ =
    padded 4 m.bodyLength_ ++ m.data_.drop headerLength := by
  have hlength := m.padded_bodyLength
  have hfits : 0 + (padded 4 m.bodyLength_).length ≤ m.data_.length := by
    rw [hlength, m.data_length]
    decide
  show overwrite m.data_ 0 ((padded 4 m.bodyLength_).take headerLength) = _
  rw [List.take_of_length_le (Nat.le_of_eq hlength), overwrite_eq hfits, hlength]
  rfl

theorem encodeHeader_header : m.encodeHeader.header = padded 4 m.bodyLength_ := by
  rw [header, encodeHeader_data, List.take_left' m.padded_bodyLength]

@[simp] theorem encodeHeader_body : m.encodeHeader.body = m.body := by
  rw [body, encodeHeader_data, List.drop_left' m.padded_bodyLength]
  rfl

theorem encodeHeader_headerValue : m.encodeHeader.headerValue = m.bodyLength_ := by
  show toSizeT (atoi (cString m.encodeHeader.header)) = m.bodyLength_
  rw [encodeHeader_header, cString_of_notMem (zero_notMem_padded _ _), atoi_padded]
  exact toSizeT_natCast (m.bodyLength_le.trans_lt (by decide))

/-- An encoded header announces the length of the body. -/
theorem encodeHeader_announces : Announces m.encodeHeader.header m.bodyLength_ := by
  have hvalue : toSizeT (atoi (cString m.encodeHeader.header)) = m.bodyLength_ :=
    m.encodeHeader_headerValue
  rw [announces_iff m.encodeHeader.header_length, hvalue]
  exact ⟨rfl, m.bodyLength_le⟩

end ChatMessage

/-! ### The lines of `main` -/

/-- The message `main` makes of a line: its length, and its bytes copied into the body of `msg`,
which is fresh and may hold anything. -/
def ChatMessage.ofLine (msg : ChatMessage) (line : Bytes) : ChatMessage :=
  let msg := msg.setBodyLength (cString line).length
  msg.store headerLength (line.take msg.bodyLength_)

/-- A receiver reads these bytes as one message with the line as its body. -/
def ReadsAs (wire line : Bytes) : Prop :=
  ∃ header, header.length = headerLength ∧ wire = header ++ line ∧ Announces header line.length

/-- Whatever a client does: what it hands to a write of the message made of `line` is read as that
line. -/
def SentDecodable (msg : ChatMessage) (line : Bytes) : Prop :=
  ∀ readMsg_ s, Reachable ChatClient.step (.fresh readMsg_) s →
    ∀ request ∈ s.writes ++ s.completed, request.1 = msg.ofLine line →
      ReadsAs (sentBytes request) line

section Line

variable (msg : ChatMessage) {line : Bytes}

theorem ofLine_bodyLength (hline : line.length ≤ maxBodyLength) (hnul : (0 : Byte) ∉ line) :
    (msg.ofLine line).bodyLength_ = line.length := by
  show min (cString line).length maxBodyLength = line.length
  rw [cString_of_notMem hnul, Nat.min_eq_left hline]

theorem ofLine_data (hline : line.length ≤ maxBodyLength) (hnul : (0 : Byte) ∉ line) :
    (msg.ofLine line).data_ = overwrite msg.data_ headerLength line := by
  show overwrite msg.data_ headerLength (line.take (msg.ofLine line).bodyLength_) = _
  rw [ofLine_bodyLength msg hline hnul, List.take_length]

/-- The header is what the fresh message held before, and the body is the line. -/
theorem ofLine_wire (hline : line.length ≤ maxBodyLength) (hnul : (0 : Byte) ∉ line) :
    (msg.ofLine line).wire = msg.header ++ line := by
  have hfits : headerLength + line.length ≤ msg.data_.length := by
    rw [msg.data_length]
    exact Nat.add_le_add_left hline headerLength
  rw [ChatMessage.wire_eq, ChatMessage.header, ChatMessage.body, ofLine_bodyLength msg hline hnul,
    ofLine_data msg hline hnul, overwrite_take hfits, overwrite_drop hfits, List.take_left]
  rfl

theorem readsAs_ofLine_iff (hline : line.length ≤ maxBodyLength) (hnul : (0 : Byte) ∉ line) :
    ReadsAs (msg.ofLine line).wire line ↔ msg.headerValue = line.length := by
  rw [ofLine_wire msg hline hnul]
  constructor
  · rintro ⟨header, -, hwire, hannounces⟩
    obtain rfl : msg.header = header := List.append_cancel_right hwire
    exact ((announces_iff msg.header_length).mp hannounces).1
  · intro hvalue
    exact ⟨msg.header, msg.header_length, rfl,
      (announces_iff msg.header_length).mpr ⟨hvalue, hvalue.trans_le hline⟩⟩

end Line

/-- Every write of a client, outstanding or completed, is handed the wire form of a message. -/
theorem ChatClient.request_eq {readMsg_ : ChatMessage} {s : ChatClient}
    (h : Reachable ChatClient.step (.fresh readMsg_) s) {request : WriteRequest}
    (hrequest : request ∈ s.writes ++ s.completed) : request = request.1.request := by
  have horderly := orderly_reachable h
  obtain ⟨sent, queued, henqueued, hsent, hqueued⟩ := List.map_eq_append_iff.mp horderly.ordered
  rcases List.mem_append.mp hrequest with hwrite | hcompleted
  · cases hfailed : s.writeFailed with
    | true =>
        have hnone : s.writes = [] := (horderly.stopped hfailed).1
        rw [hnone] at hwrite
        cases hwrite
    | false =>
        rw [ChatPeer.writes_front horderly hfailed, Option.mem_toList, List.head?_map] at hwrite
        obtain ⟨m, -, rfl⟩ := Option.map_eq_some_iff.mp hwrite
        rfl
  · have hmem : request ∈ sent.map ChatMessage.request := by
      rw [hsent]
      exact hcompleted
    obtain ⟨m, -, rfl⟩ := List.mem_map.mp hmem
    rfl

theorem sentDecodable_of_readsAs {msg : ChatMessage} {line : Bytes}
    (h : ReadsAs (msg.ofLine line).wire line) : SentDecodable msg line := by
  intro readMsg_ s hs request hrequest hmsg
  rw [ChatClient.request_eq hs hrequest, hmsg, sentBytes_request]
  exact h

/-- A client sends the message: once it is connected, the posted handler starts the write. -/
theorem SentDecodable.readsAs {msg : ChatMessage} {line : Bytes} (h : SentDecodable msg line) :
    ReadsAs (msg.ofLine line).wire line :=
  h .blank _ ⟨[.establish, .connect (.success ()), .write (msg.ofLine line), .runPosted], rfl⟩
    (msg.ofLine line).request List.mem_cons_self rfl

/-- For every line without NUL that fits into a message, what a client sends for it can be decoded
if and only if the header bytes that the fresh message held already announced its length. -/
theorem line_decodable_iff (msg : ChatMessage) {line : Bytes}
    (hline : line.length ≤ maxBodyLength) (hnul : (0 : Byte) ∉ line) :
    SentDecodable msg line ↔ msg.headerValue = line.length := by
  rw [← readsAs_ofLine_iff msg hline hnul]
  exact ⟨SentDecodable.readsAs, sentDecodable_of_readsAs⟩

/-- The buffer held the right header before. -/
theorem line_decodable_iff_lucky :
    SentDecodable (ChatMessage.blank.store 0 (ascii "   2")) (ascii "hi") :=
  (line_decodable_iff _ (by decide) (by decide)).mpr (by
    rw [ChatMessage.store_headerValue _ rfl]
    decide)

theorem greetingLine_not_decodable : ¬ SentDecodable .blank (ascii "hi") := by
  intro h
  have hvalue := (readsAs_ofLine_iff .blank (by decide) (by decide)).mp h.readsAs
  revert hvalue
  decide

end AsioTest.Chat
