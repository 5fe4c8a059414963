import AsioTest.ChatPeer

/-!
The loop that reads a header and a body in turn. Server and client differ in how many bytes they
read for a body, so that the loop is described for any `bodySize`: how much of a stream has been
read is fixed by the messages read and by which of the two is read next.
-/

namespace AsioTest.Chat

open AsyncSocket ByteStrings

/-- A read. -/
def ChatOp.read : ChatOp → Option ChatOp
  | .write _ _ => none
  | op => some op

/-- What the read loop works on, and the messages it has read. -/
structure ReadSide where
  reads : List ChatOp
  readMsg : ChatMessage
  received : List Bytes
  messages : List ChatMessage

namespace ReadSide

/-- What the handlers of the reads do, each when it runs for the only read outstanding. -/
inductive Step (bodySize : ChatMessage → Nat) : ReadSide → ReadSide → Prop where
  | accepted {v : ReadSide} {buffer : Span} {bytes : Bytes} {m : ChatMessage}
      (hreads : v.reads = [.readHeader buffer]) (hbytes : bytes.length = buffer.size)
      (hm : (v.readMsg.store 0 bytes).decodeHeader = (m, true)) :
      Step bodySize v ⟨[.readBody (ChatMessage.bodySpan (bodySize m))], m,
        v.received ++ [bytes], v.messages⟩
  | rejected {v : ReadSide} {buffer : Span} {bytes : Bytes} {m : ChatMessage}
      (hreads : v.reads = [.readHeader buffer]) (hbytes : bytes.length = buffer.size)
      (hm : (v.readMsg.store 0 bytes).decodeHeader = (m, false)) :
      Step bodySize v ⟨[], m, v.received ++ [bytes], v.messages⟩
  | body {v : ReadSide} {buffer : Span} {bytes : Bytes} {m : ChatMessage}
      (hreads : v.reads = [.readBody buffer]) (hbytes : bytes.length = buffer.size)
      (hm : v.readMsg.store headerLength bytes = m) :
      Step bodySize v ⟨[.readHeader (ChatMessage.dataSpan headerLength)], m,
        v.received ++ [bytes], v.messages ++ [m]⟩
  | failed {v : ReadSide} {op : ChatOp} (hreads : v.reads = [op]) :
      Step bodySize v { v with reads := [] }

/-- How many bytes have been read. -/
def readLength (v : ReadSide) : Nat := v.received.flatten.length

/-- How many bytes the messages read have taken. -/
def frameLength (bodySize : ChatMessage → Nat) (v : ReadSide) : Nat :=
  (v.messages.map fun m => headerLength + bodySize m).sum

/-- The loop stands before a header, at the end of the messages read, or before a body, a header
behind it; that read is outstanding, unless the loop has ended. -/
inductive InTurn (bodySize : ChatMessage → Nat) (v : ReadSide) : Prop where
  | atHeader
      (hreads : v.reads = [.readHeader (ChatMessage.dataSpan headerLength)] ∨ v.reads = [])
      (hcount : v.received.length = 2 * v.messages.length)
      (htotal : v.readLength = v.frameLength bodySize)
  | atBody
      (hreads : v.reads = [.readBody (ChatMessage.bodySpan (bodySize v.readMsg))] ∨ v.reads = [])
      (hcount : v.received.length = 2 * v.messages.length + 1)
      (htotal : v.readLength = v.frameLength bodySize + headerLength)

variable {bodySize : ChatMessage → Nat} {v w : ReadSide}

theorem InTurn.reads_le (h : v.InTurn bodySize) : v.reads.length ≤ 1 := by
  rcases h with ⟨hreads | hreads, -, -⟩ | ⟨hreads | hreads, -, -⟩ <;> simp [hreads]

theorem InTurn.frameLength_le (h : v.InTurn bodySize) :
    v.frameLength bodySize ≤ v.readLength := by
  rcases h with ⟨-, -, htotal⟩ | ⟨-, -, htotal⟩
  · exact Nat.le_of_eq htotal.symm
  · rw [htotal]
    exact Nat.le_add_right _ _

theorem readLength_concat (received : List Bytes) (bytes : Bytes) :
    (received ++ [bytes]).flatten.length = received.flatten.length + bytes.length := by
  rw [List.flatten_append, List.length_append, List.flatten_singleton]

/-- The loop keeps its turn, provided that storing bytes leaves the size of a body as it is. -/
theorem Step.inTurn (h : v.Step bodySize w) (hv : v.InTurn bodySize)
    (hstore : ∀ m bytes, bodySize (ChatMessage.store m headerLength bytes) = bodySize m) :
    w.InTurn bodySize := by
  cases h with
  | @accepted buffer bytes m hreads hbytes hm =>
      rcases hv with ⟨heq | heq, hcount, htotal⟩ | ⟨heq | heq, -, -⟩
      · cases hreads.symm.trans heq
        refine .atBody (Or.inl rfl) (by simp [hcount]) ?_
        show (v.received ++ [bytes]).flatten.length = v.frameLength bodySize + headerLength
        rw [readLength_concat, hbytes, ← htotal]
        rfl
      all_goals cases hreads.symm.trans heq
  | @rejected buffer bytes m hreads hbytes hm =>
      rcases hv with ⟨heq | heq, hcount, htotal⟩ | ⟨heq | heq, -, -⟩
      · cases hreads.symm.trans heq
        refine .atBody (Or.inr rfl) (by simp [hcount]) ?_
        show (v.received ++ [bytes]).flatten.length = v.frameLength bodySize + headerLength
        rw [readLength_concat, hbytes, ← htotal]
        rfl
      all_goals cases hreads.symm.trans heq
  | @body buffer bytes m hreads hbytes hm =>
      rcases hv with ⟨heq | heq, -, -⟩ | ⟨heq | heq, hcount, htotal⟩
      · cases hreads.symm.trans heq
      · cases hreads.symm.trans heq
      · cases hreads.symm.trans heq
        have hsize : bytes.length = bodySize m := by
          rw [← hm, hstore]
          exact hbytes
        refine .atHeader (Or.inl rfl) (by simp [hcount]; omega) ?_
        show (v.received ++ [bytes]).flatten.length =
          ((v.messages ++ [m]).map fun m => headerLength + bodySize m).sum
        calc
          (v.received ++ [bytes]).flatten.length = v.readLength + bodySize m := by
            rw [readLength_concat, hsize]
            rfl
          _ = v.frameLength bodySize + (headerLength + bodySize m) := by
            rw [htotal, Nat.add_assoc]
          _ = ((v.messages ++ [m]).map fun m => headerLength + bodySize m).sum := by
            rw [List.map_append, List.sum_append, List.map_singleton, List.sum_singleton]
            rfl
      · cases hreads.symm.trans heq
  | failed hreads =>
      rcases hv with ⟨-, hcount, htotal⟩ | ⟨-, hcount, htotal⟩
      · exact .atHeader (Or.inr rfl) hcount htotal
      · exact .atBody (Or.inr rfl) hcount htotal

end ReadSide

/-! ### The read side of a peer -/

namespace ChatPeer

def readSide (s : ChatPeer) (messages : List ChatMessage) : ReadSide where
  reads := s.socket_.outstanding ChatOp.read
  readMsg := s.readMsg_
  received := s.received
  messages := messages

variable (s : ChatPeer) (messages : List ChatMessage)

@[simp] theorem doWrite_readSide : s.doWrite.readSide messages = s.readSide messages := by
  unfold doWrite
  split
  next => rfl
  next => simp [readSide, ChatOp.read]

@[simp] theorem enqueue_readSide (msg : ChatMessage) :
    (s.enqueue msg).readSide messages = s.readSide messages := by
  unfold enqueue
  split_ifs
  · rw [doWrite_readSide]
    rfl
  · rfl

theorem doReadHeader_readSide : s.doReadHeader.readSide messages = { s.readSide messages with
    reads := (s.readSide messages).reads ++
      [.readHeader (ChatMessage.dataSpan headerLength)] } := by
  simp [doReadHeader, readSide, ChatOp.read]

theorem readBodyOf_readSide (size : Nat) :
    (s.readBodyOf size).readSide messages = { s.readSide messages with
      reads := (s.readSide messages).reads ++ [.readBody (ChatMessage.bodySpan size)] } := by
  simp [readBodyOf, readSide, ChatOp.read]

variable {s}

/-- A completed read was the only one outstanding; a completed write leaves the read side alone. -/
theorem finish_readSide {s' : ChatPeer} {k : Nat} {r : Completion Bytes} {op : ChatOp}
    (h : s.finish k r = some (op, s')) (hle : (s.readSide messages).reads.length ≤ 1) :
    op.Fits r = true ∧
      match op.read with
      | none => s'.readSide messages = s.readSide messages
      | some _ => (s.readSide messages).reads = [op] ∧ s'.readSide messages =
          { s.readSide messages with reads := [], received := s.received ++ op.received r } := by
  obtain ⟨socket, hfinish, hfits, rfl⟩ := finish_eq_some h
  obtain ⟨before, after, hreads, hrest⟩ := Socket.finish_outstanding hfinish ChatOp.read
  refine ⟨hfits, ?_⟩
  cases hread : op.read with
  | none =>
      rw [hread] at hreads
      have hreceived : op.received r = [] := by
        cases op <;> first | rfl | cases hread
      unfold readSide
      rw [hrest, hreads, hreceived, List.append_nil]
      rfl
  | some op' =>
      have hop : op' = op := by
        cases op <;> cases hread <;> rfl
      subst hop
      have hlength : (before ++ ((some op').toList ++ after)).length ≤ 1 := by
        rw [← hread, ← hreads]
        exact hle
      simp only [Option.toList_some, List.length_append, List.length_cons,
        List.length_nil] at hlength
      have hbefore : before = [] := List.length_eq_zero_iff.mp (by omega)
      have hafter : after = [] := List.length_eq_zero_iff.mp (by omega)
      subst hbefore hafter
      rw [hread] at hreads
      refine ⟨hreads, ?_⟩
      unfold readSide
      rw [hrest]
      rfl

/-! ### The reads outstanding -/

def reads (s : ChatPeer) : List ChatOp := s.socket_.outstanding ChatOp.read

@[simp] theorem doWrite_reads (s : ChatPeer) : s.doWrite.reads = s.reads :=
  congrArg ReadSide.reads (s.doWrite_readSide [])

@[simp] theorem doWrite_received (s : ChatPeer) : s.doWrite.received = s.received :=
  congrArg ReadSide.received (s.doWrite_readSide [])

@[simp] theorem doWrite_readMsg (s : ChatPeer) : s.doWrite.readMsg_ = s.readMsg_ :=
  congrArg ReadSide.readMsg (s.doWrite_readSide [])

@[simp] theorem doReadHeader_reads (s : ChatPeer) : s.doReadHeader.reads =
    s.reads ++ [.readHeader (ChatMessage.dataSpan headerLength)] :=
  congrArg ReadSide.reads (s.doReadHeader_readSide [])

@[simp] theorem readBodyOf_reads (s : ChatPeer) (size : Nat) : (s.readBodyOf size).reads =
    s.reads ++ [.readBody (ChatMessage.bodySpan size)] :=
  congrArg ReadSide.reads (s.readBodyOf_readSide [] size)

theorem finish_write {s s' : ChatPeer} {k : Nat} {r : Completion Bytes} {msg : ChatMessage}
    {buffer : Span} (h : s.finish k r = some (.write msg buffer, s')) (hle : s.reads.length ≤ 1) :
    s'.readSide [] = s.readSide [] :=
  (finish_readSide [] h hle).2

/-- A read that succeeds was the only one, and has read as much as it was asked for. -/
theorem finish_read {s s' : ChatPeer} {k : Nat} {bytes : Bytes} {op : ChatOp}
    (h : s.finish k (.success bytes) = some (op, s')) (hle : s.reads.length ≤ 1)
    (hop : op.read = some op) : s.reads = [op] ∧ s'.reads = [] ∧
      s'.received = s.received ++ [bytes] ∧ s'.readMsg_ = s.readMsg_ ∧
      bytes.length = op.buffer.size := by
  obtain ⟨hfits, hfinish⟩ := finish_readSide [] h hle
  rw [hop] at hfinish
  obtain ⟨hreads, hside⟩ := hfinish
  have hreceived := congrArg ReadSide.received hside
  refine ⟨hreads, congrArg ReadSide.reads hside, ?_, congrArg ReadSide.readMsg hside, ?_⟩
  · cases op with
    | write msg buffer => cases hop
    | readHeader buffer => exact hreceived
    | readBody buffer => exact hreceived
  · cases op with
    | write msg buffer => cases hop
    | readHeader buffer => exact of_decide_eq_true hfits
    | readBody buffer => exact of_decide_eq_true hfits

end ChatPeer

end AsioTest.Chat
