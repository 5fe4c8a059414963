import AsioTest.ChatClient
import AsioTest.ChatSession

/-!
The part of a message's buffer that each operation is handed. A client never leaves the buffer. A
session asks for `length()` bytes behind the header, so that it leaves the buffer exactly when it
accepts a header that announces more than 508 bytes.
-/

namespace AsioTest.Chat

open AsyncSocket ByteStrings TransitionRuns

namespace ChatPeer

/-- Every operation outstanding is handed bytes of `data_` only. -/
def InBounds (s : ChatPeer) : Prop := ∀ p ∈ s.socket_.pending, p.op.Within

variable {s : ChatPeer}

theorem InBounds.doWrite (hs : s.InBounds) : s.doWrite.InBounds := by
  unfold ChatPeer.doWrite
  split
  next => exact hs
  next m rest hqueue =>
    exact (Socket.forall_issue _ _ ChatOp.Within).mpr ⟨hs, m.wire_within⟩

theorem InBounds.enqueue (hs : s.InBounds) (msg : ChatMessage) : (s.enqueue msg).InBounds := by
  unfold ChatPeer.enqueue
  split_ifs
  · exact InBounds.doWrite (s := { s with
      writeMsgs_ := s.writeMsgs_ ++ [msg]
      enqueued := s.enqueued ++ [msg] }) hs
  · exact hs

theorem InBounds.doReadHeader (hs : s.InBounds) : s.doReadHeader.InBounds :=
  (Socket.forall_issue _ _ ChatOp.Within).mpr ⟨hs, ChatMessage.header_within⟩

/-- A read of a body stays within the buffer when the body is no longer than the room behind the
header. -/
theorem readBodyOf_inBounds (hs : s.InBounds) (size : Nat) :
    (s.readBodyOf size).InBounds ↔ size ≤ maxBodyLength := by
  calc
    (s.readBodyOf size).InBounds ↔ s.InBounds ∧ (ChatMessage.bodySpan size).Within :=
      Socket.forall_issue _ _ ChatOp.Within
    _ ↔ (ChatMessage.bodySpan size).Within := and_iff_right hs
    _ ↔ size ≤ maxBodyLength := Nat.add_le_add_iff_left

theorem InBounds.finish {s' : ChatPeer} {k : Nat} {r : Completion Bytes} {op : ChatOp}
    (hs : s.InBounds) (h : s.finish k r = some (op, s')) : s'.InBounds := by
  obtain ⟨socket, hfinish, -, rfl⟩ := finish_eq_some h
  exact Socket.forall_finish ChatOp.Within hfinish hs

end ChatPeer

/-! ### The client -/

namespace ChatClient

variable {s t : ChatClient}

theorem inBounds_onReadHeader (hs : s.InBounds) (r : Completion Bytes) :
    (s.onReadHeader r).InBounds := by
  cases r with
  | success bytes =>
      simp only [onReadHeader]
      split_ifs
      · exact (ChatPeer.readBodyOf_inBounds hs _).mpr (ChatMessage.bodyLength_le _)
      · exact hs
  | aborted => exact hs
  | failed => exact hs

theorem inBounds_onReadBody (hs : s.InBounds) (r : Completion Bytes) :
    (s.onReadBody r).InBounds := by
  cases r with
  | success bytes => exact ChatPeer.InBounds.doReadHeader hs
  | aborted => exact hs
  | failed => exact hs

theorem inBounds_onWrite (hs : s.InBounds) (request : WriteRequest) (r : Completion Bytes) :
    (s.onWrite request r).InBounds := by
  cases r with
  | success bytes =>
      simp only [onWrite]
      split_ifs
      · exact hs
      · exact ChatPeer.InBounds.doWrite hs
  | aborted => exact hs
  | failed => exact hs

theorem inBounds_step {e : ClientEvent} (hs : s.InBounds) (h : s.step e = some t) :
    t.InBounds := by
  cases e with
  | write msg =>
      cases h
      exact hs
  | close =>
      cases h
      exact hs
  | runPosted =>
      obtain ⟨p, rest, -, rfl⟩ := runPosted_eq_some h
      cases p with
      | write msg => exact ChatPeer.InBounds.enqueue hs msg
      | close => exact hs
  | establish =>
      simp only [step] at h
      split_ifs at h
      cases h
      exact hs
  | connect r =>
      simp only [step] at h
      split_ifs at h
      cases h
      cases r with
      | success u => exact ChatPeer.InBounds.doReadHeader hs
      | aborted => exact hs
      | failed => exact hs
  | complete k r =>
      obtain ⟨⟨op, p⟩, hfinish, rfl⟩ := Option.map_eq_some_iff.mp h
      have hp : p.InBounds := hs.finish hfinish
      cases op with
      | readHeader buffer => exact inBounds_onReadHeader (s := { s with toChatPeer := p }) hp r
      | readBody buffer => exact inBounds_onReadBody (s := { s with toChatPeer := p }) hp r
      | write msg buffer =>
          exact inBounds_onWrite (s := { s with toChatPeer := p }) hp (msg, buffer) r

theorem inBounds_reachable {readMsg_ : ChatMessage}
    (h : Reachable ChatClient.step (.fresh readMsg_) s) : s.InBounds :=
  h.invariant (I := fun s => s.InBounds) (fun _ _ _ hs ht => inBounds_step hs ht) nofun

end ChatClient

/-! ### The session -/

namespace ChatSession

/-- A header that has been read and is accepted announces at most 508 bytes. -/
def ShortBody (s : ChatSession) : SessionEvent → Prop
  | .complete k (.success bytes) =>
      match s.nextOp k with
      | some (.readHeader _) => (s.readMsg_.store 0 bytes).decodeHeader.2 = true →
          (s.readMsg_.store 0 bytes).headerValue ≤ maxBodyLength - headerLength
      | _ => True
  | _ => True

variable {s t : ChatSession}

theorem shortBody_readHeader {k : Nat} {bytes : Bytes} {buffer : Span}
    (hnext : s.nextOp k = some (.readHeader buffer)) :
    s.ShortBody (.complete k (.success bytes)) ↔
      ((s.readMsg_.store 0 bytes).decodeHeader.2 = true →
        (s.readMsg_.store 0 bytes).headerValue ≤ maxBodyLength - headerLength) := by
  simp only [ShortBody, hnext]

theorem shortBody_of_other {k : Nat} {op : ChatOp} (hnext : s.nextOp k = some op)
    (hop : ∀ buffer, op ≠ .readHeader buffer) (r : Completion Bytes) :
    s.ShortBody (.complete k r) := by
  cases r with
  | success bytes =>
      cases op with
      | readHeader buffer => exact absurd rfl (hop buffer)
      | readBody buffer => simp only [ShortBody, hnext]
      | write msg buffer => simp only [ShortBody, hnext]
  | aborted => exact trivial
  | failed => exact trivial

/-- After a header the session stays within the buffer exactly when the header announces no more
than 508 bytes or is rejected. -/
theorem onReadHeader_inBounds (hs : s.InBounds) (bytes : Bytes) :
    (s.onReadHeader (.success bytes)).InBounds ↔
      ((s.readMsg_.store 0 bytes).decodeHeader.2 = true →
        (s.readMsg_.store 0 bytes).headerValue ≤ maxBodyLength - headerLength) := by
  simp only [onReadHeader]
  split_ifs with haccepted
  · have hlength := ChatMessage.decodeHeader_accepted _ haccepted
    refine (ChatPeer.readBodyOf_inBounds hs _).trans ?_
    calc
      ChatMessage.length _ ≤ maxBodyLength ↔
          headerLength + (s.readMsg_.store 0 bytes).headerValue ≤ maxBodyLength := by
        rw [ChatMessage.length, hlength]
      _ ↔ (s.readMsg_.store 0 bytes).headerValue ≤ maxBodyLength - headerLength := by
        simp only [headerLength, maxBodyLength]
        omega
      _ ↔ _ := (imp_iff_right haccepted).symm
  · exact iff_of_true hs fun hnot => absurd hnot haccepted

theorem inBounds_onReadBody (hs : s.InBounds) (r : Completion Bytes) :
    (s.onReadBody r).InBounds := by
  cases r with
  | success bytes =>
      refine ChatPeer.InBounds.doReadHeader ?_
      unfold roomDeliver
      simp only
      split_ifs
      · exact ChatPeer.InBounds.enqueue (s := { s.toChatPeer with
          readMsg_ := s.readMsg_.store headerLength bytes }) hs _
      · exact hs
  | aborted => exact hs
  | failed => exact hs

theorem inBounds_onWrite (hs : s.InBounds) (request : WriteRequest) (r : Completion Bytes) :
    (s.onWrite request r).InBounds := by
  rcases onWrite_toChatPeer s request r with heq | heq
  · rw [heq]
    exact ChatPeer.InBounds.doWrite hs
  · rw [heq]
    exact hs

/-- A step keeps the session within the buffer if and only if no header is accepted in it that
announces more than 508 bytes. -/
theorem inBounds_step_iff {e : SessionEvent} (hs : s.InBounds) (h : s.step e = some t) :
    t.InBounds ↔ s.ShortBody e := by
  cases e with
  | deliver msg =>
      cases h
      exact iff_of_true (ChatPeer.InBounds.enqueue hs msg) trivial
  | complete k r =>
      obtain ⟨⟨op, p⟩, hfinish, rfl⟩ := Option.map_eq_some_iff.mp h
      have hp : p.InBounds := hs.finish hfinish
      have hnext := ChatPeer.finish_nextOp hfinish
      obtain ⟨hread, -, -, -⟩ := ChatPeer.finish_kept hfinish
      cases op with
      | readHeader buffer =>
          cases r with
          | success bytes =>
              rw [shortBody_readHeader hnext, ← hread]
              exact onReadHeader_inBounds (s := { s with toChatPeer := p }) hp bytes
          | aborted => exact iff_of_true hp trivial
          | failed => exact iff_of_true hp trivial
      | readBody buffer =>
          have ht := inBounds_onReadBody (s := { s with toChatPeer := p }) hp r
          exact iff_of_true ht (shortBody_of_other hnext nofun r)
      | write msg buffer =>
          have ht := inBounds_onWrite (s := { s with toChatPeer := p }) hp (msg, buffer) r
          exact iff_of_true ht (shortBody_of_other hnext nofun r)

theorem started_inBounds (readMsg_ : ChatMessage) (recentMsgs : List ChatMessage) :
    (started readMsg_ recentMsgs).InBounds := by
  have hfold : ∀ s : ChatSession, s.InBounds → (recentMsgs.foldl deliver s).InBounds := by
    induction recentMsgs with
    | nil => exact fun s hs => hs
    | cons msg msgs ih => exact fun s hs => ih _ (ChatPeer.InBounds.enqueue hs msg)
  exact ChatPeer.InBounds.doReadHeader (hfold _ nofun)

end ChatSession

/-- A client stays within its buffers in every state it can reach. A session does so in all the
states of a run if and only if every header it accepts on the way announces at most 508 bytes. -/
theorem buffers_inBounds_iff (readMsg_ : ChatMessage) :
    (∀ s, Reachable ChatClient.step (.fresh readMsg_) s → s.InBounds) ∧
    (∀ recentMsgs es t, run ChatSession.step (.started readMsg_ recentMsgs) es = some t →
      (Always ChatSession.step (fun s => s.InBounds) (.started readMsg_ recentMsgs) es ↔
        Throughout ChatSession.step ChatSession.ShortBody (.started readMsg_ recentMsgs) es)) := by
  refine ⟨fun s hs => ChatClient.inBounds_reachable hs, fun recentMsgs es t ht => ?_⟩
  exact always_iff_throughout (I := fun s : ChatSession => s.InBounds) (A := fun _ _ => True)
    (fun _ _ _ hs _ hshort hstep => (ChatSession.inBounds_step_iff hs hstep).mpr hshort)
    (fun _ hs => hs)
    (fun _ _ _ hs _ hshort hstep => mt (ChatSession.inBounds_step_iff hs hstep).mp hshort)
    (ChatSession.started_inBounds readMsg_ recentMsgs) ht fun _ _ _ _ _ => trivial

/-- A header that announces 508 bytes. -/
def shortHeader : Bytes := ascii " 508"

theorem buffers_inBounds_iff_shortHeader :
    Always ChatSession.step (fun s => s.InBounds) (.started .blank [])
      [.complete 0 (.success shortHeader)] := by
  have hrun : run ChatSession.step (.started .blank []) [.complete 0 (.success shortHeader)] =
    some _ := rfl
  refine ((buffers_inBounds_iff .blank).2 [] _ _ hrun).mpr (throughout_cons.mpr ⟨?_, ?_⟩)
  · rw [ChatSession.shortBody_readHeader rfl, ChatMessage.store_headerValue _ rfl]
    exact fun _ => show toSizeT (atoi (cString shortHeader)) ≤ 508 by decide
  · exact fun _ _ => throughout_nil

/-- A header that announces 512 bytes. -/
def longHeader : Bytes := ascii " 512"

theorem longHeader_not_inBounds :
    ∃ s, Reachable ChatSession.step (.started .blank []) s ∧ ¬ s.InBounds := by
  have hstep : (ChatSession.started .blank []).step (.complete 0 (.success longHeader)) =
    some _ := rfl
  refine ⟨_, ⟨_, run_singleton.mpr hstep⟩, fun hbounds => ?_⟩
  have hshort := (ChatSession.inBounds_step_iff (ChatSession.started_inBounds _ _) hstep).mp hbounds
  rw [ChatSession.shortBody_readHeader rfl, ChatMessage.decodeHeader_accepts,
    ChatMessage.store_headerValue _ rfl] at hshort
  revert hshort
  decide

end AsioTest.Chat
