import AsioTest.ChatReadLoop
import AsioTest.ChatSession

/-!
How a session cuts the stream it reads into messages. Reading a body takes `length()` bytes, four
more than the body has, so that every message a session passes to the room has cost it four bytes
of whatever follows.
-/

namespace AsioTest.Chat

open AsyncSocket ByteStrings TransitionRuns

/-- The messages passed to `room_.deliver`. -/
def deliveredMessages (calls : List RoomCall) : List ChatMessage :=
  calls.filterMap fun
    | .deliver msg => some msg
    | _ => none

namespace ChatSession

/-! ### The read loop of a session -/

def loop (s : ChatSession) : ReadSide := s.toChatPeer.readSide (deliveredMessages s.calls)

variable (s : ChatSession)

theorem roomLeave_loop : s.roomLeave.loop = s.loop := by
  simp [roomLeave, loop, deliveredMessages]

theorem roomDeliver_loop (msg : ChatMessage) :
    (s.roomDeliver msg).loop = { s.loop with messages := s.loop.messages ++ [msg] } := by
  have hcalls : deliveredMessages (s.calls ++ [.deliver msg]) =
      deliveredMessages s.calls ++ [msg] := List.filterMap_append
  unfold roomDeliver loop
  split_ifs
  · simp only [deliver, hcalls]
    exact ChatPeer.enqueue_readSide _ _ msg
  · simp only [hcalls]
    rfl

theorem doReadHeader_loop : s.doReadHeader.loop = { s.loop with
    reads := s.loop.reads ++ [.readHeader (ChatMessage.dataSpan headerLength)] } :=
  ChatPeer.doReadHeader_readSide _ _

theorem onReadHeader_accepted {s : ChatSession} {bytes : Bytes} {m : ChatMessage}
    (h : (s.readMsg_.store 0 bytes).decodeHeader = (m, true)) :
    (s.onReadHeader (.success bytes)).loop = { s.loop with
      reads := s.loop.reads ++ [.readBody (ChatMessage.bodySpan m.length)]
      readMsg := m } := by
  simp only [onReadHeader, h]
  exact ChatPeer.readBodyOf_readSide _ _ _

theorem onReadHeader_rejected {s : ChatSession} {bytes : Bytes} {m : ChatMessage}
    (h : (s.readMsg_.store 0 bytes).decodeHeader = (m, false)) :
    (s.onReadHeader (.success bytes)).loop = { s.loop with readMsg := m } := by
  simp only [onReadHeader, h]
  exact roomLeave_loop { s with readMsg_ := m }

theorem onReadBody_loop (bytes : Bytes) : (s.onReadBody (.success bytes)).loop = { s.loop with
    reads := s.loop.reads ++ [.readHeader (ChatMessage.dataSpan headerLength)]
    readMsg := s.readMsg_.store headerLength bytes
    messages := s.loop.messages ++ [s.readMsg_.store headerLength bytes] } := by
  unfold onReadBody
  rw [doReadHeader_loop, roomDeliver_loop]
  rfl

theorem onWrite_loop (request : WriteRequest) (r : Completion Bytes) :
    (s.onWrite request r).loop = s.loop := by
  cases r with
  | success bytes =>
      unfold onWrite
      simp only
      split_ifs
      · rfl
      · exact ChatPeer.doWrite_readSide _ _
  | aborted => exact roomLeave_loop _
  | failed => exact roomLeave_loop _

section Completed

variable {s s' : ChatSession} {buffer : Span} {bytes : Bytes}

/-- A read that fails is the last one. -/
theorem roomLeave_step {op : ChatOp} (hreads : s.loop.reads = [op])
    (hloop : s'.loop = { s.loop with reads := [], received := s.received ++ [] }) :
    s.loop.Step ChatMessage.length s'.roomLeave.loop := by
  rw [roomLeave_loop, hloop, List.append_nil]
  exact .failed hreads

theorem headerRead_step (hreads : s.loop.reads = [.readHeader buffer])
    (hbytes : bytes.length = buffer.size)
    (hloop : s'.loop = { s.loop with reads := [], received := s.received ++ [bytes] }) :
    s.loop.Step ChatMessage.length (s'.onReadHeader (.success bytes)).loop := by
  have hmsg : s'.readMsg_ = s.readMsg_ := congrArg ReadSide.readMsg hloop
  rcases hm : (s.readMsg_.store 0 bytes).decodeHeader with ⟨m, accepted⟩
  cases accepted with
  | true =>
      rw [onReadHeader_accepted (hmsg ▸ hm), hloop]
      exact .accepted hreads hbytes hm
  | false =>
      rw [onReadHeader_rejected (hmsg ▸ hm), hloop]
      exact .rejected hreads hbytes hm

theorem bodyRead_step (hreads : s.loop.reads = [.readBody buffer])
    (hbytes : bytes.length = buffer.size)
    (hloop : s'.loop = { s.loop with reads := [], received := s.received ++ [bytes] }) :
    s.loop.Step ChatMessage.length (s'.onReadBody (.success bytes)).loop := by
  have hmsg : s'.readMsg_ = s.readMsg_ := congrArg ReadSide.readMsg hloop
  rw [onReadBody_loop, hloop, hmsg]
  exact .body hreads hbytes rfl

end Completed

/-- Every step of a session leaves its read loop alone or is a step of it. -/
theorem step_loop {s t : ChatSession} {e : SessionEvent} (h : s.step e = some t)
    (hle : s.loop.reads.length ≤ 1) : t.loop = s.loop ∨ s.loop.Step ChatMessage.length t.loop := by
  cases e with
  | deliver msg =>
      cases h
      exact Or.inl (ChatPeer.enqueue_readSide _ _ msg)
  | complete k r =>
      obtain ⟨⟨op, p⟩, hfinish, rfl⟩ := Option.map_eq_some_iff.mp h
      obtain ⟨hfits, hfinish⟩ := ChatPeer.finish_readSide _ hfinish hle
      cases op with
      | write msg buffer => exact Or.inl ((onWrite_loop _ (msg, buffer) r).trans hfinish)
      | readHeader buffer =>
          right
          cases r with
          | aborted => exact roomLeave_step hfinish.1 hfinish.2
          | failed => exact roomLeave_step hfinish.1 hfinish.2
          | success bytes =>
              exact headerRead_step hfinish.1 (of_decide_eq_true hfits) hfinish.2
      | readBody buffer =>
          right
          cases r with
          | aborted => exact roomLeave_step hfinish.1 hfinish.2
          | failed => exact roomLeave_step hfinish.1 hfinish.2
          | success bytes => exact bodyRead_step hfinish.1 (of_decide_eq_true hfits) hfinish.2

theorem started_loop (readMsg_ : ChatMessage) (recentMsgs : List ChatMessage) :
    (started readMsg_ recentMsgs).loop =
      ⟨[.readHeader (ChatMessage.dataSpan headerLength)], readMsg_, [], []⟩ := by
  have hfold : ∀ s : ChatSession, (recentMsgs.foldl deliver s).loop = s.loop := by
    induction recentMsgs with
    | nil => exact fun s => rfl
    | cons msg msgs ih =>
        intro s
        rw [List.foldl_cons, ih]
        exact ChatPeer.enqueue_readSide _ _ msg
  unfold started start
  rw [doReadHeader_loop, hfold]
  rfl

theorem inTurn_reachable {readMsg_ : ChatMessage} {recentMsgs : List ChatMessage}
    {s : ChatSession} (h : Reachable step (started readMsg_ recentMsgs) s) :
    s.loop.InTurn ChatMessage.length := by
  refine h.invariant (I := fun s => s.loop.InTurn ChatMessage.length) (fun s e t hs ht => ?_)
    (by rw [started_loop]; exact .atHeader (Or.inl rfl) rfl rfl)
  rcases step_loop ht hs.reads_le with heq | hstep
  · rw [heq]
    exact hs
  · exact hstep.inTurn hs fun m bytes => rfl

end ChatSession

/-! ### Undoing the framing -/

/-- The reads that cut the wire forms of some messages apart again. -/
def frames (msgs : List ChatMessage) : List Bytes :=
  msgs.flatMap fun m => [m.wire.take headerLength, m.wire.drop headerLength]

/-- A session that receives the wire forms of `msgs` can read them to the end, each header and each
body by itself, and passes on the same messages; and on no run over this stream does it read or
pass on anything else. -/
structure FramingUndone (readMsg_ : ChatMessage) (recentMsgs msgs : List ChatMessage) : Prop where
  reached : ∃ es t, run ChatSession.step (.started readMsg_ recentMsgs) es = some t ∧
    t.received = frames msgs ∧
    (deliveredMessages t.calls).map ChatMessage.wire = msgs.map ChatMessage.wire
  only : ∀ es t, run ChatSession.step (.started readMsg_ recentMsgs) es = some t →
    t.received.flatten <+: msgs.flatMap ChatMessage.wire →
    t.received <+: frames msgs ∧
      (deliveredMessages t.calls).map ChatMessage.wire <+: msgs.map ChatMessage.wire

theorem frames_flatten (msgs : List ChatMessage) :
    (frames msgs).flatten = msgs.flatMap ChatMessage.wire := by
  induction msgs with
  | nil => rfl
  | cons m msgs ih =>
      show (m.wire.take headerLength :: m.wire.drop headerLength :: frames msgs).flatten = _
      rw [List.flatten_cons, List.flatten_cons, ih, ← List.append_assoc, List.take_append_drop,
        List.flatMap_cons]

theorem sum_wire_length (msgs : List ChatMessage) :
    (msgs.flatMap ChatMessage.wire).length = (msgs.map ChatMessage.length).sum := by
  rw [List.length_flatMap]
  simp only [ChatMessage.wire_length]

theorem sum_frame_length (msgs : List ChatMessage) :
    (msgs.map fun m => headerLength + m.length).sum =
      4 * msgs.length + (msgs.map ChatMessage.length).sum := by
  induction msgs with
  | nil => rfl
  | cons m msgs ih =>
      simp only [List.map_cons, List.sum_cons, List.length_cons, ih, headerLength]
      omega

section Run

variable {readMsg_ : ChatMessage} {recentMsgs msgs : List ChatMessage} {t : ChatSession}

/-- Every message passed on has taken four bytes more than its wire form. -/
theorem delivered_length (h : Reachable ChatSession.step (.started readMsg_ recentMsgs) t) :
    4 * (deliveredMessages t.calls).length +
      ((deliveredMessages t.calls).map ChatMessage.length).sum ≤ t.received.flatten.length := by
  rw [← sum_frame_length]
  exact (ChatSession.inTurn_reachable h).frameLength_le

/-- A stream of wire forms is too short to pass on just the messages it was made from. -/
theorem framing_short (h : Reachable ChatSession.step (.started readMsg_ recentMsgs) t)
    (hstream : t.received.flatten <+: msgs.flatMap ChatMessage.wire)
    (hwires : (deliveredMessages t.calls).map ChatMessage.wire = msgs.map ChatMessage.wire) :
    msgs = [] := by
  have hlengths : (deliveredMessages t.calls).map ChatMessage.length =
      msgs.map ChatMessage.length := by
    have hmap := congrArg (List.map List.length) hwires
    simpa only [List.map_map, Function.comp_def, ChatMessage.wire_length] using hmap
  have hcount : (deliveredMessages t.calls).length = msgs.length := by
    simpa using congrArg List.length hlengths
  have hread := delivered_length h
  have hle := hstream.length_le
  rw [sum_wire_length] at hle
  rw [hlengths, hcount] at hread
  exact List.length_eq_zero_iff.mp (by omega)

/-- From an empty stream nothing is read. -/
theorem received_nil (h : Reachable ChatSession.step (.started readMsg_ recentMsgs) t)
    (hflat : t.received.flatten = []) : t.received = [] ∧ deliveredMessages t.calls = [] := by
  have hread := delivered_length h
  rw [hflat, List.length_nil] at hread
  have hmessages : deliveredMessages t.calls = [] := List.length_eq_zero_iff.mp (by omega)
  refine ⟨?_, hmessages⟩
  rcases ChatSession.inTurn_reachable h with ⟨-, hcount, -⟩ | ⟨-, -, htotal⟩
  · change t.received.length = 2 * (deliveredMessages t.calls).length at hcount
    rw [hmessages] at hcount
    exact List.length_eq_zero_iff.mp hcount
  · change t.received.flatten.length = _ + 4 at htotal
    rw [hflat] at htotal
    cases htotal

end Run

/-- The framing is undone on the empty stream, and only there. -/
theorem framingUndone_iff (readMsg_ : ChatMessage) (recentMsgs msgs : List ChatMessage) :
    FramingUndone readMsg_ recentMsgs (msgs.map ChatMessage.encodeHeader) ↔ msgs = [] := by
  constructor
  · rintro ⟨⟨es, t, hrun, hreceived, hwires⟩, -⟩
    refine List.map_eq_nil_iff.mp (framing_short ⟨es, hrun⟩ ?_ hwires)
    rw [hreceived, frames_flatten]
  · rintro rfl
    have hstarted := ChatSession.started_loop readMsg_ recentMsgs
    refine ⟨⟨[], _, rfl, congrArg ReadSide.received hstarted,
      congrArg (List.map ChatMessage.wire) (congrArg ReadSide.messages hstarted)⟩, ?_⟩
    intro es t hrun hstream
    obtain ⟨hreceived, hmessages⟩ := received_nil ⟨es, hrun⟩ (List.prefix_nil.mp hstream)
    rw [hreceived, hmessages]
    exact ⟨List.nil_prefix, List.nil_prefix⟩

/-- A message of two bytes. -/
def greeting : ChatMessage := (ChatMessage.blank.store headerLength (ascii "hi")).setBodyLength 2

theorem greeting_not_undone : ¬ FramingUndone .blank [] [greeting.encodeHeader] := by
  rintro ⟨⟨es, t, hrun, hreceived, hwires⟩, -⟩
  have hempty := framing_short ⟨es, hrun⟩ (by rw [hreceived, frames_flatten]) hwires
  cases hempty

end AsioTest.Chat
