import AsioTest.ChatPeer
import AsioTest.TransitionRuns

/-!
`chat_session`: its read and write handlers. `joined` says whether the session is among the
participants of the room, so that a message it reads comes back to it; `calls` records the calls it
makes on `room_`.
-/

namespace AsioTest.Chat

open AsyncSocket ByteStrings TransitionRuns

/-- The calls a session makes on `room_`. -/
inductive RoomCall where
  | join
  | leave
  | deliver (msg : ChatMessage)
  deriving DecidableEq

structure ChatSession extends ChatPeer where
  joined : Bool := false
  calls : List RoomCall := []

namespace ChatSession

def doWrite (s : ChatSession) : ChatSession := { s with toChatPeer := s.toChatPeer.doWrite }

def deliver (s : ChatSession) (msg : ChatMessage) : ChatSession :=
  { s with toChatPeer := s.toChatPeer.enqueue msg }

def doReadHeader (s : ChatSession) : ChatSession :=
  { s with toChatPeer := s.toChatPeer.doReadHeader }

/-- The read of a body asks for `length()` bytes. -/
def doReadBody (s : ChatSession) : ChatSession :=
  { s with toChatPeer := s.toChatPeer.readBodyOf s.readMsg_.length }

/-- `room_.leave(shared_from_this())` -/
def roomLeave (s : ChatSession) : ChatSession :=
  { s with joined := false, calls := s.calls ++ [.leave] }

/-- `room_.deliver(msg)`, as far as this session takes part in it. -/
def roomDeliver (s : ChatSession) (msg : ChatMessage) : ChatSession :=
  let called := { s with calls := s.calls ++ [.deliver msg] }
  if s.joined then called.deliver msg else called

def onReadHeader (s : ChatSession) : Completion Bytes → ChatSession
  | .success bytes =>
      let (readMsg, accepted) := (s.readMsg_.store 0 bytes).decodeHeader
      let s := { s with readMsg_ := readMsg }
      if accepted then s.doReadBody else s.roomLeave
  | _ => s.roomLeave

def onReadBody (s : ChatSession) : Completion Bytes → ChatSession
  | .success bytes =>
      let s := { s with readMsg_ := s.readMsg_.store headerLength bytes }
      (s.roomDeliver s.readMsg_).doReadHeader
  | _ => s.roomLeave

def onWrite (s : ChatSession) (request : WriteRequest) : Completion Bytes → ChatSession
  | .success _ =>
      let s := { s with toChatPeer := s.toChatPeer.popWritten request }
      if s.writeMsgs_.isEmpty then s else s.doWrite
  | _ => { s with toChatPeer := s.toChatPeer.failWrite }.roomLeave

def handle (s : ChatSession) : ChatOp → Completion Bytes → ChatSession
  | .readHeader _, r => s.onReadHeader r
  | .readBody _, r => s.onReadBody r
  | .write msg buffer, r => s.onWrite (msg, buffer) r

/-- `start()`: the room passes its recent messages on. -/
def start (s : ChatSession) (recentMsgs : List ChatMessage) : ChatSession :=
  (recentMsgs.foldl deliver { s with joined := true, calls := s.calls ++ [.join] }).doReadHeader

end ChatSession

/-- The room calls `deliver`, or an operation completes and its handler runs. -/
inductive SessionEvent where
  | deliver (msg : ChatMessage)
  | complete (k : Nat) (r : Completion Bytes)

def ChatSession.step (s : ChatSession) : SessionEvent → Option ChatSession
  | .deliver msg => some (s.deliver msg)
  | .complete k r =>
      (s.toChatPeer.finish k r).map fun p => { s with toChatPeer := p.2 }.handle p.1 r

/-- A session that has just been started; `readMsg_` may hold anything. -/
def ChatSession.started (readMsg_ : ChatMessage) (recentMsgs : List ChatMessage) : ChatSession :=
  ({ readMsg_ := readMsg_ } : ChatSession).start recentMsgs

/-! ### The output queue of a session -/

namespace ChatSession

variable (s : ChatSession)

theorem roomDeliver_outputQueue (msg : ChatMessage) :
    (s.roomDeliver msg).outputQueue = s.outputQueue ∨
      (s.roomDeliver msg).outputQueue = s.outputQueue.push msg.request := by
  unfold roomDeliver
  split_ifs
  · exact Or.inr (ChatPeer.enqueue_outputQueue _ msg)
  · exact Or.inl rfl

theorem onReadHeader_outputQueue (r : Completion Bytes) :
    (s.onReadHeader r).outputQueue = s.outputQueue := by
  cases r with
  | success bytes =>
      simp only [onReadHeader]
      split_ifs
      · exact ChatPeer.readBodyOf_outputQueue _ _
      · rfl
  | aborted => rfl
  | failed => rfl

theorem onReadBody_outputQueue (r : Completion Bytes) :
    (s.onReadBody r).outputQueue = s.outputQueue ∨
      ∃ msg, (s.onReadBody r).outputQueue = s.outputQueue.push (ChatMessage.request msg) := by
  cases r with
  | success bytes =>
      simp only [onReadBody, doReadHeader, ChatPeer.doReadHeader_outputQueue]
      rcases roomDeliver_outputQueue { s with readMsg_ := s.readMsg_.store headerLength bytes }
        (s.readMsg_.store headerLength bytes) with heq | heq
      · exact Or.inl heq
      · exact Or.inr ⟨_, heq⟩
  | aborted => exact Or.inl rfl
  | failed => exact Or.inl rfl

/-- The write handler moves the queue on, or stops it. -/
theorem onWrite_toChatPeer (request : WriteRequest) (r : Completion Bytes) :
    (s.onWrite request r).toChatPeer = (s.toChatPeer.popWritten request).doWrite ∨
      (s.onWrite request r).toChatPeer = s.toChatPeer.failWrite := by
  cases r with
  | success bytes =>
      left
      rw [← ChatPeer.doWrite_of_isEmpty]
      unfold onWrite
      simp only
      split_ifs
      · rfl
      · rfl
  | aborted => exact Or.inr rfl
  | failed => exact Or.inr rfl

/-- Every step of a session leaves its output queue alone or is a step of it. -/
theorem step_outputQueue {s t : ChatSession} {e : SessionEvent} (h : s.step e = some t) :
    t.outputQueue = s.outputQueue ∨ s.outputQueue.Step t.outputQueue := by
  cases e with
  | deliver msg =>
      cases h
      right
      show s.outputQueue.Step (s.toChatPeer.enqueue msg).outputQueue
      rw [ChatPeer.enqueue_outputQueue]
      exact .push _ _
  | complete k r =>
      obtain ⟨⟨op, p⟩, hfinish, rfl⟩ := Option.map_eq_some_iff.mp h
      have hqueue := ChatPeer.finish_outputQueue hfinish
      cases op with
      | readHeader buffer =>
          exact Or.inl ((onReadHeader_outputQueue { s with toChatPeer := p } r).trans hqueue)
      | readBody buffer =>
          rcases onReadBody_outputQueue { s with toChatPeer := p } r with heq | ⟨msg, heq⟩
          · exact Or.inl (heq.trans hqueue)
          · right
            show s.outputQueue.Step (onReadBody { s with toChatPeer := p } r).outputQueue
            rw [heq]
            show s.outputQueue.Step (p.outputQueue.push _)
            rw [hqueue]
            exact .push _ _
      | write msg buffer =>
          right
          show s.outputQueue.Step (onWrite { s with toChatPeer := p } (msg, buffer) r).outputQueue
          rcases onWrite_toChatPeer { s with toChatPeer := p } (msg, buffer) r with heq | heq
          · rw [heq]
            exact hqueue.1
          · rw [heq]
            exact hqueue.2

/-- The history is enqueued like any other messages. -/
theorem started_orderly (readMsg_ : ChatMessage) (recentMsgs : List ChatMessage) :
    (started readMsg_ recentMsgs).outputQueue.Orderly := by
  have hfold : ∀ s : ChatSession, s.outputQueue.Orderly →
      (recentMsgs.foldl deliver s).outputQueue.Orderly := by
    induction recentMsgs with
    | nil => exact fun s hs => hs
    | cons msg msgs ih =>
        intro s hs
        refine ih _ ?_
        show (s.toChatPeer.enqueue msg).outputQueue.Orderly
        rw [ChatPeer.enqueue_outputQueue]
        exact OutputQueue.orderly_push hs _
  unfold started start doReadHeader
  rw [ChatPeer.doReadHeader_outputQueue]
  exact hfold _ ⟨rfl, fun _ => rfl, nofun⟩

/-! ### What has been enqueued -/

theorem deliverAll_enqueued (msgs : List ChatMessage) :
    (msgs.foldl deliver s).enqueued = s.enqueued ++ msgs := by
  induction msgs generalizing s with
  | nil => exact (List.append_nil _).symm
  | cons msg msgs ih =>
      calc
        (msgs.foldl deliver (s.deliver msg)).enqueued = (s.deliver msg).enqueued ++ msgs := ih _
        _ = s.enqueued ++ [msg] ++ msgs := by rw [deliver, ChatPeer.enqueue_enqueued]
        _ = s.enqueued ++ msg :: msgs := by rw [List.append_assoc, List.singleton_append]

theorem roomDeliver_enqueued (msg : ChatMessage) :
    (s.roomDeliver msg).enqueued = s.enqueued ++ if s.joined then [msg] else [] := by
  unfold roomDeliver
  simp only
  split_ifs
  · exact ChatPeer.enqueue_enqueued _ msg
  · exact (List.append_nil _).symm

/-- The message that a handler puts into the queue, when it has read one and the session is
joined. -/
def echoes : ChatOp → Completion Bytes → List ChatMessage
  | .readBody _, .success bytes =>
      if s.joined then [s.readMsg_.store headerLength bytes] else []
  | _, _ => []

/-- The messages that an event puts into the queue. -/
def given : SessionEvent → List ChatMessage
  | .deliver msg => [msg]
  | .complete k r =>
      match s.nextOp k with
      | none => []
      | some op => s.echoes op r

theorem handle_enqueued (op : ChatOp) (r : Completion Bytes) :
    (s.handle op r).enqueued = s.enqueued ++ s.echoes op r := by
  cases op with
  | readHeader buffer =>
      cases r with
      | success bytes =>
          simp only [handle, onReadHeader]
          split_ifs
          · exact (List.append_nil _).symm
          · exact (List.append_nil _).symm
      | aborted => exact (List.append_nil _).symm
      | failed => exact (List.append_nil _).symm
  | readBody buffer =>
      cases r with
      | success bytes =>
          exact roomDeliver_enqueued { s with readMsg_ := s.readMsg_.store headerLength bytes } _
      | aborted => exact (List.append_nil _).symm
      | failed => exact (List.append_nil _).symm
  | write msg buffer =>
      have hsame : (s.onWrite (msg, buffer) r).enqueued = s.enqueued := by
        rcases onWrite_toChatPeer s (msg, buffer) r with heq | heq
        · rw [heq, ChatPeer.doWrite_enqueued]
          rfl
        · rw [heq]
          rfl
      exact hsame.trans (List.append_nil _).symm

theorem step_enqueued {s t : ChatSession} {e : SessionEvent} (h : s.step e = some t) :
    t.enqueued = s.enqueued ++ s.given e := by
  cases e with
  | deliver msg =>
      cases h
      exact ChatPeer.enqueue_enqueued _ msg
  | complete k r =>
      obtain ⟨⟨op, p⟩, hfinish, rfl⟩ := Option.map_eq_some_iff.mp h
      obtain ⟨socket, -, -, rfl⟩ := ChatPeer.finish_eq_some hfinish
      rw [handle_enqueued, given, ChatPeer.finish_nextOp hfinish]
      rfl

/-- In every run of a session the queue has been given the messages that its start and the events
have put there, in this order. -/
theorem enqueued_run {readMsg_ : ChatMessage} {recentMsgs : List ChatMessage} {s : ChatSession}
    {es : List SessionEvent} (h : run step (started readMsg_ recentMsgs) es = some s) :
    s.enqueued = recentMsgs ++ outputs step given (started readMsg_ recentMsgs) es := by
  have hstart : (started readMsg_ recentMsgs).enqueued = recentMsgs ++ [] := by
    rw [List.append_nil]
    exact deliverAll_enqueued _ recentMsgs
  refine run_outputs (I := fun past s => s.enqueued = recentMsgs ++ past)
    (fun past s e t hs ht => ?_) hstart h
  rw [step_enqueued ht, hs, List.append_assoc]

/-! ### What has been written -/

theorem orderly_reachable {readMsg_ : ChatMessage} {recentMsgs : List ChatMessage}
    {s : ChatSession} (h : Reachable step (started readMsg_ recentMsgs) s) :
    s.outputQueue.Orderly := by
  refine h.invariant (I := fun s => s.outputQueue.Orderly) (fun s e t hs ht => ?_)
    (started_orderly readMsg_ recentMsgs)
  rcases step_outputQueue ht with heq | hstep
  · rw [heq]
    exact hs
  · exact hstep.orderly hs

/-- After a failed write no run starts another. -/
theorem run_writesStarted {s t : ChatSession} (hs : s.outputQueue.Orderly)
    (hfailed : s.writeFailed = true) {es : List SessionEvent} (h : run step s es = some t) :
    t.writesStarted = s.writesStarted := by
  have hinv := run_invariant (I := fun t : ChatSession => t.outputQueue.Orderly ∧
    t.writeFailed = true ∧ t.writesStarted = s.writesStarted) (fun t e u ht hu => ?_)
    ⟨hs, hfailed, rfl⟩ h
  · exact hinv.2.2
  · obtain ⟨horderly, hfailed, hstarted⟩ := ht
    rcases step_outputQueue hu with heq | hstep
    · exact ⟨heq ▸ horderly, (congrArg OutputQueue.failed heq).trans hfailed,
        (congrArg OutputQueue.started heq).trans hstarted⟩
    · obtain ⟨hfailed', hstarted'⟩ := hstep.started_of_failed horderly hfailed
      exact ⟨hstep.orderly horderly, hfailed', hstarted'.trans hstarted⟩

/-- In every run of a session: at most one write is outstanding; until one fails, one is exactly
while the queue is not empty, and it is handed the front message; what has been written is the
wire forms of the first messages delivered, which `enqueued` are (`enqueued_run`); without a
failure and a write outstanding it is those of all; and after a failure no write is started any
more. -/
theorem session_writes_in_order {readMsg_ : ChatMessage} {recentMsgs : List ChatMessage}
    {s : ChatSession} (h : Reachable step (started readMsg_ recentMsgs) s) :
    s.writes.length ≤ 1 ∧
    (s.writeFailed = false → (s.writes ≠ [] ↔ s.writeMsgs_ ≠ []) ∧
      ∀ request ∈ s.writes, ∃ m rest, s.writeMsgs_ = m :: rest ∧ request = m.request) ∧
    (∃ sent, sent <+: s.enqueued ∧ s.written = sent.flatMap ChatMessage.wire) ∧
    (s.writeFailed = false → s.writes = [] → s.written = s.enqueued.flatMap ChatMessage.wire) ∧
    (s.writeFailed = true → ∀ es t, run step s es = some t →
      t.writesStarted = s.writesStarted) := by
  have horderly := orderly_reachable h
  obtain ⟨sent, henqueued, hwritten⟩ := ChatPeer.written_prefix horderly
  refine ⟨horderly.length_le, fun hok => ?_, ⟨sent, ⟨_, henqueued.symm⟩, hwritten⟩,
    ChatPeer.written_all horderly, fun hfailed es t ht => run_writesStarted horderly hfailed ht⟩
  rw [ChatPeer.writes_front horderly hok]
  cases s.writeMsgs_ with
  | nil => simp
  | cons m rest => simp

/-- A message of one letter. -/
def letter (b : Byte) : ChatMessage :=
  ((ChatMessage.blank.setBodyLength 1).store headerLength [b]).encodeHeader

/-- Two messages are delivered, and both are written. -/
def twoLetters : List SessionEvent :=
  [.deliver (letter 104), .deliver (letter 105), .complete 1 (.success []),
    .complete 1 (.success [])]

theorem session_writes_in_order_twoLetters :
    ∃ s, run step (started .blank []) twoLetters = some s ∧
      s.written = [32, 32, 32, 49, 104, 32, 32, 32, 49, 105] ∧
      s.written = s.enqueued.flatMap ChatMessage.wire := by
  have hrun : run step (started .blank []) twoLetters = some _ := rfl
  exact ⟨_, hrun, by decide +kernel,
    (session_writes_in_order ⟨twoLetters, hrun⟩).2.2.2.1 rfl rfl⟩

end ChatSession

end AsioTest.Chat
