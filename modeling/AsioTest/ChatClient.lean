import AsioTest.ChatPeer
import AsioTest.TransitionRuns

/-!
`chat_client`: the handlers that run on `io_service_`, and the calls of `write` and `close` from
another thread, which only post handlers. Posted handlers run in the order in which they were
posted. The socket counts as open from the moment the connection is established; `closed` says
that it has been closed since. `asked` records the calls of `write` and `printed` the bodies
written to the standard output.
-/

namespace AsioTest.Chat

open AsyncSocket ByteStrings TransitionRuns

inductive Posted where
  | write (msg : ChatMessage)
  | close
  deriving DecidableEq

structure ChatClient extends ChatPeer where
  connecting : Bool := true
  established : Bool := false
  closed : Bool := false
  socketClosed : Bool := false
  posted : List Posted := []
  asked : List ChatMessage := []
  printed : List Bytes := []

namespace ChatClient

/-- `write(msg)` -/
def write (s : ChatClient) (msg : ChatMessage) : ChatClient :=
  { s with posted := s.posted ++ [.write msg], asked := s.asked ++ [msg] }

/-- `close()` -/
def close (s : ChatClient) : ChatClient := { s with posted := s.posted ++ [.close] }

/-- `socket_.close()` -/
def closeSocket (s : ChatClient) : ChatClient :=
  { s with socket_ := s.socket_.close, closed := true }

/-- `socket_.close(); socket_closed = true;` -/
def shut (s : ChatClient) : ChatClient := { s.closeSocket with socketClosed := true }

def doWrite (s : ChatClient) : ChatClient := { s with toChatPeer := s.toChatPeer.doWrite }

def doReadHeader (s : ChatClient) : ChatClient :=
  { s with toChatPeer := s.toChatPeer.doReadHeader }

/-- The read of a body asks for `body_length()` bytes. -/
def doReadBody (s : ChatClient) : ChatClient :=
  { s with toChatPeer := s.toChatPeer.readBodyOf s.readMsg_.bodyLength_ }

def onPosted (s : ChatClient) : Posted → ChatClient
  | .write msg => { s with toChatPeer := s.toChatPeer.enqueue msg }
  | .close => s.closeSocket

def onConnect (s : ChatClient) : Completion Unit → ChatClient
  | .success _ => s.doReadHeader
  | _ => s

/-- The branch of an error decodes the header once more, to print whether it is accepted. -/
def onReadHeader (s : ChatClient) : Completion Bytes → ChatClient
  | .success bytes =>
      let (readMsg, accepted) := (s.readMsg_.store 0 bytes).decodeHeader
      if accepted then { s with readMsg_ := readMsg }.doReadBody
      else { s with readMsg_ := readMsg.decodeHeader.1 }.shut
  | _ => { s with readMsg_ := s.readMsg_.decodeHeader.1 }.shut

def onReadBody (s : ChatClient) : Completion Bytes → ChatClient
  | .success bytes =>
      let readMsg := s.readMsg_.store headerLength bytes
      { s with
        readMsg_ := readMsg
        printed := s.printed ++ [readMsg.wire.drop headerLength] }.doReadHeader
  | _ => s.shut

/-- When the queue has drained, the handler of a successful write closes the socket. -/
def onWrite (s : ChatClient) (request : WriteRequest) : Completion Bytes → ChatClient
  | .success _ =>
      let s := { s with toChatPeer := s.toChatPeer.popWritten request }
      if s.writeMsgs_.isEmpty then s.shut else s.doWrite
  | _ => { s with toChatPeer := s.toChatPeer.failWrite }

def handle (s : ChatClient) : ChatOp → Completion Bytes → ChatClient
  | .readHeader _, r => s.onReadHeader r
  | .readBody _, r => s.onReadBody r
  | .write msg buffer, r => s.onWrite (msg, buffer) r

/-- Whether `async_connect` can end this way now. -/
def canConnect (s : ChatClient) : Completion Unit → Bool
  | .success _ => s.connecting && s.established
  | .aborted => s.connecting && s.closed && !s.established
  | .failed => s.connecting && !s.established

end ChatClient

/-- A call from the other thread, the next posted handler, the connection being established, or the
handler of an operation that completes. -/
inductive ClientEvent where
  | write (msg : ChatMessage)
  | close
  | runPosted
  | establish
  | connect (r : Completion Unit)
  | complete (k : Nat) (r : Completion Bytes)

def ChatClient.step (s : ChatClient) : ClientEvent → Option ChatClient
  | .write msg => some (s.write msg)
  | .close => some s.close
  | .runPosted =>
      match s.posted with
      | [] => none
      | p :: rest => some ({ s with posted := rest }.onPosted p)
  | .establish =>
      if s.connecting && !s.established && !s.closed then
        some { s with socket_ := { s.socket_ with isOpen := true }, established := true }
      else none
  | .connect r => if s.canConnect r then some ({ s with connecting := false }.onConnect r) else none
  | .complete k r =>
      (s.toChatPeer.finish k r).map fun p => { s with toChatPeer := p.2 }.handle p.1 r

/-- The client after its constructor; `readMsg_` may hold anything. -/
def ChatClient.fresh (readMsg_ : ChatMessage) : ChatClient :=
  { readMsg_ := readMsg_, socket_ := ⟨false, []⟩ }

/-- The client after the handler of a successful `async_connect`. -/
def ChatClient.connected (readMsg_ : ChatMessage) : ChatClient :=
  ({ readMsg_ := readMsg_, connecting := false, established := true } : ChatClient).doReadHeader

/-- A connected client is what a fresh one becomes. -/
theorem connected_reachable (readMsg_ : ChatMessage) :
    Reachable ChatClient.step (.fresh readMsg_) (.connected readMsg_) :=
  ⟨[.establish, .connect (.success ())], rfl⟩

namespace ChatClient

variable (s : ChatClient)

theorem onReadHeader_of_accepted {bytes : Bytes}
    (h : (s.readMsg_.store 0 bytes).decodeHeader.2 = true) : s.onReadHeader (.success bytes) =
      { s with readMsg_ := (s.readMsg_.store 0 bytes).decodeHeader.1 }.doReadBody := by
  simp only [onReadHeader, h, if_true]

theorem onReadHeader_of_rejected {bytes : Bytes}
    (h : ¬ (s.readMsg_.store 0 bytes).decodeHeader.2 = true) : s.onReadHeader (.success bytes) =
      { s with readMsg_ := (s.readMsg_.store 0 bytes).decodeHeader.1.decodeHeader.1 }.shut := by
  simp only [onReadHeader, h]
  rfl

/-! ### The output queue of a client -/

theorem onReadHeader_outputQueue (r : Completion Bytes) :
    (s.onReadHeader r).outputQueue = s.outputQueue := by
  cases r with
  | success bytes =>
      simp only [onReadHeader]
      split_ifs
      · exact ChatPeer.readBodyOf_outputQueue _ _
      · rfl
  | aborted => rfl
  | failed => rfl

theorem onReadBody_outputQueue (r : Completion Bytes) :
    (s.onReadBody r).outputQueue = s.outputQueue := by
  cases r with
  | success bytes => exact ChatPeer.doReadHeader_outputQueue _
  | aborted => rfl
  | failed => rfl

/-- The write handler moves the queue on, or stops it. -/
theorem onWrite_outputQueue (request : WriteRequest) (r : Completion Bytes) :
    (s.onWrite request r).outputQueue =
        (s.toChatPeer.popWritten request).doWrite.outputQueue ∨
      (s.onWrite request r).outputQueue = s.toChatPeer.failWrite.outputQueue := by
  cases r with
  | success bytes =>
      left
      rw [← ChatPeer.doWrite_of_isEmpty]
      unfold onWrite
      simp only
      split_ifs
      · rfl
      · rfl
  | aborted => exact Or.inr rfl
  | failed => exact Or.inr rfl

theorem runPosted_eq_some {s t : ChatClient} (h : s.step .runPosted = some t) :
    ∃ p rest, s.posted = p :: rest ∧ t = { s with posted := rest }.onPosted p := by
  simp only [step] at h
  split at h
  next => cases h
  next p rest hposted =>
    cases h
    exact ⟨p, rest, hposted, rfl⟩

/-- Every step of a client leaves its output queue alone or is a step of it. -/
theorem step_outputQueue {s t : ChatClient} {e : ClientEvent} (h : s.step e = some t) :
    t.outputQueue = s.outputQueue ∨ s.outputQueue.Step t.outputQueue := by
  cases e with
  | write msg =>
      cases h
      exact Or.inl rfl
  | close =>
      cases h
      exact Or.inl rfl
  | runPosted =>
      obtain ⟨p, rest, -, rfl⟩ := runPosted_eq_some h
      cases p with
      | write msg =>
          right
          show s.outputQueue.Step (s.toChatPeer.enqueue msg).outputQueue
          rw [ChatPeer.enqueue_outputQueue]
          exact .push _ _
      | close => exact Or.inl rfl
  | establish =>
      simp only [step] at h
      split_ifs at h
      cases h
      exact Or.inl rfl
  | connect r =>
      simp only [step] at h
      split_ifs at h
      cases h
      cases r with
      | success u => exact Or.inl (ChatPeer.doReadHeader_outputQueue _)
      | aborted => exact Or.inl rfl
      | failed => exact Or.inl rfl
  | complete k r =>
      obtain ⟨⟨op, p⟩, hfinish, rfl⟩ := Option.map_eq_some_iff.mp h
      have hqueue := ChatPeer.finish_outputQueue hfinish
      cases op with
      | readHeader buffer =>
          exact Or.inl ((onReadHeader_outputQueue { s with toChatPeer := p } r).trans hqueue)
      | readBody buffer =>
          exact Or.inl ((onReadBody_outputQueue { s with toChatPeer := p } r).trans hqueue)
      | write msg buffer =>
          right
          show s.outputQueue.Step (onWrite { s with toChatPeer := p } (msg, buffer) r).outputQueue
          rcases onWrite_outputQueue { s with toChatPeer := p } (msg, buffer) r with heq | heq
          · rw [heq]
            exact hqueue.1
          · rw [heq]
            exact hqueue.2

/-! ### What a client has been asked to send -/

/-- The message of a call of `write`. -/
def asks : ClientEvent → List ChatMessage
  | .write msg => [msg]
  | _ => []

theorem handle_asked (op : ChatOp) (r : Completion Bytes) : (s.handle op r).asked = s.asked := by
  cases op with
  | readHeader buffer =>
      cases r with
      | success bytes =>
          simp only [handle, onReadHeader]
          split_ifs
          · rfl
          · rfl
      | aborted => rfl
      | failed => rfl
  | readBody buffer => cases r <;> rfl
  | write msg buffer =>
      cases r with
      | success bytes =>
          simp only [handle, onWrite]
          split_ifs
          · rfl
          · rfl
      | aborted => rfl
      | failed => rfl

theorem step_asked {s t : ChatClient} {e : ClientEvent} (h : s.step e = some t) :
    t.asked = s.asked ++ asks e := by
  cases e with
  | write msg =>
      cases h
      rfl
  | close =>
      cases h
      exact (List.append_nil _).symm
  | runPosted =>
      obtain ⟨p, rest, -, rfl⟩ := runPosted_eq_some h
      cases p with
      | write msg => exact (List.append_nil _).symm
      | close => exact (List.append_nil _).symm
  | establish =>
      simp only [step] at h
      split_ifs at h
      cases h
      exact (List.append_nil _).symm
  | connect r =>
      simp only [step] at h
      split_ifs at h
      cases h
      cases r with
      | success u => exact (List.append_nil _).symm
      | aborted => exact (List.append_nil _).symm
      | failed => exact (List.append_nil _).symm
  | complete k r =>
      obtain ⟨⟨op, p⟩, -, rfl⟩ := Option.map_eq_some_iff.mp h
      exact (handle_asked { s with toChatPeer := p } op r).trans (List.append_nil _).symm

/-- In every run `asked` is what the calls of `write` have brought, in this order. -/
theorem asked_run {s t : ChatClient} {es : List ClientEvent} (h : run step s es = some t) :
    t.asked = s.asked ++ es.flatMap asks := by
  have hinit : s.asked = s.asked ++ ([] : List ClientEvent).flatMap asks :=
    (List.append_nil _).symm
  refine run_history (I := fun es t => t.asked = s.asked ++ es.flatMap asks)
    (fun es t e u ht hu => ?_) hinit h
  rw [step_asked hu, ht, flatMap_concat, List.append_assoc]

/-! ### Runs of the output queue -/

theorem orderly_step {s t : ChatClient} {e : ClientEvent} (h : s.step e = some t)
    (hs : s.outputQueue.Orderly) : t.outputQueue.Orderly := by
  rcases step_outputQueue h with heq | hstep
  · rw [heq]
    exact hs
  · exact hstep.orderly hs

theorem orderly_reachable {readMsg_ : ChatMessage} {s : ChatClient}
    (h : Reachable step (fresh readMsg_) s) : s.outputQueue.Orderly :=
  h.invariant (I := fun s : ChatClient => s.outputQueue.Orderly)
    (fun _ _ _ hs ht => orderly_step ht hs)
    ⟨rfl, fun _ => rfl, fun hfailed => by cases hfailed⟩

end ChatClient

end AsioTest.Chat
