import AsioTest.ChatMessage
import AsioTest.OutputQueue

/-!
What `chat_session` and `chat_client` have in common: a message being read, a queue of messages
being written, and the socket. `received`, `enqueued`, `completed`, `writesStarted` and
`writeFailed` record what happened; the handlers do not look at them.
-/

namespace AsioTest.Chat

open AsyncSocket ByteStrings

structure ChatPeer where
  socket_ : Socket ChatOp := {}
  readMsg_ : ChatMessage
  writeMsgs_ : List ChatMessage := []
  received : List Bytes := []
  enqueued : List ChatMessage := []
  completed : List WriteRequest := []
  writesStarted : Nat := 0
  writeFailed : Bool := false

namespace ChatPeer

/-- `do_write()` of the front message. -/
def doWrite (s : ChatPeer) : ChatPeer :=
  match s.writeMsgs_ with
  | [] => s
  | m :: _ =>
      { s with
        socket_ := s.socket_.issue (.write m (ChatMessage.dataSpan m.length))
        writesStarted := s.writesStarted + 1 }

/-- A message is put at the end of the queue, and written when the queue was empty. -/
def enqueue (s : ChatPeer) (msg : ChatMessage) : ChatPeer :=
  let queued := { s with
    writeMsgs_ := s.writeMsgs_ ++ [msg]
    enqueued := s.enqueued ++ [msg] }
  if s.writeMsgs_.isEmpty then queued.doWrite else queued

/-- `write_msgs_.pop_front()` after a write. -/
def popWritten (s : ChatPeer) (request : WriteRequest) : ChatPeer :=
  { s with writeMsgs_ := s.writeMsgs_.tail, completed := s.completed ++ [request] }

def failWrite (s : ChatPeer) : ChatPeer := { s with writeFailed := true }

/-- `do_read_header()` -/
def doReadHeader (s : ChatPeer) : ChatPeer :=
  { s with socket_ := s.socket_.issue (.readHeader (ChatMessage.dataSpan headerLength)) }

/-- A read of `size` bytes into the body. -/
def readBodyOf (s : ChatPeer) (size : Nat) : ChatPeer :=
  { s with socket_ := s.socket_.issue (.readBody (ChatMessage.bodySpan size)) }

/-- The `k`-th outstanding operation completes; its handler has not run yet. -/
def finish (s : ChatPeer) (k : Nat) (r : Completion Bytes) : Option (ChatOp × ChatPeer) :=
  match s.socket_.finish k r with
  | none => none
  | some (op, socket) =>
      if op.Fits r then
        some (op, { s with socket_ := socket, received := s.received ++ op.received r })
      else none

theorem finish_eq_some {s s' : ChatPeer} {k : Nat} {r : Completion Bytes} {op : ChatOp}
    (h : s.finish k r = some (op, s')) : ∃ socket, s.socket_.finish k r = some (op, socket) ∧
      op.Fits r = true ∧
      s' = { s with socket_ := socket, received := s.received ++ op.received r } := by
  unfold finish at h
  split at h
  next => cases h
  next op' socket hfinish =>
    split_ifs at h with hfits
    cases h
    exact ⟨socket, hfinish, hfits, rfl⟩

/-- Until the handler runs, a completion changes the socket and the record of what was received. -/
theorem finish_kept {s s' : ChatPeer} {k : Nat} {r : Completion Bytes} {op : ChatOp}
    (h : s.finish k r = some (op, s')) :
    s'.readMsg_ = s.readMsg_ ∧ s'.writeMsgs_ = s.writeMsgs_ ∧ s'.enqueued = s.enqueued ∧
      s'.writeFailed = s.writeFailed := by
  obtain ⟨socket, -, -, rfl⟩ := finish_eq_some h
  exact ⟨rfl, rfl, rfl, rfl⟩

/-- The operation at position `k` of those outstanding. -/
def nextOp (s : ChatPeer) (k : Nat) : Option ChatOp := s.socket_.pending[k]?.map Pending.op

theorem finish_nextOp {s s' : ChatPeer} {k : Nat} {r : Completion Bytes} {op : ChatOp}
    (h : s.finish k r = some (op, s')) : s.nextOp k = some op := by
  obtain ⟨socket, hfinish, -, -⟩ := finish_eq_some h
  obtain ⟨p, hp, rfl, -, -⟩ := Socket.finish_eq_some.mp hfinish
  rw [nextOp, hp]
  rfl

@[simp] theorem doWrite_enqueued (s : ChatPeer) : s.doWrite.enqueued = s.enqueued := by
  unfold doWrite
  split <;> rfl

@[simp] theorem doWrite_writeFailed (s : ChatPeer) : s.doWrite.writeFailed = s.writeFailed := by
  unfold doWrite
  split <;> rfl

@[simp] theorem enqueue_enqueued (s : ChatPeer) (msg : ChatMessage) :
    (s.enqueue msg).enqueued = s.enqueued ++ [msg] := by
  unfold enqueue
  split_ifs
  · rw [doWrite_enqueued]
  · rfl

@[simp] theorem enqueue_writeFailed (s : ChatPeer) (msg : ChatMessage) :
    (s.enqueue msg).writeFailed = s.writeFailed := by
  unfold enqueue
  split_ifs
  · rw [doWrite_writeFailed]
  · rfl

/-! ### The output queue -/

/-- The writes outstanding. -/
def writes (s : ChatPeer) : List WriteRequest := s.socket_.outstanding ChatOp.request

/-- The bytes of the writes that have completed. -/
def written (s : ChatPeer) : Bytes := s.completed.flatMap sentBytes

/-- The peer as an output queue of write requests. -/
def outputQueue (s : ChatPeer) : OutputQueue WriteRequest where
  queue := s.writeMsgs_.map ChatMessage.request
  outstanding := s.writes
  pushed := s.enqueued.map ChatMessage.request
  sent := s.completed
  started := s.writesStarted
  failed := s.writeFailed

variable (s : ChatPeer)

theorem doWrite_outputQueue : s.doWrite.outputQueue = s.outputQueue.startFront := by
  unfold doWrite
  split
  next hqueue => simp [OutputQueue.startFront, outputQueue, hqueue]
  next m rest hqueue =>
    simp [OutputQueue.startFront, outputQueue, hqueue, writes, ChatOp.request, ChatMessage.request]

theorem enqueue_outputQueue (msg : ChatMessage) :
    (s.enqueue msg).outputQueue = s.outputQueue.push msg.request := by
  unfold enqueue OutputQueue.push
  have hempty : s.outputQueue.queue.isEmpty = s.writeMsgs_.isEmpty := List.isEmpty_map
  rw [hempty]
  split_ifs
  · rw [doWrite_outputQueue]
    simp [outputQueue, writes]
  · simp [outputQueue, writes]

@[simp] theorem doReadHeader_outputQueue : s.doReadHeader.outputQueue = s.outputQueue := by
  simp [doReadHeader, outputQueue, writes, ChatOp.request]

@[simp] theorem readBodyOf_outputQueue (size : Nat) :
    (s.readBodyOf size).outputQueue = s.outputQueue := by
  simp [readBodyOf, outputQueue, writes, ChatOp.request]

/-- Writing on needs a message, so that testing for one first changes nothing. -/
theorem doWrite_of_isEmpty : (if s.writeMsgs_.isEmpty then s else s.doWrite) = s.doWrite := by
  unfold doWrite
  cases s.writeMsgs_ with
  | nil => rfl
  | cons m rest => rfl

theorem popWritten_outputQueue (request : WriteRequest) :
    (s.popWritten request).doWrite.outputQueue = s.outputQueue.succeed request s.writes := by
  rw [doWrite_outputQueue]
  simp [OutputQueue.succeed, popWritten, outputQueue, writes]

variable {s}

/-- A completed read leaves the output queue alone; a completed write lets it take a step, with its
success and with its failure. -/
theorem finish_outputQueue {s' : ChatPeer} {k : Nat} {r : Completion Bytes} {op : ChatOp}
    (h : s.finish k r = some (op, s')) :
    match op.request with
    | none => s'.outputQueue = s.outputQueue
    | some request => s.outputQueue.Step (s'.popWritten request).doWrite.outputQueue ∧
        s.outputQueue.Step s'.failWrite.outputQueue := by
  obtain ⟨socket, hfinish, -, rfl⟩ := finish_eq_some h
  obtain ⟨before, after, hwrites, hrest⟩ := Socket.finish_outstanding hfinish ChatOp.request
  cases hrequest : op.request with
  | none =>
      rw [hrequest] at hwrites
      unfold outputQueue writes
      rw [hrest, hwrites]
      rfl
  | some request =>
      rw [hrequest] at hwrites
      have hstep := OutputQueue.Step.succeed (q := s.outputQueue) hwrites
      have hfail := OutputQueue.Step.fail (q := s.outputQueue) hwrites
      refine ⟨?_, ?_⟩
      · rw [popWritten_outputQueue]
        unfold outputQueue writes at hstep ⊢
        rw [hrest]
        exact hstep
      · unfold failWrite outputQueue writes at hfail ⊢
        rw [hrest]
        exact hfail

/-- While no write has failed, the writes outstanding are that of the front message. -/
theorem writes_front (h : s.outputQueue.Orderly) (hok : s.writeFailed = false) :
    s.writes = (s.writeMsgs_.map ChatMessage.request).head?.toList :=
  h.writing hok

/-- What has been written is a prefix of what was enqueued, followed by what is queued. -/
theorem written_prefix (h : s.outputQueue.Orderly) :
    ∃ sent, s.enqueued = sent ++ s.writeMsgs_ ∧ s.written = sent.flatMap ChatMessage.wire := by
  obtain ⟨sent, queued, henqueued, hsent, hqueued⟩ := List.map_eq_append_iff.mp h.ordered
  have hqueue : queued = s.writeMsgs_ :=
    List.map_injective_iff.mpr (fun _ _ heq => congrArg Prod.fst heq) hqueued
  refine ⟨sent, by rw [henqueued, hqueue], ?_⟩
  calc
    s.written = (sent.map ChatMessage.request).flatMap sentBytes := by
      rw [hsent]
      rfl
    _ = sent.flatMap ChatMessage.wire := by
      rw [List.flatMap_map]
      rfl

/-- Without a failure, nothing is outstanding only when everything has been written. -/
theorem written_all (h : s.outputQueue.Orderly) (hok : s.writeFailed = false)
    (hnone : s.writes = []) : s.written = s.enqueued.flatMap ChatMessage.wire := by
  obtain ⟨sent, henqueued, hwritten⟩ := written_prefix h
  rw [writes_front h hok] at hnone
  have hempty : s.writeMsgs_ = [] := by
    cases hqueue : s.writeMsgs_ with
    | nil => rfl
    | cons m rest =>
        rw [hqueue] at hnone
        cases hnone
  rw [hwritten, henqueued, hempty, List.append_nil]

end ChatPeer

end AsioTest.Chat
