import AsioTest.ChatFraming
import AsioTest.ChatRoom

/-!
`chat_server`: one room and any number of sessions. A session is named by its position among those
started so far. What a handler of a session calls on `room_` the room passes on to the other
participants; the part of the session itself is in its handler. There is always one accept
outstanding, since its handler starts the next one whatever happened.
-/

namespace AsioTest.Chat

open AsyncSocket ByteStrings TransitionRuns

def RoomCall.op (i : Nat) : RoomCall → RoomOp Nat ChatMessage
  | .join => .join i
  | .leave => .leave i
  | .deliver msg => .deliver msg

structure ChatServer where
  room_ : ChatRoom Nat ChatMessage := {}
  sessions : List ChatSession := []

/-- A connection is accepted or the accept fails, or an operation of a session completes; the
`read_msg_` of a new session may hold anything. -/
inductive ChatServerEvent where
  | accept (r : Completion Unit) (readMsg_ : ChatMessage)
  | complete (i k : Nat) (r : Completion Bytes)

namespace ChatServer

/-- `std::make_shared<chat_session>(std::move(socket_),room_)->start()` -/
def startSession (s : ChatServer) (readMsg_ : ChatMessage) : ChatServer :=
  let joined := s.room_.join s.sessions.length
  { room_ := joined.1
    sessions := s.sessions ++ [.started readMsg_ (joined.2.map Prod.snd)] }

/-- The calls of `participant->deliver`, but for that of the session `i`. -/
def passOn (i : Nat) (sessions : List ChatSession) (calls : List (Nat × ChatMessage)) :
    List ChatSession :=
  calls.foldl (fun sessions call =>
    if call.1 = i then sessions else sessions.modify call.1 fun x => x.deliver call.2) sessions

/-- The session `i` makes a call on `room_`. -/
def call (i : Nat) (s : ChatServer) (c : RoomCall) : ChatServer :=
  let applied := s.room_.apply (c.op i)
  { room_ := applied.1, sessions := passOn i s.sessions applied.2 }

def step (s : ChatServer) : ChatServerEvent → Option ChatServer
  | .accept (.success _) readMsg_ => some (s.startSession readMsg_)
  | .accept _ _ => some s
  | .complete i k r =>
      match s.sessions[i]? with
      | none => none
      | some x => (x.step (.complete k r)).map fun y =>
          (y.calls.drop x.calls.length).foldl (call i) { s with sessions := s.sessions.set i y }

end ChatServer

/-! ### One session -/

/-- No message is delivered to the room behind a call of `leave`. -/
def Silent (calls : List RoomCall) : Prop :=
  ∀ before after, calls = before ++ .leave :: after → ∀ msg, .deliver msg ∉ after

theorem silent_of_notMem {calls : List RoomCall} (h : .leave ∉ calls) : Silent calls := by
  rintro before after rfl
  exact absurd (List.mem_append_right before List.mem_cons_self) h

theorem Silent.leave {calls : List RoomCall} (h : Silent calls) : Silent (calls ++ [.leave]) := by
  intro before after heq msg hmem
  rcases List.eq_nil_or_concat after with rfl | ⟨after, c, rfl⟩
  · cases hmem
  · rw [List.concat_eq_append, ← List.cons_append, ← List.append_assoc] at heq
    obtain ⟨hcalls, hlast⟩ := List.append_inj' heq rfl
    cases hlast
    rw [List.concat_eq_append, List.mem_append, List.mem_singleton] at hmem
    rcases hmem with hmem | hmem
    · exact h before after hcalls msg hmem
    · cases hmem

theorem not_silent {calls : List RoomCall} (h : .leave ∈ calls) (msg : ChatMessage) :
    ¬ Silent (calls ++ [.deliver msg]) := by
  obtain ⟨before, after, rfl⟩ := List.append_of_mem h
  intro hsilent
  refine hsilent before (after ++ [.deliver msg]) ?_ msg
    (List.mem_append_right after List.mem_cons_self)
  rw [List.append_assoc, List.cons_append]

namespace ChatSession

/-- A write fails only when no read is outstanding. -/
def WriteFailsLast (s : ChatSession) : SessionEvent → Prop
  | .complete k r => (∃ msg buffer, s.nextOp k = some (.write msg buffer)) →
      (∀ bytes, r ≠ .success bytes) → s.reads = []
  | .deliver _ => True

/-- A session reads only as long as it has not left, and it delivers nothing behind that. -/
structure Quiet (s : ChatSession) : Prop where
  left : .leave ∈ s.calls → s.reads = []
  silent : Silent s.calls

/-- The socket is open, and was so when the operations outstanding were started. -/
structure Open (s : ChatSession) : Prop where
  isOpen : s.socket_.isOpen = true
  onOpen : ∀ p ∈ s.socket_.pending, p.onOpen = true

/-- One read at most is outstanding. -/
def Reading (s : ChatSession) : Prop :=
  s.reads = [] ∨ s.reads = [.readHeader (ChatMessage.dataSpan headerLength)] ∨
    ∃ buffer, s.reads = [.readBody buffer]

/-- One read at most is outstanding, the socket is open, and the session is joined until it calls
`leave`. -/
structure Settled (s : ChatSession) : Prop where
  reading : s.Reading
  opened : s.Open
  joined_iff : s.joined = true ↔ .leave ∉ s.calls

/-- What the deliveries to a session leave as it was. -/
structure Undisturbed (x y : ChatSession) : Prop where
  calls : y.calls = x.calls
  reads : y.reads = x.reads
  joined : y.joined = x.joined
  opened : x.Open → y.Open

variable {s t : ChatSession}

theorem Reading.length_le (h : s.Reading) : s.reads.length ≤ 1 := by
  rcases h with h | h | ⟨buffer, h⟩ <;> simp [h]

theorem Open.issue (hs : s.Open) (op : ChatOp) :
    ∀ p ∈ (s.socket_.issue op).pending, p.onOpen = true := by
  intro p hp
  rw [Socket.issue_pending, List.mem_append, List.mem_singleton] at hp
  rcases hp with hp | rfl
  · exact hs.onOpen p hp
  · exact hs.isOpen

theorem Open.doWrite (hs : s.Open) : s.doWrite.Open := by
  unfold ChatSession.doWrite ChatPeer.doWrite
  split
  next => exact hs
  next m rest hqueue => exact ⟨hs.isOpen, hs.issue _⟩

theorem deliver_undisturbed (s : ChatSession) (msg : ChatMessage) :
    Undisturbed s (s.deliver msg) := by
  refine ⟨rfl, congrArg ReadSide.reads (s.toChatPeer.enqueue_readSide [] msg), rfl, fun hs => ?_⟩
  unfold deliver ChatPeer.enqueue
  split_ifs
  · exact Open.doWrite (s := { s with
      writeMsgs_ := s.writeMsgs_ ++ [msg]
      enqueued := s.enqueued ++ [msg] }) ⟨hs.isOpen, hs.onOpen⟩
  · exact ⟨hs.isOpen, hs.onOpen⟩

theorem Undisturbed.trans {x y z : ChatSession} (h : Undisturbed x y) (h' : Undisturbed y z) :
    Undisturbed x z :=
  ⟨h'.calls.trans h.calls, h'.reads.trans h.reads, h'.joined.trans h.joined, h'.opened ∘ h.opened⟩

theorem deliverAll_undisturbed (s : ChatSession) (msgs : List ChatMessage) :
    Undisturbed s (msgs.foldl deliver s) := by
  induction msgs generalizing s with
  | nil => exact ⟨rfl, rfl, rfl, id⟩
  | cons msg msgs ih => exact (s.deliver_undisturbed msg).trans (ih _)

theorem Undisturbed.quiet {x y : ChatSession} (h : Undisturbed x y) (hx : x.Quiet) : y.Quiet := by
  refine ⟨?_, ?_⟩
  · rw [h.calls, h.reads]
    exact hx.left
  · rw [h.calls]
    exact hx.silent

theorem Undisturbed.settled {x y : ChatSession} (h : Undisturbed x y) (hx : x.Settled) :
    y.Settled := by
  refine ⟨?_, h.opened hx.opened, ?_⟩
  · rw [Reading, h.reads]
    exact hx.reading
  · rw [h.calls, h.joined]
    exact hx.joined_iff

/-- What the handler of an operation calls on the room, and which reads it leaves. -/
inductive Effect (s : ChatSession) (k : Nat) (r : Completion Bytes) (t : ChatSession) : Prop where
  | written (hcalls : t.calls = s.calls) (hreads : t.reads = s.reads)
      (hjoined : t.joined = s.joined)
  | writeFailed (hwrite : ∃ msg buffer, s.nextOp k = some (.write msg buffer))
      (hr : ∀ bytes, r ≠ .success bytes) (hcalls : t.calls = s.calls ++ [.leave])
      (hreads : t.reads = s.reads) (hjoined : t.joined = false)
  | readEnded (hreading : s.reads.length = 1) (hcalls : t.calls = s.calls ++ [.leave])
      (hreads : t.reads = []) (hjoined : t.joined = false)
  | headerRead (hreading : s.reads.length = 1) (hcalls : t.calls = s.calls)
      (hreads : ∃ buffer, t.reads = [.readBody buffer]) (hjoined : t.joined = s.joined)
  | bodyRead (hreading : s.reads.length = 1) (msg : ChatMessage)
      (hcalls : t.calls = s.calls ++ [.deliver msg])
      (hreads : t.reads = [.readHeader (ChatMessage.dataSpan headerLength)])
      (hjoined : t.joined = s.joined)

theorem doReadBody_reads (hnone : s.reads = []) :
    ∃ buffer, s.doReadBody.reads = [.readBody buffer] := by
  refine ⟨ChatMessage.bodySpan s.readMsg_.length, (ChatPeer.readBodyOf_reads _ _).trans ?_⟩
  rw [hnone, List.nil_append]

theorem roomDeliver_reads (s : ChatSession) (msg : ChatMessage) :
    (s.roomDeliver msg).reads = s.reads ∧ (s.roomDeliver msg).joined = s.joined ∧
      (s.roomDeliver msg).calls = s.calls ++ [.deliver msg] := by
  unfold roomDeliver
  simp only
  split_ifs
  · have hdeliver := deliver_undisturbed { s with calls := s.calls ++ [.deliver msg] } msg
    exact ⟨hdeliver.reads, hdeliver.joined, hdeliver.calls⟩
  · exact ⟨rfl, rfl, rfl⟩

theorem onWrite_effect {p : ChatPeer} {k : Nat} {r : Completion Bytes} {msg : ChatMessage}
    {buffer : Span} (hnext : s.nextOp k = some (.write msg buffer)) (hreads : p.reads = s.reads) :
    Effect s k r (onWrite { s with toChatPeer := p } (msg, buffer) r) := by
  cases r with
  | success bytes =>
      unfold onWrite
      simp only
      split_ifs
      · exact .written rfl hreads rfl
      · exact .written rfl ((ChatPeer.doWrite_reads _).trans hreads) rfl
  | aborted => exact .writeFailed ⟨msg, buffer, hnext⟩ nofun rfl hreads rfl
  | failed => exact .writeFailed ⟨msg, buffer, hnext⟩ nofun rfl hreads rfl

theorem onRead_effect {p : ChatPeer} {k : Nat} {r : Completion Bytes} {op : ChatOp}
    (hop : op.read = some op) (hreading : s.reads.length = 1) (hnone : p.reads = []) :
    Effect s k r (handle { s with toChatPeer := p } op r) := by
  cases op with
  | write msg buffer => cases hop
  | readHeader buffer =>
      cases r with
      | success bytes =>
          simp only [handle, onReadHeader]
          split_ifs
          · exact .headerRead hreading rfl (doReadBody_reads hnone) rfl
          · exact .readEnded hreading rfl hnone rfl
      | aborted => exact .readEnded hreading rfl hnone rfl
      | failed => exact .readEnded hreading rfl hnone rfl
  | readBody buffer =>
      cases r with
      | success bytes =>
          have hdeliver := roomDeliver_reads { s with
            toChatPeer := { p with readMsg_ := p.readMsg_.store headerLength bytes } }
            (p.readMsg_.store headerLength bytes)
          obtain ⟨hreads, hjoined, hcalls⟩ := hdeliver
          refine .bodyRead hreading _ hcalls ?_ hjoined
          calc
            ChatPeer.reads _ = ChatPeer.reads _ ++ [_] := ChatPeer.doReadHeader_reads _
            _ = p.reads ++ [_] := congrArg (· ++ [_]) hreads
            _ = [.readHeader (ChatMessage.dataSpan headerLength)] := by
              rw [hnone, List.nil_append]
      | aborted => exact .readEnded hreading rfl hnone rfl
      | failed => exact .readEnded hreading rfl hnone rfl

theorem complete_effect {k : Nat} {r : Completion Bytes} (hle : s.reads.length ≤ 1)
    (h : s.step (.complete k r) = some t) : Effect s k r t := by
  obtain ⟨⟨op, p⟩, hfinish, rfl⟩ := Option.map_eq_some_iff.mp h
  have hside := (ChatPeer.finish_readSide [] hfinish hle).2
  cases op with
  | write msg buffer =>
      exact onWrite_effect (ChatPeer.finish_nextOp hfinish) (congrArg ReadSide.reads hside)
  | readHeader buffer =>
      have hreading : s.reads = [.readHeader buffer] := hside.1
      exact onRead_effect rfl (by rw [hreading, List.length_singleton])
        (congrArg ReadSide.reads hside.2)
  | readBody buffer =>
      have hreading : s.reads = [.readBody buffer] := hside.1
      exact onRead_effect rfl (by rw [hreading, List.length_singleton])
        (congrArg ReadSide.reads hside.2)

theorem Open.handle {op : ChatOp} {r : Completion Bytes} (hs : s.Open) :
    (s.handle op r).Open := by
  cases op with
  | readHeader buffer =>
      cases r with
      | success bytes =>
          simp only [ChatSession.handle, onReadHeader]
          split_ifs
          · exact ⟨hs.isOpen, hs.issue _⟩
          · exact ⟨hs.isOpen, hs.onOpen⟩
      | aborted => exact ⟨hs.isOpen, hs.onOpen⟩
      | failed => exact ⟨hs.isOpen, hs.onOpen⟩
  | readBody buffer =>
      cases r with
      | success bytes =>
          have hdeliver : (roomDeliver { s with readMsg_ := s.readMsg_.store headerLength bytes }
              (s.readMsg_.store headerLength bytes)).Open := by
            unfold roomDeliver
            simp only
            split_ifs
            · exact (deliver_undisturbed _ _).opened ⟨hs.isOpen, hs.onOpen⟩
            · exact ⟨hs.isOpen, hs.onOpen⟩
          exact ⟨hdeliver.isOpen, hdeliver.issue _⟩
      | aborted => exact ⟨hs.isOpen, hs.onOpen⟩
      | failed => exact ⟨hs.isOpen, hs.onOpen⟩
  | write msg buffer =>
      cases r with
      | success bytes =>
          simp only [ChatSession.handle, onWrite]
          split_ifs
          · exact ⟨hs.isOpen, hs.onOpen⟩
          · exact Open.doWrite (s := { s with
              toChatPeer := s.toChatPeer.popWritten (msg, buffer) }) ⟨hs.isOpen, hs.onOpen⟩
      | aborted => exact ⟨hs.isOpen, hs.onOpen⟩
      | failed => exact ⟨hs.isOpen, hs.onOpen⟩

theorem Open.complete {k : Nat} {r : Completion Bytes} (hs : s.Open)
    (h : s.step (.complete k r) = some t) : t.Open := by
  obtain ⟨⟨op, p⟩, hfinish, rfl⟩ := Option.map_eq_some_iff.mp h
  obtain ⟨socket, hsocket, -, rfl⟩ := ChatPeer.finish_eq_some hfinish
  obtain ⟨q, -, -, -, rfl⟩ := Socket.finish_eq_some.mp hsocket
  refine Open.handle ⟨hs.isOpen, fun q hq => ?_⟩
  exact hs.onOpen q (List.mem_of_mem_eraseIdx hq)

theorem Settled.complete {k : Nat} {r : Completion Bytes} (hs : s.Settled)
    (h : s.step (.complete k r) = some t) : t.Settled := by
  have hopened := hs.opened.complete h
  have hleft : ∀ calls : List RoomCall, false = true ↔ RoomCall.leave ∉ calls ++ [.leave] :=
    fun calls => iff_of_false nofun fun hnot =>
      hnot (List.mem_append_right calls List.mem_cons_self)
  cases complete_effect hs.reading.length_le h with
  | written hcalls hreads hjoined =>
      refine ⟨?_, hopened, by rw [hcalls, hjoined]; exact hs.joined_iff⟩
      rw [Reading, hreads]
      exact hs.reading
  | writeFailed hwrite hr hcalls hreads hjoined =>
      refine ⟨?_, hopened, by rw [hcalls, hjoined]; exact hleft _⟩
      rw [Reading, hreads]
      exact hs.reading
  | readEnded hreading hcalls hreads hjoined =>
      exact ⟨Or.inl hreads, hopened, by rw [hcalls, hjoined]; exact hleft _⟩
  | headerRead hreading hcalls hreads hjoined =>
      exact ⟨Or.inr (Or.inr hreads), hopened, by rw [hcalls, hjoined]; exact hs.joined_iff⟩
  | bodyRead hreading msg hcalls hreads hjoined =>
      refine ⟨Or.inr (Or.inl hreads), hopened, ?_⟩
      rw [hcalls, hjoined, hs.joined_iff]
      simp

/-- A handler keeps the session quiet, provided that no write fails while it still reads. -/
theorem Quiet.complete {k : Nat} {r : Completion Bytes} (hs : s.Quiet) (hle : s.reads.length ≤ 1)
    (hlast : s.WriteFailsLast (.complete k r)) (h : s.step (.complete k r) = some t) :
    t.Quiet := by
  have hnot : s.reads.length = 1 → .leave ∉ s.calls := by
    intro hreading hleave
    rw [hs.left hleave] at hreading
    cases hreading
  cases complete_effect hle h with
  | written hcalls hreads => exact ⟨by rw [hcalls, hreads]; exact hs.left, hcalls ▸ hs.silent⟩
  | writeFailed hwrite hr hcalls hreads =>
      exact ⟨fun _ => hreads.trans (hlast hwrite hr), hcalls ▸ hs.silent.leave⟩
  | readEnded hreading hcalls hreads => exact ⟨fun _ => hreads, hcalls ▸ hs.silent.leave⟩
  | headerRead hreading hcalls hreads =>
      exact ⟨fun hleave => absurd (hcalls ▸ hleave) (hnot hreading), hcalls ▸ hs.silent⟩
  | bodyRead hreading msg hcalls hreads =>
      have hleave : .leave ∉ t.calls := by
        rw [hcalls, List.mem_append, List.mem_singleton]
        rintro (hmem | hmem)
        · exact hnot hreading hmem
        · cases hmem
      exact ⟨fun hmem => absurd hmem hleave, silent_of_notMem hleave⟩

/-- A session in which a write fails too early has left and goes on reading. -/
theorem reads_on {k : Nat} {r : Completion Bytes} (hle : s.reads.length ≤ 1)
    (hnot : ¬ s.WriteFailsLast (.complete k r)) (h : s.step (.complete k r) = some t) :
    .leave ∈ t.calls ∧ t.reads ≠ [] := by
  rw [WriteFailsLast, Classical.not_imp, Classical.not_imp] at hnot
  obtain ⟨⟨msg, buffer, hnext⟩, hr, hreads⟩ := hnot
  obtain ⟨⟨op, p⟩, hfinish, rfl⟩ := Option.map_eq_some_iff.mp h
  obtain rfl : op = .write msg buffer :=
    Option.some.inj ((ChatPeer.finish_nextOp hfinish).symm.trans hnext)
  have hsame : p.reads = s.reads := congrArg ReadSide.reads (ChatPeer.finish_write hfinish hle)
  have hleave : RoomCall.leave ∈ s.calls ++ [.leave] :=
    List.mem_append_right s.calls List.mem_cons_self
  cases r with
  | success bytes => exact absurd rfl (hr bytes)
  | aborted => exact ⟨hleave, fun hnone => hreads (hsame ▸ hnone)⟩
  | failed => exact ⟨hleave, fun hnone => hreads (hsame ▸ hnone)⟩

theorem started_effect (readMsg_ : ChatMessage) (recentMsgs : List ChatMessage) :
    (started readMsg_ recentMsgs).calls = [.join] ∧
      (started readMsg_ recentMsgs).joined = true ∧ (started readMsg_ recentMsgs).Open ∧
      (started readMsg_ recentMsgs).reads =
        [.readHeader (ChatMessage.dataSpan headerLength)] := by
  have hfold := deliverAll_undisturbed { readMsg_ := readMsg_, joined := true, calls := [.join] }
    recentMsgs
  have hopened := hfold.opened ⟨rfl, nofun⟩
  refine ⟨hfold.calls, hfold.joined, ⟨hopened.isOpen, hopened.issue _⟩, ?_⟩
  calc
    ChatPeer.reads _ = ChatPeer.reads _ ++ [_] := ChatPeer.doReadHeader_reads _
    _ = [.readHeader (ChatMessage.dataSpan headerLength)] := congrArg (· ++ [_]) hfold.reads

theorem started_settled (readMsg_ : ChatMessage) (recentMsgs : List ChatMessage) :
    (started readMsg_ recentMsgs).Settled := by
  obtain ⟨hcalls, hjoined, hopened, hreads⟩ := started_effect readMsg_ recentMsgs
  refine ⟨Or.inr (Or.inl hreads), hopened, ?_⟩
  rw [hcalls, hjoined]
  exact iff_of_true rfl (by simp)

theorem started_quiet (readMsg_ : ChatMessage) (recentMsgs : List ChatMessage) :
    (started readMsg_ recentMsgs).Quiet := by
  have hleave : .leave ∉ (started readMsg_ recentMsgs).calls := by
    rw [(started_effect readMsg_ recentMsgs).1]
    simp
  exact ⟨fun hmem => absurd hmem hleave, silent_of_notMem hleave⟩

/-- A read that is outstanding on an open socket can succeed. -/
theorem Open.can_finish (hs : s.Open) {op : ChatOp} (hreads : s.reads = [op])
    (bytes : Bytes) (hfits : op.Fits (.success bytes) = true) :
    ∃ k p, s.finish k (.success bytes) = some (op, p) := by
  have hmem : op ∈ s.reads := hreads ▸ List.mem_singleton_self op
  obtain ⟨q, hq, hread⟩ := List.mem_filterMap.mp hmem
  obtain ⟨k, hk⟩ := List.mem_iff_getElem?.mp hq
  have hop : q.op = op := by
    cases hqop : q.op with
    | write msg buffer => cases (congrArg ChatOp.read hqop).symm.trans hread
    | readHeader buffer => exact Option.some.inj ((congrArg ChatOp.read hqop).symm.trans hread)
    | readBody buffer => exact Option.some.inj ((congrArg ChatOp.read hqop).symm.trans hread)
  have hsocket : s.socket_.finish k (.success bytes) =
      some (op, ⟨s.socket_.isOpen, s.socket_.pending.eraseIdx k⟩) :=
    Socket.finish_eq_some.mpr ⟨q, hk, hop, hs.onOpen q hq, rfl⟩
  refine ⟨k, { s.toChatPeer with
    socket_ := ⟨s.socket_.isOpen, s.socket_.pending.eraseIdx k⟩
    received := s.received ++ op.received (.success bytes) }, ?_⟩
  unfold ChatPeer.finish
  rw [hsocket]
  exact if_pos hfits

/-- Four bytes of zero are accepted as the header of an empty message. -/
theorem zeroHeader_accepted (m : ChatMessage) :
    (m.store 0 (List.replicate headerLength 0)).decodeHeader.2 = true := by
  rw [ChatMessage.decodeHeader_accepts, ChatMessage.store_headerValue _ List.length_replicate]
  decide

theorem Settled.can_readHeader (hs : s.Settled)
    (hreads : s.reads = [.readHeader (ChatMessage.dataSpan headerLength)]) :
    ∃ k r t, s.step (.complete k r) = some t ∧ t.calls = s.calls ∧
      ∃ buffer, t.reads = [.readBody buffer] := by
  obtain ⟨k, p, hfinish⟩ := hs.opened.can_finish hreads (List.replicate headerLength 0) rfl
  obtain ⟨-, hnone, -⟩ := ChatPeer.finish_read hfinish hs.reading.length_le rfl
  have hstep := congrArg (Option.map fun q => { s with toChatPeer := q.2 }.handle q.1
    (.success (List.replicate headerLength 0))) hfinish
  refine ⟨k, _, _, hstep, ?_⟩
  simp only [handle, onReadHeader, zeroHeader_accepted, if_true]
  exact ⟨rfl, doReadBody_reads hnone⟩

theorem Settled.can_readBody (hs : s.Settled) {buffer : Span}
    (hreads : s.reads = [.readBody buffer]) :
    ∃ k r t msg, s.step (.complete k r) = some t ∧ t.calls = s.calls ++ [.deliver msg] := by
  obtain ⟨k, p, hfinish⟩ := hs.opened.can_finish hreads (List.replicate buffer.size 0)
    (decide_eq_true List.length_replicate)
  have hstep := congrArg (Option.map fun q => { s with toChatPeer := q.2 }.handle q.1
    (.success (List.replicate buffer.size 0))) hfinish
  exact ⟨k, _, _, _, hstep, (roomDeliver_reads _ _).2.2⟩

end ChatSession

/-! ### The server -/

namespace ChatServer

variable {s t : ChatServer}

/-- The room's calls reach the other sessions, each in order. -/
theorem passOn_get (i : Nat) (sessions : List ChatSession) (calls : List (Nat × ChatMessage))
    (j : Nat) : (passOn i sessions calls)[j]? = sessions[j]?.map fun x =>
      if j = i then x else (callsTo j calls).foldl ChatSession.deliver x := by
  induction calls generalizing sessions with
  | nil => simp [passOn, callsTo]
  | cons call calls ih =>
      refine (ih (if call.1 = i then sessions else sessions.modify call.1 fun x =>
        x.deliver call.2)).trans ?_
      by_cases hcall : call.1 = i
      · rw [if_pos hcall]
        congr 1
        funext x
        by_cases hji : j = i
        · rw [if_pos hji, if_pos hji]
        · have hne : ¬ call.1 = j := fun h => hji (h.symm.trans hcall)
          rw [if_neg hji, if_neg hji, callsTo, callsTo,
            List.filter_cons_of_neg (by simpa using hne)]
      · rw [if_neg hcall, List.getElem?_modify, Option.map_eq_map, Option.map_map]
        congr 1
        funext x
        by_cases hne : call.1 = j
        · have hji : ¬ j = i := fun h => hcall (hne.trans h)
          simp [hne, hji, callsTo]
        · simp [hne, callsTo]

/-- A session is left alone by the calls of another, but for some deliveries, and by its own. -/
theorem foldl_call_get (i j : Nat) (calls : List RoomCall) (s : ChatServer) :
    ∃ msgs : List ChatMessage, (calls.foldl (call i) s).sessions[j]? =
      s.sessions[j]?.map fun x => if j = i then x else msgs.foldl ChatSession.deliver x := by
  induction calls generalizing s with
  | nil => exact ⟨[], by simp⟩
  | cons c calls ih =>
      obtain ⟨msgs, hmsgs⟩ := ih (call i s c)
      refine ⟨callsTo j (s.room_.apply (c.op i)).2 ++ msgs, ?_⟩
      rw [List.foldl_cons, hmsgs, call, passOn_get, Option.map_map]
      congr 1
      funext x
      by_cases hji : j = i
      · simp [hji]
      · simp [hji, List.foldl_append]

/-- The participants after some calls of one session: only its leaving makes a difference. -/
theorem foldl_call_participants (i j : Nat) (calls : List RoomCall) (s : ChatServer)
    (hcalls : .join ∉ calls) : j ∈ (calls.foldl (call i) s).room_.participants_ ↔
      j ∈ s.room_.participants_ ∧ ¬ (j = i ∧ .leave ∈ calls) := by
  induction calls generalizing s with
  | nil => simp
  | cons c calls ih =>
      rw [List.foldl_cons, ih _ fun h => hcalls (List.mem_cons_of_mem c h)]
      cases c with
      | join => exact absurd List.mem_cons_self hcalls
      | leave =>
          simp only [call, RoomCall.op, ChatRoom.apply, ChatRoom.leave, Finset.mem_erase,
            List.mem_cons, true_or, and_true]
          tauto
      | deliver msg => simp [call, RoomCall.op, ChatRoom.apply, ChatRoom.deliver]

theorem step_complete {i k : Nat} {r : Completion Bytes}
    (h : s.step (.complete i k r) = some t) : ∃ x y, s.sessions[i]? = some x ∧
      x.step (.complete k r) = some y ∧
      t = (y.calls.drop x.calls.length).foldl (call i)
        { s with sessions := s.sessions.set i y } := by
  rw [step] at h
  split at h
  next => cases h
  next x hx =>
    obtain ⟨y, hy, rfl⟩ := Option.map_eq_some_iff.mp h
    exact ⟨x, y, hx, hy, rfl⟩

/-- What a handler of the session `i` leaves at each position. -/
theorem complete_get {i : Nat} {x y : ChatSession} (hx : s.sessions[i]? = some x)
    (calls : List RoomCall) (j : Nat) : ∃ msgs : List ChatMessage,
      (calls.foldl (call i) { s with sessions := s.sessions.set i y }).sessions[j]? =
        if j = i then some y else s.sessions[j]?.map fun z => msgs.foldl ChatSession.deliver z := by
  obtain ⟨msgs, hmsgs⟩ := foldl_call_get i j calls { s with sessions := s.sessions.set i y }
  refine ⟨msgs, hmsgs.trans ?_⟩
  by_cases hji : j = i
  · subst hji
    have hset := List.getElem?_set_self (a := y) (List.getElem?_eq_some_iff.mp hx).1
    simp [hset]
  · have hij : ¬ i = j := fun h => hji h.symm
    simp [hji, hij]

/-- A session is new, or a handler of another one has at most delivered to it, or one of its own
handlers has run. -/
theorem step_session {e : ChatServerEvent} (h : s.step e = some t) {j : Nat} {z : ChatSession}
    (hz : t.sessions[j]? = some z) :
    (∃ readMsg_ recentMsgs, z = .started readMsg_ recentMsgs) ∨
    (∃ x, s.sessions[j]? = some x ∧ ChatSession.Undisturbed x z) ∨
    ∃ x k r, s.sessions[j]? = some x ∧ e = .complete j k r ∧ x.step (.complete k r) = some z := by
  cases e with
  | accept r readMsg_ =>
      cases r with
      | success u =>
          cases h
          rcases Nat.lt_or_ge j s.sessions.length with hlt | hge
          · refine Or.inr (Or.inl ⟨z, ?_, ChatSession.deliverAll_undisturbed z []⟩)
            rwa [startSession, List.getElem?_append_left hlt] at hz
          · rw [startSession, List.getElem?_append_right hge] at hz
            exact Or.inl ⟨readMsg_, _, (List.mem_singleton.mp (List.mem_of_getElem? hz))⟩
      | aborted =>
          cases h
          exact Or.inr (Or.inl ⟨z, hz, ChatSession.deliverAll_undisturbed z []⟩)
      | failed =>
          cases h
          exact Or.inr (Or.inl ⟨z, hz, ChatSession.deliverAll_undisturbed z []⟩)
  | complete i k r =>
      obtain ⟨x, y, hx, hy, rfl⟩ := step_complete h
      obtain ⟨msgs, hmsgs⟩ := complete_get hx (y := y) (y.calls.drop x.calls.length) j
      rw [hmsgs] at hz
      split_ifs at hz with hji
      · subst hji
        cases hz
        exact Or.inr (Or.inr ⟨x, k, r, hx, rfl, hy⟩)
      · obtain ⟨w, hw, rfl⟩ := Option.map_eq_some_iff.mp hz
        exact Or.inr (Or.inl ⟨w, hw, w.deliverAll_undisturbed msgs⟩)

/-- Every session is settled, and is among the participants as long as it is joined. -/
structure WellFormed (s : ChatServer) : Prop where
  settled : ∀ x ∈ s.sessions, x.Settled
  member : ∀ i x, s.sessions[i]? = some x → (i ∈ s.room_.participants_ ↔ x.joined = true)

theorem WellFormed.settled_step {e : ChatServerEvent} (hs : s.WellFormed)
    (h : s.step e = some t) : ∀ z ∈ t.sessions, z.Settled := by
  intro z hz
  obtain ⟨j, hj⟩ := List.mem_iff_getElem?.mp hz
  rcases step_session h hj with ⟨m, msgs, rfl⟩ | ⟨x, hx, hsame⟩ | ⟨x, k, r, hx, -, hstep⟩
  · exact ChatSession.started_settled m msgs
  · exact hsame.settled (hs.settled x (List.mem_of_getElem? hx))
  · exact (hs.settled x (List.mem_of_getElem? hx)).complete hstep

/-- The handler of a session calls `leave` exactly when it ends its part in the room. -/
theorem newCalls {x y : ChatSession} {k : Nat} {r : Completion Bytes} (hx : x.Settled)
    (h : x.step (.complete k r) = some y) : .join ∉ y.calls.drop x.calls.length ∧
      (y.joined = true ↔ x.joined = true ∧ .leave ∉ y.calls.drop x.calls.length) := by
  cases ChatSession.complete_effect hx.reading.length_le h with
  | written hcalls hreads hjoined => simp [hcalls, hjoined]
  | writeFailed hwrite hr hcalls hreads hjoined => simp [hcalls, hjoined]
  | readEnded hreading hcalls hreads hjoined => simp [hcalls, hjoined]
  | headerRead hreading hcalls hreads hjoined => simp [hcalls, hjoined]
  | bodyRead hreading msg hcalls hreads hjoined => simp [hcalls, hjoined]

theorem WellFormed.step {e : ChatServerEvent} (hs : s.WellFormed) (h : s.step e = some t) :
    t.WellFormed := by
  refine ⟨hs.settled_step h, fun j z hz => ?_⟩
  cases e with
  | accept r readMsg_ =>
      cases r with
      | success u =>
          cases h
          rcases Nat.lt_or_ge j s.sessions.length with hlt | hge
          · rw [startSession, List.getElem?_append_left hlt] at hz
            have hne : j ≠ s.sessions.length := Nat.ne_of_lt hlt
            rw [← hs.member j z hz]
            simp [startSession, ChatRoom.join, hne]
          · have hlen := (List.getElem?_eq_some_iff.mp hz).1
            rw [startSession, List.length_append, List.length_singleton] at hlen
            obtain rfl : j = s.sessions.length := by omega
            rw [startSession, List.getElem?_concat_length] at hz
            cases hz
            refine iff_of_true ?_ (ChatSession.started_effect _ _).2.1
            exact Finset.mem_insert_self _ _
      | aborted =>
          cases h
          exact hs.member j z hz
      | failed =>
          cases h
          exact hs.member j z hz
  | complete i k r =>
      obtain ⟨x, y, hx, hy, rfl⟩ := step_complete h
      obtain ⟨hjoin, hjoined⟩ := newCalls (hs.settled x (List.mem_of_getElem? hx)) hy
      obtain ⟨msgs, hmsgs⟩ := complete_get hx (y := y) (y.calls.drop x.calls.length) j
      rw [foldl_call_participants _ _ _ _ hjoin]
      rw [hmsgs] at hz
      split_ifs at hz with hji
      · subst hji
        cases hz
        rw [hjoined, ← hs.member j x hx]
        simp
      · obtain ⟨w, hw, rfl⟩ := Option.map_eq_some_iff.mp hz
        rw [(w.deliverAll_undisturbed msgs).joined, ← hs.member j w hw]
        simp [hji]

theorem wellFormed_reachable (h : Reachable step {} s) : s.WellFormed :=
  h.invariant (I := WellFormed) (fun _ _ _ hs ht => hs.step ht)
    ⟨fun x hx => absurd hx List.not_mem_nil, fun i x hx => by cases hx⟩

/-- A session is among the participants until it calls `leave`, and not any more after that. -/
theorem participant_iff (h : Reachable step {} s) {i : Nat} {x : ChatSession}
    (hx : s.sessions[i]? = some x) : i ∈ s.room_.participants_ ↔ .leave ∉ x.calls := by
  have hs := wellFormed_reachable h
  rw [hs.member i x hx]
  exact (hs.settled x (List.mem_of_getElem? hx)).joined_iff

/-! ### What a session does after it has left -/

/-- A session that has left delivers nothing to the room any more. -/
def LeftSilent (s : ChatServer) : Prop := ∀ x ∈ s.sessions, Silent x.calls

/-- A write of a session fails only when it has no read outstanding. -/
def WritesFailLast (s : ChatServer) : ChatServerEvent → Prop
  | .complete i k r => ∀ x, s.sessions[i]? = some x → x.WriteFailsLast (.complete k r)
  | .accept _ _ => True

theorem quiet_step {e : ChatServerEvent} (hs : s.WellFormed) (hquiet : ∀ x ∈ s.sessions, x.Quiet)
    (hlast : WritesFailLast s e) (h : s.step e = some t) : ∀ z ∈ t.sessions, z.Quiet := by
  intro z hz
  obtain ⟨j, hj⟩ := List.mem_iff_getElem?.mp hz
  rcases step_session h hj with ⟨m, msgs, rfl⟩ | ⟨x, hx, hsame⟩ | ⟨x, k, r, hx, rfl, hstep⟩
  · exact ChatSession.started_quiet m msgs
  · exact hsame.quiet (hquiet x (List.mem_of_getElem? hx))
  · have hmem := List.mem_of_getElem? hx
    exact (hquiet x hmem).complete (hs.settled x hmem).reading.length_le (hlast x hx) hstep

/-- What a handler of a session does is what it does in the server. -/
theorem step_of_session {i k : Nat} {r : Completion Bytes} {x y : ChatSession}
    (hx : s.sessions[i]? = some x) (hy : x.step (.complete k r) = some y) :
    ∃ t, s.step (.complete i k r) = some t ∧ t.sessions[i]? = some y := by
  refine ⟨(y.calls.drop x.calls.length).foldl (call i) { s with sessions := s.sessions.set i y },
    ?_, ?_⟩
  · rw [step, hx]
    exact congrArg (Option.map _) hy
  · obtain ⟨msgs, hmsgs⟩ := complete_get hx (y := y) (y.calls.drop x.calls.length) i
    rw [hmsgs, if_pos rfl]

/-- The events of one session. -/
def ofSession (i : Nat) (completions : List (Nat × Completion Bytes)) : List ChatServerEvent :=
  completions.map fun c => .complete i c.1 c.2

theorem run_of_session {i : Nat} {x y : ChatSession} {completions : List (Nat × Completion Bytes)}
    (hx : s.sessions[i]? = some x)
    (h : run ChatSession.step x (completions.map fun c => .complete c.1 c.2) = some y) :
    ∃ t, run step s (ofSession i completions) = some t ∧ t.sessions[i]? = some y := by
  induction completions generalizing s x with
  | nil =>
      cases h
      exact ⟨s, rfl, hx⟩
  | cons c completions ih =>
      obtain ⟨z, hz, h⟩ := run_cons.mp h
      obtain ⟨u, hu, hget⟩ := step_of_session hx hz
      obtain ⟨t, ht, hy⟩ := ih hget h
      exact ⟨t, run_cons.mpr ⟨u, hu, ht⟩, hy⟩

/-- Writes that fail late in a session fail late in the server. -/
theorem throughout_of_session {i : Nat} {x : ChatSession}
    {completions : List (Nat × Completion Bytes)} (hx : s.sessions[i]? = some x)
    (h : Throughout ChatSession.step ChatSession.WriteFailsLast x
      (completions.map fun c => .complete c.1 c.2)) :
    Throughout step WritesFailLast s (ofSession i completions) := by
  induction completions generalizing s x with
  | nil => exact throughout_nil
  | cons c completions ih =>
      obtain ⟨hlast, hrest⟩ := throughout_cons.mp h
      refine throughout_cons.mpr ⟨fun z hz => ?_, fun t ht => ?_⟩
      · obtain rfl := Option.some.inj (hx.symm.trans hz)
        exact hlast
      · obtain ⟨z, y, hz, hy, -⟩ := step_complete ht
        obtain rfl := Option.some.inj (hx.symm.trans hz)
        obtain ⟨u, hu, hget⟩ := step_of_session hx hy
        obtain rfl : u = t := Option.some.inj (hu.symm.trans ht)
        exact ih hget (hrest y hy)

/-- A session that has left with a read outstanding can still deliver a message. -/
theorem WellFormed.can_speak (hs : s.WellFormed) {i : Nat} {x : ChatSession}
    (hx : s.sessions[i]? = some x) (hleft : .leave ∈ x.calls) (hreads : x.reads ≠ []) :
    ∃ es t, run ChatServer.step s es = some t ∧ ¬ LeftSilent t := by
  have hspeak : ∀ {u : ChatServer} {y : ChatSession} {buffer : Span}, u.WellFormed →
      u.sessions[i]? = some y → .leave ∈ y.calls → y.reads = [.readBody buffer] →
      ∃ e t, u.step e = some t ∧ ¬ LeftSilent t := by
    intro u y buffer hu hy hleave hbody
    obtain ⟨k, r, z, msg, hz, hcalls⟩ :=
      (hu.settled y (List.mem_of_getElem? hy)).can_readBody hbody
    obtain ⟨t, ht, hget⟩ := step_of_session hy hz
    refine ⟨_, t, ht, fun hsilent => not_silent hleave msg ?_⟩
    exact hcalls ▸ hsilent z (List.mem_of_getElem? hget)
  rcases (hs.settled x (List.mem_of_getElem? hx)).reading with hnone | hheader | ⟨buffer, hbody⟩
  · exact absurd hnone hreads
  · obtain ⟨k, r, y, hy, hcalls, buffer, hbody⟩ :=
      (hs.settled x (List.mem_of_getElem? hx)).can_readHeader hheader
    obtain ⟨u, hu, hget⟩ := step_of_session hx hy
    obtain ⟨e, t, ht, hnot⟩ := hspeak (hs.step hu) hget (hcalls ▸ hleft) hbody
    exact ⟨_, t, run_cons.mpr ⟨u, hu, run_singleton.mpr ht⟩, hnot⟩
  · obtain ⟨e, t, ht, hnot⟩ := hspeak hs hx hleft hbody
    exact ⟨_, t, run_singleton.mpr ht, hnot⟩

/-- In a run in which no write of a session fails while it has a read outstanding, no session that
has left delivers anything in any state. And whenever one does so next, the run can be continued to
a state in which a session that has left has delivered a message. -/
theorem left_sessions_silent (es : List ChatServerEvent) :
    (Throughout step WritesFailLast {} es → Always step LeftSilent {} es) ∧
    (∀ s e t, run step {} es = some s → s.step e = some t → ¬ WritesFailLast s e →
      ∃ fs u, run step t fs = some u ∧ ¬ LeftSilent u) := by
  refine ⟨fun hlast => ?_, fun s e t hs ht hnot => ?_⟩
  · refine always_of_throughout (I := fun s => s.WellFormed ∧ ∀ x ∈ s.sessions, x.Quiet)
      (fun s e t hs hlast ht => ⟨hs.1.step ht, quiet_step hs.1 hs.2 hlast ht⟩)
      (fun s hs x hx => (hs.2 x hx).silent) ?_ hlast
    exact ⟨wellFormed_reachable ⟨[], rfl⟩, fun x hx => absurd hx List.not_mem_nil⟩
  · cases e with
    | accept r readMsg_ => exact absurd trivial hnot
    | complete i k r =>
        have hwell := wellFormed_reachable ⟨es, hs⟩
        obtain ⟨x, hx⟩ := not_forall.mp hnot
        obtain ⟨hx, hlast⟩ := Classical.not_imp.mp hx
        obtain ⟨x', y, hx', hy, htsame⟩ := step_complete ht
        obtain rfl : x = x' := Option.some.inj (hx.symm.trans hx')
        have hle := (hwell.settled x (List.mem_of_getElem? hx)).reading.length_le
        obtain ⟨hleave, hreads⟩ := ChatSession.reads_on hle hlast hy
        obtain ⟨u, hu, hget⟩ := step_of_session hx hy
        obtain rfl : u = t := Option.some.inj (hu.symm.trans ht)
        exact (hwell.step ht).can_speak hget hleave hreads

/-- A session gets its own first message back. -/
def firstEcho : List (Nat × Completion Bytes) :=
  [(0, .success [32, 32, 32, 49]), (0, .success [104, 0, 0, 0, 0])]

/-- Then its read ends, and after that the write of the message fails. -/
def lateFailure : List (Nat × Completion Bytes) := firstEcho ++ [(1, .failed), (0, .failed)]

set_option maxRecDepth 4000 in
theorem lateFailure_last : Throughout ChatSession.step ChatSession.WriteFailsLast
    (.started .blank []) (lateFailure.map fun c => .complete c.1 c.2) := by
  refine throughout_cons.mpr ⟨fun _ hr => absurd rfl (hr _), fun s₁ h₁ => ?_⟩
  refine throughout_cons.mpr ⟨fun _ hr => absurd rfl (hr _), fun s₂ h₂ => ?_⟩
  cases h₁
  cases h₂
  refine throughout_cons.mpr ⟨?_, fun s₃ h₃ => ?_⟩
  · -- the operation that fails is the read
    rintro ⟨msg, buffer, ⟨⟩⟩
  · cases h₃
    exact throughout_cons.mpr ⟨fun _ _ => rfl, fun _ _ => throughout_nil⟩

set_option maxRecDepth 4000 in
/-- When the write fails behind the end of the read the session keeps silent, and when it fails
before it may still speak. -/
theorem left_sessions_silent_echo :
    (∃ s, run step {} (.accept (.success ()) .blank :: ofSession 0 lateFailure) = some s ∧
      Always step LeftSilent {} (.accept (.success ()) .blank :: ofSession 0 lateFailure)) ∧
    ∃ s t fs u, run step {} (.accept (.success ()) .blank :: ofSession 0 firstEcho) = some s ∧
      s.step (.complete 0 0 .failed) = some t ∧ run step t fs = some u ∧ ¬ LeftSilent u := by
  have haccept : step {} (.accept (.success ()) .blank) = some (startSession {} .blank) := rfl
  have hget : (startSession {} .blank).sessions[0]? = some (.started .blank []) := rfl
  constructor
  · have hsession : run ChatSession.step (.started .blank [])
        (lateFailure.map fun c => .complete c.1 c.2) = some _ := rfl
    obtain ⟨s, hs, -⟩ := run_of_session hget hsession
    refine ⟨s, run_cons.mpr ⟨_, haccept, hs⟩, (left_sessions_silent _).1 ?_⟩
    refine throughout_cons.mpr ⟨trivial, fun t ht => ?_⟩
    cases haccept.symm.trans ht
    exact throughout_of_session hget lateFailure_last
  · have hsession : run ChatSession.step (.started .blank [])
        (firstEcho.map fun c => .complete c.1 c.2) = some _ := rfl
    obtain ⟨s, hs, hx⟩ := run_of_session hget hsession
    have hrun := run_cons.mpr ⟨_, haccept, hs⟩
    obtain ⟨t, ht, -⟩ := step_of_session hx (k := 0) (r := .failed) rfl
    have hnot : ¬ WritesFailLast s (.complete 0 0 .failed) := by
      intro hlast
      cases hlast _ hx ⟨_, _, rfl⟩ nofun
    obtain ⟨fs, u, hu, hspoken⟩ := (left_sessions_silent _).2 s _ t hrun ht hnot
    exact ⟨s, t, fs, u, hrun, ht, hu, hspoken⟩

/-- A session gets its own first message back, and the write of it fails. -/
def failedEcho : List (Nat × Completion Bytes) :=
  [(0, .success [0, 0, 0, 0]), (0, .success [0, 0, 0, 0]), (0, .failed)]

set_option maxRecDepth 4000 in
theorem failedEcho_not_silent : ∃ s, Reachable step {} s ∧ ¬ LeftSilent s := by
  have hsession : run ChatSession.step (.started .blank [])
      (failedEcho.map fun c => .complete c.1 c.2) = some _ := rfl
  have haccept : step {} (.accept (.success ()) .blank) = some (startSession {} .blank) := rfl
  obtain ⟨t, ht, hget⟩ := run_of_session (s := startSession {} .blank) (i := 0) rfl hsession
  have hreach : Reachable step {} t := ⟨_, run_cons.mpr ⟨_, haccept, ht⟩⟩
  obtain ⟨es, u, hu, hnot⟩ := (wellFormed_reachable hreach).can_speak hget
    (List.mem_append_right _ List.mem_cons_self) (List.cons_ne_nil _ _)
  obtain ⟨fs, hfs⟩ := hreach
  exact ⟨u, ⟨fs ++ es, run_append.mpr ⟨t, hfs, hu⟩⟩, hnot⟩

end ChatServer

end AsioTest.Chat
