import AsioTest.ChatServer
import AsioTest.ComponentRuns

/-!
What the sessions of a `chat_server` are given, against the room alone. The handlers of a run call
`join`, `leave` and `deliver` on `room_` in one order; what each session has been given, and so what
it writes to its socket, is fixed by that order.
-/

namespace AsioTest.Chat

open AsyncSocket ByteStrings TransitionRuns

variable {P M : Type*} [LinearOrder P]

/-! ### A room that goes on -/

theorem run_append (room : ChatRoom P M) (ops ops' : List (RoomOp P M)) :
    room.run (ops ++ ops') = (((room.run ops).1.run ops').1,
      (room.run ops).2 ++ ((room.run ops).1.run ops').2) := by
  induction ops generalizing room with
  | nil => rfl
  | cons op ops ih => rw [List.cons_append, ChatRoom.run, ih, ChatRoom.run, List.append_assoc]

theorem received_append (room : ChatRoom P M) (p : P) (ops ops' : List (RoomOp P M)) :
    room.received p (ops ++ ops') =
      room.received p ops ++ (room.run ops).1.received p ops' := by
  rw [ChatRoom.received, run_append, callsTo_append]
  rfl

theorem received_singleton (room : ChatRoom P M) (p : P) (op : RoomOp P M) :
    room.received p [op] = callsTo p (room.apply op).2 := by
  rw [ChatRoom.received, ChatRoom.run, ChatRoom.run, List.append_nil]

/-! ### The calls of one session among all -/

/-- The calls on the room, each made by the session at a position. -/
def roomOps (calls : List (Nat × RoomCall)) : List (RoomOp Nat ChatMessage) :=
  calls.map fun call => call.2.op call.1

def callsBy (i : Nat) (calls : List (Nat × RoomCall)) : List RoomCall :=
  (calls.filter fun call => call.1 = i).map Prod.snd

theorem roomOps_append (calls calls' : List (Nat × RoomCall)) :
    roomOps (calls ++ calls') = roomOps calls ++ roomOps calls' := List.map_append

theorem callsBy_append (i : Nat) (calls calls' : List (Nat × RoomCall)) :
    callsBy i (calls ++ calls') = callsBy i calls ++ callsBy i calls' := by
  rw [callsBy, List.filter_append, List.map_append]
  rfl

/-- The calls made by one session are all its own. -/
theorem callsBy_map (i j : Nat) (calls : List RoomCall) :
    callsBy j (calls.map (Prod.mk i)) = if j = i then calls else [] := by
  have hfilter : (calls.map (Prod.mk i)).filter (fun call => call.1 = j) =
      (calls.filter fun _ => i = j).map (Prod.mk i) := List.filter_map
  rw [callsBy, hfilter]
  split_ifs with h
  · simp [h, Function.comp_def]
  · have hne : ¬ i = j := fun heq => h heq.symm
    simp [hne]

theorem callsBy_cons (i : Nat) (call : Nat × RoomCall) (calls : List (Nat × RoomCall)) :
    callsBy i (call :: calls) = (if i = call.1 then [call.2] else []) ++ callsBy i calls :=
  (callsBy_append i [call] calls).trans (congrArg (· ++ _) (callsBy_map call.1 i [call.2]))

theorem op_isJoin (i j : Nat) (c : RoomCall) :
    RoomOp.isJoin i (c.op j) = true ↔ i = j ∧ c = .join := by
  cases c with
  | join => simp [RoomCall.op, RoomOp.isJoin, eq_comm]
  | leave => simp [RoomCall.op, RoomOp.isJoin]
  | deliver msg => simp [RoomCall.op, RoomOp.isJoin]

/-- A session joins the room as often as it calls `join`. -/
theorem countP_roomOps (i : Nat) (calls : List (Nat × RoomCall)) :
    (roomOps calls).countP (RoomOp.isJoin i) = (callsBy i calls).count .join := by
  induction calls with
  | nil => rfl
  | cons call calls ih =>
      rw [roomOps, List.map_cons, List.countP_cons, ← roomOps, ih, callsBy_cons, List.count_append,
        Nat.add_comm]
      congr 1
      simp only [op_isJoin]
      by_cases hij : i = call.1
      · rw [if_pos hij, List.count_singleton]
        simp only [hij, true_and, beq_iff_eq]
      · rw [if_neg hij, if_neg fun h => hij h.1, List.count_nil]

/-! ### One handler of a session -/

namespace ChatSession

/-- What a handler calls on the room, and what the session is given by that. -/
inductive Relays (s t : ChatSession) : List RoomCall → Prop where
  | nothing (hcalls : t.calls = s.calls) (henqueued : t.enqueued = s.enqueued) : Relays s t []
  | left (hcalls : t.calls = s.calls ++ [.leave]) (henqueued : t.enqueued = s.enqueued) :
      Relays s t [.leave]
  | message (msg : ChatMessage) (hcalls : t.calls = s.calls ++ [.deliver msg])
      (henqueued : t.enqueued = s.enqueued ++ if s.joined then [msg] else []) :
      Relays s t [.deliver msg]

variable {s t : ChatSession}

theorem handle_relays (s : ChatSession) (op : ChatOp) (r : Completion Bytes) :
    ∃ calls, Relays s (s.handle op r) calls := by
  cases op with
  | readHeader buffer =>
      cases r with
      | success bytes =>
          simp only [handle, onReadHeader]
          split_ifs
          · exact ⟨_, .nothing rfl rfl⟩
          · exact ⟨_, .left rfl rfl⟩
      | aborted => exact ⟨_, .left rfl rfl⟩
      | failed => exact ⟨_, .left rfl rfl⟩
  | readBody buffer =>
      cases r with
      | success bytes =>
          let s' : ChatSession := { s with readMsg_ := s.readMsg_.store headerLength bytes }
          exact ⟨_, .message s'.readMsg_ (roomDeliver_reads s' s'.readMsg_).2.2
            (s'.roomDeliver_enqueued s'.readMsg_)⟩
      | aborted => exact ⟨_, .left rfl rfl⟩
      | failed => exact ⟨_, .left rfl rfl⟩
  | write msg buffer =>
      cases r with
      | success bytes =>
          simp only [handle, onWrite]
          split_ifs
          · exact ⟨_, .nothing rfl rfl⟩
          · exact ⟨_, .nothing rfl (ChatPeer.doWrite_enqueued _)⟩
      | aborted => exact ⟨_, .left rfl rfl⟩
      | failed => exact ⟨_, .left rfl rfl⟩

theorem complete_relays {k : Nat} {r : Completion Bytes} (h : s.step (.complete k r) = some t) :
    ∃ calls, Relays s t calls := by
  obtain ⟨⟨op, p⟩, hfinish, rfl⟩ := Option.map_eq_some_iff.mp h
  obtain ⟨socket, -, -, rfl⟩ := ChatPeer.finish_eq_some hfinish
  obtain ⟨calls, hcalls⟩ := handle_relays { s with toChatPeer := { s.toChatPeer with
    socket_ := socket, received := s.received ++ op.received r } } op r
  refine ⟨calls, ?_⟩
  cases hcalls with
  | nothing hcalls henqueued => exact .nothing hcalls henqueued
  | left hcalls henqueued => exact .left hcalls henqueued
  | message msg hcalls henqueued => exact .message msg hcalls henqueued

theorem Relays.calls_eq {calls : List RoomCall} (h : Relays s t calls) :
    t.calls = s.calls ++ calls := by
  cases h with
  | nothing hcalls => rw [hcalls, List.append_nil]
  | left hcalls => exact hcalls
  | message msg hcalls => exact hcalls

theorem Relays.join_notMem {calls : List RoomCall} (h : Relays s t calls) : .join ∉ calls := by
  cases h <;> simp

/-- The session is given what the room passes to it. -/
theorem Relays.enqueued_eq {calls : List RoomCall} (h : Relays s t calls)
    {room : ChatRoom Nat ChatMessage} {i : Nat}
    (hmember : i ∈ room.participants_ ↔ s.joined = true) :
    t.enqueued = s.enqueued ++ room.received i (calls.map (RoomCall.op i)) := by
  cases h with
  | nothing hcalls henqueued => exact henqueued.trans (List.append_nil _).symm
  | left hcalls henqueued => exact henqueued.trans (List.append_nil _).symm
  | message msg hcalls henqueued =>
      have hreceived : room.received i [.deliver msg] =
          if i ∈ room.participants_ then [msg] else [] :=
        (received_singleton room i _).trans (callsTo_deliver room i msg)
      rw [henqueued, List.map_singleton, RoomCall.op, hreceived]
      simp only [hmember]

end ChatSession

/-! ### The whole server -/

namespace ChatServer

/-- The calls the handler of an event makes on `room_`, with the session that makes them. -/
def callsMade (s : ChatServer) : ChatServerEvent → List (Nat × RoomCall)
  | .accept (.success _) _ => [(s.sessions.length, .join)]
  | .accept _ _ => []
  | .complete i k r =>
      match s.sessions[i]? with
      | none => []
      | some x =>
          match x.step (.complete k r) with
          | none => []
          | some y => (y.calls.drop x.calls.length).map (Prod.mk i)

/-- All calls on `room_` in a run of the server from its start. -/
def allCalls (es : List ChatServerEvent) : List (Nat × RoomCall) := outputs step callsMade {} es

variable {s t : ChatServer}

theorem callsMade_complete {i k : Nat} {r : Completion Bytes} {x y : ChatSession}
    (hx : s.sessions[i]? = some x) (hy : x.step (.complete k r) = some y)
    {calls : List RoomCall} (hcalls : y.calls = x.calls ++ calls) :
    s.callsMade (.complete i k r) = calls.map (Prod.mk i) := by
  simp only [callsMade, hx, hy, hcalls, List.drop_left]

theorem roomOps_map (i : Nat) (calls : List RoomCall) :
    roomOps (calls.map (Prod.mk i)) = calls.map (RoomCall.op i) := by
  rw [roomOps, List.map_map]
  rfl

/-- The calls of one session are passed on one after the other. -/
theorem foldl_call (i : Nat) (calls : List RoomCall) (s : ChatServer) :
    calls.foldl (call i) s = ⟨(s.room_.run (calls.map (RoomCall.op i))).1,
      passOn i s.sessions (s.room_.run (calls.map (RoomCall.op i))).2⟩ := by
  induction calls generalizing s with
  | nil => rfl
  | cons c calls ih =>
      rw [List.foldl_cons, ih]
      have hpassOn : ∀ a b, passOn i s.sessions (a ++ b) = passOn i (passOn i s.sessions a) b :=
        fun a b => List.foldl_append
      simp only [List.map_cons, ChatRoom.run, hpassOn, call]

/-- What the room does with some calls a handler of the session `i` makes. -/
structure PassedOn (s : ChatServer) (i : Nat) (calls : List RoomCall) (t : ChatServer) : Prop where
  room : t.room_ = (s.room_.run (calls.map (RoomCall.op i))).1
  session : ∀ j z, t.sessions[j]? = some z → ∃ x, s.sessions[j]? = some x ∧
    z.calls = x.calls ++ (if j = i then calls else []) ∧
    z.enqueued = x.enqueued ++ s.room_.received j (calls.map (RoomCall.op i))
  none : ∀ j, t.sessions[j]? = none → s.sessions[j]? = none ∧ j ≠ i

theorem WellFormed.passedOn (hs : s.WellFormed) {i k : Nat} {r : Completion Bytes}
    (h : s.step (.complete i k r) = some t) : ∃ calls, RoomCall.join ∉ calls ∧
      s.callsMade (.complete i k r) = calls.map (Prod.mk i) ∧ s.PassedOn i calls t := by
  obtain ⟨x, y, hx, hy, rfl⟩ := step_complete h
  obtain ⟨calls, hrelays⟩ := ChatSession.complete_relays hy
  refine ⟨calls, hrelays.join_notMem, callsMade_complete hx hy hrelays.calls_eq, ?_⟩
  rw [hrelays.calls_eq, List.drop_left, foldl_call]
  refine ⟨rfl, fun j z hz => ?_, fun j hnone => ?_⟩
  · rw [passOn_get] at hz
    obtain ⟨w, hw, rfl⟩ := Option.map_eq_some_iff.mp hz
    rcases get_set_cases hx hw with ⟨hji, hw⟩ | ⟨rfl, rfl⟩
    · rw [if_neg hji, if_neg hji]
      refine ⟨w, hw, ?_, ChatSession.deliverAll_enqueued w _⟩
      rw [(w.deliverAll_undisturbed _).calls, List.append_nil]
    · rw [if_pos rfl, if_pos rfl]
      exact ⟨x, hx, hrelays.calls_eq, hrelays.enqueued_eq (hs.member j x hx)⟩
  · rw [passOn_get, Option.map_eq_none_iff] at hnone
    obtain ⟨hji, hnone⟩ := get_set_none hx hnone
    exact ⟨hnone, hji⟩

/-- The room has been through the calls so far, each session has made its own of them and has been
given what the room passed to it, and those that are still to come have made none. -/
structure Relayed (calls : List (Nat × RoomCall)) (s : ChatServer) : Prop where
  wellFormed : s.WellFormed
  room : s.room_ = (({} : ChatRoom Nat ChatMessage).run (roomOps calls)).1
  made : ∀ i x, s.sessions[i]? = some x → callsBy i calls = x.calls
  joins : ∀ i, (callsBy i calls).count .join ≤ 1
  given : ∀ i x, s.sessions[i]? = some x →
    x.enqueued = ({} : ChatRoom Nat ChatMessage).received i (roomOps calls)
  unborn : ∀ i, s.sessions[i]? = none → callsBy i calls = []

theorem Relayed.complete {calls : List (Nat × RoomCall)} (hs : Relayed calls s) {i k : Nat}
    {r : Completion Bytes} (h : s.step (.complete i k r) = some t) :
    Relayed (calls ++ s.callsMade (.complete i k r)) t := by
  obtain ⟨made, hjoin, hmade, hpassed⟩ := hs.wellFormed.passedOn h
  rw [hmade]
  have hby : ∀ j, callsBy j (calls ++ made.map (Prod.mk i)) =
      callsBy j calls ++ if j = i then made else [] := fun j => by
    rw [callsBy_append, callsBy_map]
  constructor
  case wellFormed => exact hs.wellFormed.step h
  case room => rw [roomOps_append, roomOps_map, run_append, hpassed.room, hs.room]
  case made =>
    intro j z hz
    obtain ⟨x, hx, hcalls, -⟩ := hpassed.session j z hz
    rw [hby, hcalls, hs.made j x hx]
  case joins =>
    intro j
    rw [hby, List.count_append]
    have hnone : (if j = i then made else []).count .join = 0 := by
      split_ifs
      · exact List.count_eq_zero_of_not_mem hjoin
      · rfl
    rw [hnone]
    exact hs.joins j
  case given =>
    intro j z hz
    obtain ⟨x, hx, -, henqueued⟩ := hpassed.session j z hz
    rw [henqueued, hs.given j x hx, roomOps_append, roomOps_map, received_append, ← hs.room]
  case unborn =>
    intro j hnone
    obtain ⟨hnone, hji⟩ := hpassed.none j hnone
    rw [hby, hs.unborn j hnone, if_neg hji]
    rfl

theorem Relayed.start {calls : List (Nat × RoomCall)} (hs : Relayed calls s) {u : Unit}
    (readMsg_ : ChatMessage) (h : s.step (.accept (.success u) readMsg_) = some t) :
    Relayed (calls ++ [(s.sessions.length, .join)]) t := by
  have hwell := hs.wellFormed.step h
  cases h
  have hlast : s.sessions[s.sessions.length]? = none :=
    List.getElem?_eq_none (Nat.le_refl _)
  have hby : ∀ j, callsBy j (calls ++ [(s.sessions.length, .join)]) =
      callsBy j calls ++ if j = s.sessions.length then [.join] else [] := fun j => by
    rw [callsBy_append]
    exact congrArg _ (callsBy_map s.sessions.length j [.join])
  have hreceived : ∀ j, ({} : ChatRoom Nat ChatMessage).received j
      (roomOps (calls ++ [(s.sessions.length, .join)])) =
        ({} : ChatRoom Nat ChatMessage).received j (roomOps calls) ++
          if s.sessions.length = j then s.room_.recentMsgs_ else [] := fun j => by
    rw [roomOps_append, received_append, ← hs.room]
    refine congrArg _ ?_
    exact (received_singleton _ _ _).trans (callsTo_join _ _ _)
  have hget : ∀ j z, (s.startSession readMsg_).sessions[j]? = some z →
      s.sessions[j]? = some z ∧ j ≠ s.sessions.length ∨
      j = s.sessions.length ∧ z = .started readMsg_ s.room_.recentMsgs_ := by
    intro j z hz
    have hrecent : (s.room_.join s.sessions.length).2.map Prod.snd = s.room_.recentMsgs_ := by
      simp [ChatRoom.join, Function.comp_def]
    rw [startSession] at hz
    simp only [hrecent] at hz
    exact (get_concat_cases hz).imp And.symm id
  constructor
  case wellFormed => exact hwell
  case room =>
    rw [roomOps_append, run_append, ← hs.room]
    rfl
  case made =>
    intro j z hz
    rw [hby]
    rcases hget j z hz with ⟨hz, hne⟩ | ⟨rfl, rfl⟩
    · rw [if_neg hne, List.append_nil, hs.made j z hz]
    · rw [if_pos rfl, hs.unborn _ hlast, (ChatSession.started_effect _ _).1]
      rfl
  case joins =>
    intro j
    rw [hby]
    split_ifs with hj
    · rw [hj, hs.unborn _ hlast]
      decide
    · rw [List.append_nil]
      exact hs.joins j
  case given =>
    intro j z hz
    rw [hreceived]
    rcases hget j z hz with ⟨hz, hne⟩ | ⟨rfl, rfl⟩
    · rw [if_neg hne.symm, List.append_nil, hs.given j z hz]
    · have hnever : (roomOps calls).countP (RoomOp.isJoin s.sessions.length) = 0 := by
        rw [countP_roomOps, hs.unborn _ hlast]
        rfl
      rw [if_pos rfl, received_outside (Finset.notMem_empty _) hnever]
      exact ChatSession.deliverAll_enqueued _ _
  case unborn =>
    intro j hnone
    obtain ⟨hne, hnone⟩ := get_concat_none hnone
    rw [hby, if_neg hne, List.append_nil]
    exact hs.unborn j hnone

theorem Relayed.step {calls : List (Nat × RoomCall)} {e : ChatServerEvent}
    (hs : Relayed calls s) (h : s.step e = some t) : Relayed (calls ++ s.callsMade e) t := by
  cases e with
  | complete i k r => exact hs.complete h
  | accept r readMsg_ =>
      cases r with
      | success u => exact hs.start readMsg_ h
      | aborted =>
          cases h
          exact (List.append_nil calls).symm ▸ hs
      | failed =>
          cases h
          exact (List.append_nil calls).symm ▸ hs

theorem relayed_run {es : List ChatServerEvent} (h : run ChatServer.step {} es = some s) :
    Relayed (allCalls es) s := by
  have hstart : Relayed [] {} := by
    refine ⟨wellFormed_reachable ⟨[], rfl⟩, rfl, ?_, fun i => Nat.zero_le 1, ?_, fun i _ => rfl⟩
    · rintro i x ⟨⟩
    · rintro i x ⟨⟩
  exact run_outputs (I := Relayed) (fun past s e t hs ht => hs.step ht) hstart h

/-! ### Each session in the server -/

/-- What an event is for the session at a position, when it exists: the messages it is given by
others, or the completion of one of its operations. -/
def partOf (j : Nat) (s : ChatServer) : ChatServerEvent → List SessionEvent
  | .accept _ _ => []
  | .complete i k r => if j = i then [.complete k r] else
      (s.room_.received j (roomOps (s.callsMade (.complete i k r)))).map .deliver

theorem run_deliver (x : ChatSession) (msgs : List ChatMessage) :
    run ChatSession.step x (msgs.map .deliver) = some (msgs.foldl ChatSession.deliver x) := by
  induction msgs generalizing x with
  | nil => rfl
  | cons msg msgs ih => exact run_cons.mpr ⟨_, rfl, ih _⟩

/-- A session in the server does what a session alone does when it is given the same messages. -/
theorem session_component (j : Nat) : Component ChatServer.step (fun s => s.sessions[j]?)
    ChatSession.step (partOf j)
    fun x => ∃ readMsg_ recentMsgs, x = .started readMsg_ recentMsgs := by
  constructor
  case moves =>
    intro s e t w h hw
    cases e with
    | accept r readMsg_ =>
        refine ⟨w, ?_, rfl⟩
        cases r with
        | success u =>
            cases h
            exact List.getElem?_append_left (List.getElem?_eq_some_iff.mp hw).1 |>.trans hw
        | aborted =>
            cases h
            exact hw
        | failed =>
            cases h
            exact hw
    | complete i k r =>
        obtain ⟨x, y, hx, hy, rfl⟩ := step_complete h
        obtain ⟨calls, hrelays⟩ := ChatSession.complete_relays hy
        have hmade := callsMade_complete hx hy hrelays.calls_eq
        rw [hrelays.calls_eq, List.drop_left, foldl_call, partOf, hmade, roomOps_map]
        simp only [passOn_get]
        by_cases hji : j = i
        · subst hji
          obtain rfl : x = w := Option.some.inj (hx.symm.trans hw)
          rw [List.getElem?_set_self (List.getElem?_eq_some_iff.mp hx).1, if_pos rfl]
          exact ⟨y, by simp, run_singleton.mpr hy⟩
        · rw [List.getElem?_set_ne fun heq => hji heq.symm, hw, if_neg hji]
          exact ⟨_, rfl, (run_deliver w _).trans (congrArg some (if_neg hji).symm)⟩
  case starts =>
    intro s e t z h hnone hz
    rcases step_session h hz with hstarted | ⟨x, hx, -⟩ | ⟨x, k, r, hx, -⟩
    · exact hstarted
    · cases hnone.symm.trans hx
    · cases hnone.symm.trans hx

theorem session_reachable (h : Reachable ChatServer.step {} s) {i : Nat} {x : ChatSession}
    (hx : s.sessions[i]? = some x) :
    ∃ readMsg_ recentMsgs, Reachable ChatSession.step (.started readMsg_ recentMsgs) x := by
  obtain ⟨c, ⟨readMsg_, recentMsgs, rfl⟩, hreach⟩ := (session_component i).reachable rfl h hx
  exact ⟨readMsg_, recentMsgs, hreach⟩

theorem Relayed.enqueued_eq {calls : List (Nat × RoomCall)} (hs : Relayed calls s) {i : Nat}
    {x : ChatSession} (hx : s.sessions[i]? = some x) :
    x.enqueued = expected i (roomOps calls) := by
  have hjoins : (roomOps calls).countP (RoomOp.isJoin i) ≤ 1 :=
    (countP_roomOps i calls).trans_le (hs.joins i)
  exact (hs.given i x hx).trans (received_eq_expected hjoins)

/-- What a session has written is the first of what it should receive. -/
theorem written_sent {es : List ChatServerEvent} (h : run ChatServer.step {} es = some s) {i : Nat}
    {x : ChatSession} (hx : s.sessions[i]? = some x) : x.outputQueue.Orderly ∧
      ∃ sent, sent <+: expected i (roomOps (allCalls es)) ∧
        x.written = sent.flatMap ChatMessage.wire := by
  obtain ⟨readMsg_, recentMsgs, hreach⟩ := session_reachable ⟨es, h⟩ hx
  have horderly := ChatSession.orderly_reachable hreach
  obtain ⟨sent, hsent, hwritten⟩ := ChatPeer.written_prefix horderly
  rw [← (relayed_run h).enqueued_eq hx]
  exact ⟨horderly, sent, ⟨_, hsent.symm⟩, hwritten⟩

/-- In every run of the server, with the calls on `room_` in the order in which they are made: the
room is what it becomes by these calls alone; each session has made its own among them; it has been
given the last messages before its `join` and all from there until its `leave`, no others and in
this order; and it has written the wire forms of the first of these, and of all when none of its
writes has failed and none is outstanding. -/
theorem server_relays {es : List ChatServerEvent} (h : run ChatServer.step {} es = some s) :
    s.room_ = (({} : ChatRoom Nat ChatMessage).run (roomOps (allCalls es))).1 ∧
    ∀ i x, s.sessions[i]? = some x →
      x.calls = callsBy i (allCalls es) ∧
      x.enqueued = expected i (roomOps (allCalls es)) ∧
      (∃ sent, sent <+: expected i (roomOps (allCalls es)) ∧
        x.written = sent.flatMap ChatMessage.wire) ∧
      (x.writeFailed = false → x.writes = [] →
        x.written = (expected i (roomOps (allCalls es))).flatMap ChatMessage.wire) := by
  have hs := relayed_run h
  refine ⟨hs.room, fun i x hx => ?_⟩
  obtain ⟨horderly, hsent⟩ := written_sent h hx
  refine ⟨(hs.made i x hx).symm, hs.enqueued_eq hx, hsent, fun hok hnone => ?_⟩
  rw [← hs.enqueued_eq hx]
  exact ChatPeer.written_all horderly hok hnone

/-- A session sends two messages with bodies of one and of two bytes, which come back to it. -/
def echoed : List (Nat × Completion Bytes) :=
  [(0, .success [32, 32, 32, 49]), (0, .success [104, 0, 0, 0, 0]),
    (1, .success [32, 32, 32, 50]), (1, .success [105, 33, 0, 0, 0, 0]),
    (0, .success []), (1, .success [])]

def echoedRun : List ChatServerEvent := .accept (.success ()) .blank :: ofSession 0 echoed

set_option maxRecDepth 4000 in
theorem server_relays_echoed : ∃ s x, run ChatServer.step {} echoedRun = some s ∧
    s.sessions[0]? = some x ∧ x.written = [32, 32, 32, 49, 104, 32, 32, 32, 50, 105, 33] ∧
    x.written = (expected 0 (roomOps (allCalls echoedRun))).flatMap ChatMessage.wire := by
  have hsession : run ChatSession.step (.started .blank [])
      (echoed.map fun c => .complete c.1 c.2) = some _ := rfl
  have haccept : ChatServer.step {} (.accept (.success ()) .blank) =
      some (startSession {} .blank) := rfl
  obtain ⟨s, hs, hget⟩ := run_of_session (s := startSession {} .blank) (i := 0) rfl hsession
  have hrun : run ChatServer.step {} echoedRun = some s := run_cons.mpr ⟨_, haccept, hs⟩
  have hx := (server_relays hrun).2 0 _ hget
  exact ⟨s, _, hrun, hget, by decide, hx.2.2.2 rfl rfl⟩

end ChatServer

end AsioTest.Chat
