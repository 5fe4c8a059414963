import AsioTest.AcceptLoop
import AsioTest.ByteStrings
import AsioTest.ComponentRuns
import Mathlib.Data.List.Perm.Basic

/-!
The daytime servers: over TCP each connection is sent the time at which it was accepted, and over
UDP each datagram is answered with the time at which it came. Both may run on one `io_service`. What
`make_daytime_string` makes of a time depends on the time zone, so that it is a parameter.
-/

namespace AsioTest.Daytime

open TransitionRuns AsyncSocket AcceptLoop

/-! ### TCP -/

/-- A `tcp_connection`; `writing` is how much of `message_` the write outstanding has sent. -/
structure TcpConnection where
  message_ : Bytes
  writing : Option Nat := none
  written : Bytes := []
  deriving DecidableEq

namespace TcpConnection

variable (makeDaytimeString : Int → Bytes)

/-- `start()` of a new connection. -/
def started (time : Int) : TcpConnection :=
  { message_ := makeDaytimeString time, writing := some 0 }

def handleWrite (c : TcpConnection) : TcpConnection := c

/-- The write outstanding sends `n` bytes more, or fails. -/
def step (c : TcpConnection) (r : Option Nat) : Option TcpConnection :=
  match c.writing, r with
  | none, _ => none
  | some _, none => some { c with writing := none }.handleWrite
  | some sent, some n =>
      if sent + n ≤ c.message_.length ∧ (n = 0 → c.message_ = []) then
        let c := { c with written := c.written ++ (c.message_.drop sent).take n }
        if sent + n < c.message_.length then some { c with writing := some (sent + n) }
        else some { c with writing := none }.handleWrite
      else none

/-- What is written is the beginning of the message, and all of it when the write has ended and
has not failed. -/
structure Delivered (message : Bytes) (es : List (Option Nat)) (c : TcpConnection) : Prop where
  message_eq : c.message_ = message
  taken : ∀ sent, c.writing = some sent → c.written = message.take sent
  written : c.written <+: message
  complete : c.writing = none → none ∉ es → c.written = message

variable {makeDaytimeString} {message : Bytes} {es : List (Option Nat)} {c d : TcpConnection}

theorem Delivered.step {r : Option Nat} (hc : c.Delivered message es) (h : c.step r = some d) :
    d.Delivered message (es ++ [r]) := by
  unfold TcpConnection.step at h
  match hwriting : c.writing, r with
  | none, _ =>
      rw [hwriting] at h
      cases h
  | some sent, none =>
      rw [hwriting] at h
      cases h
      refine ⟨hc.message_eq, nofun, hc.written, fun _ hok => ?_⟩
      exact absurd (List.mem_append_right es List.mem_cons_self) hok
  | some sent, some n =>
      rw [hwriting] at h
      simp only at h
      have hsent : c.written ++ (c.message_.drop sent).take n = message.take (sent + n) := by
        rw [hc.taken sent hwriting, hc.message_eq, List.take_add]
      split_ifs at h with hfits hmore
      · cases h
        refine ⟨hc.message_eq, fun m hm => ?_, ?_, nofun⟩
        · cases hm
          exact hsent
        · exact hsent ▸ List.take_prefix _ _
      · cases h
        refine ⟨hc.message_eq, nofun, ?_, fun _ _ => ?_⟩
        · exact hsent ▸ List.take_prefix _ _
        · refine hsent.trans (List.take_of_length_le ?_)
          rw [← hc.message_eq]
          exact Nat.not_lt.mp hmore

theorem delivered_run {time : Int} (h : run step (started makeDaytimeString time) es = some c) :
    c.Delivered (makeDaytimeString time) es := by
  have hinit : (started makeDaytimeString time).Delivered (makeDaytimeString time) [] :=
    ⟨rfl, fun sent hsent => by cases hsent; rfl, List.nil_prefix, nofun⟩
  have hall : c.Delivered (makeDaytimeString time) ([] ++ es) :=
    run_history (fun _ _ _ _ hc hd => hc.step hd) hinit h
  rwa [List.nil_append] at hall

end TcpConnection

/-- With an accepted connection comes the time. -/
abbrev TcpServer := Loop TcpConnection

def TcpServer.step (makeDaytimeString : Int → Bytes) :
    TcpServer → LoopEvent Int (Option Nat) → Option TcpServer :=
  Loop.step (fun time => some (TcpConnection.started makeDaytimeString time)) TcpConnection.step

/-! ### The synchronous TCP server -/

/-- The server of `sync_ds`: `current` is the connection it is in `write` for, and without one it is
in `accept`, unless an accept has thrown. -/
structure SyncTcpServer where
  served : List TcpConnection := []
  current : Option TcpConnection := none
  threw : Bool := false

/-- `accept` returns or throws; `write` sends something, or ends with an error, which is ignored. -/
inductive SyncTcpEvent where
  | accepted (time : Int)
  | refused
  | write (r : Option Nat)

namespace SyncTcpServer

variable (makeDaytimeString : Int → Bytes)

def step (s : SyncTcpServer) : SyncTcpEvent → Option SyncTcpServer
  | .accepted time =>
      if s.current = none ∧ s.threw = false then
        some { s with current := some (TcpConnection.started makeDaytimeString time) }
      else none
  | .refused =>
      if s.current = none ∧ s.threw = false then some { s with threw := true } else none
  | .write r =>
      s.current.bind fun c => (c.step r).map fun d =>
        if d.writing = none then { s with served := s.served ++ [d], current := none }
        else { s with current := some d }

/-- What the asynchronous server does instead; the connection served is the last one. -/
def likewise (s : SyncTcpServer) : SyncTcpEvent → List (LoopEvent Int (Option Nat))
  | .accepted time => [.accept 0 (.success ()) time]
  | .refused => [.accept 0 .failed 0]
  | .write r => [.session s.served.length r]

/-- The asynchronous server has the same connections, of which only the last may be under way. -/
structure Mirrored (s : SyncTcpServer) (t : TcpServer) : Prop where
  accepting : t.Accepting
  sessions : t.sessions = s.served ++ s.current.toList
  ended : ∀ c ∈ s.served, c.writing = none

variable {makeDaytimeString} {s s' : SyncTcpServer} {t : TcpServer} {e : SyncTcpEvent}

theorem Mirrored.step (ht : s.Mirrored t) (h : s.step makeDaytimeString e = some s') :
    ∃ t', run (TcpServer.step makeDaytimeString) t (s.likewise e) = some t' ∧ s'.Mirrored t' := by
  cases e with
  | accepted time =>
      simp only [SyncTcpServer.step] at h
      split_ifs at h with hready
      cases h
      refine ⟨_, run_singleton.mpr (ht.accepting.step_success rfl), ht.accepting, ?_, ht.ended⟩
      rw [ht.sessions, hready.1]
      exact congrArg (· ++ _) (List.append_nil _)
  | refused =>
      simp only [SyncTcpServer.step] at h
      split_ifs at h with hready
      cases h
      exact ⟨t, run_singleton.mpr ht.accepting.step_failed, ht.accepting, ht.sessions, ht.ended⟩
  | write r =>
      obtain ⟨c, hc, hnext⟩ := Option.bind_eq_some_iff.mp h
      obtain ⟨d, hd, rfl⟩ := Option.map_eq_some_iff.mp hnext
      have hlast : t.sessions = s.served ++ [c] := by rw [ht.sessions, hc, Option.toList_some]
      have hfound : t.sessions[s.served.length]? = some c := by
        rw [hlast, List.getElem?_concat_length]
      have hstep : t.step makeDaytimeString (.session s.served.length r) =
          some { t with sessions := s.served ++ [d] } := by
        rw [TcpServer.step, Loop.step, hfound, Option.bind_some, hd, Option.map_some, hlast,
          List.set_append_right _ _ (Nat.le_refl _), Nat.sub_self, List.set_cons_zero]
      refine ⟨_, run_singleton.mpr hstep, ht.accepting, ?_, ?_⟩
      · split_ifs with hended
        · exact (List.append_nil _).symm
        · rfl
      · split_ifs with hended
        · intro x hx
          obtain hold | hnew := List.mem_append.mp hx
          · exact ht.ended x hold
          · rwa [List.mem_singleton.mp hnew]
        · exact ht.ended

/-- Every run of the synchronous server is one of the asynchronous server, with the same connections
in the same order, to each of which the same is written; but a connection is accepted only when the
write of the one before has ended. -/
theorem sync_mirrored {es : List SyncTcpEvent} (h : run (step makeDaytimeString) {} es = some s) :
    ∃ t, run (TcpServer.step makeDaytimeString) Loop.listening
        (outputs (step makeDaytimeString) likewise {} es) = some t ∧
      t.sessions = s.served ++ s.current.toList ∧ ∀ c ∈ s.served, c.writing = none := by
  let Reached (past : List (LoopEvent Int (Option Nat))) (s : SyncTcpServer) : Prop :=
    ∃ t, run (TcpServer.step makeDaytimeString) Loop.listening past = some t ∧ s.Mirrored t
  have hinit : Reached [] {} := ⟨_, rfl, rfl, rfl, nofun⟩
  have hstep : ∀ past s e s', Reached past s → s.step makeDaytimeString e = some s' →
      Reached (past ++ s.likewise e) s' := by
    rintro past s e s' ⟨t, hrun, ht⟩ hs'
    obtain ⟨t', hnext, ht'⟩ := ht.step hs'
    exact ⟨t', run_append.mpr ⟨t, hrun, hnext⟩, ht'⟩
  obtain ⟨t, hrun, ht⟩ := run_outputs hstep hinit h
  exact ⟨t, hrun, ht.sessions, ht.ended⟩

/-- With a string of two bytes for a time; the second write fails after one byte. -/
theorem sync_mirrored_failed : ∃ (s : SyncTcpServer) (t : TcpServer),
    run (step fun time => [UInt8.ofNat time.toNat, 10]) {}
      [.accepted 100, .write (some 2), .accepted 101, .write (some 1), .write none, .refused] =
        some s ∧
    t.sessions = s.served ∧ s.served.map TcpConnection.written = [[100, 10], [101]] := by
  have hrun : run (step fun time => [UInt8.ofNat time.toNat, 10]) {}
    [.accepted 100, .write (some 2), .accepted 101, .write (some 1), .write none, .refused] =
      some _ := rfl
  obtain ⟨t, -, hsessions, -⟩ := sync_mirrored hrun
  exact ⟨_, t, hrun, hsessions.trans (List.append_nil _), rfl⟩

end SyncTcpServer

/-! ### UDP -/

/-- How a receive ends. -/
inductive Reception where
  | ok
  | messageSize
  | otherError
  deriving DecidableEq

/-- A datagram has come from `endpoint` at `time`, or a receive has failed. -/
structure Datagram (Endpoint : Type) where
  error : Reception
  endpoint : Endpoint
  time : Int

variable {Endpoint : Type}

/-- `receives` counts the receives outstanding, and `sends` are the sends outstanding, which hold
their message and have taken a copy of the endpoint; `answered` records the sends started and
`finished` those that have ended. -/
structure UdpServer (Endpoint : Type) where
  remoteEndpoint : Endpoint
  receives : Nat := 0
  sends : List (Bytes × Endpoint) := []
  answered : List (Bytes × Endpoint) := []
  finished : List (Bytes × Endpoint) := []

inductive UdpEvent (Endpoint : Type) where
  | receive (d : Datagram Endpoint)
  | sent (k : Nat)

def UdpEvent.datagrams : UdpEvent Endpoint → List (Datagram Endpoint)
  | .receive d => [d]
  | .sent _ => []

namespace UdpServer

variable (makeDaytimeString : Int → Bytes)

def startReceive (s : UdpServer Endpoint) : UdpServer Endpoint :=
  { s with receives := s.receives + 1 }

/-- `async_send_to` of `message` to `remote_endpoint`. -/
def sendTo (message : Bytes) (s : UdpServer Endpoint) : UdpServer Endpoint :=
  { s with
    sends := s.sends ++ [(message, s.remoteEndpoint)]
    answered := s.answered ++ [(message, s.remoteEndpoint)] }

def handleReceive (error : Reception) (time : Int) (s : UdpServer Endpoint) :
    UdpServer Endpoint :=
  if error = .ok ∨ error = .messageSize then (s.sendTo (makeDaytimeString time)).startReceive
  else s

def handleSend (s : UdpServer Endpoint) : UdpServer Endpoint := s

def step (s : UdpServer Endpoint) : UdpEvent Endpoint → Option (UdpServer Endpoint)
  | .receive d =>
      if s.receives = 0 then none
      else some ({ s with receives := s.receives - 1, remoteEndpoint := d.endpoint }.handleReceive
        makeDaytimeString d.error d.time)
  | .sent k => s.sends[k]?.map fun x =>
      { s with sends := s.sends.eraseIdx k, finished := s.finished ++ [x] }.handleSend

/-- The server after its constructor; `remote_endpoint` may be anything. -/
def listening (endpoint : Endpoint) : UdpServer Endpoint :=
  ({ remoteEndpoint := endpoint } : UdpServer Endpoint).startReceive

/-- The loop of the synchronous server, on the datagrams it receives: what it sends, and whether it
goes on. -/
def syncLoop : List (Datagram Endpoint) → List (Bytes × Endpoint) × Bool
  | [] => ([], true)
  | d :: ds =>
      if d.error ≠ .ok ∧ d.error ≠ .messageSize then ([], false)
      else ((makeDaytimeString d.time, d.endpoint) :: (syncLoop ds).1, (syncLoop ds).2)

/-- The server has started the sends that the synchronous one makes of the same datagrams, it
receives as long as that one does, and each send ends once. -/
structure LikeSync (ds : List (Datagram Endpoint)) (s : UdpServer Endpoint) : Prop where
  answered : s.answered = (syncLoop makeDaytimeString ds).1
  receives : s.receives = if (syncLoop makeDaytimeString ds).2 then 1 else 0
  once : s.answered.Perm (s.finished ++ s.sends)

variable {makeDaytimeString} {s t : UdpServer Endpoint} {ds : List (Datagram Endpoint)}

/-- A datagram that is received is answered with the time, and the next one is waited for. -/
theorem step_ok {i : Endpoint} {time : Int}
    (h : s.step makeDaytimeString (.receive ⟨.ok, i, time⟩) = some t) :
    s.receives ≠ 0 ∧ t.sends = s.sends ++ [(makeDaytimeString time, i)] ∧
    t.receives = s.receives := by
  simp only [step] at h
  split_ifs at h with hnone
  cases h
  exact ⟨hnone, rfl, Nat.succ_pred_eq_of_ne_zero hnone⟩

/-- A receive that fails is not repeated. -/
theorem step_otherError {i : Endpoint} {time : Int}
    (h : s.step makeDaytimeString (.receive ⟨.otherError, i, time⟩) = some t) :
    s.receives ≠ 0 ∧ t.sends = s.sends ∧ t.receives = s.receives - 1 := by
  simp only [step] at h
  split_ifs at h with hnone
  cases h
  exact ⟨hnone, rfl, rfl⟩

theorem step_sent {k : Nat} (h : s.step makeDaytimeString (.sent k) = some t) :
    ∃ x, s.sends[k]? = some x ∧ t.sends = s.sends.eraseIdx k ∧ t.receives = s.receives := by
  obtain ⟨x, hx, rfl⟩ := Option.map_eq_some_iff.mp h
  exact ⟨x, hx, rfl, rfl⟩

/-- One datagram more, as long as the loop goes on. -/
theorem syncLoop_concat (d : Datagram Endpoint) (h : (syncLoop makeDaytimeString ds).2 = true) :
    syncLoop makeDaytimeString (ds ++ [d]) =
      ((syncLoop makeDaytimeString ds).1 ++ (syncLoop makeDaytimeString [d]).1,
        (syncLoop makeDaytimeString [d]).2) := by
  induction ds with
  | nil => rfl
  | cons a ds ih =>
      rw [List.cons_append, syncLoop, syncLoop]
      rw [syncLoop] at h
      split_ifs at h ⊢ with herror
      rw [ih h]
      rfl

theorem LikeSync.receive {d : Datagram Endpoint} (hs : s.LikeSync makeDaytimeString ds)
    (h : s.step makeDaytimeString (.receive d) = some t) :
    t.LikeSync makeDaytimeString (ds ++ [d]) := by
  simp only [step] at h
  split_ifs at h with hnone
  cases h
  have hgoes : (syncLoop makeDaytimeString ds).2 = true := by
    by_contra hstopped
    refine hnone ?_
    rw [hs.receives, if_neg hstopped]
  have hone : s.receives = 1 := by rw [hs.receives, if_pos hgoes]
  rw [handleReceive]
  split_ifs with hanswers
  · have hloop : syncLoop makeDaytimeString [d] =
        ([(makeDaytimeString d.time, d.endpoint)], true) := by
      rw [syncLoop, if_neg]
      · rfl
      · rintro ⟨hok, hsize⟩
        exact hanswers.elim hok hsize
    constructor
    case answered =>
        rw [syncLoop_concat d hgoes, hloop, ← hs.answered]
        rfl
    case receives =>
        rw [syncLoop_concat d hgoes, hloop]
        show s.receives - 1 + 1 = _
        rw [hone]
        rfl
    case once =>
        show (s.answered ++ [_]).Perm (s.finished ++ (s.sends ++ [_]))
        rw [← List.append_assoc]
        exact hs.once.append_right _
  · have hloop : syncLoop makeDaytimeString [d] = ([], false) := by
      rw [syncLoop, if_pos]
      exact not_or.mp hanswers
    constructor
    case answered =>
        rw [syncLoop_concat d hgoes, hloop, List.append_nil]
        exact hs.answered
    case receives =>
        rw [syncLoop_concat d hgoes, hloop]
        show s.receives - 1 = _
        rw [hone]
        rfl
    case once => exact hs.once

theorem LikeSync.sent {k : Nat} (hs : s.LikeSync makeDaytimeString ds)
    (h : s.step makeDaytimeString (.sent k) = some t) : t.LikeSync makeDaytimeString ds := by
  obtain ⟨x, hx, rfl⟩ := Option.map_eq_some_iff.mp h
  refine ⟨hs.answered, hs.receives, hs.once.trans ?_⟩
  obtain ⟨hlt, rfl⟩ := List.getElem?_eq_some_iff.mp hx
  show (s.finished ++ s.sends).Perm (s.finished ++ [s.sends[k]] ++ s.sends.eraseIdx k)
  rw [List.append_assoc]
  exact (List.getElem_cons_eraseIdx_perm hlt).symm.append_left s.finished

theorem likeSync_run {endpoint : Endpoint} {es : List (UdpEvent Endpoint)}
    (h : run (step makeDaytimeString) (listening endpoint) es = some s) :
    s.LikeSync makeDaytimeString (es.flatMap UdpEvent.datagrams) := by
  have hinit : (listening endpoint).LikeSync makeDaytimeString [] := ⟨rfl, rfl, List.Perm.nil⟩
  have hall : s.LikeSync makeDaytimeString (([] ++ es).flatMap UdpEvent.datagrams) := by
    refine run_history (I := fun es s => LikeSync makeDaytimeString
      (es.flatMap UdpEvent.datagrams) s) (fun es s e t hs ht => ?_) hinit h
    rw [flatMap_concat]
    cases e with
    | receive d => exact hs.receive ht
    | sent k =>
        rw [UdpEvent.datagrams, List.append_nil]
        exact hs.sent ht
  rwa [List.nil_append] at hall

end UdpServer

/-! ### Both on one `io_service` -/

/-- The events of the two servers in one `io_service`. -/
abbrev CombEvent (Endpoint : Type) := LoopEvent Int (Option Nat) ⊕ UdpEvent Endpoint

abbrev CombServers (Endpoint : Type) := TcpServer × UdpServer Endpoint

def CombServers.step (makeDaytimeString : Int → Bytes) :
    CombServers Endpoint → CombEvent Endpoint → Option (CombServers Endpoint) :=
  both (TcpServer.step makeDaytimeString) (UdpServer.step makeDaytimeString)

/-- The events of the TCP server. -/
def tcpEvents (es : List (CombEvent Endpoint)) : List (LoopEvent Int (Option Nat)) :=
  es.filterMap Sum.getLeft?

/-- The datagrams the UDP server has received. -/
def datagrams (es : List (CombEvent Endpoint)) : List (Datagram Endpoint) :=
  (es.filterMap Sum.getRight?).flatMap UdpEvent.datagrams

/-- In every run of both servers, in whatever order their handlers run: over TCP each connection has
been sent the beginning of the time at which it was accepted, and all of it when the write has ended
without an error, and the next one will be accepted; over UDP the server has started the sends that
the synchronous server makes of the same datagrams, to the sender of each, it goes on as long as
that one does, and each send ends once. -/
theorem comb_served {makeDaytimeString : Int → Bytes} {endpoint : Endpoint}
    {es : List (CombEvent Endpoint)} {s : CombServers Endpoint}
    (h : run (CombServers.step makeDaytimeString)
      (Loop.listening, UdpServer.listening endpoint) es = some s) :
    s.1.Accepting ∧
    (∀ (i : Nat) (c : TcpConnection), s.1.sessions[i]? = some c → ∃ time,
      ((tcpEvents es).flatMap LoopEvent.inits)[i]? = some time ∧
      c.Delivered (makeDaytimeString time) ((tcpEvents es).flatMap (LoopEvent.partOf i))) ∧
    s.2.LikeSync makeDaytimeString (datagrams es) := by
  obtain ⟨htcp, hudp⟩ := run_both.mp h
  refine ⟨Loop.accepting_run htcp, fun i c hc => ?_, UdpServer.likeSync_run hudp⟩
  obtain ⟨time, x, htime, hx, hrun⟩ := (Loop.recorded_run htcp).alive i c hc
  cases hx
  exact ⟨time, htime, TcpConnection.delivered_run hrun⟩

/-- Two datagrams are answered while a connection is served, and then a receive fails. -/
def combRun : List (CombEvent Nat) :=
  [.inr (.receive ⟨.ok, 7, 100⟩), .inl (.accept 0 (.success ()) 101), .inl (.session 0 (some 1)),
    .inr (.receive ⟨.messageSize, 8, 102⟩), .inr (.sent 0), .inr (.receive ⟨.otherError, 9, 103⟩),
    .inl (.accept 0 .failed 104), .inl (.session 0 (some 1))]

/-- With a string of two bytes for a time. -/
theorem comb_served_run : ∃ s,
    run (CombServers.step fun time => [UInt8.ofNat time.toNat, 10])
      (Loop.listening, UdpServer.listening 0) combRun = some s ∧
    s.2.answered = [([100, 10], 7), ([102, 10], 8)] ∧ s.2.receives = 0 ∧ s.1.Accepting ∧
    ∃ c, s.1.sessions[0]? = some c ∧ c.Delivered [101, 10] [some 1, some 1] := by
  have hrun : run (CombServers.step fun time => [UInt8.ofNat time.toNat, 10])
    (Loop.listening, UdpServer.listening 0) combRun = some _ := rfl
  obtain ⟨haccepting, htcp, hudp⟩ := comb_served hrun
  obtain ⟨time, htime, hdelivered⟩ := htcp 0 _ rfl
  cases htime
  exact ⟨_, hrun, hudp.answered, hudp.receives, haccepting, _, rfl, hdelivered⟩

end AsioTest.Daytime
