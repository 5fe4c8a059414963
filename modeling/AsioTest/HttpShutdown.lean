import AsioTest.ComponentRuns
import AsioTest.HttpServer

/-!
What is left to happen once the handler of the stop signal has run. Every socket is closed then, so
that a handler can still start an operation only after a success that was queued before, and the
operation it starts fails.
-/

namespace AsioTest.Http

open ByteStrings AsyncSocket TransitionRuns

def ServerEvent.isAccept : ServerEvent → Bool
  | .accept _ _ => true
  | _ => false

/-- The handler is one of the connection at position `i`. -/
def ServerEvent.isOf (i : Nat) : ServerEvent → Bool
  | .io j _ _ => j = i
  | _ => false

def ServerEvent.isSignal : ServerEvent → Bool
  | .signal => true
  | _ => false

/-- The accepts outstanding after the handler when it starts none. -/
def ServerEvent.acceptsLeft (s : Server) : ServerEvent → List (Pending Unit)
  | .accept k _ => s.acceptor_.pending.eraseIdx k
  | _ => s.acceptor_.pending

/-- How many handlers the operations outstanding on a closed socket can lead to: one that was
started before the close may succeed, and its handler may start one more. -/
def Connection.handlersLeft (c : Connection) : Nat :=
  (c.socket_.pending.map fun p => if p.onOpen then 2 else 1).sum

/-- A connection that has been stopped. -/
structure Connection.Stopped (c : Connection) : Prop where
  closed : c.socket_.isOpen = false
  pending_le : c.socket_.pending.length ≤ 1

variable {site : Site} {s t u : Server}

/-- Every handler of a stopped connection uses up one of those left. -/
theorem Connection.Stopped.complete {c d : Connection} {k : Nat} {r : Completion Bytes}
    {stopped : Bool} (hc : c.Stopped) (h : c.complete site k r = some (d, stopped)) :
    d.Stopped ∧ d.handlersLeft < c.handlersLeft := by
  rcases Nat.le_one_iff_eq_zero_or_eq_one.mp hc.pending_le with hzero | hone
  · rw [complete_nil (List.length_eq_zero_iff.mp hzero)] at h
    cases h
  obtain ⟨p, hp⟩ := List.length_eq_one_iff.mp hone
  have hleft : c.handlersLeft = if p.onOpen then 2 else 1 := by
    simp [Connection.handlersLeft, hp]
  have hdrained : c.drained.Stopped ∧ c.drained.handlersLeft < c.handlersLeft := by
    refine ⟨⟨hc.closed, Nat.zero_le 1⟩, ?_⟩
    show 0 < c.handlersLeft
    rw [hleft]
    split_ifs
    · exact Nat.two_pos
    · exact Nat.one_pos
  rcases complete_single hp h with heq | ⟨heq, -⟩ | ⟨e, op, heq, -, hsocket, -, -, honOpen⟩
  · cases heq
    exact hdrained
  · cases heq
    exact hdrained
  · cases heq
    have hpending : d.socket_.pending = [⟨op, false⟩] := by
      rw [hsocket, ← hc.closed]
      rfl
    refine ⟨⟨by rw [hsocket]; exact hc.closed, by rw [hpending]; exact Nat.le_refl 1⟩, ?_⟩
    calc
      d.handlersLeft = 1 := by simp [Connection.handlersLeft, hpending]
      _ < 2 := Nat.lt_succ_self 1
      _ = c.handlersLeft := by rw [hleft, if_pos honOpen]

theorem Connection.Stopped.handlersLeft_le {c : Connection} (hc : c.Stopped) :
    c.handlersLeft ≤ if c.socket_.pending = [] then 0 else 2 := by
  rcases Nat.le_one_iff_eq_zero_or_eq_one.mp hc.pending_le with hzero | hone
  · have hnil := List.length_eq_zero_iff.mp hzero
    rw [if_pos hnil, Connection.handlersLeft, hnil]
    exact Nat.le_refl 0
  · obtain ⟨p, hp⟩ := List.length_eq_one_iff.mp hone
    have hne : c.socket_.pending ≠ [] := by simp [hp]
    rw [if_neg hne, Connection.handlersLeft, hp, List.map_singleton, List.sum_singleton]
    split_ifs
    · exact Nat.le_refl 2
    · exact Nat.le_succ 1

/-! ### The server after the signal -/

/-- Nothing is accepted or waited for any more, and every connection has been stopped. -/
structure Server.Shut (s : Server) : Prop where
  acceptor_closed : s.acceptor_.isOpen = false
  no_wait : s.signalWait = false
  empty : s.connections_ = ∅
  stopped : ∀ c ∈ s.started, c.Stopped

/-- The accept handler returns at once. -/
theorem Server.Shut.accept {k : Nat} {r : Completion Unit} (hs : s.Shut)
    (h : s.step site (.accept k r) = some t) : k < s.acceptor_.pending.length ∧
      t = { s with acceptor_ := ⟨false, s.acceptor_.pending.eraseIdx k⟩ } := by
  obtain ⟨⟨u, socket⟩, hfinish, rfl⟩ := Option.map_eq_some_iff.mp h
  obtain ⟨p, hp, -, -, rfl⟩ := Socket.finish_eq_some.mp hfinish
  refine ⟨(List.getElem?_eq_some_iff.mp hp).1, ?_⟩
  simp only [Server.onAccept, hs.acceptor_closed]
  rfl

/-- A handler of a connection replaces that connection by one with fewer handlers left. -/
theorem Server.Shut.io {i k : Nat} {r : Completion Bytes} (hs : s.Shut)
    (h : s.step site (.io i k r) = some t) : ∃ c d, s.started[i]? = some c ∧ d.Stopped ∧
      d.handlersLeft < c.handlersLeft ∧ t = { s with started := s.started.set i d } := by
  rw [Server.step] at h
  split at h
  next => cases h
  next c hc =>
    obtain ⟨⟨d, stopped⟩, hcomplete, rfl⟩ := Option.map_eq_some_iff.mp h
    obtain ⟨hd, hlt⟩ := (hs.stopped c (List.mem_of_getElem? hc)).complete hcomplete
    cases stopped with
    | true =>
        refine ⟨c, d.stop, hc, ⟨rfl, hd.pending_le⟩, hlt, ?_⟩
        show Server.managerStop { s with started := s.started.set i d } i = _
        rw [Server.managerStop, modify_set, hs.empty, Finset.erase_empty]
    | false => exact ⟨c, d, hc, hd, hlt, rfl⟩

theorem Server.Shut.not_signal (hs : s.Shut) : s.step site .signal = none := by
  rw [Server.step, hs.no_wait]
  rfl

theorem Server.Shut.step {e : ServerEvent} (hs : s.Shut) (h : s.step site e = some t) :
    t.Shut ∧ t.started.length = s.started.length := by
  cases e with
  | accept k r =>
      obtain ⟨-, rfl⟩ := hs.accept h
      exact ⟨⟨rfl, hs.no_wait, hs.empty, hs.stopped⟩, rfl⟩
  | io i k r =>
      obtain ⟨c, d, -, hd, -, rfl⟩ := hs.io h
      refine ⟨⟨hs.acceptor_closed, hs.no_wait, hs.empty, fun c' hc' => ?_⟩, List.length_set⟩
      rcases List.mem_or_eq_of_mem_set hc' with hmem | rfl
      · exact hs.stopped c' hmem
      · exact hd
  | signal =>
      rw [hs.not_signal] at h
      cases h

theorem Server.Shut.run {es : List ServerEvent} (hs : s.Shut)
    (h : run (Server.step site) s es = some t) :
    t.Shut ∧ t.started.length = s.started.length :=
  run_invariant (I := fun t => t.Shut ∧ t.started.length = s.started.length)
    (fun _ _ _ ht hstep => ⟨(ht.1.step hstep).1, (ht.1.step hstep).2.trans ht.2⟩) ⟨hs, rfl⟩ h

/-- No handler starts an accept. -/
theorem Server.Shut.acceptor {e : ServerEvent} (hs : s.Shut) (h : s.step site e = some t) :
    t.acceptor_.pending = e.acceptsLeft s := by
  cases e with
  | accept k r =>
      obtain ⟨-, rfl⟩ := hs.accept h
      rfl
  | io i k r =>
      obtain ⟨c, d, -, -, -, rfl⟩ := hs.io h
      rfl
  | signal =>
      rw [hs.not_signal] at h
      cases h

/-! ### What is left -/

/-- How many handlers can still run for the connection at position `i`. -/
def Server.handlersLeft (s : Server) (i : Nat) : Nat :=
  (s.started[i]?.map Connection.handlersLeft).getD 0

/-- How many handlers can still run in all. -/
def Server.allLeft (s : Server) : Nat :=
  s.acceptor_.pending.length + (s.started.map Connection.handlersLeft).sum

theorem Server.Shut.signal_budget {e : ServerEvent} (hs : s.Shut)
    (h : s.step site e = some t) :
    (if e.isSignal then 1 else 0) + 0 ≤ 0 := by
  cases e with
  | accept k r => exact Nat.le_refl 0
  | io i k r => exact Nat.le_refl 0
  | signal => cases hs.not_signal.symm.trans h

theorem Server.Shut.accepts_budget {e : ServerEvent} (hs : s.Shut)
    (h : s.step site e = some t) :
    (if e.isAccept then 1 else 0) + t.acceptor_.pending.length ≤ s.acceptor_.pending.length := by
  cases e with
  | accept k r =>
      obtain ⟨hk, rfl⟩ := hs.accept h
      show 1 + (s.acceptor_.pending.eraseIdx k).length ≤ _
      rw [List.length_eraseIdx_of_lt hk]
      omega
  | io i k r =>
      obtain ⟨c, d, -, -, -, rfl⟩ := hs.io h
      exact Nat.le_of_eq (Nat.zero_add _)
  | signal =>
      rw [hs.not_signal] at h
      cases h

theorem Server.Shut.connection_budget {e : ServerEvent} (hs : s.Shut)
    (h : s.step site e = some t) (i : Nat) :
    (if e.isOf i then 1 else 0) + t.handlersLeft i ≤ s.handlersLeft i := by
  cases e with
  | accept k r =>
      obtain ⟨-, rfl⟩ := hs.accept h
      exact Nat.le_of_eq (Nat.zero_add _)
  | io j k r =>
      obtain ⟨c, d, hc, -, hlt, rfl⟩ := hs.io h
      by_cases hij : j = i
      · subst hij
        simp only [ServerEvent.isOf, decide_true, if_true, Server.handlersLeft,
          List.getElem?_set_self', hc, Option.map_some, Option.getD_some]
        show 1 + d.handlersLeft ≤ c.handlersLeft
        omega
      · simp [ServerEvent.isOf, hij, Server.handlersLeft]
  | signal =>
      rw [hs.not_signal] at h
      cases h

theorem Server.Shut.all_budget {e : ServerEvent} (hs : s.Shut) (h : s.step site e = some t) :
    1 + t.allLeft ≤ s.allLeft := by
  cases e with
  | accept k r =>
      obtain ⟨hk, rfl⟩ := hs.accept h
      have hlength := List.length_eraseIdx_of_lt hk
      show 1 + ((s.acceptor_.pending.eraseIdx k).length +
        (s.started.map Connection.handlersLeft).sum) ≤ s.allLeft
      rw [Server.allLeft, hlength]
      omega
  | io i k r =>
      obtain ⟨c, d, hc, -, hlt, rfl⟩ := hs.io h
      have hsum := sum_map_set Connection.handlersLeft hc d
      show 1 + (s.acceptor_.pending.length +
        ((s.started.set i d).map Connection.handlersLeft).sum) ≤ s.allLeft
      rw [Server.allLeft]
      omega
  | signal =>
      rw [hs.not_signal] at h
      cases h

theorem sum_handlersLeft_le {started : List Connection} (h : ∀ c ∈ started, c.Stopped) :
    (started.map Connection.handlersLeft).sum ≤
      2 * started.countP fun c => decide (c.socket_.pending ≠ []) := by
  induction started with
  | nil => exact Nat.le_refl 0
  | cons c started ih =>
      have hc := (h c List.mem_cons_self).handlersLeft_le
      have hrest := ih fun d hd => h d (List.mem_cons_of_mem c hd)
      rw [List.map_cons, List.sum_cons]
      by_cases hnil : c.socket_.pending = []
      · rw [if_pos hnil] at hc
        rw [List.countP_cons_of_neg (by simp [hnil])]
        omega
      · rw [if_neg hnil] at hc
        rw [List.countP_cons_of_pos (by simp [hnil])]
        omega

/-! ### From the signal on -/

theorem acceptor_pending_le (h : Reachable (Server.step site) .listening s) :
    s.acceptor_.pending.length ≤ 1 := by
  refine h.invariant (I := fun s => s.acceptor_.pending.length ≤ 1) (fun s e t hs ht => ?_)
    (Nat.le_refl 1)
  cases e with
  | accept k r =>
      obtain ⟨⟨u, socket⟩, hfinish, rfl⟩ := Option.map_eq_some_iff.mp ht
      obtain ⟨p, hp, -, -, rfl⟩ := Socket.finish_eq_some.mp hfinish
      have hlength : (s.acceptor_.pending.eraseIdx k).length = 0 := by
        rw [List.length_eraseIdx_of_lt (List.getElem?_eq_some_iff.mp hp).1]
        omega
      rcases onAccept_cases { s with acceptor_ := ⟨s.acceptor_.isOpen,
        s.acceptor_.pending.eraseIdx k⟩ } r with heq | heq | heq
      · rw [heq]
        show (s.acceptor_.pending.eraseIdx k).length ≤ 1
        omega
      · rw [heq]
        show (s.acceptor_.pending.eraseIdx k ++ [_]).length ≤ 1
        rw [List.length_append, hlength]
        exact Nat.le_refl 1
      · rw [heq]
        show (s.acceptor_.pending.eraseIdx k ++ [_]).length ≤ 1
        rw [List.length_append, hlength]
        exact Nat.le_refl 1
  | io i k r =>
      rw [Server.step] at ht
      split at ht
      next => cases ht
      next c hc =>
        obtain ⟨⟨d, stopped⟩, -, rfl⟩ := Option.map_eq_some_iff.mp ht
        cases stopped with
        | true => exact hs
        | false => exact hs
  | signal =>
      rw [Server.step] at ht
      split_ifs at ht
      cases ht
      exact hs

/-- The signal handler shuts the server down. -/
theorem shut_of_signal (h : Reachable (Server.step site) .listening s)
    (ht : s.step site .signal = some t) :
    t.Shut ∧ t.acceptor_.pending.length ≤ 1 := by
  have hwell := wellFormed_reachable h
  have hpending := acceptor_pending_le (h.extend ht)
  rw [Server.step] at ht
  split_ifs at ht
  cases ht
  refine ⟨⟨rfl, rfl, rfl, fun c hc => ?_⟩, hpending⟩
  obtain ⟨i, hi⟩ := List.mem_iff_getElem?.mp hc
  change (s.started.mapIdx fun i c => if i ∈ s.connections_ then c.stop else c)[i]? = some c at hi
  rw [List.getElem?_mapIdx] at hi
  obtain ⟨d, hd, rfl⟩ := Option.map_eq_some_iff.mp hi
  have hview : s.view i = some (d, decide (i ∈ s.connections_)) := by
    rw [Server.view, hd]
    rfl
  obtain ⟨hsteady, hinside⟩ := hwell.settled i _ hview
  split_ifs with hmem
  · exact ⟨rfl, hsteady.pending_le⟩
  · exact ⟨hinside.symm.trans (decide_eq_false hmem), hsteady.pending_le⟩

/-- After the handler of the stop signal, in every order of the completions that are left: no
connection is in `connections_` at any boundary, none is started, no handler starts an accept, and
at most one accept handler and two handlers of each connection that had an operation outstanding
still run, and no others. -/
theorem shutdown_final (h : Reachable (Server.step site) .listening s)
    (ht : s.step site .signal = some t) {es : List ServerEvent}
    (hu : run (Server.step site) t es = some u) :
    u.connections_ = ∅ ∧ u.started.length = t.started.length ∧
    (∀ e v, u.step site e = some v → v.acceptor_.pending = e.acceptsLeft u) ∧
    es.countP ServerEvent.isSignal = 0 ∧ es.countP ServerEvent.isAccept ≤ 1 ∧
    (∀ i c, t.started[i]? = some c →
      es.countP (ServerEvent.isOf i) ≤ if c.socket_.pending = [] then 0 else 2) ∧
    es.length ≤ 1 + 2 * t.started.countP fun c => decide (c.socket_.pending ≠ []) := by
  obtain ⟨hshut, haccept⟩ := shut_of_signal h ht
  obtain ⟨hu', hlength⟩ := hshut.run hu
  have hkeep : ∀ s e s', Server.Shut s → s.step site e = some s' → s'.Shut :=
    fun s e s' hs hstep => (hs.step hstep).1
  refine ⟨hu'.empty, hlength, fun e v hv => hu'.acceptor hv, ?_, ?_, fun i c hc => ?_, ?_⟩
  · have hnone := run_countP_le (p := ServerEvent.isSignal) hkeep
      (fun s e s' hs hstep => hs.signal_budget hstep) hshut hu
    exact Nat.le_zero.mp ((Nat.le_add_right _ _).trans hnone)
  · have hbound := run_countP_le (p := ServerEvent.isAccept) hkeep
      (fun s e s' hs hstep => hs.accepts_budget hstep) hshut hu
    omega
  · have hbound := run_countP_le (p := ServerEvent.isOf i) hkeep
      (fun s e s' hs hstep => hs.connection_budget hstep i) hshut hu
    have hleft : t.handlersLeft i = c.handlersLeft := by
      rw [Server.handlersLeft, hc]
      rfl
    have hc' := (hshut.stopped c (List.mem_of_getElem? hc)).handlersLeft_le
    exact (Nat.le_add_right _ _).trans (hbound.trans (hleft ▸ hc'))
  · have hbound := run_countP_le (p := fun _ => true) hkeep
      (fun s e s' hs hstep => hs.all_budget hstep) hshut hu
    have hsum := sum_handlersLeft_le hshut.stopped
    rw [List.countP_true] at hbound
    have hall : t.allLeft = t.acceptor_.pending.length +
      (t.started.map Connection.handlersLeft).sum := rfl
    omega

/-- An accept and a read that had succeeded when the signal came, and then the write that fails. -/
def residualRun : List ServerEvent :=
  [.accept 0 (.success ()), .io 0 0 (.success [10]), .io 0 0 .failed]

theorem shutdown_final_residual : ∃ s t u,
    run (Server.step ⟨fun _ => none, []⟩) .listening [.accept 0 (.success ())] = some s ∧
    s.step ⟨fun _ => none, []⟩ .signal = some t ∧
    run (Server.step ⟨fun _ => none, []⟩) t residualRun = some u ∧ u.connections_ = ∅ :=
  ⟨_, _, _, rfl, rfl, rfl, (@shutdown_final ⟨fun _ => none, []⟩ _ _ _
    ⟨[.accept 0 (.success ())], rfl⟩ rfl residualRun rfl).1⟩

end AsioTest.Http
