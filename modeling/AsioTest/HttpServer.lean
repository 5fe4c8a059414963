import AsioTest.HttpConnection
import Mathlib.Data.Finset.Basic

/-!
`http_server` as a whole: the acceptor, the signal handler and the connection manager over any
number of connections. A connection is named by its position among those started so far, so that
`connections_` is a set of numbers. Each handler runs to its end; between two handlers any
completion that is possible may be next.
-/

namespace AsioTest.Http

open ByteStrings AsyncSocket TransitionRuns

/-- `signalWait` says that the `async_wait` of the signals is outstanding. -/
structure Server where
  acceptor_ : Socket Unit := {}
  signalWait : Bool := true
  started : List Connection := []
  connections_ : Finset Nat := ∅

inductive ServerEvent where
  | accept (k : Nat) (r : Completion Unit)
  | io (i k : Nat) (r : Completion Bytes)
  | signal

/-! ### Connection manager -/

/-- `connection_manager::start` of a new connection. -/
def Server.managerStart (s : Server) : Server :=
  { s with
    connections_ := insert s.started.length s.connections_
    started := s.started ++ [Connection.started] }

/-- `connection_manager::stop` -/
def Server.managerStop (s : Server) (i : Nat) : Server :=
  { s with connections_ := s.connections_.erase i, started := s.started.modify i Connection.stop }

def Server.managerStopAll (s : Server) : Server :=
  { s with
    started := s.started.mapIdx fun i c => if i ∈ s.connections_ then c.stop else c
    connections_ := ∅ }

/-! ### Acceptor and signals -/

def Server.doAccept (s : Server) : Server := { s with acceptor_ := s.acceptor_.issue () }

def Server.onAccept (s : Server) (r : Completion Unit) : Server :=
  if !s.acceptor_.isOpen then s
  else
    match r with
    | .success _ => s.managerStart.doAccept
    | _ => s.doAccept

def Server.onSignal (s : Server) : Server :=
  { s with acceptor_ := s.acceptor_.close }.managerStopAll

def Server.step (site : Site) (s : Server) : ServerEvent → Option Server
  | .accept k r =>
      (s.acceptor_.finish k r).map fun p => { s with acceptor_ := p.2 }.onAccept r
  | .io i k r =>
      match s.started[i]? with
      | none => none
      | some c =>
          (c.complete site k r).map fun d =>
            let s := { s with started := s.started.set i d.1 }
            if d.2 then s.managerStop i else s
  | .signal => if s.signalWait then some { s with signalWait := false }.onSignal else none

/-- The server after its constructor. -/
def Server.listening : Server := ({} : Server).doAccept

/-! ### What a step does to one connection -/

/-- A connection and whether it is in `connections_`. -/
def Server.view (s : Server) (i : Nat) : Option (Connection × Bool) :=
  s.started[i]?.map fun c => (c, decide (i ∈ s.connections_))

/-- The ways a handler of the server treats what stands at one position. -/
inductive Turn (site : Site) :
    Option (Connection × Bool) → Option (Connection × Bool) → Prop where
  | idle (v : Option (Connection × Bool)) : Turn site v v
  | start : Turn site none (some (.started, true))
  | handler {c d : Connection} {k : Nat} {r : Completion Bytes} (inside : Bool)
      (h : c.complete site k r = some (d, false)) : Turn site (some (c, inside)) (some (d, inside))
  | stop {c d : Connection} {k : Nat} {r : Completion Bytes} (inside : Bool)
      (h : c.complete site k r = some (d, true)) :
      Turn site (some (c, inside)) (some (d.stop, false))
  | stopAll (c : Connection) : Turn site (some (c, true)) (some (c.stop, false))

variable {site : Site} {s t : Server}

@[simp] theorem doAccept_view (s : Server) (i : Nat) : s.doAccept.view i = s.view i := rfl

theorem managerStart_view (s : Server) (i : Nat) :
    s.managerStart.view i = if i = s.started.length then some (.started, true) else s.view i := by
  rw [Server.view, Server.managerStart]
  split_ifs with hi
  · rw [hi, List.getElem?_concat_length]
    simp
  · have hget : (s.started ++ [Connection.started])[i]? = s.started[i]? := by
      rcases Nat.lt_or_gt_of_ne hi with hlt | hgt
      · exact List.getElem?_append_left hlt
      · rw [List.getElem?_eq_none (Nat.le_of_lt hgt), List.getElem?_eq_none]
        rw [List.length_append]
        exact hgt
    simp only [hget, Finset.mem_insert, hi, false_or]
    rfl

theorem managerStop_view (s : Server) (i j : Nat) : (s.managerStop i).view j =
    (s.view j).map fun v => if i = j then (v.1.stop, false) else v := by
  simp only [Server.view, Server.managerStop, List.getElem?_modify, Finset.mem_erase,
    Option.map_map]
  split_ifs with hij
  · subst hij
    simp [Function.comp_def]
  · have hji : j ≠ i := fun h => hij h.symm
    simp [Function.comp_def, hji]

theorem managerStopAll_view (s : Server) (i : Nat) : s.managerStopAll.view i =
    (s.view i).map fun v => (if v.2 then v.1.stop else v.1, false) := by
  simp [Server.view, Server.managerStopAll, Function.comp_def]

/-- The accept handler does nothing, or it goes on accepting, with a new connection or without. -/
theorem onAccept_cases (s : Server) (r : Completion Unit) :
    s.onAccept r = s ∨ s.onAccept r = s.doAccept ∨ s.onAccept r = s.managerStart.doAccept := by
  by_cases hopen : s.acceptor_.isOpen = true
  · cases r with
    | success u => exact Or.inr (Or.inr (by simp [Server.onAccept, hopen]))
    | aborted => exact Or.inr (Or.inl (by simp [Server.onAccept, hopen]))
    | failed => exact Or.inr (Or.inl (by simp [Server.onAccept, hopen]))
  · exact Or.inl (by simp [Server.onAccept, hopen])

theorem view_length (s : Server) : s.view s.started.length = none := by
  rw [Server.view, List.getElem?_eq_none (Nat.le_refl _)]
  rfl

theorem io_turn {i k : Nat} {r : Completion Bytes} (h : s.step site (.io i k r) = some t)
    (j : Nat) : Turn site (s.view j) (t.view j) := by
  rw [Server.step] at h
  split at h
  next => cases h
  next c hc =>
    obtain ⟨⟨d, stopped⟩, hcomplete, rfl⟩ := Option.map_eq_some_iff.mp h
    have hset : Server.view { s with started := s.started.set i d } j =
        (s.view j).map fun v => if i = j then (d, v.2) else v := by
      simp only [Server.view, List.getElem?_set', Option.map_map]
      split_ifs with hij
      · subst hij
        simp [hc]
      · rfl
    have hview : i = j → s.view j = some (c, decide (j ∈ s.connections_)) := by
      rintro rfl
      rw [Server.view, hc]
      rfl
    cases stopped with
    | true =>
        rw [if_pos rfl, managerStop_view, hset]
        by_cases hij : i = j
        · rw [hview hij]
          simpa [hij] using Turn.stop _ hcomplete
        · simpa [hij] using (Turn.idle (s.view j) : Turn site _ _)
    | false =>
        rw [if_neg Bool.false_ne_true, hset]
        by_cases hij : i = j
        · rw [hview hij]
          simpa [hij] using Turn.handler _ hcomplete
        · simpa [hij] using (Turn.idle (s.view j) : Turn site _ _)

/-- A step gives every position its turn. -/
theorem step_turn {e : ServerEvent} (h : s.step site e = some t) (i : Nat) :
    Turn site (s.view i) (t.view i) := by
  cases e with
  | accept k r =>
      obtain ⟨p, -, rfl⟩ := Option.map_eq_some_iff.mp h
      rcases onAccept_cases { s with acceptor_ := p.2 } r with heq | heq | heq
      · rw [heq]
        exact .idle _
      · rw [heq]
        exact .idle _
      · rw [heq, doAccept_view, managerStart_view]
        split_ifs with hi
        · rw [hi, view_length]
          exact .start
        · exact .idle _
  | io j k r => exact io_turn h i
  | signal =>
      rw [Server.step] at h
      split_ifs at h
      cases h
      rw [Server.onSignal, managerStopAll_view]
      change Turn site (s.view i) ((s.view i).map _)
      cases hview : s.view i with
      | none => exact .idle none
      | some v =>
          obtain ⟨c, inside⟩ := v
          cases inside with
          | true => exact .stopAll c
          | false => exact .idle _

/-! ### The lifecycle of a connection -/

/-- An open connection has one operation outstanding and a closed one at most one; what is being
written is the reply the connection has. -/
structure Connection.Steady (c : Connection) : Prop where
  pending_le : c.socket_.pending.length ≤ 1
  pending_open : c.socket_.isOpen = true → c.socket_.pending.length = 1
  write_reply : ∀ p ∈ c.socket_.pending, ∀ buffers, p.op = .write buffers →
    buffers = c.reply_.toBuffers

theorem steady_started : Connection.started.Steady where
  pending_le := Nat.le_refl 1
  pending_open := fun _ => rfl
  write_reply := by
    intro p hp buffers hop
    cases List.mem_singleton.mp hp
    cases hop

theorem Connection.Steady.stop {c : Connection} (h : c.Steady) : c.stop.Steady where
  pending_le := h.pending_le
  pending_open := nofun
  write_reply := h.write_reply

/-- What a completion leaves is steady, once the manager has stopped it where it has to. -/
theorem Connection.Steady.complete {c d : Connection} {stopped : Bool} (h : c.Steady) {k : Nat}
    {r : Completion Bytes} (hd : c.complete site k r = some (d, stopped)) :
    (stopped = false → d.Steady ∧ d.socket_.isOpen = c.socket_.isOpen) ∧
      (stopped = true → d.stop.Steady) := by
  have hdrained : c.drained.stop.Steady := ⟨Nat.zero_le 1, nofun, nofun⟩
  rcases Nat.le_one_iff_eq_zero_or_eq_one.mp h.pending_le with hzero | hone
  · rw [complete_nil (List.length_eq_zero_iff.mp hzero)] at hd
    cases hd
  obtain ⟨p, hp⟩ := List.length_eq_one_iff.mp hone
  rcases complete_single hp hd with heq | ⟨heq, hclosed⟩ | ⟨e, op, heq, -, hsocket, -, hop, -⟩
  · cases heq
    exact ⟨nofun, fun _ => hdrained⟩
  · cases heq
    refine ⟨fun _ => ⟨⟨Nat.zero_le 1, fun hopen => ?_, nofun⟩, rfl⟩, nofun⟩
    cases hclosed.symm.trans hopen
  · cases heq
    have hpending : d.socket_.pending = [⟨op, c.socket_.isOpen⟩] := by
      rw [hsocket]
      rfl
    refine ⟨fun _ => ⟨⟨?_, fun _ => ?_, ?_⟩, by rw [hsocket]; rfl⟩, nofun⟩
    · rw [hpending]
      exact Nat.le_refl 1
    · rw [hpending]
      rfl
    · intro q hq buffers hwrite
      rw [hpending] at hq
      cases List.mem_singleton.mp hq
      rcases hop with hread | hreply
      · cases hread.symm.trans hwrite
      · cases hreply.symm.trans hwrite
        rfl

/-- A steady connection keeps its reply as long as a write is outstanding. -/
theorem Connection.Steady.complete_reply {c d : Connection} {stopped : Bool} (h : c.Steady)
    {k : Nat} {r : Completion Bytes} (hd : c.complete site k r = some (d, stopped))
    {p : Pending IoOp} (hp : p ∈ c.socket_.pending) {buffers : List ConstBuffer}
    (hop : p.op = .write buffers) : d.reply_ = c.reply_ := by
  have hsingle : c.socket_.pending = [p] := by
    have hle := h.pending_le
    obtain ⟨q, hq⟩ := List.length_eq_one_iff.mp
      (Nat.le_antisymm hle (List.length_pos_of_mem hp))
    rw [hq] at hp ⊢
    rw [List.mem_singleton.mp hp]
  rcases complete_single hsingle hd with heq | ⟨heq, -⟩ | ⟨e, op, -, hread, -⟩
  · cases heq
    rfl
  · cases heq
    rfl
  · cases hread.symm.trans hop

/-- A started connection is steady, and in `connections_` exactly while its socket is open. -/
def Settled (v : Connection × Bool) : Prop := v.1.Steady ∧ v.2 = v.1.socket_.isOpen

theorem Turn.settled {v w : Option (Connection × Bool)} (h : Turn site v w)
    (hv : ∀ x, v = some x → Settled x) : ∀ x, w = some x → Settled x := by
  cases h with
  | idle => exact hv
  | start =>
      rintro x hx
      cases hx
      exact ⟨steady_started, rfl⟩
  | handler inside hd =>
      rintro x hx
      cases hx
      obtain ⟨hsteady, hinside⟩ := hv _ rfl
      obtain ⟨hd, hopen⟩ := (hsteady.complete hd).1 rfl
      exact ⟨hd, hinside.trans hopen.symm⟩
  | stop inside hd =>
      rintro x hx
      cases hx
      exact ⟨((hv _ rfl).1.complete hd).2 rfl, rfl⟩
  | stopAll c =>
      rintro x hx
      cases hx
      exact ⟨(hv _ rfl).1.stop, rfl⟩

/-- A connection that is started and not in `connections_` stays so. -/
theorem Turn.outside {v w : Option (Connection × Bool)} (h : Turn site v w)
    (hv : ∃ c, v = some (c, false)) : ∃ c, w = some (c, false) := by
  obtain ⟨c, rfl⟩ := hv
  cases h with
  | idle => exact ⟨c, rfl⟩
  | handler inside hd => exact ⟨_, rfl⟩
  | stop inside hd => exact ⟨_, rfl⟩

theorem Turn.reply {v w : Option (Connection × Bool)} (h : Turn site v w) {c : Connection}
    {inside : Bool} (hv : v = some (c, inside)) (hc : c.Steady) {p : Pending IoOp}
    (hp : p ∈ c.socket_.pending) {buffers : List ConstBuffer} (hop : p.op = .write buffers) :
    ∃ d, w.map Prod.fst = some d ∧ d.reply_ = c.reply_ := by
  subst hv
  cases h with
  | idle => exact ⟨c, rfl, rfl⟩
  | handler inside hd => exact ⟨_, rfl, hc.complete_reply hd hp hop⟩
  | stop inside hd =>
      have hreply := hc.complete_reply hd hp hop
      exact ⟨_, rfl, hreply⟩
  | stopAll c => exact ⟨c.stop, rfl, rfl⟩

/-- The server knows every connection in `connections_`, and every one it started is settled. -/
structure Server.WellFormed (s : Server) : Prop where
  inBounds : ∀ i ∈ s.connections_, i < s.started.length
  settled : ∀ i v, s.view i = some v → Settled v

theorem step_inBounds {e : ServerEvent} (hs : ∀ i ∈ s.connections_, i < s.started.length)
    (h : s.step site e = some t) : ∀ i ∈ t.connections_, i < t.started.length := by
  cases e with
  | accept k r =>
      obtain ⟨p, -, rfl⟩ := Option.map_eq_some_iff.mp h
      rcases onAccept_cases { s with acceptor_ := p.2 } r with heq | heq | heq
      · rw [heq]
        exact hs
      · rw [heq]
        exact hs
      · rw [heq]
        intro i hi
        simp only [Server.doAccept, Server.managerStart, List.length_append, List.length_singleton]
        rcases Finset.mem_insert.mp hi with rfl | hmem
        · exact Nat.lt_succ_self _
        · exact Nat.lt_succ_of_lt (hs i hmem)
  | io j k r =>
      rw [Server.step] at h
      split at h
      next => cases h
      next c hc =>
        obtain ⟨⟨d, stopped⟩, -, rfl⟩ := Option.map_eq_some_iff.mp h
        intro i hi
        cases stopped with
        | true =>
            rw [if_pos rfl] at hi ⊢
            simpa [Server.managerStop] using hs i (Finset.mem_of_mem_erase hi)
        | false =>
            rw [if_neg Bool.false_ne_true] at hi ⊢
            simpa using hs i hi
  | signal =>
      rw [Server.step] at h
      split_ifs at h
      cases h
      exact fun i hi => absurd hi (Finset.notMem_empty i)

theorem wellFormed_reachable (h : Reachable (Server.step site) .listening s) : s.WellFormed :=
  h.invariant (I := Server.WellFormed)
    (fun _ _ _ hs ht => ⟨step_inBounds hs.inBounds ht,
      fun i => (step_turn ht i).settled (hs.settled i)⟩)
    ⟨fun i hi => absurd hi (Finset.notMem_empty i), fun i v hv => by cases hv⟩

/-- At every handler boundary: a connection is in `connections_` iff its socket has not been
closed, and then has exactly one operation outstanding; outside it has at most one; without one
it is not in `connections_`; once outside it never returns; and what is being written is `reply_`,
which no step changes meanwhile. -/
theorem connection_lifecycle (h : Reachable (Server.step site) .listening s) :
    (∀ i ∈ s.connections_, i < s.started.length) ∧
    ∀ i c, s.started[i]? = some c →
      (i ∈ s.connections_ ↔ c.socket_.isOpen = true) ∧
      (i ∈ s.connections_ → c.socket_.pending.length = 1) ∧
      c.socket_.pending.length ≤ 1 ∧
      (c.socket_.pending = [] → i ∉ s.connections_) ∧
      (i ∉ s.connections_ → ∀ es t, run (Server.step site) s es = some t → i ∉ t.connections_) ∧
      ∀ p ∈ c.socket_.pending, ∀ buffers, p.op = .write buffers →
        buffers = c.reply_.toBuffers ∧
        ∀ e t, s.step site e = some t → ∃ d, t.started[i]? = some d ∧ d.reply_ = c.reply_ := by
  have hwell := wellFormed_reachable h
  refine ⟨hwell.inBounds, fun i c hc => ?_⟩
  have hview : s.view i = some (c, decide (i ∈ s.connections_)) := by
    rw [Server.view, hc]
    rfl
  obtain ⟨hsteady, hinside⟩ := hwell.settled i _ hview
  have hopen : i ∈ s.connections_ ↔ c.socket_.isOpen = true := by
    rw [← hinside, decide_eq_true_iff]
  refine ⟨hopen, fun hi => hsteady.pending_open (hopen.mp hi), hsteady.pending_le, ?_, ?_, ?_⟩
  · intro hnil hi
    have hone := hsteady.pending_open (hopen.mp hi)
    rw [hnil] at hone
    cases hone
  · intro hi es t ht hmem
    have hout : ∃ d, t.view i = some (d, false) := by
      refine run_invariant (I := fun s => ∃ d, s.view i = some (d, false))
        (fun _ _ _ hs hstep => (step_turn hstep i).outside hs) ⟨c, ?_⟩ ht
      rw [hview, decide_eq_false hi]
    obtain ⟨d, hd⟩ := hout
    rw [Server.view, Option.map_eq_some_iff] at hd
    obtain ⟨d', -, heq⟩ := hd
    exact absurd hmem (of_decide_eq_false (congrArg Prod.snd heq))
  · intro p hp buffers hop
    refine ⟨hsteady.write_reply p hp buffers hop, fun e t ht => ?_⟩
    obtain ⟨d, hd, hreply⟩ := (step_turn ht i).reply hview hsteady hp hop
    refine ⟨d, ?_, hreply⟩
    rw [Server.view, Option.map_map] at hd
    simpa [Function.comp_def] using hd

/-- A connection answers a line feed, and the signal comes before the write is done. -/
def interruptedRun : List ServerEvent :=
  [.accept 0 (.success ()), .io 0 0 (.success [10]), .signal]

theorem connection_lifecycle_interrupted :
    ∃ s, run (Server.step ⟨fun _ => none, []⟩) .listening interruptedRun = some s ∧
      ∃ c, s.started[0]? = some c ∧ c.socket_.pending.length = 1 ∧
        (0 ∈ s.connections_ ↔ c.socket_.isOpen = true) :=
  ⟨_, rfl, _, rfl, rfl, ((connection_lifecycle ⟨interruptedRun, rfl⟩).2 0 _ rfl).1⟩

end AsioTest.Http
