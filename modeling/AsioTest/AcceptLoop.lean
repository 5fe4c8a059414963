import AsioTest.AsyncSocket
import AsioTest.ComponentRuns

/-!
Servers that accept connections one after the other and have a session for each, when the sessions
have nothing to do with one another. The handler of an accept starts a session unless there was an
error, and in either case accepts again. `start` makes a session of what it gets at that moment, and
`alone` is its step function; a step that is not possible is `none` in both.
-/

namespace AcceptLoop

open AsyncSocket TransitionRuns

/-- A session is named by its position among those started so far. -/
structure Loop (σ : Type*) where
  acceptor_ : Socket Unit := {}
  sessions : List σ := []

inductive LoopEvent (ι ε : Type*) where
  | accept (k : Nat) (r : Completion Unit) (init : ι)
  | session (i : Nat) (e : ε)

/-- What an event is for the session `i`. -/
def LoopEvent.partOf {ι ε : Type*} (i : Nat) : LoopEvent ι ε → List ε
  | .accept _ _ _ => []
  | .session j e => if i = j then [e] else []

/-- What the session that an event starts is made of. -/
def LoopEvent.inits {ι ε : Type*} : LoopEvent ι ε → List ι
  | .accept _ (.success _) init => [init]
  | _ => []

variable {σ ι ε : Type*} (start : ι → Option σ) (alone : σ → ε → Option σ)

namespace Loop

def doAccept (s : Loop σ) : Loop σ := { s with acceptor_ := s.acceptor_.issue () }

/-- The server after its constructor. -/
def listening : Loop σ := ({} : Loop σ).doAccept

def onAccept (s : Loop σ) (r : Completion Unit) (init : ι) : Option (Loop σ) :=
  match r with
  | .success _ => (start init).map fun x => { s with sessions := s.sessions ++ [x] }.doAccept
  | _ => some s.doAccept

def step (s : Loop σ) : LoopEvent ι ε → Option (Loop σ)
  | .accept k r init =>
      (s.acceptor_.finish k r).bind fun p => { s with acceptor_ := p.2 }.onAccept start r init
  | .session i e =>
      (s.sessions[i]?).bind fun x =>
        (alone x e).map fun y => { s with sessions := s.sessions.set i y }

variable {start alone} {s t : Loop σ}

/-- What a step does. -/
inductive Moved (start : ι → Option σ) (alone : σ → ε → Option σ) (s : Loop σ) :
    LoopEvent ι ε → Loop σ → Prop where
  | accepted {k : Nat} {u v : Unit} {init : ι} {x : σ} {acceptor_ : Socket Unit}
      (hfinish : s.acceptor_.finish k (.success u : Completion Unit) = some (v, acceptor_))
      (hx : start init = some x) : Moved start alone s (.accept k (.success u) init)
        { acceptor_ := acceptor_.issue (), sessions := s.sessions ++ [x] }
  | refused {k : Nat} {r : Completion Unit} {v : Unit} {init : ι} {acceptor_ : Socket Unit}
      (hfinish : s.acceptor_.finish k r = some (v, acceptor_)) (hr : ∀ u, r ≠ .success u) :
        Moved start alone s (.accept k r init) { s with acceptor_ := acceptor_.issue () }
  | session {i : Nat} {e : ε} {x y : σ} (hx : s.sessions[i]? = some x) (hy : alone x e = some y) :
        Moved start alone s (.session i e) { s with sessions := s.sessions.set i y }

theorem moved_of_step {e : LoopEvent ι ε} (h : s.step start alone e = some t) :
    Moved start alone s e t := by
  cases e with
  | accept k r init =>
      obtain ⟨⟨u, acceptor_⟩, hfinish, haccept⟩ := Option.bind_eq_some_iff.mp h
      cases r with
      | success v =>
          obtain ⟨x, hx, rfl⟩ := Option.map_eq_some_iff.mp haccept
          exact .accepted hfinish hx
      | aborted =>
          cases haccept
          exact .refused hfinish nofun
      | failed =>
          cases haccept
          exact .refused hfinish nofun
  | session i e =>
      obtain ⟨x, hx, hnext⟩ := Option.bind_eq_some_iff.mp h
      obtain ⟨y, hy, rfl⟩ := Option.map_eq_some_iff.mp hnext
      exact .session hx hy

/-- The acceptor is open, and one accept is outstanding. -/
def Accepting (s : Loop σ) : Prop := s.acceptor_ = { pending := [⟨(), true⟩] }

theorem Accepting.issue {k : Nat} {r : Completion Unit} {v : Unit} {acceptor_ : Socket Unit}
    (hs : s.Accepting) (h : s.acceptor_.finish k r = some (v, acceptor_)) (sessions : List σ) :
    Accepting { acceptor_ := acceptor_.issue (), sessions := sessions } := by
  have hpending : s.acceptor_.pending = [⟨(), true⟩] := by rw [hs]
  obtain ⟨-, -, rfl⟩ := Socket.finish_single hpending h
  rw [Accepting, hs]
  rfl

theorem Accepting.step_success {init : ι} {x : σ} (hs : s.Accepting) (hx : start init = some x) :
    s.step start alone (.accept 0 (.success ()) init) =
      some { s with sessions := s.sessions ++ [x] } := by
  obtain ⟨acceptor_, sessions⟩ := s
  cases hs
  exact congrArg (Option.map _) hx

theorem Accepting.step_failed {init : ι} (hs : s.Accepting) :
    s.step start alone (.accept 0 .failed init) = some s := by
  obtain ⟨acceptor_, sessions⟩ := s
  cases hs
  rfl

/-- There is always one accept outstanding. -/
theorem accepting_run {es : List (LoopEvent ι ε)}
    (h : run (step start alone) listening es = some s) : s.Accepting := by
  have hinit : (listening : Loop σ).Accepting := rfl
  refine run_invariant (I := Accepting) (fun s e t hs ht => ?_) hinit h
  cases moved_of_step ht with
  | accepted hfinish hx => exact hs.issue hfinish _
  | refused hfinish hr => exact hs.issue hfinish _
  | session hx hy => exact hs

/-- There is a session for each connection accepted, in this order, and it is where its own events
lead it alone. -/
structure Recorded (start : ι → Option σ) (alone : σ → ε → Option σ) (es : List (LoopEvent ι ε))
    (s : Loop σ) : Prop where
  length_eq : s.sessions.length = (es.flatMap LoopEvent.inits).length
  alive : ∀ i x, s.sessions[i]? = some x → ∃ init c,
    (es.flatMap LoopEvent.inits)[i]? = some init ∧ start init = some c ∧
      run alone c (es.flatMap (LoopEvent.partOf i)) = some x
  unborn : ∀ i, s.sessions.length ≤ i → es.flatMap (LoopEvent.partOf i) = []

variable {es : List (LoopEvent ι ε)}

/-- An event that neither starts a session nor is one of a session. -/
theorem Recorded.idle {e : LoopEvent ι ε} (hs : Recorded start alone es s) (hinits : e.inits = [])
    (hpart : ∀ i, e.partOf i = []) (acceptor_ : Socket Unit) :
    Recorded start alone (es ++ [e]) { s with acceptor_ := acceptor_ } := by
  constructor
  case length_eq =>
      rw [flatMap_concat, hinits, List.append_nil]
      exact hs.length_eq
  case alive =>
      intro i x hx
      rw [flatMap_concat, hinits, List.append_nil, flatMap_concat, hpart, List.append_nil]
      exact hs.alive i x hx
  case unborn =>
      intro i hi
      rw [flatMap_concat, hpart, List.append_nil]
      exact hs.unborn i hi

theorem Recorded.accepted {k : Nat} {u : Unit} {init : ι} {x : σ} (hs : Recorded start alone es s)
    (hx : start init = some x) (acceptor_ : Socket Unit) :
    Recorded start alone (es ++ [.accept k (.success u) init])
      { acceptor_ := acceptor_, sessions := s.sessions ++ [x] } := by
  have hpart : ∀ i, (es ++ [LoopEvent.accept k (.success u) init]).flatMap (LoopEvent.partOf i) =
      es.flatMap (LoopEvent.partOf i) := by
    intro i
    rw [flatMap_concat]
    exact List.append_nil _
  constructor
  case length_eq =>
      rw [flatMap_concat, List.length_append, List.length_append, hs.length_eq]
      rfl
  case alive =>
      intro i y hy
      rw [hpart, flatMap_concat]
      rcases get_concat_cases hy with ⟨-, hy⟩ | ⟨rfl, rfl⟩
      · obtain ⟨init', c, hinit, hc, hrun⟩ := hs.alive i y hy
        have hlt := (List.getElem?_eq_some_iff.mp hinit).1
        exact ⟨init', c, (List.getElem?_append_left hlt).trans hinit, hc, hrun⟩
      · refine ⟨init, y, ?_, hx, ?_⟩
        · rw [hs.length_eq]
          exact List.getElem?_concat_length
        · rw [hs.unborn _ (Nat.le_refl _)]
          rfl
  case unborn =>
      intro i hi
      rw [hpart]
      rw [List.length_append] at hi
      exact hs.unborn i (Nat.le_of_succ_le hi)

theorem Recorded.session {i : Nat} {e : ε} {x y : σ} (hs : Recorded start alone es s)
    (hx : s.sessions[i]? = some x) (hy : alone x e = some y) :
    Recorded start alone (es ++ [.session i e]) { s with sessions := s.sessions.set i y } := by
  have hlt : i < s.sessions.length := (List.getElem?_eq_some_iff.mp hx).1
  have hinits : (es ++ [LoopEvent.session i e]).flatMap LoopEvent.inits =
      es.flatMap LoopEvent.inits := by
    rw [flatMap_concat]
    exact List.append_nil _
  constructor
  case length_eq =>
      rw [hinits, List.length_set]
      exact hs.length_eq
  case alive =>
      intro j z hz
      rw [hinits, flatMap_concat, LoopEvent.partOf]
      rcases get_set_cases hx hz with ⟨hji, hz⟩ | ⟨rfl, rfl⟩
      · rw [if_neg hji, List.append_nil]
        exact hs.alive j z hz
      · obtain ⟨init, c, hinit, hc, hrun⟩ := hs.alive j x hx
        rw [if_pos rfl]
        exact ⟨init, c, hinit, hc, run_append.mpr ⟨x, hrun, run_singleton.mpr hy⟩⟩
  case unborn =>
      intro j hj
      rw [List.length_set] at hj
      have hji : j ≠ i := Nat.ne_of_gt (Nat.lt_of_lt_of_le hlt hj)
      rw [flatMap_concat, LoopEvent.partOf, if_neg hji, List.append_nil]
      exact hs.unborn j hj

/-- In every run. -/
theorem recorded_run (h : run (step start alone) listening es = some s) :
    Recorded start alone es s := by
  have hinit : Recorded start alone [] (listening : Loop σ) := ⟨rfl, nofun, fun _ _ => rfl⟩
  have hall : Recorded start alone ([] ++ es) s := by
    refine run_history (I := Recorded start alone) (fun es s e t hs ht => ?_) hinit h
    cases moved_of_step ht with
    | accepted hfinish hx => exact hs.accepted hx _
    | @refused k r v init acceptor_ hfinish hr =>
        refine hs.idle ?_ (fun i => rfl) _
        cases r with
        | success u => exact absurd rfl (hr u)
        | aborted => rfl
        | failed => rfl
    | session hx hy => exact hs.session hx hy
  rwa [List.nil_append] at hall

/-- A session that can do nothing more stays as it is. -/
theorem session_kept {i : Nat} {x : σ} (hx : s.sessions[i]? = some x)
    (hended : ∀ e, alone x e = none) (h : run (step start alone) s es = some t) :
    t.sessions[i]? = some x := by
  refine run_invariant (I := fun s : Loop σ => s.sessions[i]? = some x) (fun s e t hs ht => ?_) hx h
  cases moved_of_step ht with
  | accepted hfinish hstart =>
      exact (List.getElem?_append_left (List.getElem?_eq_some_iff.mp hs).1).trans hs
  | refused hfinish hr => exact hs
  | @session j e y z hy hz =>
      refine (List.getElem?_set_ne fun hji => ?_).trans hs
      subst hji
      obtain rfl : y = x := Option.some.inj (hy.symm.trans hs)
      cases (hended e).symm.trans hz

end Loop

end AcceptLoop
