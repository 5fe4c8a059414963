import AsioTest.TransitionRuns

/-!
Processes that send each other messages through a network that may lose, repeat and reorder them.
One step of the processes takes at most one message that is under way and sends any number of new
ones. What every step of the processes keeps, of what they have done so far and of the messages
sent, holds in every run, whatever the network does.
-/

namespace DatagramNetwork

open TransitionRuns

/-- The steps of the processes, the message that an event takes, and those that it sends. -/
structure Processes (σ ε μ : Type*) where
  step : σ → ε → Option σ
  takes : ε → Option μ
  sends : σ → ε → List μ

structure Network (σ μ : Type*) where
  processes : σ
  underWay : List μ := []

/-- The network loses or repeats the `k`-th message under way. -/
inductive NetworkEvent (ε : Type*) where
  | act (e : ε)
  | lose (k : Nat)
  | double (k : Nat)

variable {σ ε μ : Type*}

def NetworkEvent.action : NetworkEvent ε → List ε
  | .act e => [e]
  | .lose _ | .double _ => []

namespace Network

variable [DecidableEq μ] (P : Processes σ ε μ)

/-- The messages under way without the one that is taken, if it is under way. -/
def take (underWay : List μ) : Option μ → Option (List μ)
  | none => some underWay
  | some m => if m ∈ underWay then some (underWay.erase m) else none

def step (s : Network σ μ) : NetworkEvent ε → Option (Network σ μ)
  | .act e =>
      (take s.underWay (P.takes e)).bind fun left =>
        (P.step s.processes e).map fun t => ⟨t, left ++ P.sends s.processes e⟩
  | .lose k =>
      if k < s.underWay.length then some { s with underWay := s.underWay.eraseIdx k } else none
  | .double k => s.underWay[k]?.map fun m => { s with underWay := s.underWay ++ [m] }

variable {P} {s t : Network σ μ} {e : ε} {m : μ} {underWay left : List μ} {taken : Option μ}

theorem take_eq_some (h : take underWay taken = some left) :
    (∀ m ∈ taken, m ∈ underWay) ∧ ∀ m ∈ left, m ∈ underWay := by
  cases taken with
  | none =>
      cases h
      exact ⟨nofun, fun _ hm => hm⟩
  | some m =>
      rw [take] at h
      split_ifs at h with hmem
      cases h
      refine ⟨fun m' hm' => ?_, fun _ hm' => List.mem_of_mem_erase hm'⟩
      cases hm'
      exact hmem

/-- What is under way after a step was under way before, or is sent in it. -/
theorem step_act (h : s.step P (.act e) = some t) :
    (∀ m ∈ P.takes e, m ∈ s.underWay) ∧ P.step s.processes e = some t.processes ∧
    ∀ m ∈ t.underWay, m ∈ s.underWay ∨ m ∈ P.sends s.processes e := by
  obtain ⟨left, hleft, h⟩ := Option.bind_eq_some_iff.mp h
  obtain ⟨p, hp, rfl⟩ := Option.map_eq_some_iff.mp h
  obtain ⟨htaken, hkept⟩ := take_eq_some hleft
  exact ⟨htaken, hp, fun m hm => (List.mem_append.mp hm).imp (hkept m) id⟩

theorem step_lose {k : Nat} (h : s.step P (.lose k) = some t) :
    t.processes = s.processes ∧ ∀ m ∈ t.underWay, m ∈ s.underWay := by
  simp only [step] at h
  split_ifs at h
  cases h
  exact ⟨rfl, fun _ hm => List.mem_of_mem_eraseIdx hm⟩

theorem step_double {k : Nat} (h : s.step P (.double k) = some t) :
    t.processes = s.processes ∧ ∀ m ∈ t.underWay, m ∈ s.underWay := by
  obtain ⟨m, hm, rfl⟩ := Option.map_eq_some_iff.mp h
  refine ⟨rfl, fun m' hm' => ?_⟩
  obtain hold | hnew := List.mem_append.mp hm'
  · exact hold
  · rw [List.mem_singleton.mp hnew]
    exact List.mem_of_getElem? hm

/-- If the processes keep `I`, of their events so far and their state, and `M` holds of what they
send, where they rely on `M` for what they take and it goes on to hold, then every run keeps
both. -/
theorem run_valid {I : List ε → σ → Prop} {M : List ε → μ → Prop}
    (hstep : ∀ es s e t, I es s → (∀ m ∈ P.takes e, M es m) → P.step s e = some t →
      I (es ++ [e]) t ∧ (∀ m, M es m → M (es ++ [e]) m) ∧ ∀ m ∈ P.sends s e, M (es ++ [e]) m)
    {p : σ} (hp : I [] p) {es : List (NetworkEvent ε)} (h : run (step P) ⟨p, []⟩ es = some s) :
    I (es.flatMap NetworkEvent.action) s.processes ∧
    ∀ m ∈ s.underWay, M (es.flatMap NetworkEvent.action) m := by
  let J : List (NetworkEvent ε) → Network σ μ → Prop := fun es s =>
    I (es.flatMap NetworkEvent.action) s.processes ∧
    ∀ m ∈ s.underWay, M (es.flatMap NetworkEvent.action) m
  have hinit : J [] ⟨p, []⟩ := ⟨hp, nofun⟩
  suffices hkeeps : ∀ es s e t, J es s → s.step P e = some t → J (es ++ [e]) t by
    have hall := run_history hkeeps hinit h
    rwa [List.nil_append] at hall
  intro es s e t ⟨hI, hM⟩ ht
  simp only [J, List.flatMap_append, List.flatMap_singleton]
  cases e with
  | act e =>
      obtain ⟨htaken, hprocesses, hunder⟩ := step_act ht
      obtain ⟨hI', hkept, hsent⟩ :=
        hstep _ _ e _ hI (fun m hm => hM m (htaken m hm)) hprocesses
      refine ⟨hI', fun m hm => ?_⟩
      exact (hunder m hm).elim (fun hold => hkept m (hM m hold)) (hsent m)
  | lose k =>
      obtain ⟨hsame, hunder⟩ := step_lose ht
      rw [NetworkEvent.action, List.append_nil, hsame]
      exact ⟨hI, fun m hm => hM m (hunder m hm)⟩
  | double k =>
      obtain ⟨hsame, hunder⟩ := step_double ht
      rw [NetworkEvent.action, List.append_nil, hsame]
      exact ⟨hI, fun m hm => hM m (hunder m hm)⟩

end Network

end DatagramNetwork
