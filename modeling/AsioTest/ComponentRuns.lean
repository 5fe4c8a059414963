import AsioTest.TransitionRuns
import Mathlib.Algebra.GroupWithZero.Nat

/-!
Systems of components. A component is created in the course of a run, and from then on takes part in
some of the events: `view s` is its state, `none` before it exists, and `part s e` is what the event
`e` in the state `s` is for it. If every step is, for the component, a run of its own step function
on its part of the event, then so is every run: whatever else happens in between, the component is
in the state it would have reached alone. So what holds of it alone holds of it in the system.
-/

namespace TransitionRuns

variable {σ ε τ η : Type*}

/-- How a component lives in a system: it is created in a state `Starts` holds of, and a step of the
system is for it a run of `alone`. -/
structure Component (step : σ → ε → Option σ) (view : σ → Option τ) (alone : τ → η → Option τ)
    (part : σ → ε → List η) (Starts : τ → Prop) : Prop where
  moves : ∀ s e t c, step s e = some t → view s = some c →
    ∃ d, view t = some d ∧ run alone c (part s e) = some d
  starts : ∀ s e t d, step s e = some t → view s = none → view t = some d → Starts d

/-- The part of a component in a run, from its creation on. -/
def life (step : σ → ε → Option σ) (view : σ → Option τ) (part : σ → ε → List η) :
    σ → List ε → List η
  | _, [] => []
  | s, e :: es => (if (view s).isSome then part s e else []) ++
      match step s e with
      | none => []
      | some t => life step view part t es

variable {step : σ → ε → Option σ} {view : σ → Option τ} {alone : τ → η → Option τ}
  {part : σ → ε → List η} {Starts : τ → Prop}

theorem life_cons {s t : σ} {e : ε} (h : step s e = some t) (es : List ε) :
    life step view part s (e :: es) =
      (if (view s).isSome then part s e else []) ++ life step view part t es := by
  rw [life, h]

/-- While a component exists, a run of the system is a run of the component. -/
theorem Component.run_of_exists (hcomp : Component step view alone part Starts) {s t : σ}
    {es : List ε} {c : τ} (hc : view s = some c) (h : run step s es = some t) :
    ∃ d, view t = some d ∧ run alone c (life step view part s es) = some d := by
  induction es generalizing s c with
  | nil =>
      cases h
      exact ⟨c, hc, rfl⟩
  | cons e es ih =>
      obtain ⟨s', hs', h⟩ := run_cons.mp h
      obtain ⟨c', hc', hmove⟩ := hcomp.moves s e s' c hs' hc
      obtain ⟨d, hd, hrest⟩ := ih hc' h
      refine ⟨d, hd, ?_⟩
      rw [life_cons hs', hc]
      exact run_append.mpr ⟨c', hmove, hrest⟩

/-- A component that a run creates is where its life leads it from where it was created. -/
theorem Component.run_of_created (hcomp : Component step view alone part Starts) {s t : σ}
    {es : List ε} {d : τ} (hs : view s = none) (h : run step s es = some t)
    (hd : view t = some d) :
    ∃ c, Starts c ∧ run alone c (life step view part s es) = some d := by
  induction es generalizing s with
  | nil =>
      cases h
      cases hs.symm.trans hd
  | cons e es ih =>
      obtain ⟨s', hs', h⟩ := run_cons.mp h
      have hnone : (view s).isSome = false := by
        rw [hs]
        rfl
      rw [life_cons hs', hnone]
      cases hview : view s' with
      | none => exact ih hview h
      | some c =>
          obtain ⟨d', hd', hrun⟩ := hcomp.run_of_exists hview h
          obtain rfl : d = d' := Option.some.inj (hd.symm.trans hd')
          exact ⟨c, hcomp.starts s e s' c hs' hs hview, hrun⟩

/-- What holds of every state a component can reach alone holds of it in the system. -/
theorem Component.reachable (hcomp : Component step view alone part Starts) {init s : σ} {d : τ}
    (hinit : view init = none) (h : Reachable step init s) (hd : view s = some d) :
    ∃ c, Starts c ∧ Reachable alone c d := by
  obtain ⟨es, hes⟩ := h
  obtain ⟨c, hc, hrun⟩ := hcomp.run_of_created hinit hes hd
  exact ⟨c, hc, _, hrun⟩

/-- What is read off the events alone, and is nothing of an event in which the component does not
exist, is read off its life. -/
theorem flatMap_life {β : Type*} (read : ε → List β) (readPart : η → List β)
    (hpart : ∀ s e t c, step s e = some t → view s = some c →
      (part s e).flatMap readPart = read e)
    (hnone : ∀ s e t, step s e = some t → view s = none → read e = [])
    {s t : σ} {es : List ε} (h : run step s es = some t) :
    (life step view part s es).flatMap readPart = es.flatMap read := by
  induction es generalizing s with
  | nil => rfl
  | cons e es ih =>
      obtain ⟨s', hs', h⟩ := run_cons.mp h
      rw [life_cons hs', List.flatMap_append, List.flatMap_cons, ih h]
      congr 1
      cases hview : view s with
      | none => exact (hnone s e s' hs' hview).symm
      | some c => exact hpart s e s' c hs' hview

/-! ### Components in a list, each named by its position -/

section Positions

variable {xs : List τ} {i j : Nat} {x y z : τ}

theorem get_set_cases (hx : xs[i]? = some x) (h : (xs.set i y)[j]? = some z) :
    j ≠ i ∧ xs[j]? = some z ∨ j = i ∧ z = y := by
  by_cases hji : j = i
  · subst hji
    rw [List.getElem?_set_self (List.getElem?_eq_some_iff.mp hx).1] at h
    exact Or.inr ⟨rfl, (Option.some.inj h).symm⟩
  · rw [List.getElem?_set_ne fun heq => hji heq.symm] at h
    exact Or.inl ⟨hji, h⟩

theorem get_set_none (hx : xs[i]? = some x) (h : (xs.set i y)[j]? = none) :
    j ≠ i ∧ xs[j]? = none := by
  have hlt := (List.getElem?_eq_some_iff.mp hx).1
  have hle := List.getElem?_eq_none_iff.mp h
  rw [List.length_set] at hle
  exact ⟨by omega, List.getElem?_eq_none hle⟩

theorem get_concat_cases (h : (xs ++ [y])[j]? = some z) :
    j ≠ xs.length ∧ xs[j]? = some z ∨ j = xs.length ∧ z = y := by
  rcases Nat.lt_or_ge j xs.length with hlt | hge
  · rw [List.getElem?_append_left hlt] at h
    exact Or.inl ⟨Nat.ne_of_lt hlt, h⟩
  · have hlen := (List.getElem?_eq_some_iff.mp h).1
    rw [List.length_append, List.length_singleton] at hlen
    obtain rfl : j = xs.length := by omega
    rw [List.getElem?_concat_length] at h
    exact Or.inr ⟨rfl, (Option.some.inj h).symm⟩

theorem get_concat_none (h : (xs ++ [y])[j]? = none) : j ≠ xs.length ∧ xs[j]? = none := by
  have hle := List.getElem?_eq_none_iff.mp h
  rw [List.length_append, List.length_singleton] at hle
  exact ⟨by omega, List.getElem?_eq_none (Nat.le_of_succ_le hle)⟩

theorem modify_set (xs : List τ) (i : Nat) (y : τ) (f : τ → τ) :
    (xs.set i y).modify i f = xs.set i (f y) := by
  apply List.ext_getElem?
  intro j
  by_cases hij : i = j
  · subst hij
    simp [List.getElem?_set']
  · simp [hij]

/-- Replacing one component changes a sum over all by what it adds. -/
theorem sum_map_set (f : τ → Nat) (hx : xs[i]? = some x) (y : τ) :
    ((xs.set i y).map f).sum + f x = (xs.map f).sum + f y := by
  induction xs generalizing i with
  | nil => cases hx
  | cons a xs ih =>
      cases i with
      | zero =>
          cases hx
          simp only [List.set_cons_zero, List.map_cons, List.sum_cons]
          omega
      | succ i =>
          have hrest := ih (i := i) hx
          simp only [List.set_cons_succ, List.map_cons, List.sum_cons]
          omega

end Positions

/-! ### Two systems side by side -/

/-- Two systems that share nothing but the loop their events come from. -/
def both {υ ι : Type*} (f : σ → ε → Option σ) (g : υ → ι → Option υ) (s : σ × υ) :
    ε ⊕ ι → Option (σ × υ)
  | .inl e => (f s.1 e).map fun a => (a, s.2)
  | .inr e => (g s.2 e).map fun b => (s.1, b)

/-- A run of both is a run of each on its own events, and any two such runs go together in any
order. -/
theorem run_both {υ ι : Type*} {f : σ → ε → Option σ} {g : υ → ι → Option υ} {s t : σ × υ}
    {es : List (ε ⊕ ι)} : run (both f g) s es = some t ↔
      run f s.1 (es.filterMap Sum.getLeft?) = some t.1 ∧
        run g s.2 (es.filterMap Sum.getRight?) = some t.2 := by
  induction es generalizing s with
  | nil =>
      show some s = some t ↔ some s.1 = some t.1 ∧ some s.2 = some t.2
      rw [Option.some.injEq, Option.some.injEq, Option.some.injEq, Prod.ext_iff]
  | cons e es ih =>
      rw [run_cons]
      cases e with
      | inl e =>
          show (∃ m, (f s.1 e).map (fun a => (a, s.2)) = some m ∧ _) ↔
            run f s.1 (e :: es.filterMap Sum.getLeft?) = some t.1 ∧ _
          simp only [ih, run_cons, Option.map_eq_some_iff]
          constructor
          · rintro ⟨_, ⟨a, ha, rfl⟩, hleft, hright⟩
            exact ⟨⟨a, ha, hleft⟩, hright⟩
          · rintro ⟨⟨a, ha, hleft⟩, hright⟩
            exact ⟨_, ⟨a, ha, rfl⟩, hleft, hright⟩
      | inr e =>
          show (∃ m, (g s.2 e).map (fun b => (s.1, b)) = some m ∧ _) ↔
            _ ∧ run g s.2 (e :: es.filterMap Sum.getRight?) = some t.2
          simp only [ih, run_cons, Option.map_eq_some_iff]
          constructor
          · rintro ⟨_, ⟨b, hb, rfl⟩, hleft, hright⟩
            exact ⟨hleft, b, hb, hright⟩
          · rintro ⟨hleft, b, hb, hright⟩
            exact ⟨_, ⟨b, hb, rfl⟩, hleft, hright⟩

end TransitionRuns
