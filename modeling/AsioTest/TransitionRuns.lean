import Mathlib.Data.List.Infix

/-!
Runs of a system given by a partial step function: `step s e` is `none` when the event `e` is not
possible in the state `s`. Properties of whole runs are derived from properties of one step, also
for the runs all of whose steps satisfy a condition, and with an exact criterion: a property holds
in every state visited if and only if every step satisfies the condition.
-/

namespace TransitionRuns

variable {σ ε : Type*} (step : σ → ε → Option σ)

/-- The state after a list of events. -/
def run : σ → List ε → Option σ
  | s, [] => some s
  | s, e :: es => (step s e).bind fun s' => run s' es

@[simp] theorem run_nil (s : σ) : run step s [] = some s := rfl

variable {step}

theorem run_cons {s : σ} {e : ε} {es : List ε} {t : σ} :
    run step s (e :: es) = some t ↔ ∃ s', step s e = some s' ∧ run step s' es = some t := by
  rw [run, Option.bind_eq_some_iff]

theorem run_append {s : σ} {es fs : List ε} {t : σ} :
    run step s (es ++ fs) = some t ↔ ∃ m, run step s es = some m ∧ run step m fs = some t := by
  induction es generalizing s with
  | nil => simp
  | cons e es ih =>
      rw [List.cons_append, run_cons]
      constructor
      · rintro ⟨s', hs, h⟩
        obtain ⟨m, hm, ht⟩ := ih.mp h
        exact ⟨m, run_cons.mpr ⟨s', hs, hm⟩, ht⟩
      · rintro ⟨m, hm, ht⟩
        obtain ⟨s', hs, hm⟩ := run_cons.mp hm
        exact ⟨s', hs, ih.mpr ⟨m, hm, ht⟩⟩

theorem run_singleton {s t : σ} {e : ε} : run step s [e] = some t ↔ step s e = some t := by
  rw [run_cons]
  constructor
  · rintro ⟨s', hs, hnil⟩
    rw [hs, ← hnil, run_nil]
  · intro h
    exact ⟨t, h, rfl⟩

variable (step) in
/-- The states some run from `init` leads to. -/
def Reachable (init s : σ) : Prop := ∃ es, run step init es = some s

theorem Reachable.extend {init s s' : σ} {e : ε} (h : Reachable step init s)
    (hs : step s e = some s') : Reachable step init s' := by
  obtain ⟨es, hes⟩ := h
  exact ⟨es ++ [e], run_append.mpr ⟨s, hes, run_singleton.mpr hs⟩⟩

/-- What every step keeps, every run keeps. -/
theorem run_invariant {I : σ → Prop} (hstep : ∀ s e s', I s → step s e = some s' → I s')
    {s t : σ} {es : List ε} (hs : I s) (h : run step s es = some t) : I t := by
  induction es generalizing s with
  | nil =>
      cases h
      exact hs
  | cons e es ih =>
      obtain ⟨s', hs', h⟩ := run_cons.mp h
      exact ih (hstep s e s' hs hs') h

theorem Reachable.invariant {I : σ → Prop} (hstep : ∀ s e s', I s → step s e = some s' → I s')
    {init s : σ} (hinit : I init) (h : Reachable step init s) : I s := by
  obtain ⟨es, hes⟩ := h
  exact run_invariant hstep hinit hes

/-- What is read off the events one by one, after one more event. -/
theorem flatMap_concat {γ δ : Type*} (f : γ → List δ) (es : List γ) (e : γ) :
    (es ++ [e]).flatMap f = es.flatMap f ++ f e := by
  rw [List.flatMap_append, List.flatMap_singleton]

/-- What the events of a run put out, one after the other. -/
def outputs {ω : Type*} (step : σ → ε → Option σ) (out : σ → ε → List ω) : σ → List ε → List ω
  | _, [] => []
  | s, e :: es => out s e ++
      match step s e with
      | none => []
      | some t => outputs step out t es

/-- What every step keeps of the output so far and the state, every run keeps. -/
theorem run_outputs {ω : Type*} {out : σ → ε → List ω} {I : List ω → σ → Prop}
    (hstep : ∀ past s e s', I past s → step s e = some s' → I (past ++ out s e) s')
    {s t : σ} {past : List ω} {es : List ε} (hs : I past s) (h : run step s es = some t) :
    I (past ++ outputs step out s es) t := by
  induction es generalizing past s with
  | nil =>
      cases h
      rwa [outputs, List.append_nil]
  | cons e es ih =>
      obtain ⟨s', hs', h⟩ := run_cons.mp h
      have hall := ih (hstep past s e s' hs hs') h
      rw [List.append_assoc] at hall
      rwa [outputs, hs']

/-- What a step of the kind `p` uses up of a budget that no step adds to bounds how many of them a
run has. -/
theorem run_countP_le {I : σ → Prop} {p : ε → Bool} {budget : σ → Nat}
    (hI : ∀ s e s', I s → step s e = some s' → I s')
    (hbudget : ∀ s e s', I s → step s e = some s' →
      (if p e then 1 else 0) + budget s' ≤ budget s)
    {s t : σ} {es : List ε} (hs : I s) (h : run step s es = some t) :
    es.countP p + budget t ≤ budget s := by
  induction es generalizing s with
  | nil =>
      cases h
      rw [List.countP_nil, Nat.zero_add]
  | cons e es ih =>
      obtain ⟨s', hs', h⟩ := run_cons.mp h
      have hstep := hbudget s e s' hs hs'
      have hrest := ih (hI s e s' hs hs') h
      rw [List.countP_cons]
      omega

/-! ### Runs whose steps satisfy a condition -/

variable (step) in
/-- `P` holds in every state the run visits, its first and last included. -/
def Always (P : σ → Prop) (s : σ) (es : List ε) : Prop :=
  ∀ pre t, pre <+: es → run step s pre = some t → P t

variable (step) in
/-- Every step of the run is taken in a state, and with an event, that satisfy `G`. -/
def Throughout (G : σ → ε → Prop) (s : σ) (es : List ε) : Prop :=
  ∀ pre e t, pre ++ [e] <+: es → run step s pre = some t → G t e

theorem always_nil {P : σ → Prop} {s : σ} : Always step P s [] ↔ P s := by
  constructor
  · intro h
    exact h [] s List.prefix_rfl rfl
  · intro h pre t hpre ht
    rw [List.prefix_nil.mp hpre] at ht
    cases ht
    exact h

theorem always_cons {P : σ → Prop} {s : σ} {e : ε} {es : List ε} :
    Always step P s (e :: es) ↔ P s ∧ ∀ s', step s e = some s' → Always step P s' es := by
  constructor
  · intro h
    refine ⟨h [] s List.nil_prefix rfl, fun s' hs' pre t hpre ht => ?_⟩
    exact h (e :: pre) t (List.cons_prefix_cons.mpr ⟨rfl, hpre⟩) (run_cons.mpr ⟨s', hs', ht⟩)
  · rintro ⟨hs, h⟩ pre t hpre ht
    cases pre with
    | nil =>
        cases ht
        exact hs
    | cons a pre =>
        obtain ⟨rfl, htail⟩ := List.cons_prefix_cons.mp hpre
        obtain ⟨s', hs', ht⟩ := run_cons.mp ht
        exact h s' hs' pre t htail ht

theorem throughout_nil {G : σ → ε → Prop} {s : σ} : Throughout step G s [] := by
  intro pre e t hpre
  have hlen := hpre.length_le
  simp at hlen

theorem throughout_cons {G : σ → ε → Prop} {s : σ} {e : ε} {es : List ε} :
    Throughout step G s (e :: es) ↔
      G s e ∧ ∀ s', step s e = some s' → Throughout step G s' es := by
  constructor
  · intro h
    refine ⟨h [] e s (List.cons_prefix_cons.mpr ⟨rfl, List.nil_prefix⟩) rfl, ?_⟩
    intro s' hs' pre a t hpre ht
    exact h (e :: pre) a t (List.cons_prefix_cons.mpr ⟨rfl, hpre⟩) (run_cons.mpr ⟨s', hs', ht⟩)
  · rintro ⟨hs, h⟩ pre a t hpre ht
    cases pre with
    | nil =>
        cases ht
        obtain ⟨rfl, -⟩ := List.cons_prefix_cons.mp hpre
        exact hs
    | cons b pre =>
        obtain ⟨rfl, htail⟩ := List.cons_prefix_cons.mp hpre
        obtain ⟨s', hs', ht⟩ := run_cons.mp ht
        exact h s' hs' pre a t htail ht

instance decidableThroughout {G : σ → ε → Prop} [∀ s e, Decidable (G s e)] :
    (s : σ) → (es : List ε) → Decidable (Throughout step G s es)
  | _, [] => .isTrue throughout_nil
  | s, e :: es =>
      match hs : step s e with
      | none => decidable_of_iff (G s e)
          ⟨fun hG => throughout_cons.mpr ⟨hG, fun _ ht => nomatch hs.symm.trans ht⟩,
            fun h => (throughout_cons.mp h).1⟩
      | some t =>
          have : Decidable (Throughout step G t es) := decidableThroughout t es
          decidable_of_iff (G s e ∧ Throughout step G t es)
            ⟨fun h => throughout_cons.mpr
              ⟨h.1, fun _ ht => Option.some.inj (hs.symm.trans ht) ▸ h.2⟩,
            fun h => ⟨(throughout_cons.mp h).1, (throughout_cons.mp h).2 t hs⟩⟩

/-- A condition on the events alone. -/
theorem throughout_of_forall_mem {A : ε → Prop} {es : List ε} (h : ∀ e ∈ es, A e) (s : σ) :
    Throughout step (fun _ e => A e) s es := fun pre e _ hpre _ =>
  h e (hpre.subset (List.mem_append_right pre List.mem_cons_self))

/-- A condition that every step satisfies. -/
theorem throughout_of_step {G : σ → ε → Prop} (hstep : ∀ s e t, step s e = some t → G s e)
    {s t : σ} {es : List ε} (h : run step s es = some t) : Throughout step G s es := by
  induction es generalizing s with
  | nil => exact throughout_nil
  | cons e es ih =>
      obtain ⟨s', hs', h⟩ := run_cons.mp h
      refine throughout_cons.mpr ⟨hstep s e s' hs', fun t' ht' => ?_⟩
      obtain rfl : s' = t' := Option.some.inj (hs'.symm.trans ht')
      exact ih h

/-- What every step under the condition keeps of the events so far and the state, every run under
the condition keeps. -/
theorem run_history_of_throughout {I : List ε → σ → Prop} {G : σ → ε → Prop}
    (hstep : ∀ es s e s', I es s → G s e → step s e = some s' → I (es ++ [e]) s')
    {s t : σ} {past es : List ε} (hs : I past s) (h : run step s es = some t)
    (hG : Throughout step G s es) : I (past ++ es) t := by
  induction es generalizing past s with
  | nil =>
      cases h
      rwa [List.append_nil]
  | cons e es ih =>
      obtain ⟨s', hs', h⟩ := run_cons.mp h
      obtain ⟨hGe, hGtail⟩ := throughout_cons.mp hG
      have hall := ih (hstep past s e s' hs hGe hs') h (hGtail s' hs')
      rwa [List.append_assoc, List.singleton_append] at hall

/-- What every step keeps of the events so far and the state, every run keeps. -/
theorem run_history {I : List ε → σ → Prop}
    (hstep : ∀ es s e s', I es s → step s e = some s' → I (es ++ [e]) s')
    {s t : σ} {past es : List ε} (hs : I past s) (h : run step s es = some t) :
    I (past ++ es) t :=
  run_history_of_throughout (G := fun _ _ => True) (fun es s e s' hs _ => hstep es s e s' hs) hs h
    (throughout_of_step (fun _ _ _ _ => trivial) h)

/-- What every step under the condition keeps, every run under the condition keeps. -/
theorem always_of_throughout {I P : σ → Prop} {G : σ → ε → Prop}
    (hstep : ∀ s e s', I s → G s e → step s e = some s' → I s') (hP : ∀ s, I s → P s)
    {s : σ} {es : List ε} (hs : I s) (h : Throughout step G s es) : Always step P s es := by
  induction es generalizing s with
  | nil => exact always_nil.mpr (hP s hs)
  | cons e es ih =>
      obtain ⟨hG, htail⟩ := throughout_cons.mp h
      refine always_cons.mpr ⟨hP s hs, fun s' hs' => ?_⟩
      exact ih (hstep s e s' hs hG hs') (htail s' hs')

/-- When a step outside the condition breaks `P` at once, the condition is exact: in a run that
is possible to its end, and whose steps all satisfy `A`, `P` holds in every state visited iff every
step satisfies `G`. -/
theorem always_iff_throughout {I P : σ → Prop} {A G : σ → ε → Prop}
    (hstep : ∀ s e s', I s → A s e → G s e → step s e = some s' → I s') (hP : ∀ s, I s → P s)
    (hbreak : ∀ s e s', I s → A s e → ¬ G s e → step s e = some s' → ¬ P s')
    {s t : σ} {es : List ε} (hs : I s) (h : run step s es = some t) (hA : Throughout step A s es) :
    Always step P s es ↔ Throughout step G s es := by
  constructor
  · intro hP'
    induction es generalizing s with
    | nil => exact throughout_nil
    | cons e es ih =>
        obtain ⟨s', hs', h⟩ := run_cons.mp h
        obtain ⟨hAe, hAtail⟩ := throughout_cons.mp hA
        have htail := (always_cons.mp hP').2 s' hs'
        have hG : G s e := by
          by_contra hnot
          exact hbreak s e s' hs hAe hnot hs' (htail [] s' List.nil_prefix rfl)
        refine throughout_cons.mpr ⟨hG, fun s'' hs'' => ?_⟩
        obtain rfl : s' = s'' := Option.some.inj (hs'.symm.trans hs'')
        exact ih (hstep s e s' hs hAe hG hs') h (hAtail s' hs') htail
  · intro hG
    exact always_of_throughout (G := fun s e => A s e ∧ G s e)
      (fun s e s' hs hAG => hstep s e s' hs hAG.1 hAG.2) hP hs
      fun pre e t hpre ht => ⟨hA pre e t hpre ht, hG pre e t hpre ht⟩

/-! ### Runs with undefined steps -/

/-- A state, or `undefined` when a step was not allowed: of what follows nothing is known. -/
inductive Behaviour (σ : Type*) where
  | defined (s : σ)
  | undefined

/-- The steps of `step`, which are defined as far as `Allowed` holds of them. -/
def checked (step : σ → ε → Option σ) (Allowed : σ → ε → σ → Prop)
    [∀ s e t, Decidable (Allowed s e t)] : Behaviour σ → ε → Option (Behaviour σ)
  | .defined s, e => (step s e).map fun t => if Allowed s e t then .defined t else .undefined
  | .undefined, _ => none

section Checked

variable {Allowed : σ → ε → σ → Prop} [∀ s e t, Decidable (Allowed s e t)]

theorem checked_eq_defined {s t : σ} {e : ε} :
    checked step Allowed (.defined s) e = some (.defined t) ↔
      step s e = some t ∧ Allowed s e t := by
  rw [checked, Option.map_eq_some_iff]
  constructor
  · rintro ⟨t', ht', heq⟩
    split_ifs at heq with hallowed
    cases heq
    exact ⟨ht', hallowed⟩
  · rintro ⟨ht, hallowed⟩
    exact ⟨t, ht, if_pos hallowed⟩

/-- A run to a defined state is a run of allowed steps. -/
theorem run_of_checked {s t : σ} {es : List ε}
    (h : run (checked step Allowed) (.defined s) es = some (.defined t)) :
    run step s es = some t := by
  induction es generalizing s with
  | nil =>
      cases h
      rfl
  | cons e es ih =>
      obtain ⟨b, hb, hrest⟩ := run_cons.mp h
      cases b with
      | defined s' => exact run_cons.mpr ⟨s', (checked_eq_defined.mp hb).1, ih hrest⟩
      | undefined =>
          -- nothing follows an undefined step
          cases es with
          | nil => cases hrest
          | cons e' es => cases hrest

end Checked

end TransitionRuns
