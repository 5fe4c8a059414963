import Mathlib.Computability.Language

/-!
Incremental recognisers. A step function reads one symbol and accepts, rejects or asks for more;
`scan` feeds it a list and stops at the first decision. The words of a state are the inputs it
accepts exactly at their last symbol. They are prefix free, and when every state that asks for
more still has a word, the three verdicts are decided by the words alone: accept at the prefix
that is a word, reject at the first prefix that no word extends, ask for more on the proper
prefixes of words. A scan that asks for more goes on with the next piece of the input as one scan
of the whole does, and states that a relation holds together are scanned alike.
-/

namespace IncrementalScan

/-- What a recogniser says after one symbol, or after all it was given. -/
inductive Verdict where
  | accept
  | reject
  | more
  deriving DecidableEq

/-- The result of a scan; `rest` is the input behind the deciding symbol. -/
structure Outcome (σ α : Type*) where
  verdict : Verdict
  state : σ
  rest : List α

variable {σ α : Type*} (step : σ → α → Verdict × σ)

def scan : σ → List α → Outcome σ α
  | s, [] => ⟨.more, s, []⟩
  | s, a :: as =>
      match step s a with
      | (.more, s') => scan s' as
      | (v, s') => ⟨v, s', as⟩

@[simp] theorem scan_nil (s : σ) : scan step s [] = ⟨.more, s, []⟩ := rfl

variable {step}

theorem scan_cons_more {s s' : σ} {a : α} (h : step s a = (.more, s')) (as : List α) :
    scan step s (a :: as) = scan step s' as := by
  simp only [scan, h]

theorem scan_cons_decided {s s' : σ} {a : α} {v : Verdict} (h : step s a = (v, s'))
    (hv : v ≠ .more) (as : List α) : scan step s (a :: as) = ⟨v, s', as⟩ := by
  cases v with
  | accept => simp only [scan, h]
  | reject => simp only [scan, h]
  | more => exact absurd rfl hv

theorem scan_more_rest {s : σ} {xs : List α} (h : (scan step s xs).verdict = .more) :
    (scan step s xs).rest = [] := by
  induction xs generalizing s with
  | nil => rfl
  | cons a as ih =>
      rcases hstep : step s a with ⟨v, s'⟩
      by_cases hv : v = .more
      · subst hv
        rw [scan_cons_more hstep] at h ⊢
        exact ih h
      · rw [scan_cons_decided hstep hv] at h
        exact absurd h hv

theorem scan_eq_of_more {s : σ} {xs : List α} (h : (scan step s xs).verdict = .more) :
    scan step s xs = ⟨.more, (scan step s xs).state, []⟩ := by
  rw [← h, ← scan_more_rest h]

/-- A scan that is not decided goes on with what follows. -/
theorem scan_append_of_more {s : σ} {xs : List α} (h : (scan step s xs).verdict = .more)
    (ys : List α) : scan step s (xs ++ ys) = scan step (scan step s xs).state ys := by
  induction xs generalizing s with
  | nil => rfl
  | cons a as ih =>
      rcases hstep : step s a with ⟨v, s'⟩
      by_cases hv : v = .more
      · subst hv
        rw [scan_cons_more hstep] at h ⊢
        rw [List.cons_append, scan_cons_more hstep]
        exact ih h
      · rw [scan_cons_decided hstep hv] at h
        exact absurd h hv

/-- A decided scan does not look at what follows. -/
theorem scan_append_of_decided {s : σ} {xs : List α} (h : (scan step s xs).verdict ≠ .more)
    (ys : List α) : scan step s (xs ++ ys) =
      ⟨(scan step s xs).verdict, (scan step s xs).state, (scan step s xs).rest ++ ys⟩ := by
  induction xs generalizing s with
  | nil => exact absurd rfl h
  | cons a as ih =>
      rcases hstep : step s a with ⟨v, s'⟩
      by_cases hv : v = .more
      · subst hv
        rw [scan_cons_more hstep] at h ⊢
        rw [List.cons_append, scan_cons_more hstep]
        exact ih h
      · rw [List.cons_append, scan_cons_decided hstep hv, scan_cons_decided hstep hv]

/-- The input of a scan is what it read followed by the rest, and reading just that gives the
same decision. -/
theorem scan_split {s s' : σ} {xs rest : List α} {v : Verdict}
    (h : scan step s xs = ⟨v, s', rest⟩) : ∃ p, xs = p ++ rest ∧ scan step s p = ⟨v, s', []⟩ := by
  induction xs generalizing s with
  | nil =>
      cases h
      exact ⟨[], rfl, rfl⟩
  | cons a as ih =>
      rcases hstep : step s a with ⟨u, t⟩
      by_cases hu : u = .more
      · subst hu
        rw [scan_cons_more hstep] at h
        obtain ⟨p, hp, hscan⟩ := ih h
        exact ⟨a :: p, by rw [hp, List.cons_append], by rw [scan_cons_more hstep, hscan]⟩
      · rw [scan_cons_decided hstep hu] at h
        cases h
        exact ⟨[a], rfl, scan_cons_decided hstep hu []⟩

theorem scan_append_of_eq {s s' : σ} {p : List α} {v : Verdict}
    (h : scan step s p = ⟨v, s', []⟩) (hv : v ≠ .more) (rest : List α) :
    scan step s (p ++ rest) = ⟨v, s', rest⟩ := by
  rw [scan_append_of_decided (by rw [h]; exact hv), h, List.nil_append]

theorem scan_more_append {s s' : σ} {p : List α} (h : scan step s p = ⟨.more, s', []⟩)
    (rest : List α) : scan step s (p ++ rest) = scan step s' rest := by
  rw [scan_append_of_more (by rw [h]), h]

/-- A state that a class of symbols leads round in a loop, collecting them. -/
theorem scan_loop {f : List α → σ} {P : α → Prop}
    (hstep : ∀ l a, P a → step (f l) a = (.more, f (l ++ [a]))) (l m : List α)
    (hm : ∀ a ∈ m, P a) (rest : List α) : scan step (f l) (m ++ rest) =
      scan step (f (l ++ m)) rest := by
  induction m generalizing l with
  | nil => rw [List.nil_append, List.append_nil]
  | cons a m ih =>
      rw [List.cons_append, scan_cons_more (hstep l a (hm a List.mem_cons_self)),
        ih (l ++ [a]) (fun b hb => hm b (List.mem_cons_of_mem a hb)), List.append_assoc,
        List.singleton_append]

/-- A relation between the symbols read and the state, kept by every undecided step, holds after
every undecided scan. -/
theorem scan_more_invariant {I : List α → σ → Prop}
    (hstep : ∀ c s a s', I c s → step s a = (.more, s') → I (c ++ [a]) s')
    {c : List α} {s s' : σ} (hs : I c s) {xs : List α}
    (h : scan step s xs = ⟨.more, s', []⟩) : I (c ++ xs) s' := by
  induction xs generalizing c s with
  | nil =>
      cases h
      rwa [List.append_nil]
  | cons a as ih =>
      rcases hv : step s a with ⟨v, t⟩
      by_cases hmore : v = .more
      · subst hmore
        rw [scan_cons_more hv] at h
        have := ih (hstep c s a t hs hv) h
        rwa [List.append_assoc, List.singleton_append] at this
      · rw [scan_cons_decided hv hmore] at h
        cases h
        exact absurd rfl hmore

/-- The last step of a decided scan is taken from an undecided one. -/
theorem scan_decided_last {s s' : σ} {p : List α} {v : Verdict}
    (h : scan step s p = ⟨v, s', []⟩) (hv : v ≠ .more) :
    ∃ q a t, p = q ++ [a] ∧ scan step s q = ⟨.more, t, []⟩ ∧ step t a = (v, s') := by
  induction p generalizing s with
  | nil =>
      cases h
      exact absurd rfl hv
  | cons a as ih =>
      rcases hu : step s a with ⟨u, t⟩
      by_cases hmore : u = .more
      · subst hmore
        rw [scan_cons_more hu] at h
        obtain ⟨q, b, r, hq, hscan, hlast⟩ := ih h
        exact ⟨a :: q, b, r, by rw [hq, List.cons_append], by rw [scan_cons_more hu, hscan], hlast⟩
      · rw [scan_cons_decided hu hmore] at h
        cases h
        exact ⟨[], a, s, rfl, rfl, hu⟩

/-! ### The words of a state -/

variable (step) in
/-- The inputs accepted exactly at their last symbol. -/
def words (s : σ) : Language α := {w | ∃ s', scan step s w = ⟨.accept, s', []⟩}

/-- A prefix that no word extends. -/
def Dead (L : Language α) (p : List α) : Prop := ∀ w ∈ L, ¬ p <+: w

/-- The shortest prefix of the input that no word extends. -/
def ShortestDead (L : Language α) (s p : List α) : Prop :=
  p <+: s ∧ Dead L p ∧ ∀ q, q <+: s → Dead L q → p <+: q

theorem accept_iff {s : σ} {xs rest : List α} :
    (∃ s', scan step s xs = ⟨.accept, s', rest⟩) ↔ ∃ p ∈ words step s, xs = p ++ rest := by
  constructor
  · rintro ⟨s', h⟩
    obtain ⟨p, hp, hscan⟩ := scan_split h
    exact ⟨p, ⟨s', hscan⟩, hp⟩
  · rintro ⟨p, ⟨s', hscan⟩, rfl⟩
    exact ⟨s', scan_append_of_eq hscan (by decide) rest⟩

/-- A proper prefix of a word is undecided. -/
theorem more_of_prefix_ne {s : σ} {w p : List α} (hw : w ∈ words step s) (hp : p <+: w)
    (hne : p ≠ w) : (scan step s p).verdict = .more := by
  obtain ⟨t, rfl⟩ := hp
  obtain ⟨s', hscan⟩ := hw
  by_contra hv
  rw [scan_append_of_decided hv] at hscan
  have hrest := (List.append_eq_nil_iff.mp (congrArg Outcome.rest hscan)).2
  exact hne (by rw [hrest, List.append_nil])

theorem words_prefix_free {s : σ} {w w' : List α} (hw : w ∈ words step s)
    (hw' : w' ∈ words step s) (h : w <+: w') : w = w' := by
  by_contra hne
  have hmore := more_of_prefix_ne hw' h hne
  obtain ⟨s', hscan⟩ := hw
  rw [hscan] at hmore
  cases hmore

/-- What follows a word is a dead prefix: words do not extend one another. -/
theorem dead_of_word_append {s : σ} {w t : List α} (hw : w ∈ words step s) (ht : t ≠ []) :
    Dead (words step s) (w ++ t) := by
  intro w' hw' hprefix
  have heq := words_prefix_free hw hw' ((List.prefix_append w t).trans hprefix)
  have hlen := hprefix.length_le
  rw [← heq, List.length_append] at hlen
  exact ht (List.length_eq_zero_iff.mp (by omega))

section Live

variable {s : σ}
  (hlive : ∀ p s', scan step s p = ⟨.more, s', []⟩ → ∃ w, w ∈ words step s')

include hlive

theorem more_iff {xs : List α} :
    (scan step s xs).verdict = .more ↔ ∃ w ∈ words step s, xs <+: w ∧ xs ≠ w := by
  constructor
  · intro h
    have hscan := scan_eq_of_more h
    obtain ⟨w, s', hw⟩ := hlive xs _ hscan
    have hne : w ≠ [] := by
      rintro rfl
      cases hw
    refine ⟨xs ++ w, ⟨s', by rw [scan_more_append hscan, hw]⟩, List.prefix_append xs w, ?_⟩
    intro heq
    exact hne (List.self_eq_append_right.mp heq)
  · rintro ⟨w, hw, hprefix, hne⟩
    exact more_of_prefix_ne hw hprefix hne

/-- No word extends a prefix exactly when the scan rejects it, or accepted before its end. -/
theorem dead_iff {p : List α} : Dead (words step s) p ↔
    (scan step s p).verdict = .reject ∨
      (scan step s p).verdict = .accept ∧ (scan step s p).rest ≠ [] := by
  constructor
  · intro hdead
    rcases hv : (scan step s p).verdict with _ | _ | _
    · refine Or.inr ⟨rfl, fun hrest => ?_⟩
      exact hdead p ⟨_, by rw [← hv, ← hrest]⟩ List.prefix_rfl
    · exact Or.inl rfl
    · obtain ⟨w, hw, hprefix, _⟩ := (more_iff hlive).mp hv
      exact absurd hprefix (hdead w hw)
  · intro h w hw hprefix
    by_cases heq : p = w
    · subst heq
      obtain ⟨s', hscan⟩ := hw
      rw [hscan] at h
      rcases h with h | ⟨_, h⟩
      · cases h
      · exact h rfl
    · rw [more_of_prefix_ne hw hprefix heq] at h
      rcases h with h | ⟨h, _⟩ <;> cases h

/-- A scan rejects at the shortest dead prefix, provided no prefix of the input is a word. -/
theorem reject_iff {p rest : List α} :
    (∃ s', scan step s (p ++ rest) = ⟨.reject, s', rest⟩) ↔
      (∀ q, q <+: p ++ rest → q ∉ words step s) ∧
        ShortestDead (words step s) (p ++ rest) p := by
  constructor
  · rintro ⟨s', h⟩
    obtain ⟨p', hp', hscan⟩ := scan_split h
    obtain rfl := List.append_cancel_right hp'
    have hdead : Dead (words step s) p := (dead_iff hlive).mpr (Or.inl (by rw [hscan]))
    refine ⟨?_, List.prefix_append p rest, hdead, ?_⟩
    · rintro q ⟨t, ht⟩ ⟨s'', hq⟩
      rw [← ht, scan_append_of_eq hq (by decide)] at h
      cases h
    · intro q hq hdeadq
      rcases List.prefix_or_prefix_of_prefix hq (List.prefix_append p rest) with hle | hle
      · by_cases heq : q = p
        · rw [heq]
        obtain ⟨t, ht⟩ := hle
        -- a decision inside `q` would leave input over in the scan of `p`
        have hmore : (scan step s q).verdict = .more := by
          by_contra hv
          rw [← ht, scan_append_of_decided hv] at hscan
          have hrest := (List.append_eq_nil_iff.mp (congrArg Outcome.rest hscan)).2
          exact heq (by rw [← ht, hrest, List.append_nil])
        obtain ⟨w, hw, hprefix, _⟩ := (more_iff hlive).mp hmore
        exact absurd hprefix (hdeadq w hw)
      · exact hle
  · rintro ⟨hnoword, -, hdead, hshort⟩
    rcases (dead_iff hlive).mp hdead with hrej | ⟨hacc, -⟩
    · have hwhole : scan step s p = ⟨.reject, (scan step s p).state, (scan step s p).rest⟩ := by
        rw [← hrej]
      obtain ⟨q, hq, hscan⟩ := scan_split hwhole
      have hqp : q <+: p := ⟨_, hq.symm⟩
      have hqdead : Dead (words step s) q := (dead_iff hlive).mpr (Or.inl (by rw [hscan]))
      have heq : p = q := List.IsPrefix.eq_of_length_le
        (hshort q (hqp.trans (List.prefix_append p rest)) hqdead) hqp.length_le
      subst heq
      exact ⟨_, scan_append_of_eq hscan (by decide) rest⟩
    · have hwhole : scan step s p = ⟨.accept, (scan step s p).state, (scan step s p).rest⟩ := by
        rw [← hacc]
      obtain ⟨q, hq, hscan⟩ := scan_split hwhole
      exact absurd ⟨_, hscan⟩
        (hnoword q (List.IsPrefix.trans ⟨_, hq.symm⟩ (List.prefix_append p rest)))

end Live

/-! ### Two scans side by side -/

/-- States that agree in every verdict and stay related are scanned alike. -/
theorem scan_related {R : σ → σ → Prop}
    (hstep : ∀ s t a, R s t → (step s a).1 = (step t a).1 ∧ R (step s a).2 (step t a).2)
    {s t : σ} (h : R s t) (xs : List α) :
    (scan step t xs).verdict = (scan step s xs).verdict ∧
      (scan step t xs).rest = (scan step s xs).rest ∧
      R (scan step s xs).state (scan step t xs).state := by
  induction xs generalizing s t with
  | nil => exact ⟨rfl, rfl, h⟩
  | cons a as ih =>
      obtain ⟨hverdict, hrelated⟩ := hstep s t a h
      rcases hs : step s a with ⟨v, s'⟩
      rcases ht : step t a with ⟨v', t'⟩
      rw [hs, ht] at hverdict hrelated
      obtain rfl : v = v' := hverdict
      by_cases hv : v = .more
      · subst hv
        rw [scan_cons_more hs, scan_cons_more ht]
        exact ih hrelated
      · rw [scan_cons_decided hs hv, scan_cons_decided ht hv]
        exact ⟨rfl, rfl, hrelated⟩

end IncrementalScan
