import AsioTest.TransitionRuns

/-!
Two parties with a stream in each direction. What a party puts out goes into the stream to the
other, in order, and an event that takes something in takes it from the front of the stream to it.
In every run each party is in a run of its own, and what one has put out is what the other has taken
in with what is on its way.
-/

namespace StreamLink

open TransitionRuns

/-- A party: its steps, what an event takes in, and all that has been put out, to which a step only
adds. -/
structure Party (σ ε β : Type*) where
  step : σ → ε → Option σ
  takes : ε → List β
  written : σ → List β
  grows : ∀ s e t, step s e = some t → written s <+: written t

structure Link (σ τ β : Type*) where
  left : σ
  right : τ
  toRight : List β := []
  toLeft : List β := []

inductive LinkEvent (ε η : Type*) where
  | left (e : ε)
  | right (e : η)

variable {σ τ ε η β : Type*}

def LinkEvent.leftPart : LinkEvent ε η → List ε
  | .left e => [e]
  | .right _ => []

def LinkEvent.rightPart : LinkEvent ε η → List η
  | .left _ => []
  | .right e => [e]

/-- What a step has put out. -/
def Party.added (P : Party σ ε β) (s t : σ) : List β := (P.written t).drop (P.written s).length

theorem Party.written_added (P : Party σ ε β) {s t : σ} {e : ε} (h : P.step s e = some t) :
    P.written s ++ P.added s t = P.written t :=
  (List.prefix_append_drop (P.grows s e t h)).symm

namespace Link

variable [DecidableEq β] (P : Party σ ε β) (Q : Party τ η β)

def step (s : Link σ τ β) : LinkEvent ε η → Option (Link σ τ β)
  | .left e =>
      if P.takes e <+: s.toLeft then
        (P.step s.left e).map fun a =>
          { s with
            left := a
            toRight := s.toRight ++ P.added s.left a
            toLeft := s.toLeft.drop (P.takes e).length }
      else none
  | .right e =>
      if Q.takes e <+: s.toRight then
        (Q.step s.right e).map fun b =>
          { s with
            right := b
            toLeft := s.toLeft ++ Q.added s.right b
            toRight := s.toRight.drop (Q.takes e).length }
      else none

/-- The parties as they are connected. -/
def connect (a : σ) (b : τ) : Link σ τ β := { left := a, right := b }

/-- Each party is in a run of its own, and no stream has lost or added anything. -/
structure Carried (a : σ) (b : τ) (es : List (LinkEvent ε η)) (s : Link σ τ β) : Prop where
  left_run : run P.step a (es.flatMap LinkEvent.leftPart) = some s.left
  right_run : run Q.step b (es.flatMap LinkEvent.rightPart) = some s.right
  right_taken :
    (es.flatMap LinkEvent.rightPart).flatMap Q.takes ++ s.toRight = P.written s.left
  left_taken : (es.flatMap LinkEvent.leftPart).flatMap P.takes ++ s.toLeft = Q.written s.right

variable {P Q} {a : σ} {b : τ} {es : List (LinkEvent ε η)} {s t : Link σ τ β}

theorem exists_left {e : ε} {a' : σ} (htakes : P.takes e <+: s.toLeft)
    (ha : P.step s.left e = some a') : ∃ t, s.step P Q (.left e) = some t := by
  rw [step, if_pos htakes, ha]
  exact ⟨_, rfl⟩

theorem exists_right {e : η} {b' : τ} (htakes : Q.takes e <+: s.toRight)
    (hb : Q.step s.right e = some b') : ∃ t, s.step P Q (.right e) = some t := by
  rw [step, if_pos htakes, hb]
  exact ⟨_, rfl⟩

theorem Carried.left {e : ε} (hs : Carried P Q a b es s) (h : s.step P Q (.left e) = some t) :
    Carried P Q a b (es ++ [.left e]) t := by
  simp only [step] at h
  split_ifs at h with htakes
  obtain ⟨a', ha', rfl⟩ := Option.map_eq_some_iff.mp h
  constructor
  case left_run =>
      rw [flatMap_concat]
      exact run_append.mpr ⟨s.left, hs.left_run, run_singleton.mpr ha'⟩
  case right_run =>
      rw [flatMap_concat, LinkEvent.rightPart, List.append_nil]
      exact hs.right_run
  case right_taken =>
      rw [flatMap_concat, LinkEvent.rightPart, List.append_nil]
      show _ ++ (s.toRight ++ P.added s.left a') = P.written a'
      rw [← List.append_assoc, hs.right_taken, P.written_added ha']
  case left_taken =>
      rw [flatMap_concat, List.flatMap_append, LinkEvent.leftPart, List.flatMap_singleton]
      show _ ++ P.takes e ++ s.toLeft.drop (P.takes e).length = Q.written s.right
      rw [List.append_assoc, ← List.prefix_append_drop htakes, hs.left_taken]

theorem Carried.right {e : η} (hs : Carried P Q a b es s) (h : s.step P Q (.right e) = some t) :
    Carried P Q a b (es ++ [.right e]) t := by
  simp only [step] at h
  split_ifs at h with htakes
  obtain ⟨b', hb', rfl⟩ := Option.map_eq_some_iff.mp h
  constructor
  case left_run =>
      rw [flatMap_concat, LinkEvent.leftPart, List.append_nil]
      exact hs.left_run
  case right_run =>
      rw [flatMap_concat]
      exact run_append.mpr ⟨s.right, hs.right_run, run_singleton.mpr hb'⟩
  case right_taken =>
      rw [flatMap_concat, List.flatMap_append, LinkEvent.rightPart, List.flatMap_singleton]
      show _ ++ Q.takes e ++ s.toRight.drop (Q.takes e).length = P.written s.left
      rw [List.append_assoc, ← List.prefix_append_drop htakes, hs.right_taken]
  case left_taken =>
      rw [flatMap_concat, LinkEvent.leftPart, List.append_nil]
      show _ ++ (s.toLeft ++ Q.added s.right b') = Q.written b'
      rw [← List.append_assoc, hs.left_taken, Q.written_added hb']

/-- In every run of two parties that have not put anything out before. -/
theorem carried_run (ha : P.written a = []) (hb : Q.written b = [])
    (h : run (step P Q) (connect a b) es = some s) : Carried P Q a b es s := by
  have hinit : Carried P Q a b [] (connect a b) := ⟨rfl, rfl, ha.symm, hb.symm⟩
  have hall : Carried P Q a b ([] ++ es) s := by
    refine run_history (I := Carried P Q a b) (fun es s e t hs ht => ?_) hinit h
    cases e with
    | left e => exact hs.left ht
    | right e => exact hs.right ht
  rwa [List.nil_append] at hall

end Link

end StreamLink
