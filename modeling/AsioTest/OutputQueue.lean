import Mathlib.Data.List.Basic

/-!
An output queue with one write at a time. A message pushed onto an empty queue is written at once;
when a write succeeds, its message is taken from the front and the next one is written; after a
write that fails nothing is. `pushed`, `sent` and `started` record what happened.
-/

structure OutputQueue (M : Type*) where
  queue : List M := []
  outstanding : List M := []
  pushed : List M := []
  sent : List M := []
  started : Nat := 0
  failed : Bool := false

namespace OutputQueue

variable {M : Type*}

/-- Starts the write of the front message. -/
def startFront (q : OutputQueue M) : OutputQueue M :=
  match q.queue with
  | [] => q
  | m :: _ => { q with outstanding := q.outstanding ++ [m], started := q.started + 1 }

def push (q : OutputQueue M) (m : M) : OutputQueue M :=
  let pushed := { q with queue := q.queue ++ [m], pushed := q.pushed ++ [m] }
  if q.queue.isEmpty then pushed.startFront else pushed

/-- The write of `m` succeeds and leaves the writes `rest` outstanding. -/
def succeed (q : OutputQueue M) (m : M) (rest : List M) : OutputQueue M :=
  { q with outstanding := rest, sent := q.sent ++ [m], queue := q.queue.tail }.startFront

def fail (q : OutputQueue M) (rest : List M) : OutputQueue M :=
  { q with outstanding := rest, failed := true }

inductive Step : OutputQueue M → OutputQueue M → Prop where
  | push (q : OutputQueue M) (m : M) : Step q (q.push m)
  | succeed {q : OutputQueue M} {before after : List M} {m : M}
      (h : q.outstanding = before ++ m :: after) : Step q (q.succeed m (before ++ after))
  | fail {q : OutputQueue M} {before after : List M} {m : M}
      (h : q.outstanding = before ++ m :: after) : Step q (q.fail (before ++ after))

/-- What was pushed has been sent or is queued, in order; the front of the queue is being written,
until a write has failed, after which none is and the queue is not empty. -/
structure Orderly (q : OutputQueue M) : Prop where
  ordered : q.pushed = q.sent ++ q.queue
  writing : q.failed = false → q.outstanding = q.queue.head?.toList
  stopped : q.failed = true → q.outstanding = [] ∧ q.queue ≠ []

variable {q q' : OutputQueue M}

theorem Orderly.length_le (h : q.Orderly) : q.outstanding.length ≤ 1 := by
  cases hfailed : q.failed with
  | true => simp [(h.stopped hfailed).1]
  | false =>
      rw [h.writing hfailed]
      cases q.queue.head? <;> simp

/-- The write that completes is the only one, and its message is the front of the queue. -/
theorem Orderly.front (h : q.Orderly) {before after : List M} {m : M}
    (hsplit : q.outstanding = before ++ m :: after) :
    before = [] ∧ after = [] ∧ q.failed = false ∧ ∃ rest, q.queue = m :: rest := by
  have hlength := h.length_le
  rw [hsplit, List.length_append, List.length_cons] at hlength
  have hbefore : before = [] := List.length_eq_zero_iff.mp (by omega)
  have hafter : after = [] := List.length_eq_zero_iff.mp (by omega)
  subst hbefore hafter
  cases hfailed : q.failed with
  | true =>
      rw [(h.stopped hfailed).1] at hsplit
      cases hsplit
  | false =>
      have hhead := (h.writing hfailed).symm.trans hsplit
      cases hqueue : q.queue with
      | nil =>
          rw [hqueue] at hhead
          cases hhead
      | cons a rest =>
          rw [hqueue] at hhead
          cases hhead
          exact ⟨rfl, rfl, rfl, rest, rfl⟩

theorem orderly_push (h : q.Orderly) (m : M) : (q.push m).Orderly := by
  unfold push
  split_ifs with hempty
  · have hnil : q.queue = [] := List.isEmpty_iff.mp hempty
    have hfailed : q.failed = false := by
      by_contra hfailed
      exact (h.stopped (by simpa using hfailed)).2 hnil
    have houtstanding : q.outstanding = [] := by
      rw [h.writing hfailed, hnil]
      rfl
    simp only [hnil, List.nil_append, startFront]
    refine ⟨?_, fun _ => ?_, fun htrue => ?_⟩
    · show q.pushed ++ [m] = q.sent ++ [m]
      rw [h.ordered, hnil, List.append_nil]
    · show q.outstanding ++ [m] = [m]
      rw [houtstanding, List.nil_append]
    · cases hfailed.symm.trans htrue
  · have hne : q.queue ≠ [] := fun hnil => hempty (List.isEmpty_iff.mpr hnil)
    refine ⟨?_, fun hfailed => ?_, fun hfailed => ⟨(h.stopped hfailed).1, by simp⟩⟩
    · show q.pushed ++ [m] = q.sent ++ (q.queue ++ [m])
      rw [h.ordered, List.append_assoc]
    · show q.outstanding = (q.queue ++ [m]).head?.toList
      rw [h.writing hfailed, List.head?_append_of_ne_nil _ hne]

theorem orderly_startFront {q : OutputQueue M} (hordered : q.pushed = q.sent ++ q.queue)
    (hfailed : q.failed = false) (hnone : q.outstanding = []) : q.startFront.Orderly := by
  unfold startFront
  split
  next hqueue =>
    refine ⟨hordered, fun _ => ?_, fun htrue => ?_⟩
    · rw [hnone, hqueue]
      rfl
    · cases hfailed.symm.trans htrue
  next m rest hqueue =>
    refine ⟨hordered, fun _ => ?_, fun htrue => ?_⟩
    · show q.outstanding ++ [m] = q.queue.head?.toList
      rw [hnone, hqueue]
      rfl
    · cases hfailed.symm.trans htrue

/-- Every step keeps the order. -/
theorem Step.orderly (h : Step q q') (hq : q.Orderly) : q'.Orderly := by
  cases h with
  | push m => exact orderly_push hq m
  | @succeed before after m hsplit =>
      obtain ⟨rfl, rfl, hfailed, rest, hqueue⟩ := hq.front hsplit
      refine orderly_startFront ?_ hfailed rfl
      show q.pushed = q.sent ++ [m] ++ q.queue.tail
      rw [hq.ordered, hqueue, List.append_assoc]
      rfl
  | @fail before after m hsplit =>
      obtain ⟨rfl, rfl, -, rest, hqueue⟩ := hq.front hsplit
      refine ⟨hq.ordered, nofun, fun _ => ⟨rfl, ?_⟩⟩
      show q.queue ≠ []
      rw [hqueue]
      exact List.cons_ne_nil _ _

/-- After a failure no step starts a write. -/
theorem Step.started_of_failed (h : Step q q') (hq : q.Orderly) (hfailed : q.failed = true) :
    q'.failed = true ∧ q'.started = q.started := by
  cases h with
  | push m =>
      have hne := (hq.stopped hfailed).2
      have hempty : q.queue.isEmpty = false := by simpa using hne
      unfold OutputQueue.push
      rw [hempty]
      exact ⟨hfailed, rfl⟩
  | succeed hsplit => cases (hq.front hsplit).2.2.1.symm.trans hfailed
  | fail hsplit => exact ⟨rfl, rfl⟩

end OutputQueue
