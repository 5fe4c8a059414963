import Mathlib.Data.List.Basic

/-!
A socket with asynchronous operations. Starting an operation only records it; its completion is a
later event, in any order among the operations outstanding. An operation is reported as aborted
only when the socket was closed after it was started, and an operation started on a closed socket
fails with another error. A success may be reported after the close, when it was queued before.
-/

namespace AsyncSocket

/-- How an operation ends. -/
inductive Completion (α : Type*) where
  | success (result : α)
  | aborted
  | failed
  deriving DecidableEq

/-- An outstanding operation, and whether the socket was open when it was started. -/
structure Pending (Op : Type*) where
  op : Op
  onOpen : Bool
  deriving DecidableEq

structure Socket (Op : Type*) where
  isOpen : Bool := true
  pending : List (Pending Op) := []
  deriving DecidableEq

variable {Op α β : Type*}

/-- The completions an operation can have. -/
def Pending.Possible (p : Pending Op) (isOpen : Bool) : Completion α → Bool
  | .success _ => p.onOpen
  | .aborted => p.onOpen && !isOpen
  | .failed => true

def Socket.issue (s : Socket Op) (op : Op) : Socket Op :=
  { s with pending := s.pending ++ [⟨op, s.isOpen⟩] }

def Socket.close (s : Socket Op) : Socket Op := { s with isOpen := false }

/-- The operations outstanding, as far as `f` picks them. -/
def Socket.outstanding (s : Socket Op) (f : Op → Option β) : List β :=
  s.pending.filterMap fun p => f p.op

/-- Takes the `k`-th outstanding operation when it can complete with `r`. -/
def Socket.finish (s : Socket Op) (k : Nat) (r : Completion α) : Option (Op × Socket Op) :=
  match s.pending[k]? with
  | some p => if p.Possible s.isOpen r then
      some (p.op, { s with pending := s.pending.eraseIdx k }) else none
  | none => none

@[simp] theorem Socket.issue_isOpen (s : Socket Op) (op : Op) :
    (s.issue op).isOpen = s.isOpen := rfl

@[simp] theorem Socket.issue_pending (s : Socket Op) (op : Op) :
    (s.issue op).pending = s.pending ++ [⟨op, s.isOpen⟩] := rfl

@[simp] theorem Socket.close_isOpen (s : Socket Op) : s.close.isOpen = false := rfl

@[simp] theorem Socket.issue_outstanding (s : Socket Op) (op : Op) (f : Op → Option β) :
    (s.issue op).outstanding f = s.outstanding f ++ (f op).toList := by
  unfold outstanding issue
  rw [List.filterMap_append, List.filterMap_cons]
  cases f op <;> rfl

@[simp] theorem Socket.close_outstanding (s : Socket Op) (f : Op → Option β) :
    s.close.outstanding f = s.outstanding f := rfl

theorem Socket.finish_eq_some {s s' : Socket Op} {k : Nat} {r : Completion α} {op : Op} :
    s.finish k r = some (op, s') ↔ ∃ p, s.pending[k]? = some p ∧ p.op = op ∧
      p.Possible s.isOpen r = true ∧ s' = { s with pending := s.pending.eraseIdx k } := by
  rw [Socket.finish]
  cases hp : s.pending[k]? with
  | none => simp
  | some p =>
      simp only [Option.some.injEq, exists_eq_left']
      split_ifs with hpossible
      · simp only [Option.some.injEq, Prod.mk.injEq, hpossible, true_and]
        exact and_congr_right fun _ => eq_comm
      · simp [hpossible]

/-- The operation that completes stands somewhere among those outstanding. -/
theorem Socket.finish_split {s s' : Socket Op} {k : Nat} {r : Completion α} {op : Op}
    (h : s.finish k r = some (op, s')) : ∃ before onOpen after,
      s.pending = before ++ ⟨op, onOpen⟩ :: after ∧
      Pending.Possible ⟨op, onOpen⟩ s.isOpen r = true ∧
      s' = ⟨s.isOpen, before ++ after⟩ := by
  obtain ⟨p, hp, rfl, hpossible, rfl⟩ := Socket.finish_eq_some.mp h
  obtain ⟨hlt, rfl⟩ := List.getElem?_eq_some_iff.mp hp
  refine ⟨s.pending.take k, s.pending[k].onOpen, s.pending.drop (k + 1), ?_, hpossible, ?_⟩
  · calc
      s.pending = s.pending.take k ++ s.pending.drop k := (List.take_append_drop k _).symm
      _ = s.pending.take k ++ s.pending[k] :: s.pending.drop (k + 1) := by
        rw [List.getElem_cons_drop]
  · rw [List.eraseIdx_eq_take_drop_succ]

/-- The operation that completes leaves those outstanding, and the others stay in order. -/
theorem Socket.finish_outstanding {s s' : Socket Op} {k : Nat} {r : Completion α} {op : Op}
    (h : s.finish k r = some (op, s')) (f : Op → Option β) : ∃ before after,
      s.outstanding f = before ++ ((f op).toList ++ after) ∧
      s'.outstanding f = before ++ after := by
  obtain ⟨before, onOpen, after, hpending, -, rfl⟩ := Socket.finish_split h
  refine ⟨before.filterMap fun p => f p.op, after.filterMap fun p => f p.op, ?_, ?_⟩
  · unfold outstanding
    rw [hpending, List.filterMap_append, List.filterMap_cons]
    cases f op <;> rfl
  · exact List.filterMap_append

/-- What holds of the operations outstanding and of the one started holds of all. -/
theorem Socket.forall_issue (s : Socket Op) (op : Op) (P : Op → Prop) :
    (∀ p ∈ (s.issue op).pending, P p.op) ↔ (∀ p ∈ s.pending, P p.op) ∧ P op := by
  rw [Socket.issue_pending, List.forall_mem_append, List.forall_mem_singleton]

/-- What holds of the operations outstanding holds of those left when one completes. -/
theorem Socket.forall_finish {s s' : Socket Op} {k : Nat} {r : Completion α} {op : Op}
    (P : Op → Prop) (h : s.finish k r = some (op, s')) (hs : ∀ p ∈ s.pending, P p.op) :
    ∀ p ∈ s'.pending, P p.op := by
  obtain ⟨p, -, -, -, rfl⟩ := Socket.finish_eq_some.mp h
  intro q hq
  exact hs q (List.mem_of_mem_eraseIdx hq)

/-- With one operation outstanding, that one completes and none is left. -/
theorem Socket.finish_single {s s' : Socket Op} {k : Nat} {r : Completion α} {op : Op}
    {p : Pending Op} (hp : s.pending = [p]) (h : s.finish k r = some (op, s')) :
    p.op = op ∧ p.Possible s.isOpen r = true ∧ s' = { s with pending := [] } := by
  obtain ⟨q, hq, hop, hpossible, rfl⟩ := Socket.finish_eq_some.mp h
  rw [hp] at hq
  cases k with
  | zero =>
      cases hq
      exact ⟨hop, hpossible, by rw [hp]; rfl⟩
  | succ k => simp at hq

theorem Socket.finish_length {s s' : Socket Op} {k : Nat} {r : Completion α} {op : Op}
    (h : s.finish k r = some (op, s')) : s'.pending.length + 1 = s.pending.length := by
  obtain ⟨before, onOpen, after, hpending, -, rfl⟩ := Socket.finish_split h
  rw [hpending, List.length_append, List.length_append, List.length_cons]
  rfl

theorem Socket.finish_nil {s : Socket Op} (hp : s.pending = []) (k : Nat) (r : Completion α) :
    s.finish k r = none := by
  rw [Socket.finish, hp, List.getElem?_nil]

/-- An operation is aborted only on a closed socket. -/
theorem Pending.closed_of_aborted {p : Pending Op} {isOpen : Bool}
    (h : p.Possible isOpen (.aborted : Completion α) = true) : isOpen = false := by
  simpa using (Bool.and_eq_true_iff.mp h).2

end AsyncSocket
