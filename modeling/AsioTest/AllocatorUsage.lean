import AsioTest.HandlerAllocator
import Mathlib.Data.List.Nodup

/-!
`handler_allocator` under any use: `allocate` for any sizes, and `deallocate` for pointers that
`allocate` has returned and that have not been given back since. The flag follows `storage_`
through all of it, the live pointers are distinct, and only heap pointers are deleted, each by the
`deallocate` it is handed to.
-/

namespace AsioTest.Alloc

open TransitionRuns

/-- The calls; `address` is what `::operator new` gives out if it is asked. -/
inductive Call where
  | allocate (size address : Nat)
  | deallocate (p : Pointer)

/-- The pointer a call gives back. -/
def Call.argument : Call → Option Pointer
  | .allocate _ _ => none
  | .deallocate p => some p

/-- The allocations that are live, each with its size. -/
structure Usage where
  memory : Memory := {}
  live : List (Pointer × Nat) := []
  deriving DecidableEq

namespace Usage

/-- The live pointers. -/
def pointers (s : Usage) : List Pointer := s.live.map Prod.fst

/-- Only a live pointer may be given back. -/
def step (version : Version) (s : Usage) : Call → Option Usage
  | .allocate size address =>
      (s.memory.allocate version.capacity size address).map fun r =>
        { memory := r.2, live := s.live ++ [(r.1, size)] }
  | .deallocate p =>
      if p ∈ s.pointers then
        some { memory := s.memory.deallocate p, live := s.live.eraseP fun a => a.1 = p }
      else none

/-- What holds after the calls `calls`. -/
structure Consistent (version : Version) (calls : List Call) (s : Usage) : Prop where
  inUse : s.memory.inUse_ = true ↔ .storage ∈ s.pointers
  small : ∀ size, (.storage, size) ∈ s.live → size < version.capacity
  distinct : s.pointers.Nodup
  heap : ∀ address, address ∈ s.memory.live ↔ .heap address ∈ s.pointers
  heap_distinct : s.memory.live.Nodup
  blocks : s.memory.obtained.Perm (s.memory.returned ++ s.pointers)
  returned : s.memory.returned = calls.filterMap Call.argument
  deleted : s.memory.deleted = s.memory.returned.filter (· ≠ .storage)

variable {version : Version} {calls : List Call} {s t : Usage}

theorem consistent_init : Consistent version [] {} where
  inUse := iff_of_false Bool.false_ne_true List.not_mem_nil
  small := fun _ hmem => absurd hmem List.not_mem_nil
  distinct := List.nodup_nil
  heap := fun _ => iff_of_false List.not_mem_nil List.not_mem_nil
  heap_distinct := List.nodup_nil
  blocks := List.Perm.nil
  returned := rfl
  deleted := rfl

/-- The live pointers after one is given back. -/
theorem pointers_eraseP (s : Usage) (p : Pointer) :
    (s.live.eraseP fun a => a.1 = p).map Prod.fst = s.pointers.erase p := by
  have hfun : (fun q => q == p) ∘ Prod.fst = fun a : Pointer × Nat => decide (a.1 = p) := by
    funext a
    exact beq_eq_decide a.1 p
  rw [pointers, List.erase_eq_eraseP', List.eraseP_map, hfun]

/-! ### One call -/

/-- A block that `allocate` gives out is not live. -/
theorem Consistent.fresh {size address : Nat} {p : Pointer} {m : Memory}
    (hs : s.Consistent version calls)
    (h : s.memory.allocate version.capacity size address = some (p, m)) : p ∉ s.pointers := by
  rcases Memory.allocate_cases h with ⟨rfl, hfree, -, -⟩ | ⟨rfl, -, hnew, -⟩
  · exact fun hmem => Bool.false_ne_true (hfree.symm.trans (hs.inUse.mpr hmem))
  · exact fun hmem => hnew ((hs.heap address).mpr hmem)

theorem Consistent.allocate {size address : Nat} (hs : s.Consistent version calls)
    (h : s.step version (.allocate size address) = some t) :
    t.Consistent version (calls ++ [Call.allocate size address]) := by
  obtain ⟨⟨p, m⟩, hallocate, rfl⟩ := Option.map_eq_some_iff.mp h
  obtain ⟨hobtained, hreturned, hdeleted⟩ := Memory.allocate_records hallocate
  have hpointers : (s.live ++ [(p, size)]).map Prod.fst = s.pointers ++ [p] := List.map_append
  have hcases := Memory.allocate_cases hallocate
  constructor
  case inUse =>
      rw [pointers, hpointers, List.mem_append]
      rcases hcases with ⟨rfl, -, -, rfl⟩ | ⟨rfl, -, -, rfl⟩
      · simp
      · simpa using hs.inUse
  case small =>
      intro n hn
      rcases List.mem_append.mp hn with hold | hlast
      · exact hs.small n hold
      · rcases hcases with ⟨rfl, -, hsmall, -⟩ | ⟨rfl, -, -, -⟩
        · rw [List.mem_singleton] at hlast
          cases hlast
          exact hsmall
        · rw [List.mem_singleton] at hlast
          cases hlast
  case distinct =>
      rw [pointers, hpointers, List.nodup_append_comm]
      exact hs.distinct.cons (hs.fresh hallocate)
  case heap =>
      intro a
      rw [pointers, hpointers, List.mem_append]
      rcases hcases with ⟨rfl, -, -, rfl⟩ | ⟨rfl, -, -, rfl⟩
      · simpa using hs.heap a
      · rw [List.mem_cons, hs.heap a, List.mem_singleton, Pointer.heap.injEq]
        exact or_comm
  case heap_distinct =>
      rcases hcases with ⟨-, -, -, rfl⟩ | ⟨-, -, hfresh, rfl⟩
      · exact hs.heap_distinct
      · exact hs.heap_distinct.cons hfresh
  case blocks =>
      rw [pointers, hpointers, hobtained, hreturned, ← List.append_assoc]
      exact hs.blocks.append_right [p]
  case returned =>
      rw [hreturned, hs.returned, List.filterMap_append]
      exact (List.append_nil _).symm
  case deleted =>
      rw [hdeleted, hreturned]
      exact hs.deleted

theorem Consistent.deallocate {p : Pointer} (hs : s.Consistent version calls)
    (h : s.step version (.deallocate p) = some t) :
    t.Consistent version (calls ++ [Call.deallocate p]) := by
  simp only [step] at h
  split_ifs at h with hlive
  cases h
  obtain ⟨hobtained, hreturned, hdeleted⟩ := Memory.deallocate_records p s.memory
  have hmem : ∀ q, q ∈ s.pointers.erase p ↔ q ≠ p ∧ q ∈ s.pointers := fun q =>
    hs.distinct.mem_erase_iff
  constructor
  case inUse =>
      rw [pointers, pointers_eraseP, hmem]
      cases p with
      | storage => exact iff_of_false Bool.false_ne_true fun hne => hne.1 rfl
      | heap address => exact hs.inUse.trans (and_iff_right Pointer.noConfusion).symm
  case small => exact fun size hsize => hs.small size (List.mem_of_mem_eraseP hsize)
  case distinct =>
      rw [pointers, pointers_eraseP]
      exact hs.distinct.erase p
  case heap =>
      intro a
      rw [pointers, pointers_eraseP, hmem]
      cases p with
      | storage => exact (hs.heap a).trans (and_iff_right Pointer.noConfusion).symm
      | heap address =>
          show a ∈ s.memory.live.erase address ↔ _
          rw [hs.heap_distinct.mem_erase_iff, hs.heap a, Ne, Ne, Pointer.heap.injEq]
  case heap_distinct =>
      cases p with
      | storage => exact hs.heap_distinct
      | heap address => exact hs.heap_distinct.erase address
  case blocks =>
      rw [pointers, pointers_eraseP, hobtained, hreturned, List.append_assoc]
      exact hs.blocks.trans ((List.perm_cons_erase hlive).append_left s.memory.returned)
  case returned =>
      rw [hreturned, hs.returned, List.filterMap_append]
      rfl
  case deleted => rw [hdeleted, hreturned, hs.deleted, List.filter_append]

/-! ### Every sequence of calls -/

theorem consistent_run (h : run (step version) {} calls = some s) :
    s.Consistent version calls := by
  have hall : s.Consistent version ([] ++ calls) := by
    refine run_history (I := fun calls s => s.Consistent version calls)
      (fun calls s call t hs ht => ?_) consistent_init h
    cases call with
    | allocate size address => exact hs.allocate ht
    | deallocate p => exact hs.deallocate ht
  rwa [List.nil_append] at hall

/-- The flag says whether `storage_` is live, `storage_` is given out for small blocks only and to
one allocation at a time, as every address is, and what reaches `::operator delete` are the heap
pointers given back, each as often as it was given out and is no longer live. -/
structure WellManaged (version : Version) (calls : List Call) (s : Usage) : Prop where
  inUse : s.memory.inUse_ = true ↔ .storage ∈ s.pointers
  small : ∀ size, (.storage, size) ∈ s.live → size < version.capacity
  distinct : s.pointers.Nodup
  deleted : s.memory.deleted = (calls.filterMap Call.argument).filter (· ≠ .storage)
  once : ∀ address, s.memory.obtained.count (.heap address) =
    s.memory.deleted.count (.heap address) + s.pointers.count (.heap address)
  kept : .storage ∉ s.memory.deleted

theorem Consistent.wellManaged (hs : s.Consistent version calls) :
    s.WellManaged version calls := by
  refine ⟨hs.inUse, hs.small, hs.distinct, ?_, fun address => ?_, ?_⟩
  · rw [hs.deleted, hs.returned]
  · have hcount : s.memory.deleted.count (.heap address) =
        s.memory.returned.count (.heap address) := by
      rw [hs.deleted]
      exact List.count_filter (decide_eq_true Pointer.noConfusion)
    rw [hs.blocks.count_eq, List.count_append, hcount]
  · rw [hs.deleted, List.mem_filter]
    exact fun hmem => absurd rfl (of_decide_eq_true hmem.2)

/-- After any calls, of either version. -/
theorem wellManaged_run (version : Version) {calls : List Call} {s : Usage}
    (h : run (step version) {} calls = some s) : s.WellManaged version calls :=
  (consistent_run h).wellManaged

/-- A small block while `storage_` is free, another while it is busy, a large one while it is free,
and a small one again after an address of the heap was given back and has been given out again. -/
theorem wellManaged_run_mixed : ∃ s, run (step server03) {}
    [.allocate 100 0, .allocate 100 5, .deallocate .storage, .allocate 128 7,
      .deallocate (.heap 5), .allocate 200 5, .allocate 127 9] = some s ∧
    s.pointers = [.heap 7, .heap 5, .storage] ∧ s.memory.deleted = [.heap 5] ∧
    s.WellManaged server03 [.allocate 100 0, .allocate 100 5, .deallocate .storage,
      .allocate 128 7, .deallocate (.heap 5), .allocate 200 5, .allocate 127 9] :=
  ⟨_, rfl, rfl, rfl, wellManaged_run server03 rfl⟩

end Usage

end AsioTest.Alloc
