import AsioTest.TransitionRuns
import Mathlib.Data.List.Perm.Basic

/-!
`handler_allocator` and the heap behind it, for both versions of the server: they differ in the
size of `storage_` and in whether the handlers have a hook to give their memory back.
-/

namespace AsioTest.Alloc

/-- The address of `storage_`, or one of those that `::operator new` gives out. -/
inductive Pointer where
  | storage
  | heap (address : Nat)
  deriving DecidableEq

/-- The state of the allocator and of the heap; `obtained` and `returned` record the results of
`allocate` and the arguments of `deallocate`, `deleted` those of `::operator delete`. -/
structure Memory where
  inUse_ : Bool := false
  live : List Nat := []
  obtained : List Pointer := []
  returned : List Pointer := []
  deleted : List Pointer := []
  deriving DecidableEq

namespace Memory

/-- `::operator new` gives out any address that is not in use. -/
def operatorNew (address : Nat) (m : Memory) : Option (Pointer × Memory) :=
  if address ∈ m.live then none
  else some (.heap address, { m with live := address :: m.live })

def operatorDelete (p : Pointer) (m : Memory) : Memory :=
  { m with
    live := match p with
      | .storage => m.live
      | .heap address => m.live.erase address
    deleted := m.deleted ++ [p] }

/-- `allocate(size)` with a `storage_` of `capacity` bytes; `address` is what `::operator new` gives
out if it is asked. -/
def allocate (capacity size address : Nat) (m : Memory) : Option (Pointer × Memory) :=
  if m.inUse_ = false ∧ size < capacity then
    some (.storage, { m with inUse_ := true, obtained := m.obtained ++ [.storage] })
  else (m.operatorNew address).map fun r =>
    (r.1, { r.2 with obtained := r.2.obtained ++ [r.1] })

def deallocate (p : Pointer) (m : Memory) : Memory :=
  let m := { m with returned := m.returned ++ [p] }
  match p with
  | .storage => { m with inUse_ := false }
  | .heap _ => m.operatorDelete p

variable {m m' : Memory} {p : Pointer}

/-- What `allocate` does: it takes `storage_` when it can, and asks `::operator new` otherwise. -/
theorem allocate_cases {capacity size address : Nat}
    (h : m.allocate capacity size address = some (p, m')) :
    (p = .storage ∧ m.inUse_ = false ∧ size < capacity ∧
      m' = { m with inUse_ := true, obtained := m.obtained ++ [.storage] }) ∨
    (p = .heap address ∧ ¬ (m.inUse_ = false ∧ size < capacity) ∧ address ∉ m.live ∧
      m' = { m with live := address :: m.live, obtained := m.obtained ++ [.heap address] }) := by
  unfold allocate operatorNew at h
  split_ifs at h with huse hlive
  · cases h
    exact Or.inl ⟨rfl, huse.1, huse.2, rfl⟩
  · cases h
  · cases h
    exact Or.inr ⟨rfl, huse, hlive, rfl⟩

/-- What is recorded of `allocate`, wherever the block comes from. -/
theorem allocate_records {capacity size address : Nat}
    (h : m.allocate capacity size address = some (p, m')) :
    m'.obtained = m.obtained ++ [p] ∧ m'.returned = m.returned ∧ m'.deleted = m.deleted := by
  rcases allocate_cases h with ⟨rfl, -, -, rfl⟩ | ⟨rfl, -, -, rfl⟩
  · exact ⟨rfl, rfl, rfl⟩
  · exact ⟨rfl, rfl, rfl⟩

/-- What is recorded of `deallocate`: only a heap pointer reaches `::operator delete`. -/
theorem deallocate_records (p : Pointer) (m : Memory) :
    (m.deallocate p).obtained = m.obtained ∧ (m.deallocate p).returned = m.returned ++ [p] ∧
      (m.deallocate p).deleted = m.deleted ++ [p].filter (· ≠ .storage) := by
  cases p with
  | storage => exact ⟨rfl, rfl, (List.append_nil m.deleted).symm⟩
  | heap address => exact ⟨rfl, rfl, rfl⟩

end Memory

/-! ### A session -/

/-- The two versions: the size of `storage_`, and whether the handlers' memory is released through
`asio_handler_deallocate`. -/
structure Version where
  capacity : Nat
  deallocateHook : Bool

/-- Without the hook the memory goes to `::operator delete`. -/
def server11 : Version := ⟨1024, false⟩

def server03 : Version := ⟨128, true⟩

inductive Operation where
  | readSome
  | write
  deriving DecidableEq

/-- The operations outstanding, each with the block its handler is kept in. -/
structure Session where
  memory : Memory := {}
  outstanding : List (Operation × Pointer) := []
  deriving DecidableEq

/-- `start()` may be called any number of times, so that the operations complete in any order. A
write may have to write the rest, in a new block; an operation completes, with an error or not, and
its handler may start the next one. The numbers are the size of the new block and the address that
`::operator new` gives out for it. -/
inductive SessionEvent where
  | start (size address : Nat)
  | proceed (k size address : Nat)
  | complete (k : Nat) (error : Bool) (size address : Nat)

namespace Session

variable (version : Version)

/-- Asio releases the memory of a handler. -/
def release (p : Pointer) (m : Memory) : Memory :=
  if version.deallocateHook then m.deallocate p else m.operatorDelete p

/-- An operation is started, in a block of the allocator. -/
def begin (op : Operation) (size address : Nat) (s : Session) : Option Session :=
  (s.memory.allocate version.capacity size address).map fun r =>
    { memory := r.2, outstanding := s.outstanding ++ [(op, r.1)] }

def doRead (size address : Nat) (s : Session) : Option Session :=
  s.begin version .readSome size address

def doWrite (size address : Nat) (s : Session) : Option Session :=
  s.begin version .write size address

/-- The `k`-th operation ends: its memory is released before its handler runs. -/
def finish (k : Nat) (s : Session) : Option (Operation × Session) :=
  s.outstanding[k]?.map fun r =>
    (r.1, { memory := release version r.2 s.memory, outstanding := s.outstanding.eraseIdx k })

/-- What the handler of an operation does without an error. -/
def next : Operation → Nat → Nat → Session → Option Session
  | .readSome, size, address, s => s.doWrite version size address
  | .write, size, address, s => s.doRead version size address

def step (s : Session) : SessionEvent → Option Session
  | .start size address => s.doRead version size address
  | .proceed k size address =>
      (s.finish version k).bind fun r =>
        if r.1 = .write then r.2.doWrite version size address else none
  | .complete k error size address =>
      (s.finish version k).bind fun r =>
        if error then some r.2 else next version r.1 size address r.2

/-- The blocks of the operations outstanding. -/
def held (s : Session) : List Pointer := s.outstanding.map Prod.snd

/-- Every block obtained has been given back once or is held by an operation, `storage_` has not
been deleted, and it is not in use when no operation is outstanding. -/
structure Returned (s : Session) : Prop where
  blocks : s.memory.obtained.Perm (s.memory.returned ++ s.held)
  kept : .storage ∉ s.memory.deleted
  free : s.outstanding = [] → s.memory.inUse_ = false

/-- `storage_` is in use only when an operation holds it. -/
structure Balanced (s : Session) : Prop where
  blocks : s.memory.obtained.Perm (s.memory.returned ++ s.held)
  kept : .storage ∉ s.memory.deleted
  inUse : s.memory.inUse_ = true → .storage ∈ s.held

/-- No memory is released. -/
def Keeps : SessionEvent → Prop
  | .start _ _ => True
  | _ => False

variable {version} {s t : Session}

/-- A step starts an operation, or ends one and then starts one or none. -/
theorem step_cases {e : SessionEvent} (h : s.step version e = some t) :
    (Keeps e ∧ ∃ op size address, s.begin version op size address = some t) ∨
    (¬ Keeps e ∧ ∃ k op u, s.finish version k = some (op, u) ∧
      (t = u ∨ ∃ op size address, u.begin version op size address = some t)) := by
  cases e with
  | start size address => exact Or.inl ⟨trivial, .readSome, size, address, h⟩
  | proceed k size address =>
      obtain ⟨⟨op, u⟩, hfinish, hnext⟩ := Option.bind_eq_some_iff.mp h
      simp only at hnext
      split_ifs at hnext
      exact Or.inr ⟨id, k, op, u, hfinish, Or.inr ⟨.write, size, address, hnext⟩⟩
  | complete k error size address =>
      obtain ⟨⟨op, u⟩, hfinish, hnext⟩ := Option.bind_eq_some_iff.mp h
      refine Or.inr ⟨id, k, op, u, hfinish, ?_⟩
      simp only at hnext
      split_ifs at hnext
      · cases hnext
        exact Or.inl rfl
      · cases op with
        | readSome => exact Or.inr ⟨.write, size, address, hnext⟩
        | write => exact Or.inr ⟨.readSome, size, address, hnext⟩

theorem Balanced.returned (hs : s.Balanced) : s.Returned := by
  refine ⟨hs.blocks, hs.kept, fun hnone => ?_⟩
  by_contra huse
  have hheld := hs.inUse (by simpa using huse)
  rw [held, hnone] at hheld
  cases hheld

theorem Balanced.begin {op : Operation} {size address : Nat} (hs : s.Balanced)
    (h : s.begin version op size address = some t) : t.Balanced := by
  obtain ⟨⟨p, m⟩, hallocate, rfl⟩ := Option.map_eq_some_iff.mp h
  obtain ⟨hobtained, hreturned, hdeleted⟩ := Memory.allocate_records hallocate
  have hheld : (s.outstanding ++ [(op, p)]).map Prod.snd = s.held ++ [p] := List.map_append
  constructor
  case blocks =>
      rw [held, hheld, hobtained, hreturned, ← List.append_assoc]
      exact hs.blocks.append_right [p]
  case kept =>
      rw [hdeleted]
      exact hs.kept
  case inUse =>
      intro huse
      rw [held, hheld]
      rcases Memory.allocate_cases hallocate with ⟨rfl, -, -, rfl⟩ | ⟨rfl, -, -, rfl⟩
      · exact List.mem_append_right _ List.mem_cons_self
      · exact List.mem_append_left _ (hs.inUse huse)

/-- The operation that ends stands somewhere among those outstanding. -/
theorem finish_split {k : Nat} {op : Operation} (h : s.finish version k = some (op, t)) :
    ∃ before p after, s.held = before ++ p :: after ∧ t.held = before ++ after ∧
      t.memory = release version p s.memory := by
  obtain ⟨⟨op', p⟩, hget, heq⟩ := Option.map_eq_some_iff.mp h
  cases heq
  obtain ⟨hlt, hk⟩ := List.getElem?_eq_some_iff.mp hget
  refine ⟨(s.outstanding.take k).map Prod.snd, p, (s.outstanding.drop (k + 1)).map Prod.snd,
    ?_, ?_, rfl⟩
  · calc
      s.held = (s.outstanding.take k ++ s.outstanding.drop k).map Prod.snd := by
        rw [List.take_append_drop, held]
      _ = (s.outstanding.take k ++ (op', p) :: s.outstanding.drop (k + 1)).map Prod.snd := by
        rw [← List.getElem_cons_drop hlt, hk]
      _ = _ := by rw [List.map_append, List.map_cons]
  · rw [held, List.eraseIdx_eq_take_drop_succ, List.map_append]

/-- With the hook every block goes back to where it came from. -/
theorem Balanced.finish {k : Nat} {op : Operation} (hhook : version.deallocateHook = true)
    (hs : s.Balanced) (h : s.finish version k = some (op, t)) : t.Balanced := by
  obtain ⟨before, p, after, hheld, htheld, hmemory⟩ := finish_split h
  rw [release, if_pos hhook] at hmemory
  obtain ⟨hobtained, hreturned, hdeleted⟩ := Memory.deallocate_records p s.memory
  constructor
  case blocks =>
      rw [hmemory, hobtained, hreturned, List.append_assoc]
      refine hs.blocks.trans (List.Perm.append_left _ ?_)
      rw [hheld, htheld]
      exact List.perm_middle
  case kept =>
      rw [hmemory, hdeleted, List.mem_append, List.mem_filter]
      exact not_or.mpr ⟨hs.kept, fun hmem => absurd rfl (of_decide_eq_true hmem.2)⟩
  case inUse =>
      intro huse
      rw [hmemory] at huse
      cases p with
      | storage => cases huse
      | heap address =>
          have hmem := hs.inUse huse
          rw [hheld] at hmem
          rw [htheld]
          simpa using hmem

theorem Balanced.step {e : SessionEvent} (hhook : version.deallocateHook = true) (hs : s.Balanced)
    (h : s.step version e = some t) : t.Balanced := by
  rcases step_cases h with ⟨-, op, size, address, hbegin⟩ | ⟨-, k, op, u, hfinish, hnext⟩
  · exact hs.begin hbegin
  · have hu := hs.finish hhook hfinish
    rcases hnext with rfl | ⟨op, size, address, hbegin⟩
    · exact hu
    · exact hu.begin hbegin

/-- With the hook all memory is returned, in every run. -/
theorem returned_of_hook (hhook : version.deallocateHook = true)
    (h : TransitionRuns.Reachable (Session.step version) {} s) : s.Returned :=
  (h.invariant (I := Balanced) (fun _ _ _ hs ht => hs.step hhook ht)
    ⟨List.Perm.nil, List.not_mem_nil, fun huse => by cases huse⟩).returned

theorem server03_returned (h : TransitionRuns.Reachable (Session.step server03) {} s) :
    s.Returned := returned_of_hook rfl h

/-! ### Without the hook -/

/-- How many blocks have been obtained that were neither given back nor are held. -/
def Lost (s : Session) : Prop :=
  s.memory.returned.length + s.held.length < s.memory.obtained.length

theorem Lost.not_returned (hs : s.Lost) : ¬ s.Returned := by
  intro hreturned
  have hlength := hreturned.blocks.length_eq
  rw [List.length_append] at hlength
  exact absurd hlength (Nat.ne_of_gt hs)

theorem Lost.begin {op : Operation} {size address : Nat} (hs : s.Lost)
    (h : s.begin version op size address = some t) : t.Lost := by
  obtain ⟨⟨p, m⟩, hallocate, rfl⟩ := Option.map_eq_some_iff.mp h
  obtain ⟨hobtained, hreturned, -⟩ := Memory.allocate_records hallocate
  unfold Lost held at hs ⊢
  rw [hobtained, hreturned]
  simp only [List.length_append, List.length_map, List.length_singleton] at hs ⊢
  omega

theorem Balanced.lost {k : Nat} {op : Operation} (hhook : version.deallocateHook = false)
    (hs : s.Balanced) (h : s.finish version k = some (op, t)) : t.Lost := by
  obtain ⟨before, p, after, hheld, htheld, hmemory⟩ := finish_split h
  have hlength := hs.blocks.length_eq
  rw [release, hhook] at hmemory
  rw [Lost, hmemory, htheld]
  rw [hheld] at hlength
  simp only [List.length_append, List.length_cons] at hlength ⊢
  show s.memory.returned.length + _ < s.memory.obtained.length
  omega

/-- The first memory that is released without the hook is lost. -/
theorem not_returned_of_not_keeps {e : SessionEvent} (hhook : version.deallocateHook = false)
    (hs : s.Balanced) (hkeeps : ¬ Keeps e) (h : s.step version e = some t) : ¬ t.Returned := by
  rcases step_cases h with ⟨hkept, -⟩ | ⟨-, k, op, u, hfinish, hnext⟩
  · exact absurd hkept hkeeps
  · have hu := hs.lost hhook hfinish
    rcases hnext with rfl | ⟨op, size, address, hbegin⟩
    · exact hu.not_returned
    · exact (hu.begin hbegin).not_returned

/-- In a run of a session of `server_11` the memory of the handlers is always returned if and only
if none is ever released, that is if no operation ends. -/
theorem server11_returned_iff {es : List SessionEvent}
    (h : TransitionRuns.run (Session.step server11) {} es = some t) :
    TransitionRuns.Always (Session.step server11) Returned {} es ↔
      TransitionRuns.Throughout (Session.step server11) (fun _ e => Keeps e) {} es := by
  refine TransitionRuns.always_iff_throughout (I := Balanced) (A := fun _ _ => True)
    (fun s e s' hs _ hkeeps hstep => ?_) (fun _ hs => hs.returned)
    (fun _ _ _ hs _ hkeeps hstep => not_returned_of_not_keeps rfl hs hkeeps hstep)
    ⟨List.Perm.nil, List.not_mem_nil, fun huse => by cases huse⟩ h fun _ _ _ _ _ => trivial
  rcases step_cases hstep with ⟨-, op, size, address, hbegin⟩ | ⟨hnot, -⟩
  · exact hs.begin hbegin
  · exact absurd hkeeps hnot

/-- Two operations are started, with a small and a large handler. -/
theorem server11_returned_iff_started : TransitionRuns.Always (Session.step server11) Returned {}
    [.start 100 0, .start 2000 7] := by
  have hrun : TransitionRuns.run (Session.step server11) {} [.start 100 0, .start 2000 7] =
    some _ := rfl
  refine (server11_returned_iff hrun).mpr ?_
  refine TransitionRuns.throughout_of_forall_mem (fun e he => ?_) ({} : Session)
  simp only [List.mem_cons, List.not_mem_nil, or_false] at he
  rcases he with rfl | rfl
  · trivial
  · trivial

/-- One operation is started, in `storage_`, and ends. -/
theorem oneRead_not_returned : ∃ s, TransitionRuns.run (Session.step server11) {}
    [.start 100 0, .complete 0 true 0 0] = some s ∧ .storage ∈ s.memory.deleted ∧
      ¬ s.Returned := by
  refine ⟨_, rfl, by decide, fun hreturned => hreturned.kept (by decide)⟩

end Session

end AsioTest.Alloc
