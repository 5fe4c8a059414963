import AsioTest.ByteStrings
import AsioTest.HandlerAllocator

/-!
The echo session of both servers: what it reads into `data_` it writes back, and then it reads
again. The handlers' blocks are those of the session of the allocator, which a run of this one is a
run of. Since an operation is started only when the one before has ended, `storage_` is free
whenever memory is asked for.
-/

namespace AsioTest.Alloc

open TransitionRuns

/-- The array `data_`. -/
structure Data where
  bytes : Bytes
  length_eq : bytes.length = 1024
  deriving DecidableEq

/-- What `async_read_some` on `data_` transfers: at least one byte, and no more than fit. -/
structure Piece where
  bytes : Bytes
  ne_nil : bytes ≠ []
  length_le : bytes.length ≤ 1024

def Piece.twoBytes : Piece := ⟨[72, 105], List.cons_ne_nil _ _, Nat.le_of_ble_eq_true rfl⟩

def Data.store (data_ : Data) (piece : Piece) : Data where
  bytes := piece.bytes ++ data_.bytes.drop piece.bytes.length
  length_eq := by
    rw [List.length_append, List.length_drop, data_.length_eq]
    exact Nat.add_sub_cancel' piece.length_le

theorem Data.take_store (data_ : Data) (piece : Piece) :
    (data_.store piece).bytes.take piece.bytes.length = piece.bytes := List.take_left

def Data.zeros : Data := ⟨List.replicate 1024 0, List.length_replicate⟩

/-- How much memory is asked for, and the address that `::operator new` gives out for it. -/
structure Block where
  size : Nat
  address : Nat
  deriving DecidableEq

/-- A write is one of the first `length` bytes of `data_`, of which `sent` are through. -/
inductive EchoOp where
  | readSome
  | write (sent length : Nat)
  deriving DecidableEq

def EchoOp.operation : EchoOp → Operation
  | .readSome => .readSome
  | .write _ _ => .write

/-- `written` records what has gone out, and `asked` what memory has been asked for. -/
structure EchoSession where
  data_ : Data
  allocator_ : Memory := {}
  outstanding : List (EchoOp × Pointer) := []
  written : Bytes := []
  asked : List Block := []
  deriving DecidableEq

/-- The `k`-th operation outstanding reads, or writes some bytes more, or fails; `next` is the
memory for the operation that follows, if one does. -/
inductive EchoEvent where
  | read (k : Nat) (r : Option Piece) (next : Block)
  | wrote (k : Nat) (r : Option Nat) (next : Block)

/-- The bytes an event brings in. -/
def EchoEvent.received : EchoEvent → Bytes
  | .read _ (some piece) _ => piece.bytes
  | _ => []

namespace EchoSession

variable (version : Version)

/-- An operation is started, in a block of the allocator. -/
def begin (op : EchoOp) (next : Block) (s : EchoSession) : Option EchoSession :=
  (s.allocator_.allocate version.capacity next.size next.address).map fun r =>
    { s with
      allocator_ := r.2
      outstanding := s.outstanding ++ [(op, r.1)]
      asked := s.asked ++ [next] }

/-- `do_read`, or the call of `async_read_some` in `start` and `handle_write`. -/
def doRead (next : Block) (s : EchoSession) : Option EchoSession := s.begin version .readSome next

def doWrite (length : Nat) (next : Block) (s : EchoSession) : Option EchoSession :=
  s.begin version (.write 0 length) next

/-- `handle_read`, with the bytes where the operation has put them. -/
def handleRead (r : Option Piece) (next : Block) (s : EchoSession) : Option EchoSession :=
  match r with
  | some piece => { s with data_ := s.data_.store piece }.doWrite version piece.bytes.length next
  | none => some s

def handleWrite (error : Bool) (next : Block) (s : EchoSession) : Option EchoSession :=
  if error then some s else s.doRead version next

/-- A session that is accepted is started. -/
def started (data_ : Data) (next : Block) : Option EchoSession :=
  ({ data_ := data_ } : EchoSession).doRead version next

/-- The `k`-th operation ends: its memory is released before its handler runs. -/
def finish (k : Nat) (s : EchoSession) : Option (EchoOp × EchoSession) :=
  s.outstanding[k]?.map fun r =>
    (r.1, { s with
      allocator_ := Session.release version r.2 s.allocator_
      outstanding := s.outstanding.eraseIdx k })

/-- `n` bytes more go out of a write; what is left is written next. -/
def onSent (sent length n : Nat) (next : Block) (s : EchoSession) : Option EchoSession :=
  let s := { s with written := s.written ++ (s.data_.bytes.drop sent).take n }
  if sent + n < length then s.begin version (.write (sent + n) length) next
  else s.handleWrite version false next

def step (s : EchoSession) : EchoEvent → Option EchoSession
  | .read k r next =>
      (s.finish version k).bind fun p =>
        match p.1 with
        | .readSome => p.2.handleRead version r next
        | .write _ _ => none
  | .wrote k r next =>
      (s.finish version k).bind fun p =>
        match p.1, r with
        | .readSome, _ => none
        | .write _ _, none => p.2.handleWrite version true next
        | .write sent length, some n =>
            if 0 < n ∧ sent + n ≤ length then p.2.onSent version sent length n next else none

/-- The blocks of the operations outstanding. -/
def held (s : EchoSession) : List Pointer := s.outstanding.map Prod.snd

/-- The bytes that the write outstanding has still to write. -/
def unwritten (s : EchoSession) : Bytes :=
  s.outstanding.flatMap fun x =>
    match x.1 with
    | .readSome => []
    | .write sent length => (s.data_.bytes.take length).drop sent

/-- What a step does: it ends an operation, and starts the next one unless there was an error. -/
inductive Moved (s : EchoSession) : EchoEvent → EchoSession → Prop where
  | noRead {k : Nat} {next : Block} {t : EchoSession}
      (hfinish : s.finish version k = some (.readSome, t)) : Moved s (.read k none next) t
  | noWrite {k sent length : Nat} {next : Block} {t : EchoSession}
      (hfinish : s.finish version k = some (.write sent length, t)) : Moved s (.wrote k none next) t
  | echoes {k : Nat} {piece : Piece} {next : Block} {u t : EchoSession}
      (hfinish : s.finish version k = some (.readSome, u))
      (hbegin : { u with data_ := u.data_.store piece }.begin version
        (.write 0 piece.bytes.length) next = some t) : Moved s (.read k (some piece) next) t
  | writesOn {k sent length n : Nat} {next : Block} {u t : EchoSession}
      (hfinish : s.finish version k = some (.write sent length, u)) (hn : sent + n < length)
      (hbegin : { u with written := u.written ++ (u.data_.bytes.drop sent).take n }.begin version
        (.write (sent + n) length) next = some t) : Moved s (.wrote k (some n) next) t
  | readsOn {k sent length n : Nat} {next : Block} {u t : EchoSession}
      (hfinish : s.finish version k = some (.write sent length, u)) (hn : sent + n = length)
      (hbegin : { u with written := u.written ++ (u.data_.bytes.drop sent).take n }.begin version
        .readSome next = some t) : Moved s (.wrote k (some n) next) t

variable {version} {s t u : EchoSession} {e : EchoEvent} {next : Block} {op : EchoOp} {k : Nat}

theorem moved_of_step (h : s.step version e = some t) : Moved version s e t := by
  cases e with
  | read k r next =>
      obtain ⟨⟨op, u⟩, hfinish, hnext⟩ := Option.bind_eq_some_iff.mp h
      cases op with
      | write sent length => cases hnext
      | readSome =>
          cases r with
          | none =>
              cases hnext
              exact .noRead hfinish
          | some piece => exact .echoes hfinish hnext
  | wrote k r next =>
      obtain ⟨⟨op, u⟩, hfinish, hnext⟩ := Option.bind_eq_some_iff.mp h
      cases op with
      | readSome => cases hnext
      | write sent length =>
          cases r with
          | none =>
              cases hnext
              exact .noWrite hfinish
          | some n =>
              simp only [onSent] at hnext
              split_ifs at hnext with hfits hmore
              · exact .writesOn hfinish hmore hnext
              · exact .readsOn hfinish (Nat.le_antisymm hfits.2 (Nat.not_lt.mp hmore)) hnext

theorem begin_eq_some (h : s.begin version op next = some t) :
    ∃ p m, s.allocator_.allocate version.capacity next.size next.address = some (p, m) ∧
      t = { s with
        allocator_ := m
        outstanding := s.outstanding ++ [(op, p)]
        asked := s.asked ++ [next] } := by
  obtain ⟨⟨p, m⟩, hallocate, rfl⟩ := Option.map_eq_some_iff.mp h
  exact ⟨p, m, hallocate, rfl⟩

/-! ### The session of the allocator -/

/-- The session as far as the memory of its handlers goes. -/
def handlers (s : EchoSession) : Session where
  memory := s.allocator_
  outstanding := s.outstanding.map fun x => (x.1.operation, x.2)

theorem handlers_begin (h : s.begin version op next = some t) :
    s.handlers.begin version op.operation next.size next.address = some t.handlers := by
  obtain ⟨p, m, hallocate, rfl⟩ := begin_eq_some h
  rw [Session.begin, handlers, hallocate, Option.map_some]
  simp [handlers]

theorem handlers_finish (h : s.finish version k = some (op, t)) :
    s.handlers.finish version k = some (op.operation, t.handlers) := by
  obtain ⟨x, hx, heq⟩ := Option.map_eq_some_iff.mp h
  cases heq
  rw [Session.finish, handlers, List.getElem?_map, hx]
  simp [handlers, List.eraseIdx_map]

/-- A step is one of the session of the allocator. -/
theorem handlers_step (h : s.step version e = some t) :
    ∃ e', s.handlers.step version e' = some t.handlers := by
  cases moved_of_step h with
  | @noRead k next _ hfinish =>
      refine ⟨.complete k true 0 0, ?_⟩
      rw [Session.step, handlers_finish hfinish]
      rfl
  | @noWrite k _ _ next _ hfinish =>
      refine ⟨.complete k true 0 0, ?_⟩
      rw [Session.step, handlers_finish hfinish]
      rfl
  | @echoes k piece next u _ hfinish hbegin =>
      refine ⟨.complete k false next.size next.address, ?_⟩
      rw [Session.step, handlers_finish hfinish]
      exact handlers_begin hbegin
  | @writesOn k _ _ _ next u _ hfinish hn hbegin =>
      refine ⟨.proceed k next.size next.address, ?_⟩
      rw [Session.step, handlers_finish hfinish]
      exact handlers_begin hbegin
  | @readsOn k _ _ _ next u _ hfinish hn hbegin =>
      refine ⟨.complete k false next.size next.address, ?_⟩
      rw [Session.step, handlers_finish hfinish]
      exact handlers_begin hbegin

theorem handlers_started {data_ : Data} (h : started version data_ next = some s) :
    Reachable (Session.step version) {} s.handlers :=
  ⟨[.start next.size next.address], run_singleton.mpr (handlers_begin h)⟩

/-- A run is one of the session of the allocator. -/
theorem handlers_run {es : List EchoEvent}
    (hs : Reachable (Session.step version) {} s.handlers) (h : run (step version) s es = some t) :
    Reachable (Session.step version) {} t.handlers := by
  refine run_invariant (I := fun s => Reachable (Session.step version) {} s.handlers)
    (fun s e t hs ht => ?_) hs h
  obtain ⟨e', he'⟩ := handlers_step ht
  exact hs.extend he'

/-! ### One operation at a time -/

/-- With one operation outstanding, that one ends and none is left. -/
theorem finish_single (hs : s.outstanding.length ≤ 1) (h : s.finish version k = some (op, t)) :
    ∃ p, s.outstanding = [(op, p)] ∧
      t = { s with allocator_ := Session.release version p s.allocator_, outstanding := [] } := by
  obtain ⟨⟨op', p⟩, hget, heq⟩ := Option.map_eq_some_iff.mp h
  cases heq
  match houtstanding : s.outstanding with
  | [] =>
      rw [houtstanding] at hget
      cases hget
  | [x] =>
      rw [houtstanding] at hget
      cases k with
      | zero =>
          cases hget
          exact ⟨p, rfl, rfl⟩
      | succ k => simp at hget
  | x :: y :: rest =>
      rw [houtstanding] at hs
      simp at hs

theorem begin_single (h : s.begin version op next = some t) (hs : s.outstanding = []) :
    ∃ p, t.outstanding = [(op, p)] ∧ t.data_ = s.data_ ∧ t.written = s.written := by
  obtain ⟨p, m, -, rfl⟩ := begin_eq_some h
  rw [hs]
  exact ⟨p, rfl, rfl, rfl⟩

/-! ### What is written -/

/-- What the session has written and has still to write is what it has received; when it has ended,
a piece at most has got lost. -/
structure Echoing (received : Bytes) (s : EchoSession) : Prop where
  single : s.outstanding.length ≤ 1
  fits : ∀ sent length p, (.write sent length, p) ∈ s.outstanding → sent < length ∧ length ≤ 1024
  echoed : s.outstanding ≠ [] → s.written ++ s.unwritten = received
  ended : s.outstanding = [] → ∃ lost, lost.length ≤ 1024 ∧ s.written ++ lost = received

variable {received : Bytes}

/-- `n` bytes behind the first `sent`, and the rest. -/
theorem take_drop_append (l : Bytes) {sent n length : Nat} (h : sent + n ≤ length) :
    (l.drop sent).take n ++ (l.take length).drop (sent + n) = (l.take length).drop sent := by
  have htake : ((l.take length).drop sent).take n = (l.drop sent).take n := by
    rw [List.drop_take, List.take_take, Nat.min_eq_left (by omega)]
  rw [← htake, ← List.drop_drop, List.take_append_drop]

theorem Echoing.of_reading (houtstanding : ∃ p, s.outstanding = [(.readSome, p)])
    (hwritten : s.written = received) : s.Echoing received := by
  obtain ⟨p, houtstanding⟩ := houtstanding
  constructor
  case single => rw [houtstanding, List.length_singleton]
  case fits =>
      intro sent length q hmem
      rw [houtstanding, List.mem_singleton] at hmem
      cases hmem
  case echoed =>
      intro _
      rw [unwritten, houtstanding, hwritten]
      exact List.append_nil received
  case ended =>
      intro hnone
      rw [houtstanding] at hnone
      cases hnone

theorem Echoing.of_writing {sent length : Nat}
    (houtstanding : ∃ p, s.outstanding = [(.write sent length, p)]) (hsent : sent < length)
    (hlength : length ≤ 1024)
    (hwritten : s.written ++ (s.data_.bytes.take length).drop sent = received) :
    s.Echoing received := by
  obtain ⟨p, houtstanding⟩ := houtstanding
  constructor
  case single => rw [houtstanding, List.length_singleton]
  case fits =>
      intro sent length q hmem
      rw [houtstanding, List.mem_singleton] at hmem
      cases hmem
      exact ⟨hsent, hlength⟩
  case echoed =>
      intro _
      rw [unwritten, houtstanding, List.flatMap_singleton]
      exact hwritten
  case ended =>
      intro hnone
      rw [houtstanding] at hnone
      cases hnone

theorem Echoing.of_ended {lost : Bytes} (houtstanding : s.outstanding = [])
    (hlost : lost.length ≤ 1024) (hwritten : s.written ++ lost = received) :
    s.Echoing received := by
  constructor
  case single =>
      rw [houtstanding]
      exact Nat.zero_le 1
  case fits =>
      intro sent length q hmem
      rw [houtstanding] at hmem
      cases hmem
  case echoed => exact fun hsome => absurd houtstanding hsome
  case ended => exact fun _ => ⟨lost, hlost, hwritten⟩

theorem echoing_started {data_ : Data} (h : started version data_ next = some s) :
    s.Echoing [] := by
  obtain ⟨p, houtstanding, -, hwritten⟩ := begin_single h rfl
  exact .of_reading ⟨p, houtstanding⟩ hwritten

/-- The write that ends with the bytes it has still to write. -/
theorem Echoing.writing {sent length : Nat} (hs : s.Echoing received)
    (h : s.finish version k = some (.write sent length, u)) :
    u.outstanding = [] ∧ length ≤ 1024 ∧
      u.written ++ (u.data_.bytes.take length).drop sent = received := by
  obtain ⟨p, houtstanding, rfl⟩ := finish_single hs.single h
  have hwritten := hs.echoed (by rw [houtstanding]; exact List.cons_ne_nil _ _)
  rw [unwritten, houtstanding, List.flatMap_singleton] at hwritten
  refine ⟨rfl, (hs.fits sent length p ?_).2, hwritten⟩
  rw [houtstanding]
  exact List.mem_cons_self

/-- A read ends when everything is written. -/
theorem Echoing.reading (hs : s.Echoing received)
    (h : s.finish version k = some (.readSome, u)) :
    u.outstanding = [] ∧ u.written = received := by
  obtain ⟨p, houtstanding, rfl⟩ := finish_single hs.single h
  have hwritten := hs.echoed (by rw [houtstanding]; exact List.cons_ne_nil _ _)
  rw [unwritten, houtstanding, List.flatMap_singleton, List.append_nil] at hwritten
  exact ⟨rfl, hwritten⟩

theorem Echoing.step (hs : s.Echoing received) (h : s.step version e = some t) :
    t.Echoing (received ++ e.received) := by
  cases moved_of_step h with
  | noRead hfinish =>
      obtain ⟨hnone, hwritten⟩ := hs.reading hfinish
      have hnothing : ([] : Bytes).length ≤ 1024 := Nat.zero_le 1024
      refine .of_ended hnone hnothing ?_
      rw [hwritten]
      rfl
  | noWrite hfinish =>
      obtain ⟨hnone, hlength, hwritten⟩ := hs.writing hfinish
      refine .of_ended hnone ?_ (hwritten.trans (List.append_nil received).symm)
      rw [List.length_drop]
      exact (Nat.sub_le _ _).trans ((List.length_take_le _ _).trans hlength)
  | @echoes k piece next u _ hfinish hbegin =>
      obtain ⟨hnone, hwritten⟩ := hs.reading hfinish
      obtain ⟨p, houtstanding, hdata, hkept⟩ := begin_single hbegin hnone
      refine .of_writing ⟨p, houtstanding⟩ (List.length_pos_of_ne_nil piece.ne_nil)
        piece.length_le ?_
      rw [hdata, hkept, Data.take_store, List.drop_zero, hwritten]
      rfl
  | @writesOn k sent length n next u _ hfinish hn hbegin =>
      obtain ⟨hnone, hlength, hwritten⟩ := hs.writing hfinish
      obtain ⟨p, houtstanding, hdata, hkept⟩ := begin_single hbegin hnone
      refine .of_writing ⟨p, houtstanding⟩ hn hlength ?_
      rw [hdata, hkept, List.append_assoc, take_drop_append _ hn.le]
      exact hwritten.trans (List.append_nil received).symm
  | @readsOn k sent length n next u _ hfinish hn hbegin =>
      obtain ⟨hnone, -, hwritten⟩ := hs.writing hfinish
      obtain ⟨p, houtstanding, -, hkept⟩ := begin_single hbegin hnone
      refine .of_reading ⟨p, houtstanding⟩ ?_
      have hrest : (u.data_.bytes.take length).drop (sent + n) = [] := by
        rw [hn]
        exact List.drop_eq_nil_of_le (List.length_take_le _ _)
      have hall := take_drop_append u.data_.bytes hn.le
      rw [hrest, List.append_nil] at hall
      rw [hkept, hall]
      exact hwritten.trans (List.append_nil received).symm

theorem echoing_run {data_ : Data} {es : List EchoEvent} (hs : started version data_ next = some s)
    (h : run (step version) s es = some t) : t.Echoing (es.flatMap EchoEvent.received) := by
  have hinit : s.Echoing ([].flatMap EchoEvent.received) := echoing_started hs
  have hall : t.Echoing (([] ++ es).flatMap EchoEvent.received) := by
    refine run_history (I := fun es s => s.Echoing (es.flatMap EchoEvent.received))
      (fun es s e t hs ht => ?_) hinit h
    rw [flatMap_concat]
    exact hs.step ht
  rwa [List.nil_append] at hall

/-! ### Where the handlers are kept -/

/-- A handler that is small enough is kept in `storage_`. -/
def place (version : Version) (b : Block) : Pointer :=
  if b.size < version.capacity then .storage else .heap b.address

/-- Each block asked for is `storage_` when it is small enough and one of the heap otherwise; what
is in use is what the operation outstanding holds, and the rest has been given back. -/
structure Placed (version : Version) (s : EchoSession) : Prop where
  obtained : s.allocator_.obtained = s.asked.map (place version)
  inUse : s.allocator_.inUse_ = true ↔ .storage ∈ s.held
  live : s.allocator_.live.map .heap = s.held.filter (· ≠ .storage)
  returned : s.allocator_.obtained.Perm (s.allocator_.returned ++ s.held)
  kept : .storage ∉ s.allocator_.deleted

/-- Nothing is in use between two operations. -/
structure Idle (version : Version) (s : EchoSession) : Prop where
  none : s.outstanding = []
  obtained : s.allocator_.obtained = s.asked.map (place version)
  inUse : s.allocator_.inUse_ = false
  live : s.allocator_.live = []

theorem handlers_held (s : EchoSession) : s.handlers.held = s.held := by
  rw [Session.held, handlers, List.map_map]
  rfl

theorem Idle.placed (hs : s.Idle version) (hbalanced : s.handlers.Balanced) :
    s.Placed version := by
  have hheld : s.held = [] := by rw [held, hs.none, List.map_nil]
  constructor
  case obtained => exact hs.obtained
  case inUse => rw [hs.inUse, hheld]; simp
  case live => rw [hs.live, hheld]; rfl
  case returned => exact handlers_held s ▸ hbalanced.blocks
  case kept => exact hbalanced.kept

/-- What `allocate` does between two operations. -/
theorem Idle.allocate {p : Pointer} {m : Memory} (hs : s.Idle version)
    (h : s.allocator_.allocate version.capacity next.size next.address = some (p, m)) :
    p = place version next ∧ (m.inUse_ = true ↔ .storage = p) ∧
      m.live.map .heap = [p].filter (· ≠ .storage) := by
  rcases Memory.allocate_cases h with ⟨rfl, -, hsmall, rfl⟩ | ⟨rfl, hlarge, -, rfl⟩
  · exact ⟨(if_pos hsmall).symm, iff_of_true rfl rfl, by rw [hs.live]; rfl⟩
  · have hnot : ¬ next.size < version.capacity := fun hsmall => hlarge ⟨hs.inUse, hsmall⟩
    refine ⟨(if_neg hnot).symm, ?_, by rw [hs.live]; rfl⟩
    exact iff_of_false (by rw [hs.inUse]; exact Bool.false_ne_true) Pointer.noConfusion

theorem Idle.begin (h : s.begin version op next = some t) (hs : s.Idle version)
    (hbalanced : t.handlers.Balanced) : t.Placed version := by
  obtain ⟨p, m, hallocate, rfl⟩ := begin_eq_some h
  have hheld : (s.outstanding ++ [(op, p)]).map Prod.snd = [p] := by rw [hs.none]; rfl
  obtain ⟨hplace, hinUse, hlive⟩ := hs.allocate hallocate
  constructor
  case obtained =>
      rw [(Memory.allocate_records hallocate).1, hs.obtained, hplace, List.map_append]
      rfl
  case inUse => rw [held, hheld, List.mem_singleton, hinUse]
  case live => rw [held, hheld, hlive]
  case returned => exact handlers_held _ ▸ hbalanced.blocks
  case kept => exact hbalanced.kept

/-- The one block in use goes back to where it came from. -/
theorem live_released (hhook : version.deallocateHook = true) {p : Pointer} {m : Memory}
    (h : m.live.map .heap = [p].filter (· ≠ .storage)) :
    (Session.release version p m).live = [] := by
  rw [Session.release, if_pos hhook]
  cases p with
  | storage => exact List.map_eq_nil_iff.mp h
  | heap address =>
      have hlive : m.live = [address] :=
        List.map_injective_iff.mpr (fun a b hab => Pointer.heap.inj hab) h
      show m.live.erase address = []
      rw [hlive, List.erase_cons_head]

theorem Placed.finish (hhook : version.deallocateHook = true) (hs : s.Placed version)
    (hbalanced : s.handlers.Balanced) (hsingle : s.outstanding.length ≤ 1)
    (h : s.finish version k = some (op, t)) : t.handlers.Balanced ∧ t.Idle version := by
  have ht := hbalanced.finish hhook (handlers_finish h)
  refine ⟨ht, ?_⟩
  have hfree := ht.returned.free
  obtain ⟨p, houtstanding, rfl⟩ := finish_single hsingle h
  have hheld : s.held = [p] := by rw [held, houtstanding]; rfl
  constructor
  case none => rfl
  case obtained =>
      rw [Session.release, if_pos hhook, (Memory.deallocate_records p s.allocator_).1]
      exact hs.obtained
  case inUse => exact hfree rfl
  case live => exact live_released hhook (hheld ▸ hs.live)

theorem Placed.step (hhook : version.deallocateHook = true) (hs : s.Placed version)
    (hbalanced : s.handlers.Balanced) (hsingle : s.outstanding.length ≤ 1)
    (h : s.step version e = some t) : t.Placed version := by
  obtain ⟨e', he'⟩ := handlers_step h
  have ht := hbalanced.step hhook he'
  cases moved_of_step h with
  | noRead hfinish => exact (hs.finish hhook hbalanced hsingle hfinish).2.placed ht
  | noWrite hfinish => exact (hs.finish hhook hbalanced hsingle hfinish).2.placed ht
  | echoes hfinish hbegin =>
      obtain ⟨hnone, hobtained, hinUse, hlive⟩ := (hs.finish hhook hbalanced hsingle hfinish).2
      exact Idle.begin hbegin ⟨hnone, hobtained, hinUse, hlive⟩ ht
  | writesOn hfinish hn hbegin =>
      obtain ⟨hnone, hobtained, hinUse, hlive⟩ := (hs.finish hhook hbalanced hsingle hfinish).2
      exact Idle.begin hbegin ⟨hnone, hobtained, hinUse, hlive⟩ ht
  | readsOn hfinish hn hbegin =>
      obtain ⟨hnone, hobtained, hinUse, hlive⟩ := (hs.finish hhook hbalanced hsingle hfinish).2
      exact Idle.begin hbegin ⟨hnone, hobtained, hinUse, hlive⟩ ht

theorem balanced_of_reachable (hhook : version.deallocateHook = true)
    (h : Reachable (Session.step version) {} s.handlers) : s.handlers.Balanced :=
  h.invariant (I := Session.Balanced) (fun _ _ _ hs ht => hs.step hhook ht)
    ⟨List.Perm.nil, List.not_mem_nil, fun huse => by cases huse⟩

/-- With the hook, in every run of a session that was started. -/
theorem placed_run (hhook : version.deallocateHook = true) {data_ : Data} {es : List EchoEvent}
    (hs : started version data_ next = some s) (h : run (EchoSession.step version) s es = some t) :
    t.Placed version := by
  have hidle : Idle version { data_ := data_ } := ⟨rfl, rfl, rfl, rfl⟩
  have hreach := handlers_started hs
  have hinit : (∃ received, s.Echoing received) ∧ Reachable (Session.step version) {} s.handlers ∧
      s.Placed version :=
    ⟨⟨[], echoing_started hs⟩, hreach, Idle.begin hs hidle (balanced_of_reachable hhook hreach)⟩
  refine (run_invariant (I := fun s => (∃ received, s.Echoing received) ∧
    Reachable (Session.step version) {} s.handlers ∧ s.Placed version)
    (fun s e t hs ht => ?_) hinit h).2.2
  obtain ⟨⟨received, hechoing⟩, hreach, hplaced⟩ := hs
  obtain ⟨e', he'⟩ := handlers_step ht
  refine ⟨⟨_, hechoing.step ht⟩, hreach.extend he', ?_⟩
  exact hplaced.step hhook (balanced_of_reachable hhook hreach) hechoing.single ht

end EchoSession

end AsioTest.Alloc
