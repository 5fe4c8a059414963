import AsioTest.CountingTimers

/-!
The timers of the tutorials. `tut03` and `tut04` have one timer and one thread and count to five;
`tut05` has two timers and two threads that run the `io_service`, and counts to ten. Its strand
keeps the calls apart whose waits the handlers have started; the two waits that the constructor
starts are not wrapped, so that the first call of a timer may overlap any other. On two threads the
calls take turns in reading and writing `count_`. Calls that do not overlap are as single steps.
-/

namespace AsioTest.Timers

open TransitionRuns

/-- What `count_` stops at, how many threads run the `io_service`, and whether a handler wraps the
wait it starts in the strand. -/
structure Program where
  limit : Nat
  threads : Nat
  strand : Bool

/-- `tut03` is the same program with a function for `print`. -/
def tut04 : Program := ⟨5, 1, false⟩

def tut05 : Program := ⟨10, 2, true⟩

/-- What a call of `print` does next; it stores the count it has loaded, counted on. -/
inductive Stage where
  | test
  | print
  | load
  | store (loaded : Nat)
  | wait
  deriving DecidableEq

/-- A call of `print`, whether it is wrapped in the strand, and when it began. -/
structure Call where
  wrapped : Bool
  time : Int
  stage : Stage := .test
  deriving DecidableEq

/-- `expiry` is the time a timer is set to, in seconds; a wait that is outstanding has a handler
that is wrapped or not. -/
structure Printer (n : Nat) where
  count_ : Nat := 0
  expiry : Fin n → Int
  waiting : Fin n → Option Bool
  calls : Fin n → Option Call := fun _ => none
  printed : List (Line n) := []

/-- The handler of a timer is called, or its call goes on by a step. -/
inductive TimerEvent (n : Nat) where
  | call (i : Fin n) (now : Int)
  | next (i : Fin n)
  deriving DecidableEq

/-- The event is the beginning of a call. -/
def TimerEvent.isCall {n : Nat} : TimerEvent n → Bool
  | .call _ _ => true
  | .next _ => false

namespace Printer

variable {n : Nat} (p : Program)

/-- The calls that are running. -/
def running (s : Printer n) : Finset (Fin n) := Finset.univ.filter fun i => (s.calls i).isSome

/-- The timer has expired and a thread is free; of the calls that are wrapped only one runs. -/
def MayCall (s : Printer n) (i : Fin n) (now : Int) (wrapped : Bool) : Prop :=
  s.expiry i ≤ now ∧ s.running.card < p.threads ∧
    (wrapped = true → ∀ j, ∀ c ∈ s.calls j, c.wrapped = false)

instance (s : Printer n) (i : Fin n) (now : Int) (wrapped : Bool) :
    Decidable (s.MayCall p i now wrapped) :=
  inferInstanceAs (Decidable (_ ∧ _ ∧ _))

/-- The call goes on with `stage`. -/
def goOn (s : Printer n) (i : Fin n) (c : Call) (stage : Stage) : Printer n :=
  { s with calls := Function.update s.calls i (some { c with stage := stage }) }

/-- The call ends. -/
def return_ (s : Printer n) (i : Fin n) : Printer n :=
  { s with calls := Function.update s.calls i none }

/-- The next step of `print`; the last one is `timer_.expires_at(timer_.expires_at() + seconds(1))`
and `async_wait`. -/
def proceed (s : Printer n) (i : Fin n) (c : Call) : Printer n :=
  match c.stage with
  | .test => if s.count_ < p.limit then s.goOn i c .print else s.return_ i
  | .print =>
      let line : Line n := ⟨i, s.count_, c.time⟩
      { s with printed := s.printed ++ [line] }.goOn i c .load
  | .load => s.goOn i c (.store s.count_)
  | .store loaded => { s with count_ := loaded + 1 }.goOn i c .wait
  | .wait => { s with
      expiry := Function.update s.expiry i (s.expiry i + 1)
      waiting := Function.update s.waiting i (some p.strand) }.return_ i

def step (s : Printer n) : TimerEvent n → Option (Printer n)
  | .call i now =>
      match s.waiting i with
      | none => none
      | some wrapped =>
          if s.MayCall p i now wrapped then
            some { s with
              waiting := Function.update s.waiting i none
              calls := Function.update s.calls i (some { wrapped := wrapped, time := now }) }
          else none
  | .next i => (s.calls i).map (s.proceed p i)

/-- Each timer has been set to a second after its construction, and is waited for without the
strand. -/
def started (start : Fin n → Int) : Printer n where
  expiry := fun i => start i + 1
  waiting := fun _ => some false

/-- A call that begins while another one is running is wrapped, and so is that one. -/
def Apart (s : Printer n) : TimerEvent n → Prop
  | .call i _ => ∀ j, ∀ c ∈ s.calls j, c.wrapped = true ∧ s.waiting i = some true
  | .next _ => True

instance (s : Printer n) (e : TimerEvent n) : Decidable (s.Apart e) := by
  unfold Apart
  split <;> infer_instance

variable {p} {s t : Printer n} {a : Ticker n} {i j : Fin n} {c : Call} {e : TimerEvent n}
  {es : List (TimerEvent n)} {start : Fin n → Int}

theorem call_cases {now : Int} (h : s.step p (.call i now) = some t) :
    ∃ wrapped, s.waiting i = some wrapped ∧ s.MayCall p i now wrapped ∧
      t = { s with
        waiting := Function.update s.waiting i none
        calls := Function.update s.calls i (some { wrapped := wrapped, time := now }) } := by
  rw [step] at h
  split at h
  next => cases h
  next wrapped hwaiting =>
    split_ifs at h with hmay
    cases h
    exact ⟨wrapped, hwaiting, hmay, rfl⟩

/-! ### Single steps -/

/-- No call is running, and the state is that of `a`. -/
structure Rests (a : Ticker n) (s : Printer n) : Prop where
  calls : s.calls = fun _ => none
  waiting : Option.isSome ∘ s.waiting = a.waiting
  count : s.count_ = a.count
  expiry : s.expiry = a.expiry
  printed : s.printed = a.printed

/-- How far a call is that began in the state `a` and prints `line`: the count, the lines printed
and the next stage. -/
inductive Midway (limit : Nat) (a : Ticker n) (line : Line n) : Nat → List (Line n) → Stage → Prop
  | test : Midway limit a line a.count a.printed .test
  | print (hlimit : a.count < limit) : Midway limit a line a.count a.printed .print
  | load (hlimit : a.count < limit) : Midway limit a line a.count (a.printed ++ [line]) .load
  | store (hlimit : a.count < limit) :
      Midway limit a line a.count (a.printed ++ [line]) (.store a.count)
  | wait (hlimit : a.count < limit) :
      Midway limit a line (a.count + 1) (a.printed ++ [line]) .wait

/-- The call `c` of the timer `i` is running, and no other one; it began in the state `a`. -/
structure Calls (limit : Nat) (a : Ticker n) (i : Fin n) (c : Call) (s : Printer n) : Prop where
  calls : s.calls = Function.update (fun _ => none) i (some c)
  due : a.waiting i = true ∧ a.expiry i ≤ c.time
  waiting : Option.isSome ∘ s.waiting = Function.update a.waiting i false
  expiry : s.expiry = a.expiry
  midway : Midway limit a ⟨i, a.count, c.time⟩ s.count_ s.printed c.stage

/-- A call begins. -/
theorem Rests.call {now : Int} (hs : Rests a s) (h : s.step p (.call i now) = some t) :
    ∃ c, Calls p.limit a i c t := by
  obtain ⟨wrapped, hwaiting, ⟨hexpired, -⟩, rfl⟩ := call_cases h
  refine ⟨{ wrapped := wrapped, time := now }, ?_⟩
  constructor
  case calls => rw [hs.calls]
  case due =>
      rw [← hs.waiting, ← hs.expiry]
      exact ⟨congrArg Option.isSome hwaiting, hexpired⟩
  case waiting =>
      show Option.isSome ∘ Function.update s.waiting i none = _
      rw [Function.comp_update, hs.waiting]
      rfl
  case expiry => exact hs.expiry
  case midway =>
      rw [hs.count, hs.printed]
      exact .test

/-- The running call goes on, or ends and has been a single step. -/
theorem Calls.next (hs : Calls p.limit a i c s) (h : s.step p (.next j) = some t) :
    (∃ d, Calls p.limit a i d t) ∨ ∃ b, a.tick p.limit (i, c.time) = some b ∧ Rests b t := by
  obtain ⟨x, hx, rfl⟩ := Option.map_eq_some_iff.mp h
  obtain rfl : j = i := by
    by_contra hji
    rw [hs.calls, Function.update_of_ne hji] at hx
    cases hx
  obtain rfl : c = x := by
    rw [hs.calls, Function.update_self] at hx
    exact Option.some.inj hx
  have hcalls : ∀ o, Function.update s.calls j o = Function.update (fun _ => none) j o := by
    intro o
    rw [hs.calls, Function.update_idem]
  have hended : Function.update s.calls j none = fun _ => none := by
    rw [hcalls]
    exact Function.update_eq_self j _
  obtain ⟨count_, expiry, waiting, calls, printed⟩ := s
  obtain ⟨wrapped, time, stage⟩ := c
  obtain ⟨-, ⟨hwaiting, hexpired⟩, hwaits, rfl, hmidway⟩ := hs
  cases hmidway with
  | test =>
      rw [proceed]
      dsimp only
      split_ifs with hlimit
      · exact Or.inl ⟨_, hcalls _, ⟨hwaiting, hexpired⟩, hwaits, rfl, .print hlimit⟩
      · refine Or.inr ⟨_, Ticker.tick_of_le hwaiting hexpired (Nat.not_lt.mp hlimit), ?_⟩
        exact ⟨hended, hwaits, rfl, rfl, rfl⟩
  | print hlimit =>
      exact Or.inl ⟨_, hcalls _, ⟨hwaiting, hexpired⟩, hwaits, rfl, .load hlimit⟩
  | load hlimit =>
      exact Or.inl ⟨_, hcalls _, ⟨hwaiting, hexpired⟩, hwaits, rfl, .store hlimit⟩
  | store hlimit =>
      exact Or.inl ⟨_, hcalls _, ⟨hwaiting, hexpired⟩, hwaits, rfl, .wait hlimit⟩
  | wait hlimit =>
      refine Or.inr ⟨_, Ticker.tick_of_lt hwaiting hexpired hlimit, hended, ?_, rfl, rfl, rfl⟩
      show Option.isSome ∘ Function.update waiting j (some p.strand) = _
      rw [Function.comp_update, hwaits]
      rfl

/-- While a call is running, no other one begins that is apart. -/
theorem Calls.not_call {now : Int} (hs : Calls p.limit a i c s) (hapart : s.Apart (.call j now)) :
    s.step p (.call j now) = none := by
  have hc : s.calls i = some c := by rw [hs.calls, Function.update_self]
  obtain ⟨hwrapped, hwaiting⟩ := hapart i c hc
  by_contra hsome
  obtain ⟨t, ht⟩ := Option.ne_none_iff_exists'.mp hsome
  obtain ⟨wrapped, hwaiting', ⟨-, -, hstrand⟩, -⟩ := call_cases ht
  obtain rfl : true = wrapped := Option.some.inj (hwaiting.symm.trans hwaiting')
  cases hwrapped.symm.trans (hstrand rfl i c hc)

/-- With the calls apart, those that have ended are single steps, one after the other. -/
structure Serial (p : Program) (start : Fin n → Int) (es : List (TimerEvent n)) (s : Printer n)
    (past : List (Fin n × Int)) (a : Ticker n) : Prop where
  ended : run (Ticker.tick p.limit) (Ticker.started start) past = some a
  stands : Rests a s ∧ es.countP TimerEvent.isCall = past.length ∨
    ∃ i c, Calls p.limit a i c s ∧ es.countP TimerEvent.isCall = past.length + 1

theorem Serial.step {past : List (Fin n × Int)} (hs : Serial p start es s past a)
    (hapart : s.Apart e) (h : s.step p e = some t) :
    ∃ past b, Serial p start (es ++ [e]) t past b := by
  obtain ⟨hended, ⟨hrests, hcount⟩ | ⟨i, c, hcalls, hcount⟩⟩ := hs
  · cases e with
    | call j now =>
        obtain ⟨d, hd⟩ := hrests.call h
        refine ⟨past, a, hended, Or.inr ⟨j, d, hd, ?_⟩⟩
        rw [List.countP_append, hcount]
        rfl
    | next j =>
        -- no call is running
        rw [Printer.step, hrests.calls] at h
        cases h
  · cases e with
    | call j now => cases (hcalls.not_call hapart).symm.trans h
    | next j =>
        have hsame : (es ++ [TimerEvent.next j]).countP TimerEvent.isCall = past.length + 1 := by
          rw [List.countP_append, hcount]
          rfl
        rcases hcalls.next h with ⟨d, hd⟩ | ⟨b, hb, hrests⟩
        · exact ⟨past, a, hended, Or.inr ⟨i, d, hd, hsame⟩⟩
        · refine ⟨past ++ [(i, c.time)], b, ?_, Or.inl ⟨hrests, ?_⟩⟩
          · exact run_append.mpr ⟨a, hended, run_singleton.mpr hb⟩
          · rw [hsame, List.length_append, List.length_singleton]

theorem serial_run (h : run (Printer.step p) (started start) es = some s)
    (hapart : Throughout (Printer.step p) Apart (started start) es) :
    ∃ past a, Serial p start es s past a := by
  have hinit : ∃ past a, Serial p start [] (started start) past a :=
    ⟨[], Ticker.started start, rfl, Or.inl ⟨⟨rfl, rfl, rfl, rfl, rfl⟩, rfl⟩⟩
  have hall := run_history_of_throughout (I := fun es s => ∃ past a, Serial p start es s past a)
    (fun es s e t hs he ht => ?_) hinit h hapart
  · rwa [List.nil_append] at hall
  · obtain ⟨past, a, hserial⟩ := hs
    exact hserial.step he ht

/-- On a single thread calls do not overlap at all. -/
theorem apart_of_single (hp : p.threads ≤ 1) (h : s.step p e = some t) : s.Apart e := by
  cases e with
  | next i => trivial
  | call i now =>
      intro j c hc
      obtain ⟨wrapped, -, ⟨-, hthreads, -⟩, -⟩ := call_cases h
      have hrunning : j ∈ s.running := by
        rw [running, Finset.mem_filter, hc]
        exact ⟨Finset.mem_univ j, rfl⟩
      have hpos := Finset.card_pos.mpr ⟨j, hrunning⟩
      omega

/-! ### What is printed -/

theorem Midway.printed_cases {limit count : Nat} {line : Line n} {printed : List (Line n)}
    {stage : Stage} (h : Midway limit a line count printed stage) :
    printed = a.printed ∨ printed = a.printed ++ [line] ∧ a.count < limit := by
  cases h with
  | test => exact Or.inl rfl
  | print hlimit => exact Or.inl rfl
  | load hlimit => exact Or.inr ⟨rfl, hlimit⟩
  | store hlimit => exact Or.inr ⟨rfl, hlimit⟩
  | wait hlimit => exact Or.inr ⟨rfl, hlimit⟩

section Serial

variable {past : List (Fin n × Int)} (hs : Serial p start es s past a)
include hs

/-- The lines are those that single steps print. -/
theorem Serial.printed_eq :
    ∃ past b, Ticker.Counting p.limit start past b ∧ s.printed = b.printed := by
  have hcounting := Ticker.counting_run hs.ended
  rcases hs.stands with ⟨hrests, -⟩ | ⟨i, c, hcalls, -⟩
  · exact ⟨past, a, hcounting, hrests.printed⟩
  · rcases hcalls.midway.printed_cases with hsame | ⟨hline, hlimit⟩
    · exact ⟨past, a, hcounting, hsame⟩
    · have htick := Ticker.tick_of_lt hcalls.due.1 hcalls.due.2 hlimit
      exact ⟨_, _, hcounting.tick htick, hline⟩

/-- The timers of which no call is running are set as after single steps. -/
theorem Serial.expiry_eq (hnone : s.calls j = none) :
    s.expiry j = start j + 1 + (linesOf j s.printed).length := by
  have hcounting := Ticker.counting_run hs.ended
  rcases hs.stands with ⟨hrests, -⟩ | ⟨i, c, hcalls, -⟩
  · rw [hrests.expiry, hrests.printed]
    exact hcounting.expiry j
  · have hij : i ≠ j := by
      rintro rfl
      rw [hcalls.calls, Function.update_self] at hnone
      cases hnone
    have hsame : linesOf j s.printed = linesOf j a.printed := by
      rcases hcalls.midway.printed_cases with hsame | ⟨hline, -⟩
      · rw [hsame]
      · -- a line of the running call is one of its own timer
        rw [hline, linesOf, List.filter_append, List.filter_singleton]
        simp [linesOf, hij]
    rw [hcalls.expiry, hsame]
    exact hcounting.expiry j

theorem Serial.calls_le : es.countP TimerEvent.isCall ≤ p.limit + n := by
  have hcounting := Ticker.counting_run hs.ended
  rcases hs.stands with ⟨-, hcount⟩ | ⟨i, c, hcalls, hcount⟩
  · rw [hcount]
    exact hcounting.length_le
  · have htick : ∃ b, a.tick p.limit (i, c.time) = some b := ⟨_, if_pos hcalls.due⟩
    obtain ⟨b, hb⟩ := htick
    have hlength := (hcounting.tick hb).length_le
    rwa [List.length_append, List.length_singleton, ← hcount] at hlength

/-- When no call is running, what has been counted has been printed; and all of it, when no wait is
outstanding either. -/
theorem Serial.rested (hnone : ∀ i, s.calls i = none) : s.count_ = s.printed.length ∧
    (0 < n → (∀ i, s.waiting i = none) →
      s.count_ = p.limit ∧ es.countP TimerEvent.isCall = p.limit + n) := by
  have hcounting := Ticker.counting_run hs.ended
  rcases hs.stands with ⟨hrests, hcount⟩ | ⟨i, c, hcalls, -⟩
  · have hlength := congrArg List.length hcounting.lines
    rw [List.length_map, List.length_range] at hlength
    refine ⟨?_, fun hpos hwaits => ?_⟩
    · rw [hrests.count, hrests.printed, hlength]
    · rw [hrests.count, hcount]
      refine hcounting.ended hpos fun i => ?_
      rw [← hrests.waiting]
      exact congrArg Option.isSome (hwaits i)
  · have hrunning := hnone i
    rw [hcalls.calls, Function.update_self] at hrunning
    cases hrunning

end Serial

/-- In every run on a single thread, and on several in which no call that is not wrapped overlaps
another one, the timers print `0`, `1`, `2` and so on, each once and never as much as the limit;
however late the handlers are called, the `k`-th line of a timer is printed by a call that does not
begin before its time and the timer is set to a second after the last one that is due; at most
`limit + n` calls begin; what has been counted has been printed, and it is all when no wait is
outstanding. -/
theorem ticks_counted (h : run (Printer.step p) (started start) es = some s)
    (hapart : p.threads ≤ 1 ∨ Throughout (Printer.step p) Apart (started start) es) :
    s.printed.map Line.count = List.range s.printed.length ∧ s.printed.length ≤ p.limit ∧
    (∀ i, s.calls i = none → s.expiry i = start i + 1 + (linesOf i s.printed).length) ∧
    (∀ i (k : Nat) (line : Line n), (linesOf i s.printed)[k]? = some line →
      start i + 1 + k ≤ line.time) ∧
    es.countP TimerEvent.isCall ≤ p.limit + n ∧
    ((∀ i, s.calls i = none) → s.count_ = s.printed.length ∧
      (0 < n → (∀ i, s.waiting i = none) →
        s.count_ = p.limit ∧ es.countP TimerEvent.isCall = p.limit + n)) := by
  have hapart : Throughout (Printer.step p) Apart (started start) es := by
    rcases hapart with hsingle | hapart
    · exact throughout_of_step (fun s e t ht => apart_of_single hsingle ht) h
    · exact hapart
  obtain ⟨past, a, hs⟩ := serial_run h hapart
  obtain ⟨past', b, hcounting, hprinted⟩ := hs.printed_eq
  have hlength := congrArg List.length hcounting.lines
  rw [List.length_map, List.length_range, ← hprinted] at hlength
  refine ⟨?_, ?_, fun i hi => hs.expiry_eq hi, ?_, hs.calls_le, hs.rested⟩
  · rw [hlength, hprinted]
    exact hcounting.lines
  · rw [hlength]
    exact hcounting.count_le
  · rw [hprinted]
    exact hcounting.due

/-- A call of the timer `i` that prints. -/
def ticking {n : Nat} (i : Fin n) (now : Int) : List (TimerEvent n) :=
  .call i now :: List.replicate 5 (.next i)

/-- A call that finds the limit reached. -/
def ending {n : Nat} (i : Fin n) (now : Int) : List (TimerEvent n) := [.call i now, .next i]

/-- `tut04` to its end; and `tut05`, whose second timer is called first and whose last calls begin
late. -/
theorem ticks_counted_tutorials : (∃ s : Printer 1,
    run (Printer.step tut04) (started fun _ => 0)
      ([1, 2, 3, 4, 5].flatMap (ticking 0) ++ ending 0 6) = some s ∧ s.count_ = 5) ∧
    ∃ s : Printer 2, run (Printer.step tut05) (started fun _ => 0)
      ([1, 2, 3, 4, 5].flatMap (fun now => ticking 1 now ++ ticking 0 now) ++
        ending 0 9 ++ ending 1 8) = some s ∧
      s.count_ = 10 ∧ s.expiry 1 = 6 := by
  constructor
  · have hrun : run (Printer.step tut04) (started (n := 1) fun _ => 0)
      ([1, 2, 3, 4, 5].flatMap (ticking 0) ++ ending 0 6) = some _ := rfl
    obtain ⟨-, -, -, -, -, hrested⟩ := ticks_counted hrun (Or.inl (Nat.le_refl 1))
    exact ⟨_, hrun, ((hrested (by decide)).2 (by decide) (by decide)).1⟩
  · have hrun : run (Printer.step tut05) (started (n := 2) fun _ => 0)
      ([1, 2, 3, 4, 5].flatMap (fun now => ticking 1 now ++ ticking 0 now) ++
        ending 0 9 ++ ending 1 8) = some _ := rfl
    obtain ⟨-, -, hexpiry, -, -, hrested⟩ := ticks_counted hrun (Or.inr (by decide +kernel))
    exact ⟨_, hrun, ((hrested (by decide)).2 (by decide) (by decide)).1, hexpiry 1 rfl⟩

/-- The first calls of `tut05` may overlap, and both print zero. -/
example : ((run (Printer.step tut05) (started (n := 2) fun _ => 0)
    [.call 1 1, .call 0 1, .next 1, .next 0, .next 1, .next 0]).map fun s =>
      s.printed.map Line.count) = some [0, 0] := by decide +kernel

end Printer

end AsioTest.Timers
