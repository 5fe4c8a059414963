import AsioTest.ComponentRuns
import Mathlib.Data.Fintype.Card

/-!
Timers that share one count: each prints it, counts on and waits for another second, until the count
has reached its limit. Here a call of a handler is a single step, which is what the programs of the
tutorials come to when their calls do not overlap.
-/

namespace AsioTest.Timers

open TransitionRuns

/-- A line of the output: the timer that prints, the count, and when. -/
structure Line (n : Nat) where
  timer : Fin n
  count : Nat
  time : Int
  deriving DecidableEq

/-- The lines of one timer. -/
def linesOf {n : Nat} (i : Fin n) (printed : List (Line n)) : List (Line n) :=
  printed.filter (·.timer = i)

/-- `expiry` is the time a timer is set to, in seconds, and `waiting` whether a wait is outstanding
on it. -/
structure Ticker (n : Nat) where
  count : Nat := 0
  expiry : Fin n → Int
  waiting : Fin n → Bool
  printed : List (Line n) := []

namespace Ticker

variable {n : Nat} (limit : Nat)

/-- The timer is set to a second later, and waited for. -/
def waitOn (i : Fin n) (s : Ticker n) : Ticker n :=
  { s with
    expiry := Function.update s.expiry i (s.expiry i + 1)
    waiting := Function.update s.waiting i true }

/-- The timer `i` prints the count at `now` and counts on, up to the limit. -/
def print (i : Fin n) (now : Int) (s : Ticker n) : Ticker n :=
  if s.count < limit then
    let line : Line n := ⟨i, s.count, now⟩
    { s with count := s.count + 1, printed := s.printed ++ [line] }.waitOn i
  else s

/-- A wait ends when its timer has expired, or later. -/
def tick (s : Ticker n) (e : Fin n × Int) : Option (Ticker n) :=
  if s.waiting e.1 = true ∧ s.expiry e.1 ≤ e.2 then
    some ({ s with waiting := Function.update s.waiting e.1 false }.print limit e.1 e.2)
  else none

/-- Each timer has been set to a second after its construction, and is waited for. -/
def started (start : Fin n → Int) : Ticker n where
  expiry := fun i => start i + 1
  waiting := fun _ => true

/-- The timers that are not waited for any more. -/
def stopped (s : Ticker n) : Finset (Fin n) := Finset.univ.filter fun i => s.waiting i = false

variable {limit} {s t : Ticker n} {e : Fin n × Int} {es : List (Fin n × Int)}
  {start : Fin n → Int}

/-- A step prints the count and waits again, or stops the timer. -/
theorem tick_cases (h : s.tick limit e = some t) :
    s.waiting e.1 = true ∧ s.expiry e.1 ≤ e.2 ∧
    ((s.count < limit ∧ t.count = s.count + 1 ∧ t.waiting = s.waiting ∧
      t.expiry = Function.update s.expiry e.1 (s.expiry e.1 + 1) ∧
      t.printed = s.printed ++ [⟨e.1, s.count, e.2⟩]) ∨
    (limit ≤ s.count ∧ t = { s with waiting := Function.update s.waiting e.1 false })) := by
  unfold tick print at h
  split_ifs at h with hdue hlimit
  · cases h
    refine ⟨hdue.1, hdue.2, Or.inl ⟨hlimit, rfl, ?_, rfl, rfl⟩⟩
    funext i
    by_cases hi : i = e.1
    · subst hi
      simp [waitOn, hdue.1]
    · simp [waitOn, hi]
  · cases h
    exact ⟨hdue.1, hdue.2, Or.inr ⟨Nat.not_lt.mp hlimit, rfl⟩⟩

theorem tick_of_lt {i : Fin n} {now : Int} (hwaiting : s.waiting i = true)
    (hexpired : s.expiry i ≤ now) (hlimit : s.count < limit) :
    s.tick limit (i, now) = some
      { count := s.count + 1
        expiry := Function.update s.expiry i (s.expiry i + 1)
        waiting := Function.update (Function.update s.waiting i false) i true
        printed := s.printed ++ [⟨i, s.count, now⟩] } := by
  rw [tick, if_pos ⟨hwaiting, hexpired⟩, print, if_pos hlimit]
  rfl

theorem tick_of_le {i : Fin n} {now : Int} (hwaiting : s.waiting i = true)
    (hexpired : s.expiry i ≤ now) (hlimit : limit ≤ s.count) :
    s.tick limit (i, now) = some { s with waiting := Function.update s.waiting i false } := by
  rw [tick, if_pos ⟨hwaiting, hexpired⟩, print, if_neg (Nat.not_lt.mpr hlimit)]

/-- What holds after the waits `es` have ended. -/
structure Counting (limit : Nat) (start : Fin n → Int) (es : List (Fin n × Int)) (s : Ticker n) :
    Prop where
  count_le : s.count ≤ limit
  length_eq : es.length = s.count + s.stopped.card
  full : s.stopped.Nonempty → s.count = limit
  lines : s.printed.map Line.count = List.range s.count
  expiry : ∀ i, s.expiry i = start i + 1 + (linesOf i s.printed).length
  due : ∀ i (k : Nat) (line : Line n), (linesOf i s.printed)[k]? = some line →
    start i + 1 + k ≤ line.time

theorem counting_started (limit : Nat) (start : Fin n → Int) :
    Counting limit start [] (started start) where
  count_le := Nat.zero_le limit
  length_eq := by simp [stopped, started]
  full := by simp [stopped, started]
  lines := rfl
  expiry := fun _ => (Int.add_zero _).symm
  due := nofun

/-- A timer prints a line. -/
theorem Counting.printed_line (hs : Counting limit start es s) (hdue : s.expiry e.1 ≤ e.2)
    (hlimit : s.count < limit) (hcount : t.count = s.count + 1) (hwait : t.waiting = s.waiting)
    (hexpiry : t.expiry = Function.update s.expiry e.1 (s.expiry e.1 + 1))
    (hprinted : t.printed = s.printed ++ [⟨e.1, s.count, e.2⟩]) :
    Counting limit start (es ++ [e]) t := by
  have hstopped : t.stopped = s.stopped := by rw [stopped, stopped, hwait]
  have hlines : ∀ i, linesOf i t.printed =
      linesOf i s.printed ++ if e.1 = i then [⟨e.1, s.count, e.2⟩] else [] := by
    intro i
    rw [linesOf, hprinted, List.filter_append, linesOf, List.filter_singleton]
    simp
  constructor
  case count_le => rw [hcount]; exact hlimit
  case length_eq =>
      rw [List.length_append, hs.length_eq, hcount, hstopped, List.length_singleton]
      omega
  case full =>
      intro hsome
      rw [hstopped] at hsome
      have hfull := hs.full hsome
      omega
  case lines => rw [hprinted, List.map_append, hs.lines, hcount, List.range_succ]; rfl
  case expiry =>
      intro i
      rw [hexpiry, hlines, List.length_append]
      by_cases hi : e.1 = i
      · subst hi
        rw [Function.update_self, hs.expiry, if_pos rfl, List.length_singleton]
        omega
      · rw [Function.update_of_ne fun heq => hi heq.symm, hs.expiry, if_neg hi]
        rfl
  case due =>
      intro i k line hline
      rw [hlines] at hline
      by_cases hi : e.1 = i
      · subst hi
        rw [if_pos rfl] at hline
        rcases get_concat_cases hline with ⟨-, hline⟩ | ⟨rfl, rfl⟩
        · exact hs.due e.1 k line hline
        · exact (hs.expiry e.1).symm.trans_le hdue
      · rw [if_neg hi, List.append_nil] at hline
        exact hs.due i k line hline

/-- A timer is not waited for any more. -/
theorem Counting.stop (hs : Counting limit start es s) (hwaiting : s.waiting e.1 = true)
    (hlimit : limit ≤ s.count) : Counting limit start (es ++ [e])
      { s with waiting := Function.update s.waiting e.1 false } := by
  have hnotin : e.1 ∉ s.stopped := by simp [stopped, hwaiting]
  have hstopped : stopped { s with waiting := Function.update s.waiting e.1 false } =
      insert e.1 s.stopped := by
    ext i
    by_cases hi : i = e.1
    · subst hi
      simp [stopped]
    · simp [stopped, hi]
  constructor
  case count_le => exact hs.count_le
  case length_eq =>
      rw [hstopped, Finset.card_insert_of_notMem hnotin, List.length_append, hs.length_eq]
      rfl
  case full => exact fun _ => Nat.le_antisymm hs.count_le hlimit
  case lines => exact hs.lines
  case expiry => exact hs.expiry
  case due => exact hs.due

theorem Counting.tick (hs : Counting limit start es s) (h : s.tick limit e = some t) :
    Counting limit start (es ++ [e]) t := by
  obtain ⟨hwaiting, hdue, ⟨hlimit, hcount, hwait, hexpiry, hprinted⟩ | ⟨hlimit, rfl⟩⟩ :=
    tick_cases h
  · exact hs.printed_line hdue hlimit hcount hwait hexpiry hprinted
  · exact hs.stop hwaiting hlimit

theorem counting_run (h : run (tick limit) (started start) es = some s) :
    Counting limit start es s := by
  have hall : Counting limit start ([] ++ es) s :=
    run_history (fun _ _ _ _ hs ht => hs.tick ht) (counting_started limit start) h
  rwa [List.nil_append] at hall

theorem stopped_card_le (s : Ticker n) : s.stopped.card ≤ n :=
  (Finset.card_le_univ _).trans_eq (Fintype.card_fin n)

/-- At most `limit + n` waits end. -/
theorem Counting.length_le (hs : Counting limit start es s) : es.length ≤ limit + n := by
  rw [hs.length_eq]
  exact Nat.add_le_add hs.count_le s.stopped_card_le

/-- When no wait is outstanding, all the numbers have been printed. -/
theorem Counting.ended (hs : Counting limit start es s) (hpos : 0 < n)
    (hnone : ∀ i, s.waiting i = false) : s.count = limit ∧ es.length = limit + n := by
  have hstopped : s.stopped = Finset.univ := Finset.filter_true_of_mem fun i _ => hnone i
  have hfull : s.count = limit := by
    refine hs.full ⟨⟨0, hpos⟩, ?_⟩
    rw [hstopped]
    exact Finset.mem_univ _
  refine ⟨hfull, ?_⟩
  rw [hs.length_eq, hfull, hstopped, Finset.card_univ, Fintype.card_fin]

end Ticker

end AsioTest.Timers
