import AsioTest.EchoSession
import AsioTest.StreamLink
import Mathlib.Data.Fintype.EquivFin

/-!
The client of `sync_dc` against a session of the echo server. It sends a line, waits until something
comes, prints that, and takes the next line. One `write_some` may send only the beginning of a line,
and one `read_some` may get only a part of what comes back, so that it can fall behind; it waits
forever when there is nothing left to come.
-/

namespace AsioTest.Alloc

open TransitionRuns StreamLink

inductive ClientPhase where
  | atTop
  | waiting
  | left
  deriving DecidableEq

/-- The lines of the standard input, and what follows the last newline; `sent` and `printed` record
what has been written to the socket and to the standard output. -/
structure SyncClient where
  lines : List Bytes
  rest : Bytes
  phase : ClientPhase := .atTop
  sent : Bytes := []
  printed : Bytes := []

/-- `write_some` sends some bytes, and `read_some` gets some, or they fail. -/
inductive SyncEvent where
  | write (r : Option Nat)
  | read (r : Option Bytes)

namespace SyncClient

/-- `std::getline(std::cin, str)`: at the end of the input `str` stays what it is. -/
def getline (c : SyncClient) : Bytes × SyncClient :=
  (c.lines.headD c.rest, { c with lines := c.lines.tail })

/-- The loop up to `read_some`: the error of `write_some` is not looked at. -/
def onWrite (r : Option Nat) (c : SyncClient) : Option SyncClient :=
  let (str, c) := c.getline
  match r with
  | none => some { c with phase := .waiting }
  | some n =>
      if n ≤ str.length ∧ (n = 0 → str = []) then
        some { c with phase := .waiting, sent := c.sent ++ str.take n }
      else none

/-- The loop from there on, with a buffer of 128 bytes; the end of the stream leaves it, and so does
an error. -/
def onRead (r : Option Bytes) (c : SyncClient) : Option SyncClient :=
  match r with
  | none => some { c with phase := .left }
  | some bytes =>
      if bytes ≠ [] ∧ bytes.length ≤ 128 then
        some { c with phase := .atTop, printed := c.printed ++ bytes }
      else none

def step (c : SyncClient) : SyncEvent → Option SyncClient
  | .write r => if c.phase = .atTop then c.onWrite r else none
  | .read r => if c.phase = .waiting then c.onRead r else none

variable {c d : SyncClient}

/-- What a step does: it sends a part of a line or nothing, or it prints, or it leaves. -/
theorem step_cases {e : SyncEvent} (h : c.step e = some d) :
    (∃ r part, e = .write r ∧ c.phase = .atTop ∧ d.sent = c.sent ++ part ∧
      d.printed = c.printed) ∨
    (∃ bytes, e = .read (some bytes) ∧ bytes ≠ [] ∧ d.sent = c.sent ∧
      d.printed = c.printed ++ bytes) ∨
    (e = .read none ∧ d.sent = c.sent ∧ d.printed = c.printed) := by
  cases e with
  | write r =>
      simp only [step] at h
      split_ifs at h with hphase
      cases r with
      | none =>
          cases h
          exact Or.inl ⟨none, [], rfl, hphase, (List.append_nil _).symm, rfl⟩
      | some n =>
          simp only [onWrite] at h
          split_ifs at h
          cases h
          exact Or.inl ⟨some n, _, rfl, hphase, rfl, rfl⟩
  | read r =>
      simp only [step] at h
      split_ifs at h
      cases r with
      | none =>
          cases h
          exact Or.inr (Or.inr ⟨rfl, rfl, rfl⟩)
      | some bytes =>
          simp only [onRead] at h
          split_ifs at h with hbytes
          cases h
          exact Or.inr (Or.inl ⟨bytes, rfl, hbytes.1, rfl, rfl⟩)

def received : SyncEvent → Bytes
  | .read (some bytes) => bytes
  | _ => []

def party : Party SyncClient SyncEvent Byte where
  step := step
  takes := received
  written := sent
  grows := fun c e d h => by
    rcases step_cases h with ⟨r, part, -, -, hsent, -⟩ | ⟨bytes, -, -, hsent, -⟩ | ⟨-, hsent, -⟩
    · exact ⟨part, hsent.symm⟩
    · exact ⟨[], by rw [hsent, List.append_nil]⟩
    · exact ⟨[], by rw [hsent, List.append_nil]⟩

/-- The client prints all it takes in. -/
theorem printed_run {es : List SyncEvent} (h : run step c es = some d) :
    d.printed = c.printed ++ es.flatMap received := by
  have hinit : c.printed = c.printed ++ [].flatMap received := (List.append_nil _).symm
  have hall : d.printed = c.printed ++ ([] ++ es).flatMap received := by
    refine run_history (I := fun es d => d.printed = c.printed ++ es.flatMap received)
      (fun es d e t hd ht => ?_) hinit h
    rw [flatMap_concat, ← List.append_assoc, ← hd]
    rcases step_cases ht with ⟨r, part, rfl, -, -, hprinted⟩ | ⟨bytes, rfl, -, -, hprinted⟩ |
      ⟨rfl, -, hprinted⟩
    · rw [hprinted]
      exact (List.append_nil _).symm
    · exact hprinted
    · rw [hprinted]
      exact (List.append_nil _).symm
  rwa [List.nil_append] at hall

end SyncClient

namespace EchoSession

theorem written_prefix {version : Version} {s t : EchoSession} {e : EchoEvent}
    (h : s.step version e = some t) : s.written <+: t.written := by
  have hfinish : ∀ {k op u}, s.finish version k = some (op, u) → u.written = s.written := by
    intro k op u hu
    obtain ⟨x, -, heq⟩ := Option.map_eq_some_iff.mp hu
    cases heq
    rfl
  cases moved_of_step h with
  | noRead hu => exact ⟨[], by rw [List.append_nil, hfinish hu]⟩
  | noWrite hu => exact ⟨[], by rw [List.append_nil, hfinish hu]⟩
  | echoes hu hbegin =>
      obtain ⟨p, m, -, rfl⟩ := begin_eq_some hbegin
      exact ⟨[], by rw [List.append_nil]; exact (hfinish hu).symm⟩
  | writesOn hu hn hbegin =>
      obtain ⟨p, m, -, rfl⟩ := begin_eq_some hbegin
      rw [← hfinish hu]
      exact List.prefix_append _ _
  | readsOn hu hn hbegin =>
      obtain ⟨p, m, -, rfl⟩ := begin_eq_some hbegin
      rw [← hfinish hu]
      exact List.prefix_append _ _

def party (version : Version) : Party EchoSession EchoEvent Byte where
  step := step version
  takes := EchoEvent.received
  written := written
  grows := fun _ _ _ h => written_prefix h

end EchoSession

/-! ### Client and session together -/

abbrev EchoLink := Link SyncClient EchoSession Byte

abbrev EchoLinkEvent := LinkEvent SyncEvent EchoEvent

/-- Something is transferred, without an error. -/
def Transfers : EchoLinkEvent → Prop
  | .left (.write r) => r.isSome
  | .left (.read r) => r.isSome
  | .right (.read _ r _) => r.isSome
  | .right (.wrote _ r _) => r.isSome

namespace EchoLink

def step : EchoLink → EchoLinkEvent → Option EchoLink :=
  Link.step SyncClient.party (EchoSession.party server03)

variable {s t : EchoLink} {x : EchoSession} {data_ : Data} {next : Block} {lines : List Bytes}
  {rest : Bytes} {es : List EchoLinkEvent}

/-- What the session has taken in lies between what is printed and what is sent. -/
theorem linked_run (hx : EchoSession.started server03 data_ next = some x)
    (h : run step (Link.connect { lines := lines, rest := rest } x) es = some s) :
    ∃ received, s.right.Echoing received ∧ received ++ s.toRight = s.left.sent ∧
      s.left.printed ++ s.toLeft = s.right.written := by
  have hwritten : x.written = [] := by
    obtain ⟨p, m, -, rfl⟩ := EchoSession.begin_eq_some hx
    rfl
  have hcarried := Link.carried_run (P := SyncClient.party) (Q := EchoSession.party server03)
    (a := { lines := lines, rest := rest }) rfl hwritten h
  refine ⟨_, EchoSession.echoing_run hx hcarried.right_run, hcarried.right_taken, ?_⟩
  have hprinted := SyncClient.printed_run hcarried.left_run
  rw [hprinted, List.nil_append]
  exact hcarried.left_taken

/-- In every run, whatever pieces the bytes go in: the client prints the beginning of what it has
sent. As long as the session has not ended, every byte sent is printed, on its way back, still to
be written by the session, or on its way there, and they are in this order. -/
theorem echo_printed (hx : EchoSession.started server03 data_ next = some x)
    (h : run step (Link.connect { lines := lines, rest := rest } x) es = some s) :
    s.left.printed <+: s.left.sent ∧
    (s.right.outstanding ≠ [] →
      s.left.sent = s.left.printed ++ s.toLeft ++ s.right.unwritten ++ s.toRight) := by
  obtain ⟨received, hechoing, hsent, hprinted⟩ := linked_run hx h
  constructor
  · have hbegin : s.right.written <+: received := by
      by_cases hnone : s.right.outstanding = []
      · obtain ⟨lost, -, hlost⟩ := hechoing.ended hnone
        exact ⟨lost, hlost⟩
      · exact ⟨_, hechoing.echoed hnone⟩
    rw [← hsent]
    exact List.IsPrefix.trans ⟨_, hprinted⟩ (hbegin.trans (List.prefix_append _ _))
  · intro hsome
    rw [← hsent, ← hechoing.echoed hsome, ← hprinted]

/-- A session with its first read outstanding. -/
def reading : EchoSession where
  data_ := .zeros
  allocator_ := { inUse_ := true, obtained := [.storage] }
  outstanding := [(.readSome, .storage)]
  asked := [⟨100, 0⟩]

theorem started_reading : EchoSession.started server03 .zeros ⟨100, 0⟩ = some reading := rfl

/-- The client has sent two bytes, and the first of them has come back. -/
def oneBack : List EchoLinkEvent :=
  [.left (.write (some 2)), .right (.read 0 (some .twoBytes) ⟨100, 0⟩),
    .right (.wrote 0 (some 1) ⟨100, 0⟩), .left (.read (some [72]))]

theorem echo_printed_oneBack : ∃ s,
    run step (Link.connect { lines := [[72, 105]], rest := [] } reading) oneBack = some s ∧
    s.left.printed = [72] ∧ s.left.sent = s.left.printed ++ s.toLeft ++ [105] ++ s.toRight := by
  have hrun : run step (Link.connect { lines := [[72, 105]], rest := [] } reading) oneBack =
    some _ := rfl
  have hprinted := echo_printed started_reading hrun
  exact ⟨_, hrun, rfl, hprinted.2 (List.cons_ne_nil _ _)⟩

/-! ### Waiting forever -/

theorem exists_allocate (m : Memory) (capacity size : Nat) :
    ∃ address r, m.allocate capacity size address = some r := by
  obtain ⟨address, hfresh⟩ := Infinite.exists_notMem_finset m.live.toFinset
  rw [List.mem_toFinset] at hfresh
  refine ⟨address, ?_⟩
  unfold Memory.allocate Memory.operatorNew
  split_ifs
  · exact ⟨_, rfl⟩
  · exact ⟨_, rfl⟩

theorem exists_begin (op : EchoOp) (x : EchoSession) :
    ∃ next y, x.begin server03 op next = some y := by
  obtain ⟨address, r, hr⟩ := exists_allocate x.allocator_ server03.capacity 0
  exact ⟨⟨0, address⟩, _, by rw [EchoSession.begin, hr]; rfl⟩

/-- A write outstanding has something left to write. -/
theorem unwritten_ne_nil {sent length : Nat} {p : Pointer} {y : EchoSession}
    (h : y.outstanding = [(.write sent length, p)]) (hsent : sent < length)
    (hlength : length ≤ 1024) : y.unwritten ≠ [] := by
  rw [EchoSession.unwritten, h, List.flatMap_singleton, Ne, List.drop_eq_nil_iff,
    List.length_take, y.data_.length_eq]
  omega

/-- Something is on its way: back to the client, in the session, or to it. -/
def UnderWay (s : EchoLink) : Prop :=
  s.toLeft ≠ [] ∨ s.right.unwritten ≠ [] ∨ s.toRight ≠ []

/-- While the client waits, a transfer takes what is on its way. -/
theorem underWay_of_step {received : Bytes} (hechoing : s.right.Echoing received)
    (hwaiting : s.left.phase = .waiting) {e : EchoLinkEvent} (htransfers : Transfers e)
    (h : step s e = some t) : s.UnderWay := by
  cases e with
  | left e =>
      simp only [step, Link.step] at h
      split_ifs at h with htakes
      obtain ⟨c, hc, -⟩ := Option.map_eq_some_iff.mp h
      rcases SyncClient.step_cases hc with ⟨r, part, rfl, hphase, -⟩ | ⟨bytes, rfl, hbytes, -⟩ |
        ⟨rfl, -⟩
      · cases hphase.symm.trans hwaiting
      · refine Or.inl fun hnone => hbytes ?_
        rw [hnone] at htakes
        exact List.prefix_nil.mp htakes
      · cases htransfers
  | right e =>
      simp only [step, Link.step] at h
      split_ifs at h with htakes
      obtain ⟨y, hy, -⟩ := Option.map_eq_some_iff.mp h
      cases EchoSession.moved_of_step hy with
      | noRead hfinish => cases htransfers
      | noWrite hfinish => cases htransfers
      | @echoes k piece next u _ hfinish hbegin =>
          refine Or.inr (Or.inr fun hnone => piece.ne_nil ?_)
          rw [hnone] at htakes
          exact List.prefix_nil.mp htakes
      | writesOn hfinish hn hbegin =>
          obtain ⟨p, houtstanding, -⟩ := EchoSession.finish_single hechoing.single hfinish
          obtain ⟨hsent, hlength⟩ := hechoing.fits _ _ p (houtstanding ▸ List.mem_cons_self)
          exact Or.inr (Or.inl (unwritten_ne_nil houtstanding hsent hlength))
      | readsOn hfinish hn hbegin =>
          obtain ⟨p, houtstanding, -⟩ := EchoSession.finish_single hechoing.single hfinish
          obtain ⟨hsent, hlength⟩ := hechoing.fits _ _ p (houtstanding ▸ List.mem_cons_self)
          exact Or.inr (Or.inl (unwritten_ne_nil houtstanding hsent hlength))

theorem exists_finish {y : EchoSession} {op : EchoOp} {p : Pointer}
    (h : y.outstanding = [(op, p)]) : ∃ u, y.finish server03 0 = some (op, u) := by
  rw [EchoSession.finish, h]
  exact ⟨_, rfl⟩

theorem exists_wrote {y : EchoSession} {sent length : Nat} {p : Pointer}
    (h : y.outstanding = [(.write sent length, p)]) (hsent : sent < length) :
    ∃ next z, y.step server03 (.wrote 0 (some 1) next) = some z := by
  obtain ⟨u, hfinish⟩ := exists_finish h
  by_cases hmore : sent + 1 < length
  · obtain ⟨next, z, hz⟩ := exists_begin (.write (sent + 1) length) _
    refine ⟨next, z, ?_⟩
    rw [EchoSession.step, hfinish, Option.bind_some]
    simp only [EchoSession.onSent]
    rw [if_pos ⟨Nat.one_pos, hsent⟩, if_pos hmore, hz]
  · obtain ⟨next, z, hz⟩ := exists_begin .readSome _
    refine ⟨next, z, ?_⟩
    rw [EchoSession.step, hfinish, Option.bind_some]
    simp only [EchoSession.onSent]
    rw [if_pos ⟨Nat.one_pos, hsent⟩, if_neg hmore]
    exact hz

theorem exists_read {y : EchoSession} {p : Pointer} (h : y.outstanding = [(.readSome, p)])
    (piece : Piece) : ∃ next z, y.step server03 (.read 0 (some piece) next) = some z := by
  obtain ⟨u, hfinish⟩ := exists_finish h
  obtain ⟨next, z, hz⟩ := exists_begin (.write 0 piece.bytes.length) _
  refine ⟨next, z, ?_⟩
  rw [EchoSession.step, hfinish]
  exact hz

/-- The first byte of `l`. -/
theorem take_one {l : Bytes} (h : l ≠ []) : l.take 1 ≠ [] ∧ (l.take 1).length ≤ 1 := by
  refine ⟨?_, List.length_take_le 1 l⟩
  rwa [Ne, List.take_eq_nil_iff, not_or, and_iff_right Nat.one_ne_zero]

/-- When a session is alive and something is on its way, something can be transferred. -/
theorem exists_step {received : Bytes} (hechoing : s.right.Echoing received)
    (hwaiting : s.left.phase = .waiting) (hlive : s.right.outstanding ≠ [])
    (hunder : s.UnderWay) : ∃ e t, Transfers e ∧ step s e = some t := by
  by_cases hback : s.toLeft = []
  · match houtstanding : s.right.outstanding with
    | [] => exact absurd houtstanding hlive
    | x :: y :: rest =>
        have hsingle := hechoing.single
        rw [houtstanding] at hsingle
        simp at hsingle
    | [(.write sent length, p)] =>
        obtain ⟨hsent, -⟩ := hechoing.fits sent length p (houtstanding ▸ List.mem_cons_self)
        obtain ⟨next, z, hz⟩ := exists_wrote houtstanding hsent
        obtain ⟨t, ht⟩ := Link.exists_right (P := SyncClient.party)
          (Q := EchoSession.party server03) (s := s) (e := .wrote 0 (some 1) next)
          List.nil_prefix hz
        exact ⟨.right (.wrote 0 (some 1) next), t, rfl, ht⟩
    | [(.readSome, p)] =>
        have hnone : s.right.unwritten = [] := by
          rw [EchoSession.unwritten, houtstanding]
          rfl
        have hahead : s.toRight ≠ [] := by
          rcases hunder with hleft | hwrite | hright
          · exact absurd hback hleft
          · exact absurd hnone hwrite
          · exact hright
        obtain ⟨hne, hlength⟩ := take_one hahead
        let piece : Piece := ⟨s.toRight.take 1, hne, hlength.trans (by decide)⟩
        obtain ⟨next, z, hz⟩ := exists_read houtstanding piece
        obtain ⟨t, ht⟩ := Link.exists_right (P := SyncClient.party)
          (Q := EchoSession.party server03) (s := s) (e := .read 0 (some piece) next)
          (List.take_prefix 1 s.toRight) hz
        exact ⟨.right (.read 0 (some piece) next), t, rfl, ht⟩
  · obtain ⟨hne, hlength⟩ := take_one hback
    have hread : ∃ c, s.left.step (.read (some (s.toLeft.take 1))) = some c := by
      simp only [SyncClient.step, SyncClient.onRead]
      rw [if_pos hwaiting, if_pos ⟨hne, hlength.trans (by decide)⟩]
      exact ⟨_, rfl⟩
    obtain ⟨c, hc⟩ := hread
    obtain ⟨t, ht⟩ := Link.exists_left (P := SyncClient.party) (Q := EchoSession.party server03)
      (s := s) (e := .read (some (s.toLeft.take 1))) (List.take_prefix 1 s.toLeft) hc
    exact ⟨.left (.read (some (s.toLeft.take 1))), t, rfl, ht⟩

/-- While the client waits and the session has not ended, something can be transferred if and only
if the client has not yet printed all it has sent. So the client never waits in vain for the rest of
a line; but once it has printed everything and sends an empty line, it waits forever. -/
theorem waits_iff (hx : EchoSession.started server03 data_ next = some x)
    (h : run step (Link.connect { lines := lines, rest := rest } x) es = some s)
    (hwaiting : s.left.phase = .waiting) (hlive : s.right.outstanding ≠ []) :
    (∃ e t, Transfers e ∧ step s e = some t) ↔ s.left.printed ≠ s.left.sent := by
  obtain ⟨received, hechoing, hsent, hprinted⟩ := linked_run hx h
  have hall : s.left.sent =
      s.left.printed ++ (s.toLeft ++ (s.right.unwritten ++ s.toRight)) := by
    rw [← hsent, ← hechoing.echoed hlive, ← hprinted]
    simp only [List.append_assoc]
  have hunder : s.left.printed ≠ s.left.sent ↔ s.UnderWay := by
    rw [hall, UnderWay, Ne, List.self_eq_append_right, List.append_eq_nil_iff,
      List.append_eq_nil_iff]
    tauto
  rw [hunder]
  constructor
  · rintro ⟨e, t, htransfers, ht⟩
    exact underWay_of_step hechoing hwaiting htransfers ht
  · exact exists_step hechoing hwaiting hlive

/-- The first line is empty. -/
theorem waits_iff_empty : ∃ s, run step (Link.connect { lines := [[]], rest := [] } reading)
    [.left (.write (some 0))] = some s ∧ ¬ ∃ e t, Transfers e ∧ step s e = some t := by
  have hrun : run step (Link.connect { lines := [[]], rest := [] } reading)
    [.left (.write (some 0))] = some _ := rfl
  have hwaits := waits_iff started_reading hrun rfl (List.cons_ne_nil _ _)
  exact ⟨_, hrun, fun htransfers => hwaits.mp htransfers rfl⟩

end EchoLink

end AsioTest.Alloc
