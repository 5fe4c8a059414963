import AsioTest.HttpParserGrammar

/-!
The `int` arithmetic on the HTTP version. `consume` evaluates
`http_version_major * 10 + input - '0'`, or the same for the minor number, at four places; from a
fresh parser the evaluations of a run are those of the digits read behind `HTTP/`, however the
stream is cut, and they stay in range exactly while the numbers written there do.
-/

namespace AsioTest.Http

open ByteStrings IncrementalScan

/-- One evaluation of `version * 10 + input - '0'`, with the field it reads. -/
structure Evaluation where
  version : Option Int
  input : Byte
  deriving DecidableEq

def FitsInt (x : Int) : Prop := -2 ^ 31 ≤ x ∧ x < 2 ^ 31

/-- The field is assigned and every intermediate result fits. -/
def Evaluation.InRange (e : Evaluation) : Prop :=
  ∃ v, e.version = some v ∧ FitsInt (v * 10) ∧ FitsInt (v * 10 + charVal e.input) ∧
    FitsInt (v * 10 + charVal e.input - 48)

/-- The evaluation one `consume` call makes. -/
def evaluation (state_ : ParserState) (req : Request) (input : Byte) : Option Evaluation :=
  match state_ with
  | .httpVersionMajorStart =>
      if isDigit (charVal input) then some ⟨req.httpVersionMajor, input⟩ else none
  | .httpVersionMajor =>
      if input = chr '.' then none
      else if isDigit (charVal input) then some ⟨req.httpVersionMajor, input⟩
      else none
  | .httpVersionMinorStart =>
      if isDigit (charVal input) then some ⟨req.httpVersionMinor, input⟩ else none
  | .httpVersionMinor =>
      if input = chr '\r' then none
      else if isDigit (charVal input) then some ⟨req.httpVersionMinor, input⟩
      else none
  | _ => none

/-- The evaluations of one `parse` call. -/
def evaluations (state_ : ParserState) (req : Request) : Bytes → List Evaluation
  | [] => []
  | input :: rest =>
      (evaluation state_ req input).toList ++
        match consume state_ req input with
        | (.indeterminate, state', req') => evaluations state' req' rest
        | _ => []

/-- The evaluations of the `parse` calls on a stream that arrives in chunks; the connection parses
again only after `indeterminate`. -/
def chunkEvaluations (state_ : ParserState) (req : Request) : List Bytes → List Evaluation
  | [] => []
  | chunk :: chunks =>
      evaluations state_ req chunk ++
        match parse state_ req chunk with
        | ⟨.indeterminate, _, state', req'⟩ => chunkEvaluations state' req' chunks
        | _ => []

def Evaluation.value (e : Evaluation) : Option Int := e.version.map (addDigit · e.input)

/-- An evaluation is what `consume` stores, in the field it read. -/
theorem consume_evaluation {state_ : ParserState} {req : Request} {input : Byte} {e : Evaluation}
    (h : evaluation state_ req input = some e) :
    ∃ next, consume state_ req input =
        (.indeterminate, next, { req with httpVersionMajor := e.value }) ∧
          e.version = req.httpVersionMajor ∨
      consume state_ req input =
        (.indeterminate, next, { req with httpVersionMinor := e.value }) ∧
          e.version = req.httpVersionMinor := by
  cases state_ with
  | httpVersionMajorStart =>
      simp only [evaluation] at h
      split_ifs at h with hdigit
      cases h
      exact ⟨_, Or.inl ⟨if_pos hdigit, rfl⟩⟩
  | httpVersionMajor =>
      simp only [evaluation] at h
      split_ifs at h with hdot hdigit
      cases h
      exact ⟨_, Or.inl ⟨(if_neg hdot).trans (if_pos hdigit), rfl⟩⟩
  | httpVersionMinorStart =>
      simp only [evaluation] at h
      split_ifs at h with hdigit
      cases h
      exact ⟨_, Or.inr ⟨if_pos hdigit, rfl⟩⟩
  | httpVersionMinor =>
      simp only [evaluation] at h
      split_ifs at h with hcr hdigit
      cases h
      exact ⟨_, Or.inr ⟨(if_neg hcr).trans (if_pos hdigit), rfl⟩⟩
  | _ => cases h

/-! ### The evaluations of a run -/

theorem evaluations_append (state_ : ParserState) (req : Request) (s t : Bytes) :
    evaluations state_ req (s ++ t) = evaluations state_ req s ++
      match parse state_ req s with
      | ⟨.indeterminate, _, state', req'⟩ => evaluations state' req' t
      | _ => [] := by
  induction s generalizing state_ req with
  | nil => rfl
  | cons input s ih =>
      rw [List.cons_append, evaluations, evaluations, parse, List.append_assoc]
      congr 1
      rcases consume state_ req input with ⟨result, state', req'⟩
      cases result with
      | indeterminate => exact ih state' req'
      | good => rfl
      | bad => rfl

/-- How the stream was cut does not matter. -/
theorem chunkEvaluations_eq (state_ : ParserState) (req : Request) (chunks : List Bytes) :
    chunkEvaluations state_ req chunks = evaluations state_ req chunks.flatten := by
  induction chunks generalizing state_ req with
  | nil => rfl
  | cons chunk chunks ih =>
      rw [List.flatten_cons, evaluations_append, chunkEvaluations]
      congr 1
      rcases parse state_ req chunk with ⟨result, rest, state', req'⟩
      cases result with
      | indeterminate => exact ih state' req'
      | good => rfl
      | bad => rfl

theorem mem_evaluations {state_ : ParserState} {req : Request} {s : Bytes} {e : Evaluation} :
    e ∈ evaluations state_ req s ↔ ∃ pre b t, pre ++ [b] <+: s ∧
      scan parserStep (state_, req) pre = ⟨.more, t, []⟩ ∧ evaluation t.1 t.2 b = some e := by
  induction s generalizing state_ req with
  | nil => simp [evaluations]
  | cons input s ih =>
      rw [evaluations, List.mem_append, Option.mem_toList]
      constructor
      · rintro (h | h)
        · exact ⟨[], input, (state_, req), by simp, rfl, h⟩
        · rcases hconsume : consume state_ req input with ⟨result, state', req'⟩
          rw [hconsume] at h
          cases result with
          | indeterminate =>
              obtain ⟨pre, b, t, hprefix, hscan, he⟩ := ih.mp h
              refine ⟨input :: pre, b, t, List.cons_prefix_cons.mpr ⟨rfl, hprefix⟩, ?_, he⟩
              rw [scan_cons_more (parserStep_more hconsume), hscan]
          | good => cases h
          | bad => cases h
      · rintro ⟨pre, b, t, hprefix, hscan, he⟩
        cases pre with
        | nil =>
            cases hscan
            obtain ⟨rfl, -⟩ := List.cons_prefix_cons.mp hprefix
            exact Or.inl he
        | cons a pre =>
            obtain ⟨rfl, htail⟩ := List.cons_prefix_cons.mp hprefix
            rcases hstep : parserStep (state_, req) a with ⟨v, state', req'⟩
            by_cases hv : v = .more
            · subst hv
              rw [scan_cons_more hstep] at hscan
              rw [parserStep_eq.mp hstep]
              exact Or.inr (ih.mpr ⟨pre, b, t, htail, hscan, he⟩)
            · rw [scan_cons_decided hstep hv] at hscan
              cases hscan
              exact absurd rfl hv

/-! ### The digits of a version -/

/-- What `s` has of the digits of a version number behind a start line, up to some point. -/
inductive VersionDigits (s : Bytes) : Bytes → Prop
  | major (l : StartLine) {ds : Bytes} (hds : ∀ b ∈ ds, IsDigit b)
      (h : l.text ++ ascii " HTTP/" ++ ds <+: s) : VersionDigits s ds
  | minor (l : StartLine) {ms ds : Bytes} (hne : ms ≠ []) (hms : ∀ b ∈ ms, IsDigit b)
      (hds : ∀ b ∈ ds, IsDigit b)
      (h : l.text ++ ascii " HTTP/" ++ ms ++ ascii "." ++ ds <+: s) : VersionDigits s ds

theorem VersionDigits.digit {s ds : Bytes} (h : VersionDigits s ds) : ∀ b ∈ ds, IsDigit b := by
  cases h with
  | major l hds h => exact hds
  | minor l hne hms hds h => exact hds

theorem VersionDigits.init {s ds : Bytes} {b : Byte} (h : VersionDigits s (ds ++ [b])) :
    VersionDigits s ds := by
  cases h with
  | major l hds h =>
      rw [← List.append_assoc] at h
      exact .major l (fun a ha => hds a (List.mem_append_left _ ha))
        ((List.prefix_append _ _).trans h)
  | minor l hne hms hds h =>
      rw [← List.append_assoc] at h
      exact .minor l hne hms (fun a ha => hds a (List.mem_append_left _ ha))
        ((List.prefix_append _ _).trans h)

/-- An evaluation reads a digit of a version number, and the number read so far. -/
theorem Position.evaluation {c s : Bytes} {t : ParserState × Request} {b : Byte} {e : Evaluation}
    (hpos : Position c t) (hs : c ++ [b] <+: s) (h : evaluation t.1 t.2 b = some e) :
    ∃ ds, VersionDigits s (ds ++ [b]) ∧ e = ⟨some (versionOf ds), b⟩ := by
  cases hpos with
  | httpVersionMajorStart l =>
      simp only [Http.evaluation] at h
      split_ifs at h with hdigit
      cases h
      rw [isDigit_charVal] at hdigit
      exact ⟨[], .major l (by simpa using hdigit) hs, rfl⟩
  | @httpVersionMajor l ds hne hds =>
      simp only [Http.evaluation] at h
      split_ifs at h with hdot hdigit
      cases h
      rw [isDigit_charVal] at hdigit
      rw [List.append_assoc] at hs
      exact ⟨ds, .major l (forall_mem_append_singleton hds hdigit) hs, rfl⟩
  | httpVersionMinorStart l hne hds =>
      simp only [Http.evaluation] at h
      split_ifs at h with hdigit
      cases h
      rw [isDigit_charVal] at hdigit
      exact ⟨[], .minor l hne hds (by simpa using hdigit) hs, rfl⟩
  | httpVersionMinor r =>
      simp only [Http.evaluation] at h
      split_ifs at h with hcr hdigit
      cases h
      rw [isDigit_charVal] at hdigit
      rw [RequestLine.text, List.append_assoc] at hs
      exact ⟨r.minor, .minor r.toStartLine r.major_ne r.major_digit
        (forall_mem_append_singleton r.minor_digit hdigit) hs, rfl⟩
  | _ => cases h

/-- The parser is at the digits of the major number. -/
theorem scan_to_major (l : StartLine) {ds : Bytes} (hds : ∀ b ∈ ds, IsDigit b) :
    ∃ t, scan parserStep (.methodStart, {}) (l.text ++ ascii " HTTP/" ++ ds) = ⟨.more, t, []⟩ ∧
      ∀ b, IsDigit b → evaluation t.1 t.2 b = some ⟨some (versionOf ds), b⟩ := by
  by_cases hne : ds = []
  · subst hne
    refine ⟨_, scan_slash l [], fun b hb => ?_⟩
    exact if_pos ((isDigit_charVal b).mpr hb)
  · refine ⟨(.httpVersionMajor, { l.request with
      httpVersionMajor := some (versionOf ds), httpVersionMinor := some 0 }), ?_, fun b hb => ?_⟩
    · have hmajor := scan_major l hne hds []
      rw [List.append_nil] at hmajor
      rw [scan_slash, hmajor, scan_nil]
    · have hdot : b ≠ chr '.' := digit_ne_chr hb (by decide)
      exact (if_neg hdot).trans (if_pos ((isDigit_charVal b).mpr hb))

/-- The parser is at the digits of the minor number. -/
theorem scan_to_minor (l : StartLine) {ms ds : Bytes} (hne : ms ≠ []) (hms : ∀ b ∈ ms, IsDigit b)
    (hds : ∀ b ∈ ds, IsDigit b) :
    ∃ t, scan parserStep (.methodStart, {}) (l.text ++ ascii " HTTP/" ++ ms ++ ascii "." ++ ds) =
        ⟨.more, t, []⟩ ∧
      ∀ b, IsDigit b → evaluation t.1 t.2 b = some ⟨some (versionOf ds), b⟩ := by
  have hstart : scan parserStep (.methodStart, {})
      (l.text ++ ascii " HTTP/" ++ ms ++ ascii "." ++ ds) =
        scan parserStep (.httpVersionMinorStart, { l.request with
          httpVersionMajor := some (versionOf ms), httpVersionMinor := some 0 }) ds := by
    rw [List.append_assoc, List.append_assoc, scan_slash, scan_major l hne hms]
    exact scan_expect rfl
  by_cases hnil : ds = []
  · subst hnil
    refine ⟨_, hstart, fun b hb => ?_⟩
    exact if_pos ((isDigit_charVal b).mpr hb)
  · refine ⟨(.httpVersionMinor, { l.request with
      httpVersionMajor := some (versionOf ms)
      httpVersionMinor := some (versionOf ds) }), ?_, fun b hb => ?_⟩
    · have hminor := scan_minor { l.request with httpVersionMajor := some (versionOf ms) } hnil
        hds []
      rw [List.append_nil] at hminor
      rw [hstart]
      exact hminor
    · have hcr : b ≠ chr '\r' := digit_ne_chr hb (by decide)
      exact (if_neg hcr).trans (if_pos ((isDigit_charVal b).mpr hb))

/-- From a fresh parser the evaluations are those of the version digits. -/
theorem mem_evaluations_iff {s : Bytes} {e : Evaluation} :
    e ∈ evaluations .methodStart {} s ↔
      ∃ ds b, VersionDigits s (ds ++ [b]) ∧ e = ⟨some (versionOf ds), b⟩ := by
  constructor
  · intro h
    obtain ⟨pre, b, t, hprefix, hscan, he⟩ := mem_evaluations.mp h
    obtain ⟨ds, hdigits, heq⟩ := (position_of_scan hscan).evaluation hprefix he
    exact ⟨ds, b, hdigits, heq⟩
  · rintro ⟨ds, b, hdigits, rfl⟩
    rw [mem_evaluations]
    have hb : IsDigit b := hdigits.digit b (by simp)
    cases hdigits with
    | major l hds h =>
        obtain ⟨t, hscan, he⟩ := scan_to_major l fun a ha => hds a (List.mem_append_left _ ha)
        rw [← List.append_assoc] at h
        exact ⟨_, b, t, h, hscan, he b hb⟩
    | minor l hne hms hds h =>
        obtain ⟨t, hscan, he⟩ :=
          scan_to_minor l hne hms fun a ha => hds a (List.mem_append_left _ ha)
        rw [← List.append_assoc] at h
        exact ⟨_, b, t, h, hscan, he b hb⟩

/-! ### In range -/

/-- Every version number written in `s`, as far as it is written, is at most `INT_MAX - '0'`. -/
def VersionsSmall (s : Bytes) : Prop := ∀ ds, VersionDigits s ds → decimalValue ds ≤ 2147483599

theorem versionOf_of_small {ds : Bytes} (h : decimalValue ds ≤ 2147483599) :
    versionOf ds = decimalValue ds := by
  rw [versionOf, wrapInt]
  exact Int.bmod_eq_of_le_mul_two (by push_cast; omega) (by push_cast; omega)

theorem inRange_iff {ds : Bytes} {b : Byte} (hb : IsDigit b)
    (h : decimalValue ds ≤ 2147483599) :
    Evaluation.InRange ⟨some (versionOf ds), b⟩ ↔ decimalValue (ds ++ [b]) ≤ 2147483599 := by
  obtain ⟨hlow, hhigh⟩ := hb
  have hval : charVal b = b.toNat := charVal_of_lt (by omega)
  rw [versionOf_of_small h, decimalValue_append_digit]
  constructor
  · rintro ⟨v, hv, -, ⟨-, hsum⟩, -⟩
    cases hv
    simp only [hval] at hsum
    omega
  · intro hle
    refine ⟨_, rfl, ?_⟩
    simp only [FitsInt, hval]
    omega

/-- No evaluation overflows, however the stream is cut, exactly when its version numbers are small
enough that adding the digit's character code before taking `'0'` off still fits. -/
theorem version_inRange_iff (chunks : List Bytes) :
    (∀ e ∈ chunkEvaluations .methodStart {} chunks, e.InRange) ↔
      VersionsSmall chunks.flatten := by
  rw [chunkEvaluations_eq]
  constructor
  · intro h ds
    induction ds using List.reverseRecOn with
    | nil => exact fun _ => Nat.zero_le _
    | append_singleton ds b ih =>
        intro hdigits
        exact (inRange_iff (hdigits.digit b (by simp)) (ih hdigits.init)).mp
          (h _ (mem_evaluations_iff.mpr ⟨ds, b, hdigits, rfl⟩))
  · intro hsmall e he
    obtain ⟨ds, b, hdigits, rfl⟩ := mem_evaluations_iff.mp he
    exact (inRange_iff (hdigits.digit b (by simp)) (hsmall ds hdigits.init)).mpr
      (hsmall _ hdigits)

/-- A version that fits an `int` while its last evaluation does not: `'0'` is added first. -/
theorem version_not_inRange :
    ¬ ∀ e ∈ chunkEvaluations .methodStart {} [ascii "G / HTTP/21474", ascii "83600.0\r\n\r\n"],
      e.InRange := by
  intro h
  obtain ⟨v, hv, -, ⟨-, hsum⟩, -⟩ := h ⟨some 214748360, chr '0'⟩ (by decide +kernel)
  cases hv
  revert hsum
  decide

end AsioTest.Http
