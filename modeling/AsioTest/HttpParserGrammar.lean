import AsioTest.HttpRequestGrammar

/-!
`request_parser` decides the language of request heads. `Position` ties each parser state to the
place in the grammar that has been read up to there and to the request filled so far; every
`consume` that asks for more moves to such a place, the only accepting one completes a request
head, and conversely the parser follows every request head to its last byte.
-/

namespace AsioTest.Http

open ByteStrings IncrementalScan

/-- What has been read, and where the parser is. -/
inductive Position : Bytes → ParserState × Request → Prop
  | methodStart : Position [] (.methodStart, {})
  | method {m : Bytes} (hne : m ≠ []) (hm : ∀ b ∈ m, TokenByte b) :
      Position m (.method, { method := m })
  | uri (s : StartLine) : Position s.text (.uri, s.request)
  | httpVersionH (s : StartLine) : Position (s.text ++ ascii " ") (.httpVersionH, s.request)
  | httpVersionT1 (s : StartLine) : Position (s.text ++ ascii " H") (.httpVersionT1, s.request)
  | httpVersionT2 (s : StartLine) : Position (s.text ++ ascii " HT") (.httpVersionT2, s.request)
  | httpVersionP (s : StartLine) : Position (s.text ++ ascii " HTT") (.httpVersionP, s.request)
  | httpVersionSlash (s : StartLine) :
      Position (s.text ++ ascii " HTTP") (.httpVersionSlash, s.request)
  | httpVersionMajorStart (s : StartLine) :
      Position (s.text ++ ascii " HTTP/") (.httpVersionMajorStart,
        { s.request with httpVersionMajor := some 0, httpVersionMinor := some 0 })
  | httpVersionMajor (s : StartLine) {ds : Bytes} (hne : ds ≠ []) (hds : ∀ b ∈ ds, IsDigit b) :
      Position (s.text ++ ascii " HTTP/" ++ ds) (.httpVersionMajor,
        { s.request with httpVersionMajor := some (versionOf ds), httpVersionMinor := some 0 })
  | httpVersionMinorStart (s : StartLine) {ds : Bytes} (hne : ds ≠ [])
      (hds : ∀ b ∈ ds, IsDigit b) :
      Position (s.text ++ ascii " HTTP/" ++ ds ++ ascii ".") (.httpVersionMinorStart,
        { s.request with httpVersionMajor := some (versionOf ds), httpVersionMinor := some 0 })
  | httpVersionMinor (r : RequestLine) : Position r.text (.httpVersionMinor, r.request [])
  | expectingNewline1 (r : RequestLine) :
      Position (r.text ++ ascii "\r") (.expectingNewline1, r.request [])
  | headerLineStart (r : RequestLine) (h : HeaderBlock) :
      Position (r.text ++ crlf ++ h.text) (.headerLineStart, r.request h.headers)
  | headerLws (r : RequestLine) (h : HeaderBlock) (hlines : h.lines ≠ []) {blanks : Bytes}
      (hne : blanks ≠ []) (hblank : ∀ b ∈ blanks, Blank b) :
      Position (r.text ++ crlf ++ h.text ++ blanks) (.headerLws, r.request h.headers)
  | headerName (r : RequestLine) (h : HeaderBlock) {name : Bytes} (hne : name ≠ [])
      (hname : ∀ b ∈ name, TokenByte b) :
      Position (r.text ++ crlf ++ h.text ++ name)
        (.headerName, r.request (h.headers ++ [⟨name, []⟩]))
  | spaceBeforeHeaderValue (r : RequestLine) (h : HeaderBlock) {name : Bytes} (hne : name ≠ [])
      (hname : ∀ b ∈ name, TokenByte b) :
      Position (r.text ++ crlf ++ h.text ++ name ++ ascii ":")
        (.spaceBeforeHeaderValue, r.request (h.headers ++ [⟨name, []⟩]))
  | headerValue (r : RequestLine) (h : HeaderBlock) {l : HeaderLine} (hl : l.WellFormed)
      (hstart : h.lines = [] → l.IsField) (hopen : ∀ blanks, l ≠ .continuation blanks []) :
      Position (r.text ++ crlf ++ h.text ++ l.text) (.headerValue, r.request (l.apply h.headers))
  | expectingNewline2 (r : RequestLine) (h : HeaderBlock) {l : HeaderLine} (hl : l.WellFormed)
      (hstart : h.lines = [] → l.IsField) :
      Position (r.text ++ crlf ++ h.text ++ l.text ++ ascii "\r")
        (.expectingNewline2, r.request (l.apply h.headers))
  | expectingNewline3 (r : RequestLine) (h : HeaderBlock) :
      Position (r.text ++ crlf ++ h.text ++ ascii "\r") (.expectingNewline3, r.request h.headers)

theorem Position.cast {c c' : Bytes} {s s' : ParserState × Request} (h : Position c s)
    (hc : c = c') (hs : s = s') : Position c' s' := by
  rw [← hc, ← hs]
  exact h

theorem expect_eq_more {c : Char} {state_ next : ParserState} {req : Request} {input : Byte}
    {s' : ParserState × Request} (h : expect c state_ next req input = (.indeterminate, s')) :
    input = chr c ∧ s' = (next, req) := by
  rw [expect] at h
  split_ifs at h with hc
  · cases h
    exact ⟨hc, rfl⟩
  · cases h

theorem expect_ne_good {c : Char} {state_ next : ParserState} {req : Request} {input : Byte}
    {s' : ParserState × Request} : expect c state_ next req input ≠ (.good, s') := by
  rw [expect]
  split_ifs <;> exact nofun

theorem forall_mem_append_singleton {P : Byte → Prop} {l : Bytes} {b : Byte}
    (hl : ∀ a ∈ l, P a) (hb : P b) : ∀ a ∈ l ++ [b], P a := by
  intro a ha
  rcases List.mem_append.mp ha with ha | ha
  · exact hl a ha
  · rwa [List.mem_singleton.mp ha]

/-- A value byte read at the end of an open line makes a line again. -/
def HeaderLine.pushByte (l : HeaderLine) (b : Byte) : HeaderLine :=
  match l with
  | field name value => field name (value ++ [b])
  | continuation blanks text => continuation blanks (text ++ [b])

@[simp] theorem HeaderLine.pushByte_text (l : HeaderLine) (b : Byte) :
    (l.pushByte b).text = l.text ++ [b] := by
  cases l <;> simp [HeaderLine.pushByte, HeaderLine.text]

theorem HeaderLine.pushByte_wellFormed {l : HeaderLine} {b : Byte} (hl : l.WellFormed)
    (hopen : ∀ blanks, l ≠ .continuation blanks []) (hb : Vchar b) :
    (l.pushByte b).WellFormed := by
  cases l with
  | field name value =>
      exact ⟨hl.1, hl.2.1, forall_mem_append_singleton hl.2.2 hb⟩
  | continuation blanks text =>
      obtain ⟨hne, hblank, htext, hhead⟩ := hl
      refine ⟨hne, hblank, forall_mem_append_singleton htext hb, ?_⟩
      cases text with
      | nil => exact absurd rfl (hopen blanks)
      | cons a text => exact hhead

theorem HeaderLine.pushByte_open (l : HeaderLine) (b : Byte) (blanks : Bytes) :
    l.pushByte b ≠ .continuation blanks [] := by
  cases l with
  | field name value => exact nofun
  | continuation blanks' text =>
      intro h
      have htext := (HeaderLine.continuation.inj h).2
      simp at htext

theorem HeaderLine.pushByte_isField {l : HeaderLine} {b : Byte} :
    (l.pushByte b).IsField ↔ l.IsField := by
  cases l <;> exact Iff.rfl

theorem HeaderLine.pushByte_apply {headers : List Header} {l : HeaderLine} (b : Byte)
    (h : headers = [] → l.IsField) :
    (l.pushByte b).apply headers = pushValue (l.apply headers) b := by
  cases l with
  | field name value =>
      simp [HeaderLine.pushByte, HeaderLine.apply, pushValue, List.modifyLast_concat]
  | continuation blanks text =>
      rcases List.eq_nil_or_concat headers with hnil | ⟨init, last, rfl⟩
      · exact (h hnil).elim
      · simp [HeaderLine.pushByte, HeaderLine.apply, pushValue, List.modifyLast_concat]

/-- A blank line with nothing behind it leaves the headers as they are. -/
theorem HeaderLine.apply_continuation_nil (headers : List Header) (blanks : Bytes) :
    (HeaderLine.continuation blanks []).apply headers = headers := by
  rcases List.eq_nil_or_concat headers with rfl | ⟨init, last, rfl⟩
  · rfl
  · simp [HeaderLine.apply, List.modifyLast_concat]

theorem pushName_concat (headers : List Header) (name value : Bytes) (b : Byte) :
    pushName (headers ++ [⟨name, value⟩]) b = headers ++ [⟨name ++ [b], value⟩] := by
  rw [pushName, List.modifyLast_concat]

/-- Every undecided byte leads to the next place in the grammar: one case per place, and in it one
per test `consume` makes. -/
theorem Position.step {c : Bytes} {s s' : ParserState × Request} {b : Byte} (h : Position c s)
    (hstep : parserStep s b = (.more, s')) : Position (c ++ [b]) s' := by
  have hc : consume s.1 s.2 b = (.indeterminate, s') := parserStep_eq.mp hstep
  cases h with
  | methodStart =>
      simp only [consume] at hc
      split_ifs at hc with htok <;> cases hc
      rw [notToken_iff, not_not] at htok
      exact (Position.method (m := [b]) (by simp) (by simpa using htok)).cast (by simp) rfl
  | method hne hm =>
      simp only [consume] at hc
      split_ifs at hc with hsp htok <;> cases hc
      · subst hsp
        exact Position.uri ⟨_, [], hne, hm, by simp⟩
      · rw [notToken_iff, not_not] at htok
        exact Position.method (by simp) (forall_mem_append_singleton hm htok)
  | uri s =>
      simp only [consume] at hc
      split_ifs at hc with hsp hctl <;> cases hc
      · subst hsp
        exact Position.httpVersionH s
      · rw [isCtl_charVal] at hctl
        exact (Position.uri { s with
          target := s.target ++ [b]
          target_byte := forall_mem_append_singleton s.target_byte ⟨hctl, hsp⟩ }).cast
          (by simp [StartLine.text]) rfl
  | httpVersionH s =>
      obtain ⟨rfl, rfl⟩ := expect_eq_more hc
      exact (Position.httpVersionT1 s).cast (by rw [List.append_assoc]; rfl) rfl
  | httpVersionT1 s =>
      obtain ⟨rfl, rfl⟩ := expect_eq_more hc
      exact (Position.httpVersionT2 s).cast (by rw [List.append_assoc]; rfl) rfl
  | httpVersionT2 s =>
      obtain ⟨rfl, rfl⟩ := expect_eq_more hc
      exact (Position.httpVersionP s).cast (by rw [List.append_assoc]; rfl) rfl
  | httpVersionP s =>
      obtain ⟨rfl, rfl⟩ := expect_eq_more hc
      exact (Position.httpVersionSlash s).cast (by rw [List.append_assoc]; rfl) rfl
  | httpVersionSlash s =>
      simp only [consume] at hc
      split_ifs at hc with hslash <;> cases hc
      subst hslash
      exact (Position.httpVersionMajorStart s).cast (by rw [List.append_assoc]; rfl) rfl
  | httpVersionMajorStart s =>
      simp only [consume] at hc
      split_ifs at hc with hdigit <;> cases hc
      rw [isDigit_charVal] at hdigit
      have hv : addDigit 0 b = versionOf [b] := addDigit_versionOf [] hdigit
      rw [Option.map_some, hv]
      exact Position.httpVersionMajor s (by simp) (by simpa using hdigit)
  | httpVersionMajor s hne hds =>
      simp only [consume] at hc
      split_ifs at hc with hdot hdigit <;> cases hc
      · subst hdot
        exact Position.httpVersionMinorStart s hne hds
      · rw [isDigit_charVal] at hdigit
        rw [Option.map_some, addDigit_versionOf _ hdigit]
        exact (Position.httpVersionMajor s (by simp)
          (forall_mem_append_singleton hds hdigit)).cast (by simp) rfl
  | httpVersionMinorStart s hne hds =>
      simp only [consume] at hc
      split_ifs at hc with hdigit <;> cases hc
      rw [isDigit_charVal] at hdigit
      have hv : addDigit 0 b = versionOf [b] := addDigit_versionOf [] hdigit
      rw [Option.map_some, hv]
      exact Position.httpVersionMinor ⟨s, _, [b], hne, hds, by simp, by simpa using hdigit⟩
  | httpVersionMinor r =>
      simp only [consume] at hc
      split_ifs at hc with hcr hdigit <;> cases hc
      · subst hcr
        exact Position.expectingNewline1 r
      · rw [isDigit_charVal] at hdigit
        simp only [RequestLine.request, Option.map_some]
        rw [addDigit_versionOf _ hdigit]
        exact (Position.httpVersionMinor { r with
          minor := r.minor ++ [b]
          minor_ne := by simp
          minor_digit := forall_mem_append_singleton r.minor_digit hdigit }).cast
          (by simp [RequestLine.text]) rfl
  | expectingNewline1 r =>
      obtain ⟨rfl, rfl⟩ := expect_eq_more hc
      exact (Position.headerLineStart r .empty).cast (by rw [List.append_assoc]; simp; rfl) rfl
  | headerLineStart r h =>
      simp only [consume] at hc
      split_ifs at hc with hcr hlws htok <;> cases hc
      · subst hcr
        exact Position.expectingNewline3 r h
      · rw [Bool.and_eq_true] at hlws
        have hheaders : h.headers ≠ [] := by simpa [RequestLine.request] using hlws.1
        have hblank : Blank b := by simpa [Blank] using hlws.2
        exact Position.headerLws r h (fun hnil => hheaders (h.headers_eq_nil_iff.mpr hnil))
          (by simp) (by simpa using hblank)
      · rw [notToken_iff, not_not] at htok
        have hname := @Position.headerName r h [b] (by simp) (by simpa using htok)
        exact hname.cast rfl (by rw [pushName_concat]; rfl)
  | headerLws r h hlines hne hblank =>
      simp only [consume] at hc
      split_ifs at hc with hcr hlws hctl <;> cases hc
      · subst hcr
        exact (Position.expectingNewline2 r h (l := .continuation _ [])
          ⟨hne, hblank, by simp, by simp⟩ (fun hnil => absurd hnil hlines)).cast
          (by simp [HeaderLine.text]; rfl) (by rw [HeaderLine.apply_continuation_nil])
      · have hb : Blank b := by simpa [Blank] using hlws
        exact (Position.headerLws r h hlines (by simp)
          (forall_mem_append_singleton hblank hb)).cast (by simp) rfl
      · rw [isCtl_charVal] at hctl
        have hsp : b ≠ chr ' ' := fun hsp => hlws (by simp [hsp])
        exact (Position.headerValue r h (l := .continuation _ [b])
          ⟨hne, hblank, by simpa [Vchar] using hctl, by simpa using hsp⟩
          (fun hnil => absurd hnil hlines) (by simp)).cast (by simp [HeaderLine.text]) rfl
  | headerName r h hne hname =>
      simp only [consume] at hc
      split_ifs at hc with hcolon htok <;> cases hc
      · subst hcolon
        exact Position.spaceBeforeHeaderValue r h hne hname
      · rw [notToken_iff, not_not] at htok
        exact (Position.headerName r h (by simp) (forall_mem_append_singleton hname htok)).cast
          (by simp) (by simp [RequestLine.request, pushName_concat])
  | spaceBeforeHeaderValue r h hne hname =>
      obtain ⟨rfl, rfl⟩ := expect_eq_more hc
      exact (Position.headerValue r h (l := .field _ []) ⟨hne, hname, by simp⟩
        (fun _ => trivial) (by simp)).cast (by simp [HeaderLine.text]; rfl) rfl
  | headerValue r h hl hstart hopen =>
      simp only [consume] at hc
      split_ifs at hc with hcr hctl <;> cases hc
      · subst hcr
        exact Position.expectingNewline2 r h hl hstart
      · rw [isCtl_charVal] at hctl
        have hfield : h.headers = [] → HeaderLine.IsField _ :=
          fun hnil => hstart (h.headers_eq_nil_iff.mp hnil)
        exact (Position.headerValue r h (HeaderLine.pushByte_wellFormed hl hopen hctl)
          (fun hnil => HeaderLine.pushByte_isField.mpr (hstart hnil))
          (HeaderLine.pushByte_open _ b)).cast
          (by simp) (by rw [HeaderLine.pushByte_apply b hfield]; rfl)
  | expectingNewline2 r h hl hstart =>
      obtain ⟨rfl, rfl⟩ := expect_eq_more hc
      exact (Position.headerLineStart r (h.push _ hl hstart)).cast
        (by simp [crlf]; rfl) (by rw [HeaderBlock.push_headers])
  | expectingNewline3 r h =>
      simp only [consume] at hc
      split_ifs at hc <;> cases hc

/-- Only the line feed behind a complete header block is accepted. -/
theorem Position.accept {c : Bytes} {s s' : ParserState × Request} {b : Byte} (h : Position c s)
    (hstep : parserStep s b = (.accept, s')) :
    ∃ head : RequestHead, c ++ [b] = head.render ∧ s'.2 = head.request := by
  have hc : consume s.1 s.2 b = (.good, s') := parserStep_eq.mp hstep
  cases h with
  | expectingNewline3 r h =>
      simp only [consume] at hc
      split_ifs at hc with hlf <;> cases hc
      subst hlf
      exact ⟨⟨r, h⟩, by simp [RequestHead.render, crlf]; rfl, rfl⟩
  | httpVersionH => exact absurd hc expect_ne_good
  | httpVersionT1 => exact absurd hc expect_ne_good
  | httpVersionT2 => exact absurd hc expect_ne_good
  | httpVersionP => exact absurd hc expect_ne_good
  | expectingNewline1 => exact absurd hc expect_ne_good
  | spaceBeforeHeaderValue => exact absurd hc expect_ne_good
  | expectingNewline2 => exact absurd hc expect_ne_good
  | _ =>
      simp only [consume] at hc
      split_ifs at hc <;> cases hc

/-- While the parser asks for more, it is at some place in the grammar. -/
theorem position_of_scan {c : Bytes} {s : ParserState × Request}
    (h : scan parserStep (.methodStart, {}) c = ⟨.more, s, []⟩) : Position c s := by
  have hpos : Position ([] ++ c) s :=
    scan_more_invariant (fun _ _ _ _ hI hstep => hI.step hstep) Position.methodStart h
  rwa [List.nil_append] at hpos

/-- What the parser accepts is a request head, and it leaves that head's request. -/
theorem accepted_head {w : Bytes} {s' : ParserState × Request}
    (h : scan parserStep (.methodStart, {}) w = ⟨.accept, s', []⟩) :
    ∃ head : RequestHead, w = head.render ∧ s'.2 = head.request := by
  obtain ⟨q, b, t, rfl, hq, hlast⟩ := scan_decided_last h (by decide)
  exact (position_of_scan hq).accept hlast

/-! ### Following a request head -/

theorem scan_expect {c : Char} {state_ next : ParserState} {req : Request} {rest : Bytes}
    (h : consume state_ req (chr c) = (.indeterminate, next, req)) :
    scan parserStep (state_, req) (chr c :: rest) = scan parserStep (next, req) rest :=
  scan_cons_more (parserStep_more h) rest

theorem scan_method (s : StartLine) (rest : Bytes) :
    scan parserStep (.methodStart, {}) (s.method ++ chr ' ' :: rest) =
      scan parserStep (.uri, { method := s.method }) rest := by
  obtain ⟨a, m, hm⟩ := List.exists_cons_of_ne_nil s.method_ne
  have htoken := s.method_token
  rw [hm] at htoken ⊢
  have hfirst : parserStep (.methodStart, {}) a = (.more, (.method, { method := [a] })) := by
    apply parserStep_more
    simp [consume, notToken_eq_false (htoken a List.mem_cons_self)]
  have hloop : ∀ (l : Bytes) (b : Byte), TokenByte b →
      parserStep (.method, { method := l }) b = (.more, (.method, { method := l ++ [b] })) := by
    intro l b hb
    apply parserStep_more
    have hsp : b ≠ chr ' ' := hb.ne_of_tspecial (by decide)
    simp [consume, notToken_eq_false hb, hsp]
  have hread := scan_loop (f := fun l => (ParserState.method, ({ method := l } : Request))) hloop
    [a] m (fun b hb => htoken b (List.mem_cons_of_mem a hb)) (chr ' ' :: rest)
  rw [List.cons_append, scan_cons_more hfirst]
  exact hread.trans (scan_expect rfl)

theorem scan_target (s : StartLine) (rest : Bytes) :
    scan parserStep (.uri, { method := s.method }) (s.target ++ chr ' ' :: rest) =
      scan parserStep (.httpVersionH, s.request) rest := by
  have hloop : ∀ (l : Bytes) (b : Byte), TargetByte b →
      parserStep (.uri, { method := s.method, uri := l }) b =
        (.more, (.uri, { method := s.method, uri := l ++ [b] })) := by
    intro l b hb
    apply parserStep_more
    simp [consume, isCtl_eq_false hb.1, hb.2]
  have hread := scan_loop
    (f := fun l => (ParserState.uri, ({ method := s.method, uri := l } : Request)))
    hloop [] s.target s.target_byte (chr ' ' :: rest)
  exact hread.trans (scan_expect rfl)

theorem scan_version (s : StartLine) (rest : Bytes) :
    scan parserStep (.httpVersionH, s.request) (ascii "HTTP/" ++ rest) =
      scan parserStep (.httpVersionMajorStart,
        { s.request with httpVersionMajor := some 0, httpVersionMinor := some 0 }) rest := rfl

/-- Digits are read in a start state first and then in a state of their own. -/
theorem scan_digits (start loop : ParserState) (f : Int → Request)
    (hstart : ∀ b, IsDigit b →
      parserStep (start, f 0) b = (.more, (loop, f (addDigit 0 b))))
    (hloop : ∀ v b, IsDigit b → parserStep (loop, f v) b = (.more, (loop, f (addDigit v b))))
    {ds : Bytes} (hne : ds ≠ []) (hds : ∀ b ∈ ds, IsDigit b) (rest : Bytes) :
    scan parserStep (start, f 0) (ds ++ rest) = scan parserStep (loop, f (versionOf ds)) rest := by
  obtain ⟨a, ds, rfl⟩ := List.exists_cons_of_ne_nil hne
  have ha : IsDigit a := hds a List.mem_cons_self
  have hfirst : addDigit 0 a = versionOf [a] := addDigit_versionOf [] ha
  have hnext : ∀ (l : Bytes) (b : Byte), IsDigit b → parserStep (loop, f (versionOf l)) b =
      (.more, (loop, f (versionOf (l ++ [b])))) := by
    intro l b hb
    rw [hloop _ b hb, addDigit_versionOf l hb]
  rw [List.cons_append, scan_cons_more (hstart a ha), hfirst,
    scan_loop (f := fun l => (loop, f (versionOf l))) hnext [a] ds
      (fun b hb => hds b (List.mem_cons_of_mem a hb)), List.singleton_append]

theorem scan_slash (s : StartLine) (rest : Bytes) :
    scan parserStep (.methodStart, {}) (s.text ++ ascii " HTTP/" ++ rest) =
      scan parserStep (.httpVersionMajorStart,
        { s.request with httpVersionMajor := some 0, httpVersionMinor := some 0 }) rest := by
  have htext : s.text ++ ascii " HTTP/" ++ rest =
      s.method ++ chr ' ' :: (s.target ++ chr ' ' :: (ascii "HTTP/" ++ rest)) := by
    simp [StartLine.text, ascii]
  rw [htext, scan_method, scan_target, scan_version]

theorem scan_major (s : StartLine) {ds : Bytes} (hne : ds ≠ []) (hds : ∀ b ∈ ds, IsDigit b)
    (rest : Bytes) :
    scan parserStep (.httpVersionMajorStart,
        { s.request with httpVersionMajor := some 0, httpVersionMinor := some 0 }) (ds ++ rest) =
      scan parserStep (.httpVersionMajor,
        { s.request with httpVersionMajor := some (versionOf ds), httpVersionMinor := some 0 })
        rest := by
  refine scan_digits .httpVersionMajorStart .httpVersionMajor
    (fun v => { s.request with httpVersionMajor := some v, httpVersionMinor := some 0 })
    (fun b hb => ?_) (fun v b hb => ?_) hne hds rest
  · apply parserStep_more
    simp [consume, (isDigit_charVal b).mpr hb]
  · apply parserStep_more
    simp [consume, (isDigit_charVal b).mpr hb, digit_ne_chr hb (c := '.') (by decide)]

theorem scan_minor (req : Request) {ds : Bytes} (hne : ds ≠ []) (hds : ∀ b ∈ ds, IsDigit b)
    (rest : Bytes) :
    scan parserStep (.httpVersionMinorStart, { req with httpVersionMinor := some 0 })
        (ds ++ rest) =
      scan parserStep (.httpVersionMinor, { req with httpVersionMinor := some (versionOf ds) })
        rest := by
  refine scan_digits .httpVersionMinorStart .httpVersionMinor
    (fun v => { req with httpVersionMinor := some v })
    (fun b hb => ?_) (fun v b hb => ?_) hne hds rest
  · apply parserStep_more
    simp [consume, (isDigit_charVal b).mpr hb]
  · apply parserStep_more
    simp [consume, (isDigit_charVal b).mpr hb, digit_ne_chr hb (c := '\r') (by decide)]

theorem scan_requestLine (r : RequestLine) (rest : Bytes) :
    scan parserStep (.methodStart, {}) (r.text ++ crlf ++ rest) =
      scan parserStep (.headerLineStart, r.request []) rest := by
  have htext : r.text ++ crlf ++ rest = r.toStartLine.text ++ ascii " HTTP/" ++
      (r.major ++ chr '.' :: (r.minor ++ chr '\r' :: chr '\n' :: rest)) := by
    simp [RequestLine.text, crlf, ascii]
  have hminor := scan_minor
    { r.toStartLine.request with httpVersionMajor := some (versionOf r.major) }
    r.minor_ne r.minor_digit (chr '\r' :: chr '\n' :: rest)
  rw [htext, scan_slash, scan_major r.toStartLine r.major_ne r.major_digit, scan_expect rfl]
  exact hminor

theorem scan_line_end (req : Request) (rest : Bytes) :
    scan parserStep (.headerValue, req) (crlf ++ rest) =
      scan parserStep (.headerLineStart, req) rest := rfl

/-- A byte of a value is appended to the last header. -/
theorem parserStep_value (req : Request) {b : Byte} (hb : Vchar b) :
    parserStep (.headerValue, req) b =
      (.more, (.headerValue, { req with headers := pushValue req.headers b })) := by
  apply parserStep_more
  have hcr : b ≠ chr '\r' := ne_of_not_ctl hb (by decide)
  simp [consume, isCtl_eq_false hb, hcr]

/-- So is the first one behind the blanks of a continuation line. -/
theorem parserStep_lws (req : Request) {b : Byte} (hb : Vchar b) (hsp : b ≠ chr ' ') :
    parserStep (.headerLws, req) b =
      (.more, (.headerValue, { req with headers := pushValue req.headers b })) := by
  apply parserStep_more
  have hcr : b ≠ chr '\r' := ne_of_not_ctl hb (by decide)
  have htab : b ≠ chr '\t' := ne_of_not_ctl hb (by decide)
  simp [consume, isCtl_eq_false hb, hcr, htab, hsp]

/-- The blanks of a continuation line leave no trace. -/
theorem scan_blanks {blanks : Bytes} (hne : blanks ≠ []) (hblank : ∀ b ∈ blanks, Blank b)
    {req : Request} (hheaders : req.headers ≠ []) (rest : Bytes) :
    scan parserStep (.headerLineStart, req) (blanks ++ rest) =
      scan parserStep (.headerLws, req) rest := by
  obtain ⟨a, bs, rfl⟩ := List.exists_cons_of_ne_nil hne
  have hnecr : ∀ {b : Byte}, Blank b → b ≠ chr '\r' := by
    rintro b (rfl | rfl) <;> decide
  have hfirst : parserStep (.headerLineStart, req) a = (.more, (.headerLws, req)) := by
    apply parserStep_more
    have ha := hblank a List.mem_cons_self
    have hor : a = chr ' ' ∨ a = chr '\t' := ha
    simp [consume, hheaders, hnecr ha, hor]
  have hloop : ∀ (_ : Bytes) (b : Byte), Blank b →
      parserStep (.headerLws, req) b = (.more, (.headerLws, req)) := by
    intro _ b hb
    apply parserStep_more
    have hor : b = chr ' ' ∨ b = chr '\t' := hb
    simp [consume, hnecr hb, hor]
  rw [List.cons_append, scan_cons_more hfirst]
  exact scan_loop (f := fun _ => (ParserState.headerLws, req)) hloop [a] bs
    (fun b hb => hblank b (List.mem_cons_of_mem a hb)) rest

/-- Reads the rest of an open line, a field or a continuation, to its line end. -/
theorem scan_value (req : Request) (mk : Bytes → HeaderLine)
    (hmk : ∀ v b, (mk v).pushByte b = mk (v ++ [b]))
    (hfield : ∀ v, req.headers = [] → (mk v).IsField) (v : Bytes) {w : Bytes}
    (hw : ∀ b ∈ w, Vchar b) (rest : Bytes) :
    scan parserStep (.headerValue, { req with headers := (mk v).apply req.headers })
        (w ++ (crlf ++ rest)) =
      scan parserStep (.headerLineStart, { req with headers := (mk (v ++ w)).apply req.headers })
        rest := by
  have hloop : ∀ (l : Bytes) (b : Byte), Vchar b →
      parserStep (.headerValue, { req with headers := (mk l).apply req.headers }) b =
        (.more, (.headerValue, { req with headers := (mk (l ++ [b])).apply req.headers })) := by
    intro l b hb
    rw [parserStep_value _ hb, ← HeaderLine.pushByte_apply b (hfield l), hmk]
  have hread := scan_loop
    (f := fun l => (ParserState.headerValue, { req with headers := (mk l).apply req.headers }))
    hloop v w hw (crlf ++ rest)
  exact hread.trans (scan_line_end _ rest)

theorem scan_field {name value : Bytes} (hl : (HeaderLine.field name value).WellFormed)
    (req : Request) (rest : Bytes) :
    scan parserStep (.headerLineStart, req) (name ++ (ascii ": " ++ (value ++ (crlf ++ rest)))) =
      scan parserStep (.headerLineStart,
        { req with headers := (HeaderLine.field name value).apply req.headers }) rest := by
  obtain ⟨hne, htoken, hvalue⟩ := hl
  obtain ⟨a, n, rfl⟩ := List.exists_cons_of_ne_nil hne
  have hfirst : parserStep (.headerLineStart, req) a =
      (.more, (.headerName, { req with headers := req.headers ++ [⟨[a], []⟩] })) := by
    apply parserStep_more
    have ha := htoken a List.mem_cons_self
    have hcr : a ≠ chr '\r' := ne_of_not_ctl ha.not_ctl (by decide)
    have hsp : a ≠ chr ' ' := ha.ne_of_tspecial (by decide)
    have htab : a ≠ chr '\t' := ha.ne_of_tspecial (by decide)
    have hpush : pushName (req.headers ++ [({} : Header)]) a = req.headers ++ [⟨[a], []⟩] :=
      pushName_concat req.headers [] [] a
    simp [consume, notToken_eq_false ha, hcr, hsp, htab, hpush]
  have hloop : ∀ (l : Bytes) (b : Byte), TokenByte b →
      parserStep (.headerName, { req with headers := req.headers ++ [⟨l, []⟩] }) b =
        (.more, (.headerName, { req with headers := req.headers ++ [⟨l ++ [b], []⟩] })) := by
    intro l b hb
    apply parserStep_more
    have hcolon : b ≠ chr ':' := hb.ne_of_tspecial (by decide)
    simp [consume, notToken_eq_false hb, hcolon, pushName_concat]
  have hname := scan_loop (f := fun l =>
      (ParserState.headerName, { req with headers := req.headers ++ [Header.mk l []] })) hloop [a] n
    (fun b hb => htoken b (List.mem_cons_of_mem a hb))
    (ascii ": " ++ (value ++ (crlf ++ rest)))
  rw [List.cons_append, scan_cons_more hfirst]
  exact hname.trans (scan_value req (HeaderLine.field (a :: n)) (fun _ _ => rfl)
    (fun _ _ => trivial) [] hvalue rest)

theorem scan_continuation {blanks text : Bytes}
    (hl : (HeaderLine.continuation blanks text).WellFormed) (req : Request)
    (hheaders : req.headers ≠ []) (rest : Bytes) :
    scan parserStep (.headerLineStart, req) (blanks ++ (text ++ (crlf ++ rest))) =
      scan parserStep (.headerLineStart,
        { req with headers := (HeaderLine.continuation blanks text).apply req.headers }) rest := by
  obtain ⟨hne, hblank, htext, hhead⟩ := hl
  rw [scan_blanks hne hblank hheaders]
  cases text with
  | nil =>
      rw [HeaderLine.apply_continuation_nil]
      rfl
  | cons c text =>
      have hsp : c ≠ chr ' ' := by
        rintro rfl
        exact hhead rfl
      rw [List.cons_append, scan_cons_more (parserStep_lws req (htext c List.mem_cons_self) hsp)]
      exact scan_value req (HeaderLine.continuation blanks) (fun _ _ => rfl)
        (fun _ hnil => absurd hnil hheaders) [c]
        (fun b hb => htext b (List.mem_cons_of_mem c hb)) rest

theorem scan_line {l : HeaderLine} (hl : l.WellFormed) (req : Request)
    (hstart : req.headers = [] → l.IsField) (rest : Bytes) :
    scan parserStep (.headerLineStart, req) (l.text ++ (crlf ++ rest)) =
      scan parserStep (.headerLineStart, { req with headers := l.apply req.headers }) rest := by
  cases l with
  | field name value =>
      rw [HeaderLine.text, List.append_assoc, List.append_assoc]
      exact scan_field hl req rest
  | continuation blanks text =>
      rw [HeaderLine.text, List.append_assoc]
      exact scan_continuation hl req hstart rest

theorem scan_lines {lines : List HeaderLine} (hl : ∀ l ∈ lines, l.WellFormed) (req : Request)
    (hstart : req.headers = [] → ∀ l, lines.head? = some l → l.IsField) (rest : Bytes) :
    scan parserStep (.headerLineStart, req) ((lines.flatMap fun l => l.text ++ crlf) ++ rest) =
      scan parserStep (.headerLineStart,
        { req with headers := lines.foldl HeaderLine.apply req.headers }) rest := by
  induction lines generalizing req with
  | nil => rfl
  | cons l lines ih =>
      have hfield : req.headers = [] → l.IsField := fun hnil => hstart hnil l rfl
      rw [List.flatMap_cons, List.append_assoc, List.append_assoc,
        scan_line (hl l List.mem_cons_self) req hfield, ih
          (fun m hm => hl m (List.mem_cons_of_mem l hm)) _
          (fun hnil => absurd hnil (HeaderLine.apply_ne_nil hfield))]
      rfl

/-- The parser accepts every request head at its last byte and leaves the request it means. -/
theorem scan_head (head : RequestHead) :
    scan parserStep (.methodStart, {}) head.render =
      ⟨.accept, (.expectingNewline3, head.request), []⟩ := by
  rw [RequestHead.render, List.append_assoc, List.append_assoc, ← List.append_assoc,
    scan_requestLine, HeaderBlock.text,
    scan_lines head.block.wellFormed _ (fun _ => head.block.starts_field)]
  rfl

theorem words_parserStep : words parserStep (.methodStart, {}) = requestHeads := by
  ext w
  constructor
  · rintro ⟨s', h⟩
    obtain ⟨head, hw, -⟩ := accepted_head h
    exact ⟨head, hw.symm⟩
  · rintro ⟨head, rfl⟩
    exact ⟨_, scan_head head⟩

/-- From every parser state some input is accepted. -/
theorem parser_live (s : ParserState × Request) : ∃ w, w ∈ words parserStep s := by
  obtain ⟨state_, req⟩ := s
  cases state_ with
  | methodStart => exact ⟨ascii "G  HTTP/1.0\r\n\r\n", _, rfl⟩
  | method => exact ⟨ascii "  HTTP/1.0\r\n\r\n", _, rfl⟩
  | uri => exact ⟨ascii " HTTP/1.0\r\n\r\n", _, rfl⟩
  | httpVersionH => exact ⟨ascii "HTTP/1.0\r\n\r\n", _, rfl⟩
  | httpVersionT1 => exact ⟨ascii "TTP/1.0\r\n\r\n", _, rfl⟩
  | httpVersionT2 => exact ⟨ascii "TP/1.0\r\n\r\n", _, rfl⟩
  | httpVersionP => exact ⟨ascii "P/1.0\r\n\r\n", _, rfl⟩
  | httpVersionSlash => exact ⟨ascii "/1.0\r\n\r\n", _, rfl⟩
  | httpVersionMajorStart => exact ⟨ascii "1.0\r\n\r\n", _, rfl⟩
  | httpVersionMajor => exact ⟨ascii ".0\r\n\r\n", _, rfl⟩
  | httpVersionMinorStart => exact ⟨ascii "0\r\n\r\n", _, rfl⟩
  | httpVersionMinor => exact ⟨ascii "\r\n\r\n", _, rfl⟩
  | expectingNewline1 => exact ⟨ascii "\n\r\n", _, rfl⟩
  | headerLineStart => exact ⟨ascii "\r\n", _, rfl⟩
  | headerLws => exact ⟨ascii "\r\n\r\n", _, rfl⟩
  | headerName => exact ⟨ascii ": \r\n\r\n", _, rfl⟩
  | spaceBeforeHeaderValue => exact ⟨ascii " \r\n\r\n", _, rfl⟩
  | headerValue => exact ⟨ascii "\r\n\r\n", _, rfl⟩
  | expectingNewline2 => exact ⟨ascii "\n\r\n", _, rfl⟩
  | expectingNewline3 => exact ⟨ascii "\n", _, rfl⟩

/-! ### The verdicts of `parse` -/

/-- `parse` on a fresh parser and an empty request returns `result` after reading `p`. -/
def EndsAfter (result : ResultType) (s p : Bytes) : Prop :=
  ∃ rest state_ req, s = p ++ rest ∧ parse .methodStart {} s = ⟨result, rest, state_, req⟩

theorem endsAfter_iff {result : ResultType} {s p : Bytes} : EndsAfter result s p ↔
    ∃ rest, s = p ++ rest ∧
      ∃ s', scan parserStep (.methodStart, {}) (p ++ rest) = ⟨result.verdict, s', rest⟩ := by
  constructor
  · rintro ⟨rest, state_, req, rfl, hparse⟩
    exact ⟨rest, rfl, _, parse_eq_iff.mp hparse⟩
  · rintro ⟨rest, rfl, ⟨state_, req⟩, hscan⟩
    exact ⟨rest, state_, req, rfl, parse_eq_iff.mpr hscan⟩

theorem endsAfter_good_iff (s p : Bytes) :
    EndsAfter .good s p ↔ p <+: s ∧ p ∈ requestHeads := by
  rw [endsAfter_iff, ← words_parserStep]
  constructor
  · rintro ⟨rest, rfl, hscan⟩
    obtain ⟨q, hq, heq⟩ := accept_iff.mp hscan
    rw [List.append_cancel_right heq]
    exact ⟨List.prefix_append q rest, hq⟩
  · rintro ⟨⟨rest, rfl⟩, hp⟩
    exact ⟨rest, rfl, accept_iff.mpr ⟨p, hp, rfl⟩⟩

theorem endsAfter_bad_iff (s p : Bytes) : EndsAfter .bad s p ↔
    (∀ q, q <+: s → q ∉ requestHeads) ∧ ShortestDead requestHeads s p := by
  rw [endsAfter_iff, ← words_parserStep]
  constructor
  · rintro ⟨rest, rfl, hscan⟩
    exact (reject_iff fun _ s' _ => parser_live s').mp hscan
  · rintro ⟨hnone, hshort⟩
    obtain ⟨rest, rfl⟩ := hshort.1
    exact ⟨rest, rfl, (reject_iff fun _ s' _ => parser_live s').mpr ⟨hnone, hshort⟩⟩

theorem endsAfter_indeterminate_iff (s p : Bytes) : EndsAfter .indeterminate s p ↔
    p = s ∧ ∃ w ∈ requestHeads, s <+: w ∧ s ≠ w := by
  rw [endsAfter_iff, ← words_parserStep]
  constructor
  · rintro ⟨rest, rfl, s', hscan⟩
    have hmore : (scan parserStep (.methodStart, {}) (p ++ rest)).verdict = .more := by
      rw [hscan]
      rfl
    have hrest := scan_more_rest hmore
    rw [hscan] at hrest
    obtain rfl : rest = [] := hrest
    exact ⟨(List.append_nil p).symm, (more_iff fun _ s' _ => parser_live s').mp hmore⟩
  · rintro ⟨rfl, hword⟩
    have hmore := (more_iff fun _ s' _ => parser_live s').mpr hword
    refine ⟨[], (List.append_nil p).symm, (scan parserStep (.methodStart, {}) p).state, ?_⟩
    rw [List.append_nil]
    exact scan_eq_of_more hmore

theorem parse_req_of_head (s : Bytes) {head : RequestHead} (h : head.render <+: s) :
    (parse .methodStart {} s).req = head.request := by
  obtain ⟨rest, rfl⟩ := h
  have hscan := scan_append_of_eq (scan_head head) (by decide) rest
  have hparse : parse .methodStart {} (head.render ++ rest) = ⟨.good, rest, _, head.request⟩ :=
    parse_eq_iff.mpr hscan
  rw [hparse]

/-- `parse` accepts exactly the request heads, at their last byte, and fills the request with what
they mean; it rejects an input that no request head begins at the first byte that rules every
request head out; it asks for more exactly on the proper prefixes of request heads. -/
theorem parse_decides_requestHeads (s : Bytes) :
    (∀ p, EndsAfter .good s p ↔ p <+: s ∧ p ∈ requestHeads) ∧
    (∀ p, EndsAfter .bad s p ↔
      (∀ q, q <+: s → q ∉ requestHeads) ∧ ShortestDead requestHeads s p) ∧
    (∀ p, EndsAfter .indeterminate s p ↔ p = s ∧ ∃ w ∈ requestHeads, s <+: w ∧ s ≠ w) ∧
    (∀ head : RequestHead, head.render <+: s →
      (parse .methodStart {} s).req = head.request) :=
  ⟨endsAfter_good_iff s, endsAfter_bad_iff s, endsAfter_indeterminate_iff s,
    fun _ => parse_req_of_head s⟩

/-- A request head with one byte behind it: the whole of it is the shortest prefix that no request
head extends, but `parse` has accepted one byte earlier. -/
theorem shortestDead_not_bad :
    ShortestDead requestHeads (ascii "G  HTTP/1.0\r\n\r\nX") (ascii "G  HTTP/1.0\r\n\r\nX") ∧
      ¬ EndsAfter .bad (ascii "G  HTTP/1.0\r\n\r\nX") (ascii "G  HTTP/1.0\r\n\r\nX") := by
  have hword : ascii "G  HTTP/1.0\r\n\r\n" ∈ words parserStep (.methodStart, {}) := ⟨_, rfl⟩
  have hs : ascii "G  HTTP/1.0\r\n\r\nX" = ascii "G  HTTP/1.0\r\n\r\n" ++ [chr 'X'] := rfl
  constructor
  · rw [hs, ← words_parserStep]
    refine ⟨List.prefix_rfl, dead_of_word_append hword (by simp), fun q hq hdead => ?_⟩
    rcases List.prefix_concat_iff.mp hq with heq | hprefix
    · rw [heq]
    · exact absurd hprefix (hdead _ hword)
  · rintro ⟨rest, state_, req, -, hparse⟩
    have hgood : (parse .methodStart {} (ascii "G  HTTP/1.0\r\n\r\nX")).result = .good := rfl
    rw [hparse] at hgood
    cases hgood

end AsioTest.Http
