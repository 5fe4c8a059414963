import AsioTest.HttpParserGrammar

/-!
Folding a header value at a space. The parser reads the folded text through `header_lws`, which
drops the blanks of the fold, so that the two words around the space are joined: the request is
still accepted, and differs from the unfolded one in that space alone.
-/

namespace AsioTest.Http

open ByteStrings IncrementalScan

/-- The second list is the first without one space of one value. -/
def LosesSpace (headers headers' : List Header) : Prop :=
  ∃ init name u w tail, headers = init ++ ⟨name, u ++ chr ' ' :: w⟩ :: tail ∧
    headers' = init ++ ⟨name, u ++ w⟩ :: tail

theorem LosesSpace.ne {headers headers' : List Header} (h : LosesSpace headers headers') :
    headers' ≠ headers := by
  obtain ⟨init, name, u, w, tail, rfl, rfl⟩ := h
  intro heq
  have hhead := (List.cons.inj (List.append_cancel_left heq)).1
  have hlength : (u ++ w).length = (u ++ chr ' ' :: w).length := by
    rw [(Header.mk.inj hhead).2]
  rw [List.length_append, List.length_append, List.length_cons] at hlength
  omega

theorem LosesSpace.isEmpty {headers headers' : List Header} (h : LosesSpace headers headers') :
    headers'.isEmpty = headers.isEmpty := by
  obtain ⟨init, name, u, w, tail, rfl, rfl⟩ := h
  cases init <;> rfl

theorem LosesSpace.append {headers headers' : List Header} (h : LosesSpace headers headers')
    (new : List Header) : LosesSpace (headers ++ new) (headers' ++ new) := by
  obtain ⟨init, name, u, w, tail, rfl, rfl⟩ := h
  exact ⟨init, name, u, w, tail ++ new, by simp, by simp⟩

/-- A change of the last header that leaves the space and what stands before it in place. -/
theorem LosesSpace.modifyLast {headers headers' : List Header} (h : LosesSpace headers headers')
    {f : Header → Header} (hf : ∀ name u w, ∃ name' w',
      f ⟨name, u ++ chr ' ' :: w⟩ = ⟨name', u ++ chr ' ' :: w'⟩ ∧
        f ⟨name, u ++ w⟩ = ⟨name', u ++ w'⟩) :
    LosesSpace (headers.modifyLast f) (headers'.modifyLast f) := by
  obtain ⟨init, name, u, w, tail, rfl, rfl⟩ := h
  by_cases hnil : tail = []
  · subst hnil
    obtain ⟨name', w', hfirst, hsecond⟩ := hf name u w
    rw [List.modifyLast_concat, List.modifyLast_concat, hfirst, hsecond]
    exact ⟨init, name', u, w', [], rfl, rfl⟩
  · -- the last header stands behind the one that differs
    have hpush : ∀ first, (init ++ first :: tail).modifyLast f =
        init ++ first :: tail.modifyLast f := by
      intro first
      rw [List.append_cons, List.modifyLast_append_of_right_ne_nil _ _ _ hnil, ← List.append_cons]
    rw [hpush, hpush]
    exact ⟨init, name, u, w, tail.modifyLast f, rfl, rfl⟩

theorem LosesSpace.pushName {headers headers' : List Header} (h : LosesSpace headers headers')
    (b : Byte) : LosesSpace (pushName headers b) (pushName headers' b) :=
  h.modifyLast fun name _ w => ⟨name ++ [b], w, rfl, rfl⟩

theorem LosesSpace.pushValue {headers headers' : List Header} (h : LosesSpace headers headers')
    (b : Byte) : LosesSpace (pushValue headers b) (pushValue headers' b) :=
  h.modifyLast fun name u w => ⟨name, w ++ [b], by simp, by simp⟩

/-- Two runs that differ in the header lists alone, and there in one space. -/
def OneSpaceLess (s s' : ParserState × Request) : Prop :=
  ∃ headers', LosesSpace s.2.headers headers' ∧ s' = (s.1, { s.2 with headers := headers' })

/-- A byte does to both the same: `consume` tests the header list for being empty only. -/
theorem parserStep_oneSpaceLess (s s' : ParserState × Request) (b : Byte)
    (h : OneSpaceLess s s') : (parserStep s b).1 = (parserStep s' b).1 ∧
      OneSpaceLess (parserStep s b).2 (parserStep s' b).2 := by
  obtain ⟨state_, req⟩ := s
  obtain ⟨headers', hloses, rfl⟩ := h
  cases state_ with
  | headerLineStart =>
      simp only [parserStep, consume, hloses.isEmpty]
      split_ifs
      · exact ⟨rfl, headers', hloses, rfl⟩
      · exact ⟨rfl, headers', hloses, rfl⟩
      · exact ⟨rfl, headers', hloses, rfl⟩
      · exact ⟨rfl, _, (hloses.append [{}]).pushName b, rfl⟩
  | headerLws =>
      simp only [parserStep, consume]
      split_ifs
      · exact ⟨rfl, headers', hloses, rfl⟩
      · exact ⟨rfl, headers', hloses, rfl⟩
      · exact ⟨rfl, headers', hloses, rfl⟩
      · exact ⟨rfl, _, hloses.pushValue b, rfl⟩
  | headerName =>
      simp only [parserStep, consume]
      split_ifs
      · exact ⟨rfl, headers', hloses, rfl⟩
      · exact ⟨rfl, headers', hloses, rfl⟩
      · exact ⟨rfl, _, hloses.pushName b, rfl⟩
  | headerValue =>
      simp only [parserStep, consume]
      split_ifs
      · exact ⟨rfl, headers', hloses, rfl⟩
      · exact ⟨rfl, headers', hloses, rfl⟩
      · exact ⟨rfl, _, hloses.pushValue b, rfl⟩
  | _ =>
      -- the other states leave the header list alone
      simp only [parserStep, consume, expect]
      split_ifs <;> exact ⟨rfl, headers', hloses, rfl⟩

theorem parse_oneSpaceLess (state_ : ParserState) (req : Request) {headers' : List Header}
    (h : LosesSpace req.headers headers') (s : Bytes) :
    (parse state_ { req with headers := headers' } s).result = (parse state_ req s).result ∧
      ∃ final, LosesSpace (parse state_ req s).req.headers final ∧
        (parse state_ { req with headers := headers' } s).req =
          { (parse state_ req s).req with headers := final } := by
  obtain ⟨hverdict, -, final, hloses, hstate⟩ := scan_related parserStep_oneSpaceLess
    (s := (state_, req)) (t := (state_, { req with headers := headers' })) ⟨headers', h, rfl⟩ s
  rw [parse_eq_scan, parse_eq_scan state_ req]
  refine ⟨congrArg ResultType.ofVerdict hverdict, final, hloses, ?_⟩
  rw [hstate]

/-! ### The two ways past the space -/

/-- `s` ends inside a header value. -/
def InHeaderValue (s : Bytes) : Prop :=
  (parse .methodStart {} s).result = .indeterminate ∧
    (parse .methodStart {} s).state_ = .headerValue

/-- A byte that is neither a control character nor blank. -/
def WordByte (b : Byte) : Prop := ¬ Ctl b ∧ ¬ Blank b

instance (s : Bytes) : Decidable (InHeaderValue s) := inferInstanceAs (Decidable (_ ∧ _))
instance (b : Byte) : Decidable (WordByte b) := inferInstanceAs (Decidable (_ ∧ _))

theorem InHeaderValue.headers_ne {s : Bytes} (h : InHeaderValue s) :
    (parse .methodStart {} s).req.headers ≠ [] := by
  obtain ⟨hresult, hstate⟩ := h
  have hscan := parse_eq_iff.mp (rfl : parse .methodStart {} s = ⟨_, _, _, _⟩)
  rw [hresult, hstate, parse_indeterminate_rest hresult] at hscan
  have hpos := position_of_scan hscan
  generalize (parse .methodStart {} s).req = req at hpos ⊢
  cases hpos with
  | headerValue r h hl hstart hopen =>
      exact HeaderLine.apply_ne_nil fun hnil => hstart (h.headers_eq_nil_iff.mp hnil)

/-- The blanks of a fold leave no trace: the word behind them is appended to the value. -/
theorem parse_fold {req : Request} (hheaders : req.headers ≠ []) {blanks : Bytes}
    (hne : blanks ≠ []) (hblanks : ∀ b ∈ blanks, Blank b) {y : Byte} (hy : WordByte y)
    (after : Bytes) : parse .headerValue req (crlf ++ blanks ++ y :: after) =
      parse .headerValue { req with headers := pushValue req.headers y } after := by
  have hsp : y ≠ chr ' ' := fun hsp => hy.2 (Or.inl hsp)
  rw [parse_eq_scan, List.append_assoc, scan_line_end, scan_blanks hne hblanks hheaders,
    scan_cons_more (parserStep_lws req hy.1 hsp), ← parse_eq_scan]

/-- Unfolded, the space is a byte of the value like the word behind it. -/
theorem parse_space {req : Request} {y : Byte} (hy : WordByte y) (after : Bytes) :
    parse .headerValue req (chr ' ' :: y :: after) = parse .headerValue { req with
      headers := pushValue (pushValue req.headers (chr ' ')) y } after := by
  have hsp : Vchar (chr ' ') := by decide
  rw [parse_eq_scan, scan_cons_more (parserStep_value req hsp),
    scan_cons_more (parserStep_value _ hy.1), ← parse_eq_scan]

theorem losesSpace_pushValue {headers : List Header} (hne : headers ≠ []) (y : Byte) :
    LosesSpace (pushValue (pushValue headers (chr ' ')) y) (pushValue headers y) := by
  rcases List.eq_nil_or_concat headers with hnil | ⟨init, last, rfl⟩
  · exact absurd hnil hne
  · refine ⟨init, last.name, last.value, [y], [], ?_, ?_⟩
    · simp [pushValue, List.modifyLast_concat]
    · simp [pushValue, List.modifyLast_concat]

/-! ### Folding a request -/

/-- The folded text is accepted and yields the same request. -/
def ReadsAlike (original folded : Bytes) : Prop :=
  (parse .methodStart {} folded).result = .good ∧
    (parse .methodStart {} folded).req = (parse .methodStart {} original).req

instance (original folded : Bytes) : Decidable (ReadsAlike original folded) :=
  inferInstanceAs (Decidable (_ ∧ _))

/-- Folding an accepted request at a space of a header value with a word behind it never keeps the
request, whatever stands before the space: the folded text is accepted with the same method, uri
and version, but its header list has lost the space. -/
theorem fold_loses_space {before after blanks : Bytes} {y : Byte}
    (hgood : (parse .methodStart {} (before ++ chr ' ' :: y :: after)).result = .good)
    (hvalue : InHeaderValue before) (hy : WordByte y)
    (hne : blanks ≠ []) (hblanks : ∀ b ∈ blanks, Blank b) :
    ¬ ReadsAlike (before ++ chr ' ' :: y :: after) (before ++ (crlf ++ blanks ++ y :: after)) ∧
      (parse .methodStart {} (before ++ (crlf ++ blanks ++ y :: after))).result = .good ∧
      ∃ headers',
        LosesSpace (parse .methodStart {} (before ++ chr ' ' :: y :: after)).req.headers
          headers' ∧
        (parse .methodStart {} (before ++ (crlf ++ blanks ++ y :: after))).req =
          { (parse .methodStart {} (before ++ chr ' ' :: y :: after)).req with
            headers := headers' } := by
  have hheaders := hvalue.headers_ne
  obtain ⟨hresult, hstate⟩ := hvalue
  rw [ReadsAlike, parse_append_indeterminate hresult, parse_append_indeterminate hresult, hstate,
    parse_space hy, parse_fold hheaders hne hblanks hy]
  rw [parse_append_indeterminate hresult, hstate, parse_space hy] at hgood
  have hloses := losesSpace_pushValue hheaders y
  generalize (parse .methodStart {} before).req = req at hloses hgood ⊢
  obtain ⟨haccepted, headers', hfinal, hreq⟩ := parse_oneSpaceLess .headerValue
    { req with headers := pushValue (pushValue req.headers (chr ' ')) y } hloses after
  refine ⟨?_, haccepted.trans hgood, headers', hfinal, hreq⟩
  rintro ⟨-, hsame⟩
  exact hfinal.ne (congrArg Request.headers (hreq.symm.trans hsame))

theorem fold_loses_space_tab :
    ¬ ReadsAlike (ascii "G / HTTP/1.0\r\nA: x" ++ chr ' ' :: chr 'y' :: ascii "z\r\nB: t\r\n\r\n")
      (ascii "G / HTTP/1.0\r\nA: x" ++
        (crlf ++ ascii "\t " ++ chr 'y' :: ascii "z\r\nB: t\r\n\r\n")) :=
  (fold_loses_space rfl (by decide +kernel) (by decide) (by decide) (by decide +kernel)).1

/-- The words of `x y` are joined by the fold. -/
theorem folded_words_joined :
    (parse .methodStart {} (ascii "G / HTTP/1.0\r\nA: x y\r\n\r\n")).result = .good ∧
      InHeaderValue (ascii "G / HTTP/1.0\r\nA: x") ∧
      ¬ ReadsAlike (ascii "G / HTTP/1.0\r\nA: x y\r\n\r\n")
        (ascii "G / HTTP/1.0\r\nA: x\r\n y\r\n\r\n") := by
  decide +kernel

end AsioTest.Http
