import AsioTest.HttpRequestHandler

/-!
Which file `handle_request` opens. The decoded path is checked before `index.html` is appended,
before it is put behind `doc_root` and before the C string is cut at the first NUL byte; none of
the three can bring two dots together again.
-/

namespace AsioTest.Http

open ByteStrings

/-- The C string a uri is opened with, once its path is accepted. -/
def openedPath (docRoot uri : Bytes) : Bytes := cString (docRoot ++ addIndex (urlDecode uri).2)

/-- The uri is answered without looking for a file. -/
def Rejected (uri : Bytes) : Prop :=
  (urlDecode uri).1 = false ∨ unsafePath (urlDecode uri).2 = true

instance (uri : Bytes) : Decidable (Rejected uri) := inferInstanceAs (Decidable (_ ∨ _))

section Cases

variable {fs : FileSystem} {docRoot : Bytes} {req : Request} {rep : Reply}

theorem handleRequest_rejected (h : Rejected req.uri) :
    handleRequest fs docRoot req rep = ⟨stockReply .badRequest, []⟩ := by
  rw [handleRequest]
  rcases h with h | h
  · simp [h]
  · simp [h]

theorem handleRequest_missing (h : ¬ Rejected req.uri)
    (hfile : fs (openedPath docRoot req.uri) = none) :
    handleRequest fs docRoot req rep =
      ⟨stockReply .notFound, [openedPath docRoot req.uri]⟩ := by
  rw [Rejected, not_or, Bool.not_eq_false, Bool.not_eq_true] at h
  rw [openedPath] at hfile
  simp [handleRequest, openedPath, h.1, h.2, hfile]

theorem handleRequest_served (h : ¬ Rejected req.uri) {file : Bytes}
    (hfile : fs (openedPath docRoot req.uri) = some file) :
    handleRequest fs docRoot req rep =
      ⟨serveFile file (extensionOf (addIndex (urlDecode req.uri).2)) rep,
        [openedPath docRoot req.uri]⟩ := by
  rw [Rejected, not_or, Bool.not_eq_false, Bool.not_eq_true] at h
  rw [openedPath] at hfile
  simp [handleRequest, openedPath, h.1, h.2, hfile]

/-- What is opened at all is the accepted path. -/
theorem opened_eq {path : Bytes} (h : path ∈ (handleRequest fs docRoot req rep).opened) :
    ¬ Rejected req.uri ∧ path = openedPath docRoot req.uri := by
  by_cases hrej : Rejected req.uri
  · rw [handleRequest_rejected hrej] at h
    cases h
  refine ⟨hrej, ?_⟩
  cases hfile : fs (openedPath docRoot req.uri) with
  | none =>
      rw [handleRequest_missing hrej hfile] at h
      exact List.mem_singleton.mp h
  | some file =>
      rw [handleRequest_served hrej hfile] at h
      exact List.mem_singleton.mp h

end Cases

theorem unsafePath_eq_false {path : Bytes} (h : unsafePath path = false) :
    path.head? = some (chr '/') ∧ ¬ [chr '.', chr '.'] <:+: path := by
  simp only [unsafePath, Bool.or_eq_false_iff, decide_eq_false_iff_not, not_not] at h
  refine ⟨h.1.2, fun hdots => ?_⟩
  have hfind : (find (ascii "..") path).isSome = true := (find_isSome _ _).mpr hdots
  rw [h.2] at hfind
  cases hfind

/-- Two equal bytes side by side in a concatenation are side by side in one of its parts, unless
they meet at the join. -/
theorem pair_infix_append {c : Byte} {xs ys : Bytes} (h : [c, c] <:+: xs ++ ys)
    (hys : ys.head? ≠ some c) : [c, c] <:+: xs ∨ [c, c] <:+: ys := by
  rcases List.infix_append_iff.mp h with hx | hy | ⟨l, r, hlr, hl, hr⟩
  · exact Or.inl hx
  · exact Or.inr hy
  · cases r with
    | nil =>
        rw [List.append_nil] at hlr
        exact Or.inl (hlr ▸ hl.isInfix)
    | cons d r =>
        have hd : d = c := by
          have hmem : d ∈ [c, c] := by
            rw [hlr]
            simp
          simpa using hmem
        obtain ⟨t, rfl⟩ := hr
        exact absurd (by simp [hd]) hys

theorem addIndex_no_dotdot {path : Bytes} (h : ¬ [chr '.', chr '.'] <:+: path) :
    ¬ [chr '.', chr '.'] <:+: addIndex path := by
  rw [addIndex]
  split_ifs
  · intro hpair
    rcases pair_infix_append hpair (by decide) with hpath | hindex
    · exact h hpath
    · exact absurd hindex (by decide)
  · exact h

theorem addIndex_head {path : Bytes} {b : Byte} (h : path.head? = some b) :
    (addIndex path).head? = some b := by
  rw [addIndex]
  split_ifs
  · rw [List.head?_append, h]
    rfl
  · exact h

theorem cString_head {s : Bytes} {b : Byte} (h : s.head? = some b) (hb : b ≠ 0) :
    (cString s).head? = some b := by
  cases s with
  | nil => cases h
  | cons a s =>
      cases h
      simp [cString, hb]

/-- The opened path is `docRoot` and a remainder that begins with a slash and has no parent
segment, so that resolving it never leaves `docRoot`; a uri that cannot be decoded, or whose
decoded path is empty, is relative or contains two dots, is answered with a bad request and
nothing is opened. -/
theorem handleRequest_below_docRoot (fs : FileSystem) (docRoot : Bytes) (req : Request)
    (rep : Reply) (hroot : (0 : Byte) ∉ docRoot) :
    (∀ path ∈ (handleRequest fs docRoot req rep).opened, ∃ remainder,
      path = docRoot ++ remainder ∧ remainder.head? = some (chr '/') ∧
        (∀ seg ∈ segments remainder, seg ≠ [chr '.', chr '.']) ∧
        (resolve [] (segments remainder)).isSome) ∧
    ((urlDecode req.uri).1 = false ∨ (urlDecode req.uri).2 = [] ∨
        (urlDecode req.uri).2.head? ≠ some (chr '/') ∨
        [chr '.', chr '.'] <:+: (urlDecode req.uri).2 →
      handleRequest fs docRoot req rep = ⟨stockReply .badRequest, []⟩) := by
  constructor
  · intro path hpath
    obtain ⟨haccepted, rfl⟩ := opened_eq hpath
    rw [Rejected, not_or, Bool.not_eq_true] at haccepted
    obtain ⟨hhead, hdots⟩ := unsafePath_eq_false haccepted.2
    refine ⟨cString (addIndex (urlDecode req.uri).2), cString_append hroot,
      cString_head (addIndex_head hhead) (by decide), ?_, ?_⟩
    all_goals
      have hremainder : ¬ [chr '.', chr '.'] <:+: cString (addIndex (urlDecode req.uri).2) :=
        fun hpair => addIndex_no_dotdot hdots (hpair.trans (cString_isPrefix _).isInfix)
    · exact segment_ne_dotdot hremainder
    · exact resolve_isSome (segment_ne_dotdot hremainder) []
  · intro h
    apply handleRequest_rejected
    rcases h with hdecode | hempty | hrelative | hdots
    · exact Or.inl hdecode
    · right
      rw [hempty]
      rfl
    · right
      simp [unsafePath, hrelative]
    · right
      have hfind : (find (ascii "..") (urlDecode req.uri).2).isSome = true :=
        (find_isSome _ _).mpr hdots
      simp [unsafePath, hfind]

/-- `GET /%2e/%00..`: the decoded path has no `..` segment and the C string ends before its NUL. -/
theorem handleRequest_below_docRoot_escaped :
    ascii "/srv/./" ∈ (handleRequest (fun _ => none) (ascii "/srv")
        { uri := ascii "/%2e/%00.x" } {}).opened ∧
      ∃ remainder, ascii "/srv/./" = ascii "/srv" ++ remainder ∧
        remainder.head? = some (chr '/') ∧
        (∀ seg ∈ segments remainder, seg ≠ [chr '.', chr '.']) ∧
        (resolve [] (segments remainder)).isSome :=
  have hopened : ascii "/srv/./" ∈ (handleRequest (fun _ => none) (ascii "/srv")
      { uri := ascii "/%2e/%00.x" } {}).opened := by decide
  ⟨hopened, (handleRequest_below_docRoot (fun _ => none) (ascii "/srv")
    { uri := ascii "/%2e/%00.x" } {} (by decide)).1 _ hopened⟩

end AsioTest.Http
