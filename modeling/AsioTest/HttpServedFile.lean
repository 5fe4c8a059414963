import AsioTest.HttpHandlerPaths

/-!
What a request that is answered with a file gets: the content is the file, block by block, and the
content type is that of the path as it was decoded, while the file is opened by a C string, which
may end before the path does.
-/

namespace AsioTest.Http

open ByteStrings

/-! ### The content -/

/-- A stream that has failed has nothing left. -/
def FileStream.Sound (is : FileStream) : Prop := is.fail = true → is.unread = []

theorem FileStream.Sound.read {is : FileStream} (h : is.Sound) (n : Nat) :
    (is.read n).1.Sound ∧ (is.read n).2 ++ (is.read n).1.unread = is.unread := by
  rw [FileStream.read]
  split_ifs with hfail
  · exact ⟨h, rfl⟩
  · refine ⟨fun hshort => ?_, List.take_append_drop n is.unread⟩
    have hlt : is.unread.length < n := of_decide_eq_true hshort
    exact List.drop_eq_nil_of_le (Nat.le_of_lt hlt)

/-- A read that stores nothing has found nothing. -/
theorem FileStream.Sound.read_nil {is : FileStream} (h : is.Sound) {n : Nat} (hn : n ≠ 0)
    (hnone : (is.read n).2 = []) : is.unread = [] := by
  rw [FileStream.read] at hnone
  split_ifs at hnone with hfail
  · exact h hfail
  · exact (List.take_eq_nil_iff.mp hnone).resolve_left hn

/-- What has been appended and what is unread are always the same bytes. -/
theorem readLoop_eq {is : FileStream} (h : is.Sound) (content : Bytes) :
    readLoop is content = content ++ is.unread := by
  fun_induction readLoop is content with
  | case1 is content hnone => rw [h.read_nil (by decide) hnone, List.append_nil]
  | case2 is content hsome ih => rw [ih (h.read 512).1, List.append_assoc, (h.read 512).2]

theorem readLoop_file (file content : Bytes) :
    readLoop { unread := file } content = content ++ file :=
  readLoop_eq (fun hfail => by cases hfail) content

/-! ### The extension -/

/-- What stands behind the last dot of the last component of a path. -/
def fileExtension (path : Bytes) : Bytes :=
  (afterLast (chr '.') ((afterLast (chr '/') path).getD path)).getD []

/-- An absolute path has the extension that its last component has. -/
theorem extensionOf_eq {path : Bytes} (h : chr '/' ∈ path) :
    extensionOf path = fileExtension path := by
  obtain ⟨dir, name, rfl, hname⟩ := exists_last h
  rw [extensionOf, findLastOf_append hname, fileExtension, afterLast_append hname, Option.getD_some]
  by_cases hdot : chr '.' ∈ name
  · obtain ⟨stem, ext, rfl, hext⟩ := exists_last hdot
    have hsplit : dir ++ chr '/' :: (stem ++ chr '.' :: ext) =
        (dir ++ chr '/' :: stem) ++ chr '.' :: ext := by simp
    have hbehind : dir.length < (dir ++ chr '/' :: stem).length := by
      rw [List.length_append, List.length_cons]
      omega
    rw [hsplit, findLastOf_append hext, afterLast_append hext]
    refine (if_pos hbehind).trans ?_
    rw [List.append_cons (dir ++ chr '/' :: stem)]
    exact List.drop_left' List.length_append
  · -- the last dot, if any, stands in the directories
    rw [afterLast_of_notMem hdot]
    by_cases hdir : chr '.' ∈ dir
    · obtain ⟨first, last, rfl, hlast⟩ := exists_last hdir
      have hsplit : first ++ chr '.' :: last ++ chr '/' :: name =
          first ++ chr '.' :: (last ++ chr '/' :: name) := by simp
      have hnone : chr '.' ∉ last ++ chr '/' :: name := by
        simp only [List.mem_append, List.mem_cons, not_or]
        exact ⟨hlast, by decide, hdot⟩
      have hbefore : ¬ (first ++ chr '.' :: last).length < first.length := by
        rw [List.length_append]
        omega
      rw [hsplit, findLastOf_append hnone]
      exact if_neg hbefore
    · have hnone : chr '.' ∉ dir ++ chr '/' :: name := by
        simp only [List.mem_append, List.mem_cons, not_or]
        exact ⟨hdir, by decide, hdot⟩
      rw [findLastOf_of_notMem hnone]
      rfl

/-- A path has an extension without dots and slashes when it ends with it and the dot before. -/
theorem fileExtension_eq_iff {path ext : Bytes} (hne : ext ≠ []) (hdot : chr '.' ∉ ext)
    (hslash : chr '/' ∉ ext) : fileExtension path = ext ↔ chr '.' :: ext <:+ path := by
  constructor
  · intro h
    have hname : (afterLast (chr '/') path).getD path <:+ path := by
      by_cases hmem : chr '/' ∈ path
      · obtain ⟨dir, name, rfl, hname⟩ := exists_last hmem
        rw [afterLast_append hname, Option.getD_some, List.append_cons]
        exact List.suffix_append _ name
      · rw [afterLast_of_notMem hmem, Option.getD_none]
    rw [fileExtension] at h
    by_cases hmem : chr '.' ∈ (afterLast (chr '/') path).getD path
    · obtain ⟨stem, ext', heq, hext'⟩ := exists_last hmem
      rw [heq, afterLast_append hext', Option.getD_some] at h
      rw [heq, h] at hname
      exact (List.suffix_append stem _).trans hname
    · rw [afterLast_of_notMem hmem, Option.getD_none] at h
      exact absurd h.symm hne
  · rintro ⟨stem, rfl⟩
    rw [fileExtension]
    by_cases hmem : chr '/' ∈ stem
    · obtain ⟨dir, name, rfl, hname⟩ := exists_last hmem
      have hsplit : dir ++ chr '/' :: name ++ chr '.' :: ext =
          dir ++ chr '/' :: (name ++ chr '.' :: ext) := by simp
      have hbehind : chr '/' ∉ name ++ chr '.' :: ext := by
        simp only [List.mem_append, List.mem_cons, not_or]
        exact ⟨hname, by decide, hslash⟩
      rw [hsplit, afterLast_append hbehind, Option.getD_some, afterLast_append hdot]
      rfl
    · have hnone : chr '/' ∉ stem ++ chr '.' :: ext := by
        simp only [List.mem_append, List.mem_cons, not_or]
        exact ⟨hmem, by decide, hslash⟩
      rw [afterLast_of_notMem hnone, Option.getD_none, afterLast_append hdot]
      rfl

/-- The path ends in a dot and an extension of this type. -/
def EndsAs (path type : Bytes) : Prop :=
  ∃ m ∈ MimeTypes.mappings, m.2 = type ∧ chr '.' :: m.1 <:+ path

/-- Both paths end in a dot and an extension of the same type, or neither ends in one that has a
type. -/
def SameEnding (path other : Bytes) : Prop :=
  ∀ m ∈ MimeTypes.mappings, EndsAs path m.2 ↔ EndsAs other m.2

instance (path type : Bytes) : Decidable (EndsAs path type) :=
  inferInstanceAs (Decidable (∃ m ∈ MimeTypes.mappings, _))

instance (path other : Bytes) : Decidable (SameEnding path other) :=
  inferInstanceAs (Decidable (∀ m ∈ MimeTypes.mappings, _))

/-- The extensions of the table are words without dots and slashes, each with one type. -/
theorem mappings_wellFormed : ∀ m ∈ MimeTypes.mappings, m.1 ≠ [] ∧ chr '.' ∉ m.1 ∧ chr '/' ∉ m.1 ∧
    MimeTypes.extensionToType m.1 = m.2 ∧ m.2 ≠ ascii "text/plain" := by
  decide

theorem extensionToType_cases (ext : Bytes) :
    (ext, MimeTypes.extensionToType ext) ∈ MimeTypes.mappings ∨
      (MimeTypes.extensionToType ext = ascii "text/plain" ∧
        ∀ m ∈ MimeTypes.mappings, m.1 ≠ ext) := by
  cases hfind : MimeTypes.mappings.find? fun m => m.1 = ext with
  | some m =>
      obtain ⟨e, type⟩ := m
      have hfound := List.find?_some hfind
      have he : e = ext := of_decide_eq_true hfound
      left
      rw [MimeTypes.extensionToType, hfind, ← he]
      exact List.mem_of_find?_eq_some hfind
  | none =>
      right
      rw [MimeTypes.extensionToType, hfind]
      exact ⟨rfl, fun m hm heq => List.find?_eq_none.mp hfind m hm (decide_eq_true heq)⟩

/-- A path ends as a type of the table exactly when its extension has that type. -/
theorem endsAs_iff {path type : Bytes} (htype : type ≠ ascii "text/plain") :
    EndsAs path type ↔ MimeTypes.extensionToType (fileExtension path) = type := by
  constructor
  · rintro ⟨m, hm, rfl, hsuffix⟩
    obtain ⟨hne, hdot, hslash, hvalue, -⟩ := mappings_wellFormed m hm
    rw [(fileExtension_eq_iff hne hdot hslash).mpr hsuffix, hvalue]
  · rintro rfl
    rcases extensionToType_cases (fileExtension path) with hmem | ⟨hplain, -⟩
    · obtain ⟨hne, hdot, hslash, -⟩ := mappings_wellFormed _ hmem
      exact ⟨_, hmem, rfl, (fileExtension_eq_iff hne hdot hslash).mp rfl⟩
    · exact absurd hplain htype

theorem sameEnding_iff {path other : Bytes} : SameEnding path other ↔
    MimeTypes.extensionToType (fileExtension path) =
      MimeTypes.extensionToType (fileExtension other) := by
  constructor
  · intro hsame
    have hmapped : ∀ {p q : Bytes}, SameEnding p q →
        (fileExtension p, MimeTypes.extensionToType (fileExtension p)) ∈ MimeTypes.mappings →
        MimeTypes.extensionToType (fileExtension p) =
          MimeTypes.extensionToType (fileExtension q) := by
      intro p q hpq hmem
      obtain ⟨-, -, -, -, hplain⟩ := mappings_wellFormed _ hmem
      exact ((endsAs_iff hplain).mp ((hpq _ hmem).mp ((endsAs_iff hplain).mpr rfl))).symm
    rcases extensionToType_cases (fileExtension path) with hmem | ⟨hplain, -⟩
    · exact hmapped hsame hmem
    · rcases extensionToType_cases (fileExtension other) with hmem' | ⟨hplain', -⟩
      · exact (hmapped (fun m hm => (hsame m hm).symm) hmem').symm
      · rw [hplain, hplain']
  · intro heq m hm
    obtain ⟨-, -, -, -, hplain⟩ := mappings_wellFormed m hm
    rw [endsAs_iff hplain, endsAs_iff hplain, heq]

/-! ### The reply -/

/-- The content type that a reply names. -/
def Reply.contentType (rep : Reply) : Option Bytes :=
  (rep.headers.find? fun h => h.name = ascii "Content-type").map Header.value

/-- The content type is that of the path that was opened. -/
def TypeOfOpened (r : Handled) : Prop :=
  ∃ path, r.opened = [path] ∧
    r.rep.contentType = some (MimeTypes.extensionToType (fileExtension path))

/-- A document root with one page. -/
def onePage : FileSystem := fun path =>
  if path = ascii "/srv/a.html" then some (List.replicate 600 (chr 'x')) else none

section Served

variable {fs : FileSystem} {docRoot : Bytes} {req : Request} {rep : Reply}

/-- A request that is answered with `ok` is answered with the file it opened. -/
theorem served_of_ok (h : (handleRequest fs docRoot req rep).rep.status = some .ok) :
    ¬ Rejected req.uri ∧ ∃ file, fs (openedPath docRoot req.uri) = some file ∧
      handleRequest fs docRoot req rep =
        ⟨serveFile file (extensionOf (addIndex (urlDecode req.uri).2)) rep,
          [openedPath docRoot req.uri]⟩ := by
  by_cases hrejected : Rejected req.uri
  · rw [handleRequest_rejected hrejected] at h
    cases h
  · cases hfile : fs (openedPath docRoot req.uri) with
    | none =>
        rw [handleRequest_missing hrejected hfile] at h
        cases h
    | some file => exact ⟨hrejected, file, rfl, handleRequest_served hrejected hfile⟩

/-- Without a NUL byte the file that is opened is the one that was asked for. -/
theorem sameEnding_of_notMem {path : Bytes} (hslash : chr '/' ∈ path) (hroot : (0 : Byte) ∉ docRoot)
    (hpath : (0 : Byte) ∉ path) : SameEnding path (cString (docRoot ++ path)) := by
  obtain ⟨dir, name, rfl, hname⟩ := exists_last hslash
  have hext : fileExtension (docRoot ++ (dir ++ chr '/' :: name)) =
      fileExtension (dir ++ chr '/' :: name) := by
    rw [fileExtension, fileExtension, ← List.append_assoc, afterLast_append hname,
      afterLast_append hname]
    rfl
  rw [cString_append hroot, cString_of_notMem hpath, sameEnding_iff, hext]

/-- A request that is answered with a file names the type of the path that was opened if and only
if the decoded path and the C string that is opened end in the same way. -/
theorem contentType_iff (h : (handleRequest fs docRoot req rep).rep.status = some .ok) :
    TypeOfOpened (handleRequest fs docRoot req rep) ↔
      SameEnding (addIndex (urlDecode req.uri).2) (openedPath docRoot req.uri) := by
  obtain ⟨haccepted, file, -, heq⟩ := served_of_ok h
  rw [Rejected, not_or, Bool.not_eq_true] at haccepted
  have hslash : chr '/' ∈ addIndex (urlDecode req.uri).2 :=
    List.mem_of_head? (addIndex_head (unsafePath_eq_false haccepted.2).1)
  have htype : (serveFile file (extensionOf (addIndex (urlDecode req.uri).2)) rep).contentType =
      some (MimeTypes.extensionToType (fileExtension (addIndex (urlDecode req.uri).2))) := by
    rw [← extensionOf_eq hslash]
    rfl
  rw [heq, TypeOfOpened, sameEnding_iff]
  constructor
  · rintro ⟨path, hpath, hnamed⟩
    obtain rfl : openedPath docRoot req.uri = path := List.singleton_inj.mp hpath
    exact Option.some.inj (htype.symm.trans hnamed)
  · intro hsame
    exact ⟨_, rfl, htype.trans (congrArg some hsame)⟩

theorem contentType_iff_page :
    TypeOfOpened (handleRequest onePage (ascii "/srv") { uri := ascii "/a.html" } {}) :=
  (contentType_iff (by decide)).mpr (by decide)

/-- The name of a picture behind a NUL byte. -/
theorem hiddenName_not_typeOfOpened :
    (handleRequest onePage (ascii "/srv") { uri := ascii "/a.html%00.png" } {}).rep.status =
        some .ok ∧
      (handleRequest onePage (ascii "/srv") { uri := ascii "/a.html%00.png" } {}).opened =
        [ascii "/srv/a.html"] ∧
      ¬ TypeOfOpened
        (handleRequest onePage (ascii "/srv") { uri := ascii "/a.html%00.png" } {}) := by
  have hopened : (handleRequest onePage (ascii "/srv")
      { uri := ascii "/a.html%00.png" } {}).opened = [ascii "/srv/a.html"] := by decide
  refine ⟨by decide, hopened, ?_⟩
  rintro ⟨path, hpath, hnamed⟩
  obtain rfl := List.singleton_inj.mp (hopened.symm.trans hpath)
  revert hnamed
  decide

/-- The content of a request that is answered with a file is that file, and the first header holds
the number of its bytes. -/
theorem served_content (h : (handleRequest fs docRoot req {}).rep.status = some .ok) :
    ∃ file, fs (openedPath docRoot req.uri) = some file ∧
      (handleRequest fs docRoot req {}).rep.content = file ∧
      (handleRequest fs docRoot req {}).rep.headers.head?.map Header.value =
        some (decimal file.length) := by
  obtain ⟨-, file, hfile, heq⟩ := served_of_ok h
  have hcontent : readLoop { unread := file } [] = file := readLoop_file file []
  refine ⟨file, hfile, ?_, ?_⟩
  · rw [heq]
    exact hcontent
  · rw [heq]
    exact congrArg (fun content : Bytes => some (decimal content.length)) hcontent

theorem served_content_page : ∃ file, onePage (ascii "/srv/a.html") = some file ∧
    (handleRequest onePage (ascii "/srv") { uri := ascii "/a.html" } {}).rep.content = file ∧
    (handleRequest onePage (ascii "/srv") { uri := ascii "/a.html" } {}).rep.headers.head?.map
      Header.value = some (decimal file.length) := by
  have hopened : openedPath (ascii "/srv") (ascii "/a.html") = ascii "/srv/a.html" := by decide
  have hok : (handleRequest onePage (ascii "/srv")
      { uri := ascii "/a.html" } {}).rep.status = some .ok := by decide
  rw [← hopened]
  exact served_content hok

end Served

end AsioTest.Http
