import AsioTest.HttpReply

/-!
`request_handler` of `http_server`: decoding the uri, choosing the file below `doc_root` and
filling the reply. The file system is a parameter that maps the C string handed to the file
stream to the bytes of the file, or to `none` when it cannot be opened; the strings handed to it
are part of the result.
-/

namespace AsioTest.Http

open ByteStrings

/-! ### Formatted extraction of a hexadecimal `int` -/

def hexDigit (b : Byte) : Option Nat :=
  if 48 ≤ b && b ≤ 57 then some (b.toNat - 48)
  else if 97 ≤ b && b ≤ 102 then some (b.toNat - 87)
  else if 65 ≤ b && b ≤ 70 then some (b.toNat - 55)
  else none

def hexValue (digits : Bytes) : Nat :=
  digits.foldl (fun v b => 16 * v + (hexDigit b).getD 0) 0

/-- The digits of a hexadecimal number: a leading `0` may be the first half of `0x`, which needs a
digit behind it; any other number needs a digit of its own. -/
def extractHexDigits (s : Bytes) : Option Nat :=
  match s with
  | 48 :: t =>
      if t.head? = some (chr 'x') || t.head? = some (chr 'X') then
        let digits := (t.drop 1).takeWhile fun b => (hexDigit b).isSome
        if digits.isEmpty then none else some (hexValue digits)
      else some (hexValue (t.takeWhile fun b => (hexDigit b).isSome))
  | _ =>
      let digits := s.takeWhile fun b => (hexDigit b).isSome
      if digits.isEmpty then none else some (hexValue digits)

/-- `istringstream(s) >> std::hex >> value` for an `int`: white space is skipped, one sign is
taken, and the number ends at the first other byte. Two characters cannot overflow. -/
def extractHex (s : Bytes) : Option Int :=
  match s.dropWhile isSpace with
  | 45 :: t => (extractHexDigits t).map fun v => -(v : Int)
  | 43 :: t => (extractHexDigits t).map fun v => (v : Int)
  | t => (extractHexDigits t).map fun v => (v : Int)

/-! ### The handler -/

def urlDecodeLoop (out : Bytes) : Bytes → Bool × Bytes
  | [] => (true, out)
  | 37 :: a :: b :: rest =>
      match extractHex [a, b] with
      | some value => urlDecodeLoop (out ++ [UInt8.ofInt value]) rest
      | none => (false, out)
  | c :: rest =>
      if c = chr '%' then (false, out)
      else if c = chr '+' then urlDecodeLoop (out ++ [chr ' ']) rest
      else urlDecodeLoop (out ++ [c]) rest

/-- `url_decode`: whether the input could be decoded, and what `out` holds at the end. -/
def urlDecode (input : Bytes) : Bool × Bytes := urlDecodeLoop [] input

namespace MimeTypes

def mappings : List (Bytes × Bytes) :=
  [(ascii "gif", ascii "image/gif"), (ascii "htm", ascii "text/html"),
    (ascii "html", ascii "text/html"), (ascii "jpg", ascii "image/jpeg"),
    (ascii "png", ascii "image/png")]

def extensionToType (extension : Bytes) : Bytes :=
  match mappings.find? fun m => m.1 = extension with
  | some m => m.2
  | none => ascii "text/plain"

end MimeTypes

/-- The bytes of a file by the C string it is opened with. -/
abbrev FileSystem := Bytes → Option Bytes

/-- An open file stream: what has not been read, and whether a read came up short. -/
structure FileStream where
  unread : Bytes
  fail : Bool := false

/-- `read(buf, n)`: the stream afterwards and the `gcount()` bytes stored. -/
def FileStream.read (is : FileStream) (n : Nat) : FileStream × Bytes :=
  if is.fail then (is, [])
  else ({ unread := is.unread.drop n, fail := is.unread.length < n }, is.unread.take n)

theorem FileStream.read_unread {is : FileStream} {n : Nat} (h : (is.read n).2 ≠ []) :
    (is.read n).1.unread.length < is.unread.length := by
  rw [FileStream.read] at h ⊢
  split_ifs at h ⊢ with hfail
  · exact absurd rfl h
  · have hne : n ≠ 0 := by
      rintro rfl
      exact h rfl
    have hunread : is.unread ≠ [] := by
      intro hnil
      rw [hnil] at h
      exact h List.take_nil
    have hpos := List.length_pos_iff.mpr hunread
    rw [List.length_drop]
    omega

/-- `while (is.read(buf, sizeof(buf)).gcount() > 0) rep.content.append(buf, is.gcount());` -/
def readLoop (is : FileStream) (content : Bytes) : Bytes :=
  if (is.read 512).2 = [] then content
  else readLoop (is.read 512).1 (content ++ (is.read 512).2)
termination_by is.unread.length
decreasing_by exact FileStream.read_unread ‹_›

/-- The test that answers a decoded path with a bad request. -/
def unsafePath (requestPath : Bytes) : Bool :=
  requestPath.isEmpty || requestPath.head? ≠ some (chr '/') ||
    (find (ascii "..") requestPath).isSome

/-- A path that names a directory names the index file in it. -/
def addIndex (requestPath : Bytes) : Bytes :=
  if requestPath.getLast? = some (chr '/') then requestPath ++ ascii "index.html" else requestPath

/-- What stands behind the last dot, when that is behind the last slash; a position that was not
found is larger than any other. -/
def extensionOf (requestPath : Bytes) : Bytes :=
  match findLastOf (chr '.') requestPath, findLastOf (chr '/') requestPath with
  | some lastDotPos, some lastSlashPos =>
      if lastDotPos > lastSlashPos then requestPath.drop (lastDotPos + 1) else []
  | _, _ => []

/-- The reply filled by `handle_request`, and the C strings it opened on the way. -/
structure Handled where
  rep : Reply
  opened : List Bytes
  deriving DecidableEq

/-- The reply for an open file; `resize(2)` and the assignments to both headers leave these two. -/
def serveFile (file extension : Bytes) (rep : Reply) : Reply where
  status := some .ok
  content := readLoop { unread := file } rep.content
  headers :=
    [⟨ascii "Conetent-Length", decimal (readLoop { unread := file } rep.content).length⟩,
      ⟨ascii "Content-type", MimeTypes.extensionToType extension⟩]

def handleRequest (fs : FileSystem) (docRoot : Bytes) (req : Request) (rep : Reply) : Handled :=
  let (decoded, requestPath) := urlDecode req.uri
  if !decoded then ⟨stockReply .badRequest, []⟩
  else if unsafePath requestPath then ⟨stockReply .badRequest, []⟩
  else
    let requestPath := addIndex requestPath
    let extension := extensionOf requestPath
    let fullPath := docRoot ++ requestPath
    match fs (cString fullPath) with
    | none => ⟨stockReply .notFound, [cString fullPath]⟩
    | some file => ⟨serveFile file extension rep, [cString fullPath]⟩

end AsioTest.Http
