import AsioTest.HttpAnswers
import AsioTest.HttpFraming
import AsioTest.HttpHeaderBlock
import AsioTest.HttpServedFile
import AsioTest.HttpUrlDecode

/-!
What a client of `http_server` gets back for the bytes it sends. A request for a path,
percent-encoded in any way, is answered with the file below `doc_root` or with an error page, and
what is written can be taken apart again into the status line, the headers and the content.
-/

namespace AsioTest.Http

open ByteStrings AsyncSocket TransitionRuns IncrementalScan

/-! ### The bytes that answer a request -/

/-- A path that begins at the root and has no two dots in a row. -/
def SafePath (path : Bytes) : Prop :=
  path.head? = some (chr '/') ∧ ¬ [chr '.', chr '.'] <:+: path

instance (path : Bytes) : Decidable (SafePath path) := inferInstanceAs (Decidable (_ ∧ _))

/-- The file that a path leads to. -/
def Site.file (site : Site) (path : Bytes) : Option Bytes :=
  site.files (cString (site.docRoot ++ addIndex path))

def badRequestBytes : Bytes := ascii "HTTP/1.0 400 Bad Request\r\nContent-Length: 89\r\n" ++
  ascii "Content-Type: test/html\r\n\r\n<html><head><title>Bad Request</title></head>" ++
  ascii "<body><h1>400 Bad Request</h1></body></html>"

def notFoundBytes : Bytes := ascii "HTTP/1.0 404 Not Found\r\nContent-Length: 85\r\n" ++
  ascii "Content-Type: test/html\r\n\r\n<html><head><title>Not Found</title></head>" ++
  ascii "<body><h1>404 Not Found</h1></body></html>"

/-- The answer to a request for a path, byte for byte. -/
def Site.response (site : Site) (path : Bytes) : Bytes :=
  if SafePath path then
    match site.file path with
    | none => notFoundBytes
    | some file => ascii "HTTP/1.0 200 OK\r\nConetent-Length: " ++ decimal file.length ++
        ascii "\r\nContent-type: " ++ MimeTypes.extensionToType (extensionOf (addIndex path)) ++
        ascii "\r\n\r\n" ++ file
  else badRequestBytes

theorem wireBytes_badRequest :
    wireBytes (stockReply .badRequest).toBuffers = badRequestBytes := by decide +kernel

theorem wireBytes_notFound :
    wireBytes (stockReply .notFound).toBuffers = notFoundBytes := by decide +kernel

theorem wireBytes_serveFile (file extension : Bytes) :
    wireBytes (serveFile file extension {}).toBuffers =
      ascii "HTTP/1.0 200 OK\r\nConetent-Length: " ++ decimal file.length ++
        ascii "\r\nContent-type: " ++ MimeTypes.extensionToType extension ++
        ascii "\r\n\r\n" ++ file := by
  have hcontent : readLoop { unread := file } [] = file := readLoop_file file []
  rw [wireBytes_toBuffers]
  simp only [serveFile, hcontent, List.flatMap_cons, List.flatMap_nil, Header.text,
    StatusStrings.toString, List.append_nil, List.append_assoc]
  rfl

theorem unsafePath_eq_false_iff (path : Bytes) : unsafePath path = false ↔ SafePath path := by
  constructor
  · exact unsafePath_eq_false
  · rintro ⟨hhead, hdots⟩
    have hne : path ≠ [] := by
      rintro rfl
      cases hhead
    have hfind : (find (ascii "..") path).isSome = false := by
      rw [Bool.eq_false_iff, Ne, find_isSome]
      exact hdots
    simp [unsafePath, hne, hhead, hfind]

/-- The request handler answers the spelling of a path as it should. -/
theorem handleRequest_response (site : Site) {req : Request} {path : Bytes}
    {spellings : List Bytes} (hspells : List.Forall₂ Spells path spellings)
    (huri : req.uri = spellings.flatten) :
    wireBytes (handleRequest site.files site.docRoot req {}).rep.toBuffers =
      site.response path := by
  have hdecode : urlDecode req.uri = (true, path) := huri ▸ urlDecode_spelled hspells []
  have hrejected : Rejected req.uri ↔ ¬ SafePath path := by
    rw [Rejected, hdecode, ← unsafePath_eq_false_iff, Bool.not_eq_false]
    simp
  have hopened : site.files (openedPath site.docRoot req.uri) = site.file path := by
    rw [openedPath, hdecode]
    rfl
  by_cases hsafe : SafePath path
  · have haccepted : ¬ Rejected req.uri := fun h => hrejected.mp h hsafe
    rw [Site.response, if_pos hsafe]
    cases hfile : site.file path with
    | none =>
        rw [handleRequest_missing haccepted (hopened.trans hfile)]
        exact wireBytes_notFound
    | some file =>
        rw [handleRequest_served haccepted (hopened.trans hfile), hdecode]
        exact wireBytes_serveFile _ _
  · rw [Site.response, if_neg hsafe, handleRequest_rejected (hrejected.mpr hsafe)]
    exact wireBytes_badRequest

/-! ### What a connection writes -/

/-- A connection has started reads, and then the write of `wire`. -/
def Writes (issued : List IoOp) (wire : Bytes) : Prop :=
  ∃ reads buffers, issued = List.replicate reads .readSome ++ [.write buffers] ∧
    wireBytes buffers = wire

/-- A connection has started nothing but reads. -/
def OnlyReads (issued : List IoOp) : Prop := ∃ reads, issued = List.replicate reads .readSome

variable {site : Site} {input : Bytes} {issued : List IoOp}

theorem writes_of_good {req : Request} {rest : Bytes} {state_ : ParserState} {path : Bytes}
    {spellings : List Bytes}
    (hissued : ∃ reads, issued = List.replicate reads .readSome ++ answer site input)
    (hparse : parse .methodStart {} input = ⟨.good, rest, state_, req⟩)
    (hspells : List.Forall₂ Spells path spellings) (huri : req.uri = spellings.flatten) :
    Writes issued (site.response path) := by
  obtain ⟨reads, hreads⟩ := hissued
  rw [answer, hparse] at hreads
  exact ⟨reads, _, hreads, handleRequest_response site hspells huri⟩

theorem writes_of_bad {req : Request} {rest : Bytes} {state_ : ParserState}
    (hissued : ∃ reads, issued = List.replicate reads .readSome ++ answer site input)
    (hparse : parse .methodStart {} input = ⟨.bad, rest, state_, req⟩) :
    Writes issued badRequestBytes := by
  obtain ⟨reads, hreads⟩ := hissued
  rw [answer, hparse] at hreads
  exact ⟨reads, _, hreads, wireBytes_badRequest⟩

theorem onlyReads_of_indeterminate {req : Request} {rest : Bytes} {state_ : ParserState}
    (hissued : ∃ reads, issued = List.replicate reads .readSome ++ answer site input)
    (hparse : parse .methodStart {} input = ⟨.indeterminate, rest, state_, req⟩) :
    OnlyReads issued := by
  obtain ⟨reads, hreads⟩ := hissued
  rw [answer, hparse] at hreads
  exact ⟨reads, hreads.trans (List.append_nil _)⟩

/-- In every run of the server, a connection that has received a request head whose target spells a
path writes the response for that path, whatever follows the head; one whose bytes begin no request
head writes a bad request; and one that has received only the beginning of a head writes nothing. -/
theorem clients_served {s : Server} {es : List ServerEvent}
    (h : run (Server.step site) .listening es = some s) {i : Nat} {c : Connection}
    (hc : s.started[i]? = some c) :
    (∀ (head : RequestHead) (path : Bytes) (spellings : List Bytes),
      head.render <+: es.flatMap (ServerEvent.bytesFor i) →
      List.Forall₂ Spells path spellings → head.line.target = spellings.flatten →
        Writes c.issued (site.response path)) ∧
    ((∀ p, p <+: es.flatMap (ServerEvent.bytesFor i) → p ∉ requestHeads) →
      (∃ p, ShortestDead requestHeads (es.flatMap (ServerEvent.bytesFor i)) p) →
        Writes c.issued badRequestBytes) ∧
    ((∃ w ∈ requestHeads, es.flatMap (ServerEvent.bytesFor i) <+: w ∧
      es.flatMap (ServerEvent.bytesFor i) ≠ w) → OnlyReads c.issued) := by
  have hissued := connections_answered h hc
  generalize es.flatMap (ServerEvent.bytesFor i) = input at hissued ⊢
  refine ⟨fun head path spellings hhead hspells htarget => ?_, fun hnone hdead => ?_,
    fun hword => ?_⟩
  · have hmember : head.render ∈ requestHeads := ⟨head, rfl⟩
    obtain ⟨rest, state_, req, -, hparse⟩ :=
      (endsAfter_good_iff input head.render).mpr ⟨hhead, hmember⟩
    have hreq := parse_req_of_head input hhead
    rw [hparse] at hreq
    refine writes_of_good hissued hparse hspells ?_
    rw [← htarget]
    exact congrArg Request.uri hreq
  · obtain ⟨p, hshort⟩ := hdead
    obtain ⟨rest, state_, req, -, hparse⟩ := (endsAfter_bad_iff input p).mpr ⟨hnone, hshort⟩
    exact writes_of_bad hissued hparse
  · obtain ⟨rest, state_, req, -, hparse⟩ :=
      (endsAfter_indeterminate_iff input input).mpr ⟨rfl, hword⟩
    exact onlyReads_of_indeterminate hissued hparse

/-- A check of every byte, that evaluates byte by byte. -/
theorem forall_mem_of_all {p : Byte → Prop} [DecidablePred p] {l : Bytes}
    (h : (l.all fun b => p b) = true) : ∀ b ∈ l, p b := fun b hb =>
  of_decide_eq_true (List.all_eq_true.mp h b hb)

/-- A request for `/a`, with the letter as an escape, that arrives in two pieces. -/
def getLetter : RequestHead where
  line :=
    { method := ascii "GET"
      target := ascii "/%61"
      method_ne := by decide
      method_token := forall_mem_of_all (by decide)
      target_byte := forall_mem_of_all (by decide)
      major := ascii "1"
      minor := ascii "0"
      major_ne := by decide
      major_digit := forall_mem_of_all (by decide)
      minor_ne := by decide
      minor_digit := forall_mem_of_all (by decide) }
  block := .empty

def letterRun : List ServerEvent :=
  [.accept 0 (.success ()), .io 0 0 (.success (ascii "GET /%61 HT")),
    .io 0 0 (.success (ascii "TP/1.0\r\n\r\nmore"))]

theorem clients_served_letter :
    ∃ s c, run (Server.step indexSite) .listening letterRun = some s ∧
      s.started[0]? = some c ∧ Writes c.issued (indexSite.response (ascii "/a")) := by
  have hrun : run (Server.step indexSite) .listening letterRun = some _ := rfl
  have hspells : List.Forall₂ Spells (ascii "/a") [ascii "/", ascii "%61"] :=
    .cons (.raw (by decide) (by decide)) (.cons (.escape rfl rfl rfl) .nil)
  have hserved := (clients_served hrun (i := 0) rfl).1 getLetter (ascii "/a") _
    (by decide) hspells rfl
  exact ⟨_, _, hrun, rfl, hserved⟩

/-! ### Taking a reply apart -/

/-- A client reads the status line, then the headers as the server itself would, and takes the rest
for the content. -/
def decodeReply (wire : Bytes) : Option (Bytes × List Header × Bytes) :=
  let r := parse .headerLineStart {} ((wire.dropWhile (· ≠ chr '\r')).drop 2)
  if r.result = .good then some (wire.takeWhile (· ≠ chr '\r'), r.req.headers, r.rest) else none

theorem wireBytes_split (rep : Reply) : wireBytes rep.toBuffers =
    StatusStrings.toString rep.status ++ rep.headerBlock ++ rep.content := by
  rw [wireBytes_toBuffers, headerBlock_eq, List.flatMap_map]
  simp only [List.append_assoc]
  rfl

/-- What is written for a reply is decoded to it, whatever bytes its content has. -/
theorem decodeReply_toBuffers {rep : Reply} (h : ∀ x ∈ rep.headers, x.Plain) :
    decodeReply (wireBytes rep.toBuffers) =
      some (statusLine rep.status, rep.headers, rep.content) := by
  obtain ⟨hstatus, -, hcr⟩ := toString_eq_statusLine rep.status
  have hline : ∀ b ∈ statusLine rep.status, decide (b ≠ chr '\r') = true := by
    intro b hb
    rw [decide_eq_true_eq]
    rintro rfl
    exact hcr hb
  have hwire : wireBytes rep.toBuffers =
      statusLine rep.status ++ (MessageFraming.crlf ++ (rep.headerBlock ++ rep.content)) := by
    rw [wireBytes_split, hstatus]
    simp only [List.append_assoc]
  have hrest : ((wireBytes rep.toBuffers).dropWhile (· ≠ chr '\r')).drop 2 =
      rep.headerBlock ++ rep.content := by
    rw [hwire, List.dropWhile_append_of_pos hline]
    rfl
  have hfirst : (wireBytes rep.toBuffers).takeWhile (· ≠ chr '\r') = statusLine rep.status := by
    rw [hwire, List.takeWhile_append_of_pos hline]
    exact List.append_nil _
  have hscan : scan parserStep (.headerLineStart, ({} : Request))
      (rep.headerBlock ++ rep.content) = _ :=
    scan_append_of_eq (scan_headerBlock h rfl) (by decide) rep.content
  have hparse : parse .headerLineStart {} (rep.headerBlock ++ rep.content) =
      ⟨.good, rep.content, .expectingNewline3, { headers := rep.headers }⟩ :=
    parse_eq_iff.mpr hscan
  rw [decodeReply, hrest, hfirst, hparse]
  rfl

theorem not_ctl_of_mem_decimal {n : Nat} {b : Byte} (h : b ∈ decimal n) : ¬ Ctl b := by
  have hdigit := isDigit_of_mem_decimal h
  rw [IsDigit] at hdigit
  rw [Ctl]
  omega

theorem extensionToType_not_ctl (extension : Bytes) :
    ∀ b ∈ MimeTypes.extensionToType extension, ¬ Ctl b := by
  rcases extensionToType_cases extension with hmem | ⟨hplain, -⟩
  · have hmappings : (MimeTypes.mappings.all fun m => m.2.all fun b => ¬ Ctl b) = true := by decide
    exact forall_mem_of_all (List.all_eq_true.mp hmappings _ hmem)
  · rw [hplain]
    exact forall_mem_of_all (by decide)

theorem Header.plain {name value : Bytes} (hname : name ≠ []) (htoken : ∀ b ∈ name, TokenByte b)
    (hvalue : ∀ b ∈ value, ¬ Ctl b) : (⟨name, value⟩ : Header).Plain :=
  ⟨hname, htoken, hvalue⟩

theorem stockReply_plain (status : StatusType) : ∀ x ∈ (stockReply status).headers, x.Plain := by
  intro x hx
  simp only [stockReply, List.mem_cons, List.not_mem_nil, or_false] at hx
  rcases hx with rfl | rfl
  · exact Header.plain (by decide) (forall_mem_of_all (by decide)) fun b hb =>
      not_ctl_of_mem_decimal hb
  · exact Header.plain (by decide) (forall_mem_of_all (by decide)) (forall_mem_of_all (by decide))

theorem serveFile_plain (file extension : Bytes) (rep : Reply) :
    ∀ x ∈ (serveFile file extension rep).headers, x.Plain := by
  intro x hx
  simp only [serveFile, List.mem_cons, List.not_mem_nil, or_false] at hx
  rcases hx with rfl | rfl
  · exact Header.plain (by decide) (forall_mem_of_all (by decide)) fun b hb =>
      not_ctl_of_mem_decimal hb
  · exact Header.plain (by decide) (forall_mem_of_all (by decide))
      (extensionToType_not_ctl extension)

/-- Every reply there is has headers that the parser can read. -/
theorem replyTo_plain (site : Site) (r : ParseResult) (rep : Reply) :
    ∀ x ∈ (replyTo site r rep).headers, x.Plain := by
  rw [replyTo]
  split
  · by_cases hrejected : Rejected r.req.uri
    · rw [handleRequest_rejected hrejected]
      exact stockReply_plain _
    · cases hfile : site.files (openedPath site.docRoot r.req.uri) with
      | none =>
          rw [handleRequest_missing hrejected hfile]
          exact stockReply_plain _
      | some file =>
          rw [handleRequest_served hrejected hfile]
          exact serveFile_plain _ _ _
  · exact stockReply_plain _

/-- In every run of the server, whatever a connection writes is decoded to the reply for the bytes
it has received: its status line, its headers and its content. -/
theorem written_decoded {s : Server} {es : List ServerEvent}
    (h : run (Server.step site) .listening es = some s) {i : Nat} {c : Connection}
    (hc : s.started[i]? = some c) {buffers : List ConstBuffer}
    (hwrite : IoOp.write buffers ∈ c.issued) :
    ∃ rep, rep = replyTo site (parse .methodStart {} (es.flatMap (ServerEvent.bytesFor i))) {} ∧
      decodeReply (wireBytes buffers) =
        some (statusLine rep.status, rep.headers, rep.content) := by
  obtain ⟨reads, hissued⟩ := connections_answered h hc
  refine ⟨_, rfl, ?_⟩
  rw [hissued, answer] at hwrite
  rcases List.mem_append.mp hwrite with hread | hanswer
  · cases List.eq_of_mem_replicate hread
  · split_ifs at hanswer
    · cases hanswer
    · cases List.mem_singleton.mp hanswer
      exact decodeReply_toBuffers (replyTo_plain site _ _)

theorem written_decoded_second : ∃ s c buffers,
    run (Server.step ⟨fun _ => none, []⟩) .listening twoConnections = some s ∧
      s.started[1]? = some c ∧ IoOp.write buffers ∈ c.issued ∧
      decodeReply (wireBytes buffers) = some (ascii "HTTP/1.0 400 Bad Request",
        (stockReply .badRequest).headers, (stockReply .badRequest).content) := by
  have hrun : run (Server.step ⟨fun _ => none, []⟩) .listening twoConnections = some _ := rfl
  obtain ⟨rep, rfl, hdecoded⟩ := written_decoded hrun (i := 1) rfl (.tail _ (.tail _ (.head _)))
  exact ⟨_, _, _, hrun, rfl, .tail _ (.tail _ (.head _)), hdecoded⟩

end AsioTest.Http
