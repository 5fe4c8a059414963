import AsioTest.HttpSegmentation
import AsioTest.MessageFraming

/-!
How the replies of `http_server` are framed. The stock replies carry the length of their content;
the reply for an open file names its length header differently, so that a receiver finds no
length in it.
-/

namespace AsioTest.Http

open ByteStrings MessageFraming

/-! ### The lines of a reply -/

/-- The status line without its line end. -/
def statusLine (status : Option StatusType) : Bytes :=
  (StatusStrings.toString status).dropLast.dropLast

theorem toString_eq_statusLine (status : Option StatusType) :
    StatusStrings.toString status = statusLine status ++ MessageFraming.crlf ∧
      statusLine status ≠ [] ∧ chr '\r' ∉ statusLine status := by
  cases status with
  | none => decide +kernel
  | some status => cases status <;> decide +kernel

/-- A header that stands on one line. -/
def Header.OneLine (h : Header) : Prop := h.text ≠ [] ∧ chr '\r' ∉ h.text

theorem Header.oneLine {name value : Bytes} (hname : chr '\r' ∉ name)
    (hvalue : chr '\r' ∉ value) : (⟨name, value⟩ : Header).OneLine := by
  have hseparator : chr '\r' ∉ ascii ": " := by decide
  constructor
  · simp [Header.text, ascii]
  · simp [Header.text, hname, hvalue, hseparator]

/-- A receiver reads back the headers and the content of a reply. -/
theorem readHead_toBuffers {rep : Reply} (h : ∀ x ∈ rep.headers, x.OneLine) :
    readHead [] [] (wireBytes rep.toBuffers) =
      some (statusLine rep.status :: rep.headers.map Header.text, rep.content) := by
  obtain ⟨hstatus, hne, hcr⟩ := toString_eq_statusLine rep.status
  have hlines : ∀ text ∈ statusLine rep.status :: rep.headers.map Header.text,
      text ≠ [] ∧ chr '\r' ∉ text := by
    intro text htext
    rcases List.mem_cons.mp htext with rfl | hmem
    · exact ⟨hne, hcr⟩
    · obtain ⟨x, hx, rfl⟩ := List.mem_map.mp hmem
      exact h x hx
  have hread := readHead_lines hlines [] rep.content
  rw [List.flatMap_cons, List.flatMap_map, ← hstatus, List.nil_append] at hread
  rw [wireBytes_toBuffers]
  exact hread

theorem correctlyFramed_toBuffers {rep : Reply} (h : ∀ x ∈ rep.headers, x.OneLine) :
    CorrectlyFramed (wireBytes rep.toBuffers) ↔
      fieldValues (ascii "Content-Length") (rep.headers.map Header.text) =
        [decimal rep.content.length] := by
  rw [CorrectlyFramed, readHead_toBuffers h]
  constructor
  · rintro ⟨start, fields, body, hread, hvalues⟩
    cases hread
    exact hvalues
  · intro hvalues
    exact ⟨_, _, _, rfl, hvalues⟩

/-! ### The replies there are -/

theorem cr_not_mem_decimal (n : Nat) : chr '\r' ∉ decimal n :=
  fun h => absurd (isDigit_of_mem_decimal h) (by decide)

theorem cr_not_mem_extensionToType (extension : Bytes) :
    chr '\r' ∉ MimeTypes.extensionToType extension := by
  rw [MimeTypes.extensionToType]
  split
  next m hm =>
    have hmappings : ∀ m ∈ MimeTypes.mappings, chr '\r' ∉ m.2 := by decide
    exact hmappings m (List.mem_of_find?_eq_some hm)
  next => decide

/-- Every stock reply is framed by its length. -/
theorem stockReply_framed (status : StatusType) :
    CorrectlyFramed (wireBytes (stockReply status).toBuffers) := by
  have hlength : (⟨ascii "Content-Length", decimal (StockReplies.toString status).length⟩ :
      Header).OneLine := Header.oneLine (by decide) (cr_not_mem_decimal _)
  have htype : (⟨ascii "Content-Type", ascii "test/html"⟩ : Header).OneLine :=
    Header.oneLine (by decide) (by decide)
  have honeLine : ∀ x ∈ (stockReply status).headers, x.OneLine := by
    intro x hx
    simp only [stockReply, List.mem_cons, List.not_mem_nil, or_false] at hx
    rcases hx with rfl | rfl
    · exact hlength
    · exact htype
  rw [correctlyFramed_toBuffers honeLine]
  simp only [stockReply, List.map_cons, List.map_nil, fieldValues, Header.text, List.filter_cons,
    List.filter_nil]
  rw [fieldName_text (by decide), fieldName_text (by decide), if_pos (by decide),
    if_neg (by decide), List.map_singleton, fieldValue_text (by decide)]
  exact fun b => isDigit_of_mem_decimal

/-- The reply for an open file has no field with the name of the length. -/
theorem serveFile_not_framed (file extension : Bytes) (rep : Reply) :
    ¬ CorrectlyFramed (wireBytes (serveFile file extension rep).toBuffers) := by
  have honeLine : ∀ x ∈ (serveFile file extension rep).headers, x.OneLine := by
    intro x hx
    simp only [serveFile, List.mem_cons, List.not_mem_nil, or_false] at hx
    rcases hx with rfl | rfl
    · exact Header.oneLine (by decide) (cr_not_mem_decimal _)
    · exact Header.oneLine (by decide) (cr_not_mem_extensionToType _)
  rw [correctlyFramed_toBuffers honeLine]
  simp only [serveFile, List.map_cons, List.map_nil, fieldValues, Header.text, List.filter_cons,
    List.filter_nil]
  rw [fieldName_text (by decide), fieldName_text (by decide), if_neg (by decide),
    if_neg (by decide), List.map_nil]
  exact (List.cons_ne_nil _ _).symm

/-- The parsed request is answered with the content of a file. -/
def Served (site : Site) (r : ParseResult) : Prop :=
  r.result = .good ∧ ¬ Rejected r.req.uri ∧
    (site.files (openedPath site.docRoot r.req.uri)).isSome

/-- On each of the paths to a reply: it is framed unless it serves a file. -/
theorem replyTo_framed_iff (site : Site) (r : ParseResult) (rep : Reply) :
    CorrectlyFramed (wireBytes (replyTo site r rep).toBuffers) ↔ ¬ Served site r := by
  by_cases hgood : r.result = .good
  · simp only [replyTo, hgood, Served, true_and]
    by_cases hrejected : Rejected r.req.uri
    · rw [handleRequest_rejected hrejected]
      exact iff_of_true (stockReply_framed _) fun h => h.1 hrejected
    · cases hfile : site.files (openedPath site.docRoot r.req.uri) with
      | none =>
          rw [handleRequest_missing hrejected hfile]
          exact iff_of_true (stockReply_framed _) fun h => by cases h.2
      | some file =>
          rw [handleRequest_served hrejected hfile]
          exact iff_of_false (serveFile_not_framed _ _ _) fun h => h ⟨hrejected, rfl⟩
  · have hreply : replyTo site r rep = stockReply .badRequest := by
      rw [replyTo]
      split
      next h => exact absurd h hgood
      next => rfl
    rw [hreply]
    exact iff_of_true (stockReply_framed _) fun h => hgood h.1

/-- What a connection writes is its reply to the parsed stream. -/
theorem serve_written {site : Site} {s : Bytes} {cutting : Cutting s} {buffers : List ConstBuffer}
    (h : IoOp.write buffers ∈ (serve site cutting).issued) :
    buffers = (replyTo site (parse .methodStart {} s) {}).toBuffers := by
  have hreplied := (serve_replied site cutting).mp ⟨buffers, h⟩
  obtain ⟨reads, hissued⟩ := serve_issued site cutting
  rw [hissued, if_neg hreplied, serve_reply, if_neg hreplied] at h
  rcases List.mem_append.mp h with hread | hwrite
  · cases List.eq_of_mem_replicate hread
  · cases List.mem_singleton.mp hwrite
    rfl

/-- The reply that is written is framed by one `Content-Length` exactly when it does not serve a
file: the parser rejects the stream, or the uri is rejected, or the file cannot be opened. -/
theorem written_reply_framed_iff (site : Site) {s : Bytes} (cutting : Cutting s)
    {buffers : List ConstBuffer} (h : IoOp.write buffers ∈ (serve site cutting).issued) :
    CorrectlyFramed (wireBytes buffers) ↔ ¬ Served site (parse .methodStart {} s) := by
  rw [serve_written h]
  exact replyTo_framed_iff site _ _

/-- A stream the parser rejects at once. -/
def lineFeed : Cutting [10] := ⟨[[10]], rfl, by decide⟩

theorem written_reply_framed_iff_lineFeed :
    IoOp.write (stockReply .badRequest).toBuffers ∈
        (serve ⟨fun _ => none, ascii "."⟩ lineFeed).issued ∧
      (CorrectlyFramed (wireBytes (stockReply .badRequest).toBuffers) ↔
        ¬ Served ⟨fun _ => none, ascii "."⟩ (parse .methodStart {} [10])) :=
  have hwritten : IoOp.write (stockReply .badRequest).toBuffers ∈
      (serve ⟨fun _ => none, ascii "."⟩ lineFeed).issued := by decide
  ⟨hwritten, written_reply_framed_iff ⟨fun _ => none, ascii "."⟩ lineFeed hwritten⟩

/-- A request for a file, and a site that has it. -/
def getIndex : Cutting (ascii "GET / HTTP/1.0\r\n\r\n") :=
  ⟨[ascii "GET / HTTP/1.0\r\n\r\n"], rfl, by decide⟩

def indexSite : Site := ⟨fun _ => some (ascii "hello"), ascii "."⟩

theorem getIndex_not_framed :
    ∃ buffers, IoOp.write buffers ∈ (serve indexSite getIndex).issued ∧
      ¬ CorrectlyFramed (wireBytes buffers) := by
  have hserved : Served indexSite (parse .methodStart {} (ascii "GET / HTTP/1.0\r\n\r\n")) :=
    ⟨by decide, by decide, by decide⟩
  obtain ⟨buffers, hwritten⟩ := (serve_replied indexSite getIndex).mpr (by decide)
  refine ⟨buffers, hwritten, ?_⟩
  rw [serve_written hwritten, replyTo_framed_iff]
  exact not_not.mpr hserved

end AsioTest.Http
