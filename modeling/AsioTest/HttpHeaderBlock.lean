import AsioTest.HttpParserGrammar
import AsioTest.HttpReply

/-!
The headers of a reply, read by the parser of requests. What `to_buffers` emits between the status
line and the content is a header block of the grammar, one field line for each header, so that the
parser accepts it at its last byte and finds the same headers in it.
-/

namespace AsioTest.Http

open ByteStrings IncrementalScan

/-- What `to_buffers` emits after the status line and before the content. -/
def Reply.headerBlock (rep : Reply) : Bytes := wireBytes rep.toBuffers.tail.dropLast

/-- The name is a token and the value holds no control byte. -/
def Header.Plain (h : Header) : Prop :=
  h.name ≠ [] ∧ (∀ b ∈ h.name, TokenByte b) ∧ ∀ b ∈ h.value, ¬ Ctl b

instance (h : Header) : Decidable h.Plain := inferInstanceAs (Decidable (_ ∧ _ ∧ _))

/-- A header as a field line. -/
def Header.line (h : Header) : HeaderLine := .field h.name h.value

theorem headerBuffers_bytes (h : Header) : wireBytes (headerBuffers h) = h.line.text ++ crlf := by
  simp [wireBytes, headerBuffers, Header.line, HeaderLine.text, MiscStrings.nameValueSeparator,
    MiscStrings.crlf, crlf, ascii]

theorem headerBlock_eq (rep : Reply) :
    rep.headerBlock = ((rep.headers.map Header.line).flatMap fun l => l.text ++ crlf) ++ crlf := by
  have hmiddle : rep.toBuffers.tail.dropLast =
      rep.headers.flatMap headerBuffers ++ [arrayBuffer MiscStrings.crlf] := by
    show (rep.headers.flatMap headerBuffers ++
      ([arrayBuffer MiscStrings.crlf] ++ [stringBuffer rep.content])).dropLast = _
    rw [← List.append_assoc, List.dropLast_concat]
  calc
    rep.headerBlock = wireBytes (rep.headers.flatMap headerBuffers) ++ crlf := by
      rw [Reply.headerBlock, hmiddle, wireBytes, List.flatMap_append]
      rfl
    _ = (rep.headers.flatMap fun h => h.line.text ++ crlf) ++ crlf := by
      rw [wireBytes, List.flatMap_assoc]
      congr 1
      exact List.flatMap_congr fun h _ => headerBuffers_bytes h
    _ = _ := by rw [List.flatMap_map]

/-- Field lines add their headers one after the other. -/
theorem foldl_apply_line (headers more : List Header) :
    (more.map Header.line).foldl HeaderLine.apply headers = headers ++ more := by
  induction more generalizing headers with
  | nil => rw [List.map_nil, List.foldl_nil, List.append_nil]
  | cons h more ih =>
      rw [List.map_cons, List.foldl_cons, ih]
      exact List.append_assoc headers [h] more

theorem scan_headerBlock {rep : Reply} (h : ∀ x ∈ rep.headers, x.Plain) {req : Request}
    (hreq : req.headers = []) : scan parserStep (.headerLineStart, req) rep.headerBlock =
      ⟨.accept, (.expectingNewline3, { req with headers := rep.headers }), []⟩ := by
  have hlines : ∀ l ∈ rep.headers.map Header.line, l.WellFormed := by
    intro l hl
    obtain ⟨x, hx, rfl⟩ := List.mem_map.mp hl
    exact h x hx
  have hfields : req.headers = [] → ∀ l, (rep.headers.map Header.line).head? = some l →
      l.IsField := by
    intro _ l hl
    obtain ⟨x, -, rfl⟩ := List.mem_map.mp (List.mem_of_head? hl)
    exact trivial
  rw [headerBlock_eq, scan_lines hlines req hfields, foldl_apply_line, hreq, List.nil_append]
  rfl

/-- The parser, set to the start of a header line with no header read, accepts the header block of
a reply at its last byte and not before, and leaves the headers of the reply, provided that their
names are tokens and their values hold no control byte. -/
theorem parse_headerBlock {rep : Reply} (h : ∀ x ∈ rep.headers, x.Plain) {req : Request}
    (hreq : req.headers = []) :
    (∃ state_, parse .headerLineStart req rep.headerBlock =
      ⟨.good, [], state_, { req with headers := rep.headers }⟩) ∧
    ∀ p, p <+: rep.headerBlock → p ≠ rep.headerBlock →
      (parse .headerLineStart req p).result = .indeterminate := by
  have hscan := scan_headerBlock h hreq
  refine ⟨⟨_, parse_eq_iff.mpr hscan⟩, fun p hp hne => ?_⟩
  have hmore := more_of_prefix_ne ⟨_, hscan⟩ hp hne
  rw [parse_eq_scan, hmore]
  rfl

/-- An empty value, and a value that begins and ends with a blank and holds a colon. -/
def oddHeaders : Reply where
  headers := [⟨ascii "A", []⟩, ⟨ascii "B", ascii " x: y "⟩]

theorem parse_headerBlock_oddHeaders : ∃ state_,
    parse .headerLineStart {} (ascii "A: \r\nB:  x: y \r\n\r\n") =
      ⟨.good, [], state_, { headers := oddHeaders.headers }⟩ := by
  refine (@parse_headerBlock oddHeaders (fun x hx => ?_) {} rfl).1
  rcases List.mem_pair.mp hx with rfl | rfl
  · decide +kernel
  · decide +kernel

end AsioTest.Http
