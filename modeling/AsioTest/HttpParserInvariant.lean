import AsioTest.HttpConnection
import AsioTest.HttpHeaderBlock
import AsioTest.HttpVersionNumbers

/-!
The invariant of `request_parser`. Every place in the grammar that the parser can be at has a sound
request: the states inside a header have a header to work on, the version is set once the slash is
read, and the fields hold bytes of their classes only. `parse` may be called on any pieces, also
after it has decided: a decision leaves the parser where it was.
-/

namespace AsioTest.Http

open ByteStrings IncrementalScan AsyncSocket TransitionRuns

/-- The states that work on the last header. -/
def ParserState.inHeader : ParserState → Bool
  | .headerLws => true
  | .headerName => true
  | .spaceBeforeHeaderValue => true
  | .headerValue => true
  | .expectingNewline2 => true
  | _ => false

/-- The states up to the slash of the version. -/
def ParserState.beforeVersion : ParserState → Bool
  | .methodStart => true
  | .method => true
  | .uri => true
  | .httpVersionH => true
  | .httpVersionT1 => true
  | .httpVersionT2 => true
  | .httpVersionP => true
  | .httpVersionSlash => true
  | _ => false

/-- The invariant of the parser and the request it fills. -/
structure Sound (s : ParserState × Request) : Prop where
  headers_ne : s.1.inHeader = true → s.2.headers ≠ []
  version : s.1.beforeVersion = false →
    s.2.httpVersionMajor ≠ none ∧ s.2.httpVersionMinor ≠ none
  method_ne : s.1 ≠ .methodStart → s.2.method ≠ []
  method_token : ∀ b ∈ s.2.method, TokenByte b
  uri_byte : ∀ b ∈ s.2.uri, TargetByte b
  headers_plain : ∀ h ∈ s.2.headers, h.Plain

/-! ### Every place in the grammar is sound -/

theorem HeaderLine.apply_plain {headers : List Header} {l : HeaderLine} (hl : l.WellFormed)
    (h : ∀ x ∈ headers, x.Plain) : ∀ x ∈ l.apply headers, x.Plain := by
  intro x hx
  cases l with
  | field name value =>
      rcases List.mem_append.mp hx with hold | hnew
      · exact h x hold
      · rw [List.mem_singleton.mp hnew]
        exact hl
  | continuation blanks text =>
      obtain ⟨-, -, htext, -⟩ := hl
      rcases List.eq_nil_or_concat headers with rfl | ⟨init, last, rfl⟩
      · exact absurd hx List.not_mem_nil
      · rw [List.concat_eq_append] at h hx
        rw [HeaderLine.apply, List.modifyLast_concat, List.mem_append] at hx
        rcases hx with hold | hlast
        · exact h x (List.mem_append_left _ hold)
        · obtain ⟨hne, htoken, hvalue⟩ := h last (List.mem_append_right _ List.mem_cons_self)
          rw [List.mem_singleton.mp hlast]
          refine ⟨hne, htoken, fun b hb => ?_⟩
          exact (List.mem_append.mp hb).elim (hvalue b) (htext b)

theorem foldl_apply_plain {headers : List Header} {lines : List HeaderLine}
    (hlines : ∀ l ∈ lines, l.WellFormed) (h : ∀ x ∈ headers, x.Plain) :
    ∀ x ∈ lines.foldl HeaderLine.apply headers, x.Plain := by
  induction lines generalizing headers with
  | nil => exact h
  | cons l lines ih =>
      exact ih (fun m hm => hlines m (List.mem_cons_of_mem l hm))
        (HeaderLine.apply_plain (hlines l List.mem_cons_self) h)

theorem HeaderBlock.headers_plain (h : HeaderBlock) : ∀ x ∈ h.headers, x.Plain :=
  foldl_apply_plain h.wellFormed fun _ hx => absurd hx List.not_mem_nil

/-- Behind the method the fields of the start line are there. -/
theorem StartLine.sound (s : StartLine) {state_ : ParserState} {major minor : Option Int}
    {headers : List Header} (hheaders : state_.inHeader = true → headers ≠ [])
    (hversion : state_.beforeVersion = false → major ≠ none ∧ minor ≠ none)
    (hplain : ∀ x ∈ headers, x.Plain) :
    Sound (state_, ⟨s.method, s.target, major, minor, headers⟩) where
  headers_ne := hheaders
  version := hversion
  method_ne := fun _ => s.method_ne
  method_token := s.method_token
  uri_byte := s.target_byte
  headers_plain := hplain

/-- Up to the slash there is neither a version nor a header. -/
theorem StartLine.sound_before (s : StartLine) {state_ : ParserState}
    (hstate : state_.beforeVersion = true) : Sound (state_, s.request) := by
  have hheader : state_.inHeader = false := by
    cases state_ <;> first | rfl | cases hstate
  refine s.sound (fun h => ?_) (fun h => ?_) fun _ hx => absurd hx List.not_mem_nil
  · rw [hheader] at h
    cases h
  · rw [hstate] at h
    cases h

theorem RequestLine.sound (r : RequestLine) {state_ : ParserState} {headers : List Header}
    (hheaders : state_.inHeader = true → headers ≠ []) (hplain : ∀ x ∈ headers, x.Plain) :
    Sound (state_, r.request headers) :=
  r.toStartLine.sound hheaders (fun _ => ⟨Option.some_ne_none _, Option.some_ne_none _⟩) hplain

theorem Header.plain_concat {headers : List Header} {name : Bytes}
    (hplain : ∀ x ∈ headers, x.Plain) (hne : name ≠ []) (hname : ∀ b ∈ name, TokenByte b) :
    ∀ x ∈ headers ++ [⟨name, []⟩], x.Plain := by
  intro x hx
  rcases List.mem_append.mp hx with hold | hnew
  · exact hplain x hold
  · rw [List.mem_singleton.mp hnew]
    exact ⟨hne, hname, fun b hb => absurd hb List.not_mem_nil⟩

/-- One case for each place. -/
theorem Position.sound {c : Bytes} {s : ParserState × Request} (h : Position c s) : Sound s := by
  have hnil : ∀ x ∈ ([] : List Header), x.Plain := fun x hx => absurd hx List.not_mem_nil
  have hversion : ∀ v w : Int, some v ≠ none ∧ some w ≠ none := fun v w =>
    ⟨Option.some_ne_none v, Option.some_ne_none w⟩
  cases h with
  | methodStart =>
      exact ⟨Bool.noConfusion, Bool.noConfusion, fun hne => absurd rfl hne,
        fun _ hb => absurd hb List.not_mem_nil, fun _ hb => absurd hb List.not_mem_nil, hnil⟩
  | method hne hm =>
      exact ⟨Bool.noConfusion, Bool.noConfusion, fun _ => hne, hm,
        fun _ hb => absurd hb List.not_mem_nil, hnil⟩
  | uri s => exact s.sound_before rfl
  | httpVersionH s => exact s.sound_before rfl
  | httpVersionT1 s => exact s.sound_before rfl
  | httpVersionT2 s => exact s.sound_before rfl
  | httpVersionP s => exact s.sound_before rfl
  | httpVersionSlash s => exact s.sound_before rfl
  | httpVersionMajorStart s => exact s.sound Bool.noConfusion (fun _ => hversion _ _) hnil
  | httpVersionMajor s => exact s.sound Bool.noConfusion (fun _ => hversion _ _) hnil
  | httpVersionMinorStart s => exact s.sound Bool.noConfusion (fun _ => hversion _ _) hnil
  | httpVersionMinor r => exact r.sound Bool.noConfusion hnil
  | expectingNewline1 r => exact r.sound Bool.noConfusion hnil
  | headerLineStart r h => exact r.sound Bool.noConfusion h.headers_plain
  | headerLws r h hlines =>
      exact r.sound (fun _ hnone => hlines (h.headers_eq_nil_iff.mp hnone)) h.headers_plain
  | headerName r h hne hname =>
      exact r.sound (fun _ => List.append_ne_nil_of_right_ne_nil _ (List.cons_ne_nil _ _))
        (Header.plain_concat h.headers_plain hne hname)
  | spaceBeforeHeaderValue r h hne hname =>
      exact r.sound (fun _ => List.append_ne_nil_of_right_ne_nil _ (List.cons_ne_nil _ _))
        (Header.plain_concat h.headers_plain hne hname)
  | headerValue r h hl hstart =>
      exact r.sound (fun _ => HeaderLine.apply_ne_nil fun hnone =>
        hstart (h.headers_eq_nil_iff.mp hnone)) (HeaderLine.apply_plain hl h.headers_plain)
  | expectingNewline2 r h hl hstart =>
      exact r.sound (fun _ => HeaderLine.apply_ne_nil fun hnone =>
        hstart (h.headers_eq_nil_iff.mp hnone)) (HeaderLine.apply_plain hl h.headers_plain)
  | expectingNewline3 r h => exact r.sound Bool.noConfusion h.headers_plain

/-! ### The calls of `consume` -/

/-- A call of `consume`: the parser and the request before it, and its byte. -/
structure ConsumeCall where
  before : ParserState × Request
  input : Byte
  deriving DecidableEq

def ConsumeCall.after (c : ConsumeCall) : ParserState × Request :=
  (consume c.before.1 c.before.2 c.input).2

/-- The calls of one `parse`. -/
def parseCalls (s : ParserState × Request) : Bytes → List ConsumeCall
  | [] => []
  | input :: rest =>
      ⟨s, input⟩ ::
        match consume s.1 s.2 input with
        | (.indeterminate, s') => parseCalls s' rest
        | _ => []

/-- The calls of `parse` on one piece after the other, whatever it returned for the last. -/
def chunkCalls (s : ParserState × Request) : List Bytes → List ConsumeCall
  | [] => []
  | chunk :: chunks =>
      parseCalls s chunk ++
        chunkCalls ((parse s.1 s.2 chunk).state_, (parse s.1 s.2 chunk).req) chunks

/-- The headers that a call takes the last of. -/
def ConsumeCall.backAccess (c : ConsumeCall) : Option (List Header) :=
  match c.before.1 with
  | .headerLineStart =>
      if c.input = chr '\r' then none
      else if !c.before.2.headers.isEmpty && (c.input = chr ' ' || c.input = chr '\t') then none
      else if notToken c.input then none
      else some (c.before.2.headers ++ [{}])
  | .headerLws =>
      if c.input = chr '\r' then none
      else if c.input = chr ' ' || c.input = chr '\t' then none
      else if isCtl (charVal c.input) then none
      else some c.before.2.headers
  | .headerName =>
      if c.input = chr ':' then none
      else if notToken c.input then none
      else some c.before.2.headers
  | .headerValue =>
      if c.input = chr '\r' then none
      else if isCtl (charVal c.input) then none
      else some c.before.2.headers
  | _ => none

/-- A call that takes the last header pushes its byte to the name or the value of it, and no other
call changes the headers. -/
theorem ConsumeCall.headers_eq (c : ConsumeCall) :
    match c.backAccess with
    | none => c.after.2.headers = c.before.2.headers
    | some headers =>
        c.after.2.headers = pushName headers c.input ∨
          c.after.2.headers = pushValue headers c.input := by
  obtain ⟨⟨state_, req⟩, input⟩ := c
  cases state_ <;> simp only [ConsumeCall.backAccess, ConsumeCall.after, consume, expect] <;>
    split_ifs <;> simp

/-- A decision leaves the parser and the request as they were. -/
theorem consume_decided {s : ParserState × Request} {input : Byte}
    (h : (consume s.1 s.2 input).1 ≠ .indeterminate) : (consume s.1 s.2 input).2 = s := by
  obtain ⟨state_, req⟩ := s
  cases state_ <;> simp only [consume, expect] at h ⊢ <;> split_ifs at h ⊢ <;>
    first | rfl | exact absurd rfl h

theorem parseCalls_invariant {I : ParserState × Request → Prop}
    (hstep : ∀ s b, I s → I (consume s.1 s.2 b).2) {s : ParserState × Request} (hs : I s)
    (xs : Bytes) : (∀ c ∈ parseCalls s xs, I c.before) ∧
      I ((parse s.1 s.2 xs).state_, (parse s.1 s.2 xs).req) := by
  induction xs generalizing s with
  | nil => exact ⟨fun c hc => absurd hc List.not_mem_nil, hs⟩
  | cons input rest ih =>
      have hnext := hstep s input hs
      rcases hconsume : consume s.1 s.2 input with ⟨result, state', req'⟩
      rw [hconsume] at hnext
      simp only [parseCalls, parse, hconsume, List.forall_mem_cons]
      cases result with
      | indeterminate => exact ⟨⟨hs, (ih hnext).1⟩, (ih hnext).2⟩
      | good => exact ⟨⟨hs, fun c hc => absurd hc List.not_mem_nil⟩, hnext⟩
      | bad => exact ⟨⟨hs, fun c hc => absurd hc List.not_mem_nil⟩, hnext⟩

theorem chunkCalls_invariant {I : ParserState × Request → Prop}
    (hstep : ∀ s b, I s → I (consume s.1 s.2 b).2) {s : ParserState × Request} (hs : I s)
    (chunks : List Bytes) : ∀ c ∈ chunkCalls s chunks, I c.before := by
  induction chunks generalizing s with
  | nil => exact fun c hc => absurd hc List.not_mem_nil
  | cons chunk chunks ih =>
      obtain ⟨hcalls, hnext⟩ := parseCalls_invariant hstep hs chunk
      intro c hc
      rcases List.mem_append.mp hc with hfirst | hlater
      · exact hcalls c hfirst
      · exact ih hnext c hlater

/-! ### The invariant -/

/-- The parser is at some place in the grammar. -/
def Located (s : ParserState × Request) : Prop := ∃ c, Position c s

theorem Located.consume {s : ParserState × Request} (h : Located s) (input : Byte) :
    Located (consume s.1 s.2 input).2 := by
  obtain ⟨c, hposition⟩ := h
  rcases hconsume : Http.consume s.1 s.2 input with ⟨result, s'⟩
  by_cases hresult : result = .indeterminate
  · subst hresult
    exact ⟨c ++ [input], hposition.step (parserStep_eq.mpr hconsume)⟩
  · have hsame : (Http.consume s.1 s.2 input).2 = s :=
      consume_decided (by rw [hconsume]; exact hresult)
    rw [hconsume] at hsame
    rw [show s' = s from hsame]
    exact ⟨c, hposition⟩

/-- The strings of a request. -/
def Request.fields (req : Request) : List Bytes :=
  req.method :: req.uri :: req.headers.flatMap fun h => [h.name, h.value]

/-- No field of a sound request holds a control byte. -/
theorem Sound.not_ctl {s : ParserState × Request} (h : Sound s) :
    ∀ f ∈ s.2.fields, ∀ b ∈ f, ¬ Ctl b := by
  intro f hf b hb
  simp only [Request.fields, List.mem_cons, List.mem_flatMap, List.not_mem_nil, or_false] at hf
  rcases hf with rfl | rfl | ⟨x, hx, rfl | rfl⟩
  · exact (h.method_token b hb).not_ctl
  · exact (h.uri_byte b hb).1
  · exact ((h.headers_plain x hx).2.1 b hb).not_ctl
  · exact (h.headers_plain x hx).2.2 b hb

/-- What holds of a call of `consume`: the invariant before and after it, a last header where one is
taken, an assigned version where it is read, and no line end or NUL in what it stores. -/
structure ConsumeCall.Sound (c : ConsumeCall) : Prop where
  before : Http.Sound c.before
  after : Http.Sound c.after
  back : ∀ headers, c.backAccess = some headers → headers ≠ []
  version : ∀ e, evaluation c.before.1 c.before.2 c.input = some e → e.version ≠ none
  clean : ∀ f ∈ c.after.2.fields, chr '\r' ∉ f ∧ chr '\n' ∉ f ∧ (0 : Byte) ∉ f

theorem Sound.back_ne_nil {c : ConsumeCall} (h : Sound c.before) {headers : List Header}
    (hback : c.backAccess = some headers) : headers ≠ [] := by
  obtain ⟨⟨state_, req⟩, input⟩ := c
  cases state_ with
  | headerLineStart =>
      simp only [ConsumeCall.backAccess] at hback
      split_ifs at hback
      cases hback
      exact List.append_ne_nil_of_right_ne_nil _ (List.cons_ne_nil _ _)
  | headerLws =>
      simp only [ConsumeCall.backAccess] at hback
      split_ifs at hback
      cases hback
      exact h.headers_ne rfl
  | headerName =>
      simp only [ConsumeCall.backAccess] at hback
      split_ifs at hback
      cases hback
      exact h.headers_ne rfl
  | headerValue =>
      simp only [ConsumeCall.backAccess] at hback
      split_ifs at hback
      cases hback
      exact h.headers_ne rfl
  | _ => cases hback

theorem Sound.version_ne_none {s : ParserState × Request} (h : Sound s) {input : Byte}
    {e : Evaluation} (he : evaluation s.1 s.2 input = some e) : e.version ≠ none := by
  obtain ⟨state_, req⟩ := s
  have hstate : state_.beforeVersion = false := by
    cases state_ <;> first | rfl | cases he
  obtain ⟨hmajor, hminor⟩ := h.version hstate
  obtain ⟨next, ⟨-, hread⟩ | ⟨-, hread⟩⟩ := consume_evaluation he
  · rw [hread]
    exact hmajor
  · rw [hread]
    exact hminor

/-- The invariant of the parser: for any pieces of any stream. -/
theorem parser_invariant (chunks : List Bytes) :
    ∀ c ∈ chunkCalls (.methodStart, {}) chunks, c.Sound := by
  intro c hc
  have hlocated : Located c.before :=
    chunkCalls_invariant (fun s b hs => hs.consume b) ⟨[], Position.methodStart⟩ chunks c hc
  obtain ⟨read, hbefore⟩ := hlocated
  obtain ⟨read', hafter⟩ := Located.consume ⟨read, hbefore⟩ c.input
  refine ⟨hbefore.sound, hafter.sound, fun headers hback => hbefore.sound.back_ne_nil hback,
    fun e he => hbefore.sound.version_ne_none he, fun f hf => ?_⟩
  have hclean := hafter.sound.not_ctl f hf
  exact ⟨fun hmem => hclean _ hmem (by decide), fun hmem => hclean _ hmem (by decide),
    fun hmem => hclean _ hmem (by decide)⟩

/-- The call that goes on with a folded value, in the second of two pieces. -/
theorem parser_invariant_fold : ConsumeCall.Sound ⟨(.headerLws,
    { method := ascii "G", uri := ascii "/", httpVersionMajor := some 1, httpVersionMinor := some 0,
      headers := [⟨ascii "A", ascii "x"⟩] }), chr 'y'⟩ :=
  parser_invariant [ascii "G / HTTP/1.0\r\nA: x\r\n ", ascii " y\r\n\r\n"] _ (by decide +kernel)

/-! ### The request of a connection -/

theorem onParsed_leaves (site : Site) (c : Connection) (r : ParseResult) :
    (c.onParsed site r).requestParser_ = r.state_ ∧ (c.onParsed site r).request_ = r.req := by
  unfold Connection.onParsed
  cases r.result with
  | good => exact ⟨rfl, rfl⟩
  | bad => exact ⟨rfl, rfl⟩
  | indeterminate => exact ⟨rfl, rfl⟩

theorem onWrite_fst (c : Connection) (r : Completion Bytes) : (c.onWrite r).1 = c := by
  cases r with
  | success bytes => rfl
  | aborted => rfl
  | failed => rfl

/-- A completion parses what it has read, or leaves the parser and the request alone. -/
theorem step_parses {site : Site} {c d : Connection} {e : Nat × Completion Bytes}
    (h : c.step site e = some d) :
    (d.requestParser_ = c.requestParser_ ∧ d.request_ = c.request_) ∨
      ∃ bytes, d.requestParser_ = (parse c.requestParser_ c.request_ bytes).state_ ∧
        d.request_ = (parse c.requestParser_ c.request_ bytes).req := by
  obtain ⟨k, r⟩ := e
  obtain ⟨⟨d', stopped⟩, hcomplete, rfl⟩ := Option.map_eq_some_iff.mp h
  have hstop : (if stopped = true then d'.stop else d').requestParser_ = d'.requestParser_ ∧
      (if stopped = true then d'.stop else d').request_ = d'.request_ := by
    cases stopped with
    | true => exact ⟨rfl, rfl⟩
    | false => exact ⟨rfl, rfl⟩
  rw [hstop.1, hstop.2]
  simp only [Connection.complete] at hcomplete
  split at hcomplete
  next socket hfinish =>
    split_ifs at hcomplete
    cases r with
    | success bytes =>
        cases hcomplete
        exact Or.inr ⟨_, onParsed_leaves site _ _⟩
    | aborted =>
        cases hcomplete
        exact Or.inl ⟨rfl, rfl⟩
    | failed =>
        cases hcomplete
        exact Or.inl ⟨rfl, rfl⟩
  next buffers socket hfinish =>
    have hsame : { c with socket_ := socket } = d' := by
      rw [← onWrite_fst { c with socket_ := socket } r]
      exact congrArg Prod.fst (Option.some.inj hcomplete)
    rw [← hsame]
    exact Or.inl ⟨rfl, rfl⟩
  next => cases hcomplete

/-- Whatever a connection has received, its parser and its request are sound. -/
theorem connection_sound {site : Site} {c : Connection}
    (h : Reachable (Connection.step site) Connection.started c) :
    Sound (c.requestParser_, c.request_) := by
  have hlocated : Located (c.requestParser_, c.request_) := by
    refine h.invariant (I := fun c : Connection => Located (c.requestParser_, c.request_))
      (fun c e d hc hstep => ?_) ⟨[], Position.methodStart⟩
    rcases step_parses hstep with ⟨hstate, hreq⟩ | ⟨bytes, hstate, hreq⟩
    · rw [hstate, hreq]
      exact hc
    · rw [hstate, hreq]
      exact (parseCalls_invariant (I := Located) (fun s b hs => hs.consume b) hc bytes).2
  obtain ⟨read, hposition⟩ := hlocated
  exact hposition.sound

end AsioTest.Http
