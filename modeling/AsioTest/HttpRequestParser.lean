import AsioTest.ByteStrings
import AsioTest.IncrementalScan
import Mathlib.Data.Int.Basic
import Mathlib.Data.List.Defs

/-!
The request, its headers and `request_parser` of `http_server`, byte by byte. A byte is handed to
`consume` as a signed `char`; the class tests take the promoted `int`. The version fields of a
request are `none` until the parser assigns them, and what is computed from an unassigned field
stays `none`. Arithmetic on them wraps as 32-bit `int`.
-/

namespace AsioTest.Http

open ByteStrings IncrementalScan

structure Header where
  name : Bytes := []
  value : Bytes := []
  deriving DecidableEq

structure Request where
  method : Bytes := []
  uri : Bytes := []
  httpVersionMajor : Option Int := none
  httpVersionMinor : Option Int := none
  headers : List Header := []
  deriving DecidableEq

inductive ResultType where
  | good
  | bad
  | indeterminate
  deriving DecidableEq

inductive ParserState where
  | methodStart
  | method
  | uri
  | httpVersionH
  | httpVersionT1
  | httpVersionT2
  | httpVersionP
  | httpVersionSlash
  | httpVersionMajorStart
  | httpVersionMajor
  | httpVersionMinorStart
  | httpVersionMinor
  | expectingNewline1
  | headerLineStart
  | headerLws
  | headerName
  | spaceBeforeHeaderValue
  | headerValue
  | expectingNewline2
  | expectingNewline3
  deriving DecidableEq

/-- A byte as a signed `char`, promoted to `int`. -/
def charVal (b : Byte) : Int := if b.toNat < 128 then b.toNat else b.toNat - 256

def isChar (c : Int) : Bool := c ≥ 0 && c ≤ 127

def isCtl (c : Int) : Bool := (c ≥ 0 && c ≤ 31) || c = 127

def tspecials : List Char :=
  ['(', ')', '<', '>', '@', ',', ';', ':', '\\', '"', '/', '[', ']', '?', '=', '{', '}', ' ', '\t']

def isTspecial (c : Int) : Bool := tspecials.any fun t => c = t.toNat

def isDigit (c : Int) : Bool := c ≥ 48 && c ≤ 57

/-- The value of an `int` computation that may have overflowed. -/
def wrapInt (x : Int) : Int := x.bmod (2 ^ 32)

/-- `version * 10 + input - '0'`, from left to right. -/
def addDigit (version : Int) (input : Byte) : Int :=
  wrapInt (wrapInt (wrapInt (version * 10) + charVal input) - 48)

/-- `headers.back().name.push_back(input)`. -/
def pushName (headers : List Header) (input : Byte) : List Header :=
  headers.modifyLast fun h => { h with name := h.name ++ [input] }

/-- `headers.back().value.push_back(input)`. -/
def pushValue (headers : List Header) (input : Byte) : List Header :=
  headers.modifyLast fun h => { h with value := h.value ++ [input] }

/-- The test a method or header name byte must fail to be taken. -/
def notToken (input : Byte) : Bool :=
  !isChar (charVal input) || isCtl (charVal input) || isTspecial (charVal input)

/-- A state that waits for one fixed byte. -/
def expect (c : Char) (state_ next : ParserState) (req : Request) (input : Byte) :
    ResultType × ParserState × Request :=
  if input = chr c then (.indeterminate, next, req) else (.bad, state_, req)

def consume (state_ : ParserState) (req : Request) (input : Byte) :
    ResultType × ParserState × Request :=
  match state_ with
  | .methodStart =>
      if notToken input then (.bad, state_, req)
      else (.indeterminate, .method, { req with method := req.method ++ [input] })
  | .method =>
      if input = chr ' ' then (.indeterminate, .uri, req)
      else if notToken input then (.bad, state_, req)
      else (.indeterminate, state_, { req with method := req.method ++ [input] })
  | .uri =>
      if input = chr ' ' then (.indeterminate, .httpVersionH, req)
      else if isCtl (charVal input) then (.bad, state_, req)
      else (.indeterminate, state_, { req with uri := req.uri ++ [input] })
  | .httpVersionH => expect 'H' state_ .httpVersionT1 req input
  | .httpVersionT1 => expect 'T' state_ .httpVersionT2 req input
  | .httpVersionT2 => expect 'T' state_ .httpVersionP req input
  | .httpVersionP => expect 'P' state_ .httpVersionSlash req input
  | .httpVersionSlash =>
      if input = chr '/' then
        (.indeterminate, .httpVersionMajorStart,
          { req with httpVersionMajor := some 0, httpVersionMinor := some 0 })
      else (.bad, state_, req)
  | .httpVersionMajorStart =>
      if isDigit (charVal input) then
        (.indeterminate, .httpVersionMajor,
          { req with httpVersionMajor := req.httpVersionMajor.map (addDigit · input) })
      else (.bad, state_, req)
  | .httpVersionMajor =>
      if input = chr '.' then (.indeterminate, .httpVersionMinorStart, req)
      else if isDigit (charVal input) then
        (.indeterminate, state_,
          { req with httpVersionMajor := req.httpVersionMajor.map (addDigit · input) })
      else (.bad, state_, req)
  | .httpVersionMinorStart =>
      if isDigit (charVal input) then
        (.indeterminate, .httpVersionMinor,
          { req with httpVersionMinor := req.httpVersionMinor.map (addDigit · input) })
      else (.bad, state_, req)
  | .httpVersionMinor =>
      if input = chr '\r' then (.indeterminate, .expectingNewline1, req)
      else if isDigit (charVal input) then
        (.indeterminate, state_,
          { req with httpVersionMinor := req.httpVersionMinor.map (addDigit · input) })
      else (.bad, state_, req)
  | .expectingNewline1 => expect '\n' state_ .headerLineStart req input
  | .headerLineStart =>
      if input = chr '\r' then (.indeterminate, .expectingNewline3, req)
      else if !req.headers.isEmpty && (input = chr ' ' || input = chr '\t') then
        (.indeterminate, .headerLws, req)
      else if notToken input then (.bad, state_, req)
      else
        (.indeterminate, .headerName,
          { req with headers := pushName (req.headers ++ [{}]) input })
  | .headerLws =>
      if input = chr '\r' then (.indeterminate, .expectingNewline2, req)
      else if input = chr ' ' || input = chr '\t' then (.indeterminate, state_, req)
      else if isCtl (charVal input) then (.bad, state_, req)
      else (.indeterminate, .headerValue, { req with headers := pushValue req.headers input })
  | .headerName =>
      if input = chr ':' then (.indeterminate, .spaceBeforeHeaderValue, req)
      else if notToken input then (.bad, state_, req)
      else (.indeterminate, state_, { req with headers := pushName req.headers input })
  | .spaceBeforeHeaderValue => expect ' ' state_ .headerValue req input
  | .headerValue =>
      if input = chr '\r' then (.indeterminate, .expectingNewline2, req)
      else if isCtl (charVal input) then (.bad, state_, req)
      else (.indeterminate, state_, { req with headers := pushValue req.headers input })
  | .expectingNewline2 => expect '\n' state_ .headerLineStart req input
  | .expectingNewline3 =>
      if input = chr '\n' then (.good, state_, req) else (.bad, state_, req)

/-- The result of `parse` with the parser and the request it leaves; `rest` is what stands behind
the returned iterator. -/
structure ParseResult where
  result : ResultType
  rest : Bytes
  state_ : ParserState
  req : Request
  deriving DecidableEq

def parse (state_ : ParserState) (req : Request) : Bytes → ParseResult
  | [] => ⟨.indeterminate, [], state_, req⟩
  | input :: rest =>
      match consume state_ req input with
      | (.indeterminate, state', req') => parse state' req' rest
      | (result, state', req') => ⟨result, rest, state', req'⟩

/-! ### The parser as an incremental recogniser -/

def ResultType.verdict : ResultType → Verdict
  | .good => .accept
  | .bad => .reject
  | .indeterminate => .more

def ResultType.ofVerdict : Verdict → ResultType
  | .accept => .good
  | .reject => .bad
  | .more => .indeterminate

@[simp] theorem ofVerdict_verdict (r : ResultType) : ResultType.ofVerdict r.verdict = r := by
  cases r <;> rfl

@[simp] theorem verdict_ofVerdict (v : Verdict) : (ResultType.ofVerdict v).verdict = v := by
  cases v <;> rfl

/-- One `consume` call on the pair of the parser and the request it fills. -/
def parserStep (s : ParserState × Request) (input : Byte) : Verdict × (ParserState × Request) :=
  ((consume s.1 s.2 input).1.verdict, (consume s.1 s.2 input).2)

theorem parserStep_eq {s s' : ParserState × Request} {input : Byte} {v : Verdict} :
    parserStep s input = (v, s') ↔ consume s.1 s.2 input = (ResultType.ofVerdict v, s') := by
  rw [parserStep]
  constructor
  · intro h
    obtain ⟨rfl, rfl⟩ := Prod.mk.inj h
    rw [ofVerdict_verdict]
  · intro h
    rw [h, verdict_ofVerdict]

theorem parserStep_more {state_ state' : ParserState} {req req' : Request} {input : Byte}
    (h : consume state_ req input = (.indeterminate, state', req')) :
    parserStep (state_, req) input = (.more, (state', req')) := parserStep_eq.mpr h

theorem parse_eq_scan (state_ : ParserState) (req : Request) (s : Bytes) :
    parse state_ req s =
      ⟨ResultType.ofVerdict (scan parserStep (state_, req) s).verdict,
        (scan parserStep (state_, req) s).rest, (scan parserStep (state_, req) s).state.1,
        (scan parserStep (state_, req) s).state.2⟩ := by
  induction s generalizing state_ req with
  | nil => rfl
  | cons input rest ih =>
      rcases hconsume : consume state_ req input with ⟨result, state', req'⟩
      cases result with
      | indeterminate =>
          rw [scan_cons_more (parserStep_more hconsume), ← ih state' req']
          simp only [parse, hconsume]
      | good =>
          have hstep : parserStep (state_, req) input = (.accept, (state', req')) :=
            parserStep_eq.mpr hconsume
          rw [scan_cons_decided hstep (by decide)]
          simp only [parse, hconsume]
          rfl
      | bad =>
          have hstep : parserStep (state_, req) input = (.reject, (state', req')) :=
            parserStep_eq.mpr hconsume
          rw [scan_cons_decided hstep (by decide)]
          simp only [parse, hconsume]
          rfl

theorem scan_verdict (state_ : ParserState) (req : Request) (s : Bytes) :
    (scan parserStep (state_, req) s).verdict = (parse state_ req s).result.verdict := by
  rw [parse_eq_scan, verdict_ofVerdict]

theorem parse_eq_iff {state_ state' : ParserState} {req req' : Request} {s rest : Bytes}
    {result : ResultType} : parse state_ req s = ⟨result, rest, state', req'⟩ ↔
      scan parserStep (state_, req) s = ⟨result.verdict, (state', req'), rest⟩ := by
  rcases hscan : scan parserStep (state_, req) s with ⟨v, ⟨t, r⟩, rest'⟩
  rw [parse_eq_scan, hscan]
  cases v <;> cases result <;>
    simp [ResultType.ofVerdict, ResultType.verdict, and_comm, and_assoc]

/-! ### Input in pieces -/

/-- What is undecided after one piece is continued by the next. -/
theorem parse_append_indeterminate {state_ : ParserState} {req : Request} {s : Bytes}
    (h : (parse state_ req s).result = .indeterminate) (t : Bytes) :
    parse state_ req (s ++ t) =
      parse (parse state_ req s).state_ (parse state_ req s).req t := by
  have hmore : (scan parserStep (state_, req) s).verdict = .more := by
    rw [scan_verdict, h]
    rfl
  rw [parse_eq_scan, scan_append_of_more hmore, parse_eq_scan state_ req s, ← parse_eq_scan]

/-- What is decided stays decided, whatever follows. -/
theorem parse_append_decided {state_ : ParserState} {req : Request} {s : Bytes}
    (h : (parse state_ req s).result ≠ .indeterminate) (t : Bytes) :
    parse state_ req (s ++ t) =
      { parse state_ req s with rest := (parse state_ req s).rest ++ t } := by
  have hmore : (scan parserStep (state_, req) s).verdict ≠ .more := by
    rw [scan_verdict]
    cases hresult : (parse state_ req s).result with
    | indeterminate => exact absurd hresult h
    | good => exact nofun
    | bad => exact nofun
  rw [parse_eq_scan, scan_append_of_decided hmore, parse_eq_scan state_ req s]

theorem parse_rest_suffix (state_ : ParserState) (req : Request) (s : Bytes) :
    ∃ p, s = p ++ (parse state_ req s).rest ∧
      parse state_ req p = { parse state_ req s with rest := [] } := by
  rcases hparse : parse state_ req s with ⟨result, rest, state', req'⟩
  obtain ⟨p, hp, hscan⟩ := scan_split (parse_eq_iff.mp hparse)
  exact ⟨p, hp, parse_eq_iff.mpr hscan⟩

theorem parse_rest_length_le (state_ : ParserState) (req : Request) (s : Bytes) :
    (parse state_ req s).rest.length ≤ s.length := by
  obtain ⟨p, hp, -⟩ := parse_rest_suffix state_ req s
  have hlength := congrArg List.length hp
  rw [List.length_append] at hlength
  omega

theorem parse_indeterminate_rest {state_ : ParserState} {req : Request} {s : Bytes}
    (h : (parse state_ req s).result = .indeterminate) : (parse state_ req s).rest = [] := by
  rcases hparse : parse state_ req s with ⟨result, rest, state', req'⟩
  rw [hparse] at h
  subst h
  have hscan := parse_eq_iff.mp hparse
  have hrest := scan_more_rest (by rw [hscan]; rfl)
  rwa [hscan] at hrest

end AsioTest.Http
