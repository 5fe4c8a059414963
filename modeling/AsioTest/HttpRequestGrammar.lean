import AsioTest.HttpRequestParser
import Mathlib.Data.List.ModifyLast
import Mathlib.Tactic.Ring
import Mathlib.Tactic.SplitIfs

/-!
The grammar of request heads and what a request head means. A request head is kept as the pieces
it is written from, each with the condition on its bytes, so that every value of these types is
a sentence; `render` writes it out and `request` is what a reader should get from it.
-/

namespace AsioTest.Http

open ByteStrings

/-! ### Byte classes -/

def Ctl (b : Byte) : Prop := b.toNat ≤ 31 ∨ b.toNat = 127

def Tspecial (b : Byte) : Prop := b ∈ tspecials.map chr

def TokenByte (b : Byte) : Prop := b.toNat ≤ 127 ∧ ¬ Ctl b ∧ ¬ Tspecial b

/-- A byte of a header value; the bytes from 128 on are among them. -/
def Vchar (b : Byte) : Prop := ¬ Ctl b

def TargetByte (b : Byte) : Prop := ¬ Ctl b ∧ b ≠ chr ' '

def Blank (b : Byte) : Prop := b = chr ' ' ∨ b = chr '\t'

instance (b : Byte) : Decidable (Ctl b) := inferInstanceAs (Decidable (_ ∨ _))
instance (b : Byte) : Decidable (Tspecial b) := inferInstanceAs (Decidable (_ ∈ _))
instance (b : Byte) : Decidable (TokenByte b) := inferInstanceAs (Decidable (_ ∧ _))
instance (b : Byte) : Decidable (Vchar b) := inferInstanceAs (Decidable (¬ _))
instance (b : Byte) : Decidable (TargetByte b) := inferInstanceAs (Decidable (_ ∧ _))
instance (b : Byte) : Decidable (Blank b) := inferInstanceAs (Decidable (_ ∨ _))

theorem charVal_of_lt {b : Byte} (h : b.toNat < 128) : charVal b = b.toNat := if_pos h

theorem charVal_neg {b : Byte} (h : ¬ b.toNat < 128) : charVal b < 0 := by
  have hb := b.toNat_lt
  rw [charVal, if_neg h]
  omega

theorem charVal_eq_iff {b : Byte} {t : Char} (ht : t.toNat < 128) :
    charVal b = t.toNat ↔ chr t = b := by
  have hchr : (chr t).toNat = t.toNat := by
    rw [chr, Char.toUInt8, UInt32.toNat_toUInt8]
    exact Nat.mod_eq_of_lt (show t.toNat < 256 by omega)
  rw [← UInt8.toNat_inj, hchr]
  by_cases hb : b.toNat < 128
  · rw [charVal_of_lt hb]
    omega
  · have := charVal_neg hb
    omega

theorem isCtl_charVal (b : Byte) : isCtl (charVal b) = true ↔ Ctl b := by
  simp only [isCtl, Ctl, Bool.or_eq_true, Bool.and_eq_true, decide_eq_true_eq]
  by_cases hb : b.toNat < 128
  · rw [charVal_of_lt hb]
    omega
  · have := charVal_neg hb
    omega

theorem isTspecial_charVal (b : Byte) : isTspecial (charVal b) = true ↔ Tspecial b := by
  have hall : (tspecials.all fun t => t.toNat < 128) = true := rfl
  have hascii : ∀ t ∈ tspecials, t.toNat < 128 := fun t ht =>
    of_decide_eq_true (List.all_eq_true.mp hall t ht)
  simp only [isTspecial, List.any_eq_true, decide_eq_true_eq, Tspecial, List.mem_map]
  exact exists_congr fun t => and_congr_right fun ht => charVal_eq_iff (hascii t ht)

theorem isChar_charVal (b : Byte) : isChar (charVal b) = true ↔ b.toNat ≤ 127 := by
  simp only [isChar, Bool.and_eq_true, decide_eq_true_eq]
  by_cases hb : b.toNat < 128
  · rw [charVal_of_lt hb]
    omega
  · have := charVal_neg hb
    omega

theorem notToken_iff (b : Byte) : notToken b = true ↔ ¬ TokenByte b := by
  rw [notToken, Bool.or_eq_true, Bool.or_eq_true, Bool.not_eq_true', ← Bool.not_eq_true,
    isChar_charVal, isCtl_charVal, isTspecial_charVal, TokenByte]
  tauto

theorem isCtl_eq_false {b : Byte} (h : ¬ Ctl b) : isCtl (charVal b) = false := by
  rw [← Bool.not_eq_true, isCtl_charVal]
  exact h

theorem notToken_eq_false {b : Byte} (h : TokenByte b) : notToken b = false := by
  rw [← Bool.not_eq_true, notToken_iff, not_not]
  exact h

theorem isDigit_charVal (b : Byte) : isDigit (charVal b) = true ↔ IsDigit b := by
  simp only [isDigit, IsDigit, Bool.and_eq_true, decide_eq_true_eq]
  by_cases hb : b.toNat < 128
  · rw [charVal_of_lt hb]
    omega
  · have := charVal_neg hb
    omega

theorem TokenByte.not_ctl {b : Byte} (h : TokenByte b) : ¬ Ctl b := h.2.1

theorem TokenByte.ne_of_tspecial {b : Byte} (h : TokenByte b) {c : Char}
    (hc : c ∈ tspecials) : b ≠ chr c := by
  rintro rfl
  exact h.2.2 (List.mem_map_of_mem hc)

theorem ne_of_not_ctl {b c : Byte} (h : ¬ Ctl b) (hc : Ctl c) : b ≠ c := by
  rintro rfl
  exact h hc

theorem digit_ne_chr {b : Byte} (h : IsDigit b) {c : Char} (hc : ¬ IsDigit (chr c)) :
    b ≠ chr c := by
  rintro rfl
  exact hc h

/-! ### Version numbers -/

theorem decimalValue_append_digit (ds : Bytes) (b : Byte) :
    decimalValue (ds ++ [b]) = 10 * decimalValue ds + (b.toNat - 48) := by
  rw [decimalValue, List.foldl_append]
  rfl

/-- A version field after reading `ds`: its decimal value. One that an `int` does not hold wraps
here; the arithmetic of the source is undefined from there on. -/
def versionOf (ds : Bytes) : Int := wrapInt (decimalValue ds)

theorem addDigit_versionOf (ds : Bytes) {b : Byte} (hb : IsDigit b) :
    addDigit (versionOf ds) b = versionOf (ds ++ [b]) := by
  have hlt : b.toNat < 128 := Nat.lt_of_le_of_lt hb.2 (by decide)
  have hge := hb.1
  simp only [addDigit, versionOf, wrapInt, decimalValue_append_digit, charVal_of_lt hlt,
    Int.bmod_mul_bmod, Int.bmod_add_bmod, Int.bmod_sub_bmod]
  congr 1
  push_cast [hge]
  ring

/-! ### Sentences -/

/-- Method and target, `method SP target`. -/
structure StartLine where
  method : Bytes
  target : Bytes
  method_ne : method ≠ []
  method_token : ∀ b ∈ method, TokenByte b
  target_byte : ∀ b ∈ target, TargetByte b

def StartLine.text (s : StartLine) : Bytes := s.method ++ chr ' ' :: s.target

def StartLine.request (s : StartLine) : Request := { method := s.method, uri := s.target }

/-- A request line without its line end. -/
structure RequestLine extends StartLine where
  major : Bytes
  minor : Bytes
  major_ne : major ≠ []
  major_digit : ∀ b ∈ major, IsDigit b
  minor_ne : minor ≠ []
  minor_digit : ∀ b ∈ minor, IsDigit b

def RequestLine.text (r : RequestLine) : Bytes :=
  r.toStartLine.text ++ ascii " HTTP/" ++ r.major ++ ascii "." ++ r.minor

def RequestLine.request (r : RequestLine) (headers : List Header) : Request where
  method := r.method
  uri := r.target
  httpVersionMajor := some (versionOf r.major)
  httpVersionMinor := some (versionOf r.minor)
  headers := headers

def crlf : Bytes := [chr '\r', chr '\n']

inductive HeaderLine where
  | field (name value : Bytes)
  | continuation (blanks text : Bytes)

def HeaderLine.WellFormed : HeaderLine → Prop
  | field name value => name ≠ [] ∧ (∀ b ∈ name, TokenByte b) ∧ ∀ b ∈ value, Vchar b
  | continuation blanks text =>
      blanks ≠ [] ∧ (∀ b ∈ blanks, Blank b) ∧ (∀ b ∈ text, Vchar b) ∧ text.head? ≠ some (chr ' ')

def HeaderLine.IsField : HeaderLine → Prop
  | field _ _ => True
  | continuation _ _ => False

/-- A header line without its line end. -/
def HeaderLine.text : HeaderLine → Bytes
  | field name value => name ++ ascii ": " ++ value
  | continuation blanks text => blanks ++ text

/-- What a line adds to the headers: a field is a new header, the text of a continuation line is
appended to the value of the last one. -/
def HeaderLine.apply (headers : List Header) : HeaderLine → List Header
  | field name value => headers ++ [⟨name, value⟩]
  | continuation _ text => headers.modifyLast fun h => { h with value := h.value ++ text }

/-- Header lines; a continuation line has a field line before it. -/
structure HeaderBlock where
  lines : List HeaderLine
  wellFormed : ∀ l ∈ lines, l.WellFormed
  starts_field : ∀ l, lines.head? = some l → l.IsField

def HeaderBlock.text (h : HeaderBlock) : Bytes := h.lines.flatMap fun l => l.text ++ crlf

def HeaderBlock.headers (h : HeaderBlock) : List Header := h.lines.foldl HeaderLine.apply []

structure RequestHead where
  line : RequestLine
  block : HeaderBlock

def RequestHead.render (h : RequestHead) : Bytes :=
  h.line.text ++ crlf ++ h.block.text ++ crlf

def RequestHead.request (h : RequestHead) : Request := h.line.request h.block.headers

/-- The language of request heads. -/
def requestHeads : Language Byte := Set.range RequestHead.render

/-! ### Growing a header block -/

def HeaderBlock.empty : HeaderBlock := ⟨[], by simp, by simp⟩

def HeaderBlock.push (h : HeaderBlock) (l : HeaderLine) (hl : l.WellFormed)
    (hstart : h.lines = [] → l.IsField) : HeaderBlock where
  lines := h.lines ++ [l]
  wellFormed := by
    intro m hm
    rcases List.mem_append.mp hm with hm | hm
    · exact h.wellFormed m hm
    · rwa [List.mem_singleton.mp hm]
  starts_field := by
    intro m hm
    cases hlines : h.lines with
    | nil =>
        rw [hlines] at hm
        cases hm
        exact hstart hlines
    | cons first others =>
        rw [hlines] at hm
        exact h.starts_field m (by rw [hlines]; exact hm)

@[simp] theorem HeaderBlock.empty_text : HeaderBlock.empty.text = [] := rfl

@[simp] theorem HeaderBlock.empty_headers : HeaderBlock.empty.headers = [] := rfl

variable (h : HeaderBlock) (l : HeaderLine) (hl : l.WellFormed) (hstart : h.lines = [] → l.IsField)

@[simp] theorem HeaderBlock.push_text :
    (h.push l hl hstart).text = h.text ++ (l.text ++ crlf) := by
  simp [HeaderBlock.text, HeaderBlock.push]

@[simp] theorem HeaderBlock.push_headers :
    (h.push l hl hstart).headers = l.apply h.headers := by
  simp [HeaderBlock.headers, HeaderBlock.push]

theorem HeaderLine.apply_ne_nil {headers : List Header} {l : HeaderLine}
    (h : headers = [] → l.IsField) : l.apply headers ≠ [] := by
  cases l with
  | field name value => simp [HeaderLine.apply]
  | continuation blanks text =>
      rcases List.eq_nil_or_concat headers with hnil | ⟨init, last, rfl⟩
      · exact (h hnil).elim
      · simp [HeaderLine.apply, List.modifyLast_concat]

theorem foldl_apply_ne_nil {headers : List Header} (hne : headers ≠ []) (lines : List HeaderLine) :
    lines.foldl HeaderLine.apply headers ≠ [] := by
  induction lines generalizing headers with
  | nil => exact hne
  | cons l lines ih => exact ih (HeaderLine.apply_ne_nil fun hnil => absurd hnil hne)

/-- A block has a header as soon as it has a line. -/
theorem HeaderBlock.headers_eq_nil_iff : h.headers = [] ↔ h.lines = [] := by
  constructor
  · intro hnil
    cases hlines : h.lines with
    | nil => rfl
    | cons first others =>
        rw [HeaderBlock.headers, hlines, List.foldl_cons] at hnil
        exact absurd hnil (foldl_apply_ne_nil
          (HeaderLine.apply_ne_nil fun _ => h.starts_field first (by rw [hlines]; rfl)) others)
  · intro hlines
    rw [HeaderBlock.headers, hlines]
    rfl

end AsioTest.Http
