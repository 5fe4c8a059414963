import AsioTest.ByteStrings

/-!
How a receiver frames an HTTP message: the lines up to the first empty one, the fields they hold,
and the length of what stands behind the empty line.
-/

namespace MessageFraming

open ByteStrings

/-- Reads lines up to the empty one; `line` is what has been read of the current line. -/
def readHead (lines : List Bytes) (line : Bytes) : Bytes → Option (List Bytes × Bytes)
  | 13 :: 10 :: rest =>
      if line = [] then some (lines, rest) else readHead (lines ++ [line]) [] rest
  | b :: rest => readHead lines (line ++ [b]) rest
  | [] => none

def toLower (s : Bytes) : Bytes := s.map fun b => if 65 ≤ b && b ≤ 90 then b + 32 else b

def fieldName (line : Bytes) : Bytes := line.takeWhile (· ≠ chr ':')

/-- The bytes behind the colon and the blanks after it. -/
def fieldValue (line : Bytes) : Bytes :=
  ((line.dropWhile (· ≠ chr ':')).drop 1).dropWhile fun b => b = chr ' ' || b = chr '\t'

/-- The values of the fields with a name, which is compared without case. -/
def fieldValues (name : Bytes) (lines : List Bytes) : List Bytes :=
  (lines.filter fun line => toLower (fieldName line) = toLower name).map fieldValue

/-- The block of header lines is complete, and behind the start line exactly one of them is a
`Content-Length`, with the number of bytes that follow the block. -/
def CorrectlyFramed (wire : Bytes) : Prop :=
  ∃ start fields body, readHead [] [] wire = some (start :: fields, body) ∧
    fieldValues (ascii "Content-Length") fields = [decimal body.length]

def crlf : Bytes := [chr '\r', chr '\n']

/-! ### Reading what was written line by line -/

theorem readHead_cons {b : Byte} (hb : b ≠ chr '\r') (lines : List Bytes) (line rest : Bytes) :
    readHead lines line (b :: rest) = readHead lines (line ++ [b]) rest := by
  rw [readHead.eq_2]
  rintro _ rfl rfl
  exact hb rfl

theorem readHead_line {text : Bytes} (htext : chr '\r' ∉ text) (lines : List Bytes)
    (line rest : Bytes) (hne : line ++ text ≠ []) :
    readHead lines line (text ++ crlf ++ rest) = readHead (lines ++ [line ++ text]) [] rest := by
  induction text generalizing line with
  | nil =>
      rw [List.append_nil] at hne ⊢
      exact if_neg hne
  | cons b text ih =>
      have hb : b ≠ chr '\r' := fun h => htext (h ▸ List.mem_cons_self)
      have hline : line ++ b :: text = line ++ [b] ++ text := by simp
      rw [List.cons_append, List.cons_append, readHead_cons hb, hline]
      exact ih (fun h => htext (List.mem_cons_of_mem b h)) _ (hline ▸ hne)

/-- Lines without a carriage return are read back, and the rest is what follows the empty line. -/
theorem readHead_lines {texts : List Bytes} (htexts : ∀ text ∈ texts, text ≠ [] ∧ chr '\r' ∉ text)
    (lines : List Bytes) (rest : Bytes) :
    readHead lines [] (texts.flatMap (· ++ crlf) ++ crlf ++ rest) =
      some (lines ++ texts, rest) := by
  induction texts generalizing lines with
  | nil =>
      rw [List.append_nil]
      rfl
  | cons text texts ih =>
      obtain ⟨hne, hcr⟩ := htexts text List.mem_cons_self
      rw [List.flatMap_cons, List.append_assoc, List.append_assoc,
        readHead_line hcr lines [] _ hne, ← List.append_assoc,
        ih fun t ht => htexts t (List.mem_cons_of_mem text ht), List.append_assoc]
      rfl

/-! ### Fields written as name, colon, blank and value -/

theorem fieldName_text {name : Bytes} (h : chr ':' ∉ name) (value : Bytes) :
    fieldName (name ++ ascii ": " ++ value) = name := by
  rw [fieldName, List.append_assoc, List.takeWhile_append_of_pos]
  · exact List.append_nil name
  · intro b hb
    rw [decide_eq_true_eq]
    rintro rfl
    exact h hb

theorem fieldValue_text {name : Bytes} (h : chr ':' ∉ name) {value : Bytes}
    (hvalue : ∀ b ∈ value, IsDigit b) : fieldValue (name ++ ascii ": " ++ value) = value := by
  have hdrop : (name ++ ascii ": " ++ value).dropWhile (· ≠ chr ':') = ascii ": " ++ value := by
    rw [List.append_assoc, List.dropWhile_append_of_pos]
    · rfl
    · intro b hb
      rw [decide_eq_true_eq]
      rintro rfl
      exact h hb
  rw [fieldValue, hdrop]
  cases value with
  | nil => rfl
  | cons b value =>
      have hb := hvalue b List.mem_cons_self
      have hblank : (b = chr ' ' || b = chr '\t') = false := by
        rw [Bool.or_eq_false_iff, decide_eq_false_iff_not, decide_eq_false_iff_not]
        constructor
        · rintro rfl
          exact absurd hb (by decide)
        · rintro rfl
          exact absurd hb (by decide)
      change List.dropWhile _ (chr ' ' :: b :: value) = b :: value
      rw [List.dropWhile_cons_of_pos (by decide),
        List.dropWhile_cons_of_neg (by simpa using hblank)]

end MessageFraming
