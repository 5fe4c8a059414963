import AsioTest.ChatWireForm

/-!
What `decode_header` accepts. A header should be a number of at most 512 with blanks in front of it;
`atoi` also takes other white space and a sign, and reads as far as there are digits, so that most
other headers are accepted as well, as the number that they begin with or as zero.
-/

namespace AsioTest.Chat

open ByteStrings

/-- Blanks followed by the digits of a number to the end. -/
def Numeral (header : Bytes) (n : Nat) : Prop :=
  ∃ blanks digits, header = blanks ++ digits ∧ (∀ b ∈ blanks, b = chr ' ') ∧ digits ≠ [] ∧
    (∀ b ∈ digits, IsDigit b) ∧ decimalValue digits = n

/-- White space, a sign or none, and digits, of a number that is negative or too large; anything may
follow. -/
def OutOfRange (header : Bytes) : Prop :=
  ∃ blanks sign digits rest, header = blanks ++ sign ++ (digits ++ rest) ∧
    (∀ b ∈ blanks, isSpace b = true) ∧ (∀ b ∈ digits, IsDigit b) ∧
    ((sign = ascii "-" ∧ 0 < decimalValue digits) ∨
      ((sign = ascii "+" ∨ sign = []) ∧ maxBodyLength < decimalValue digits))

theorem Numeral.atoi {header : Bytes} {n : Nat} (h : Numeral header n) :
    atoi (cString header) = n := by
  obtain ⟨blanks, digits, rfl, hblank, hne, hdigit, rfl⟩ := h
  have hnul : (0 : Byte) ∉ blanks ++ digits := by
    rw [List.mem_append]
    rintro (hmem | hmem)
    · exact absurd (hblank 0 hmem) (by decide)
    · exact absurd (hdigit 0 hmem) (by decide)
  have hspace : ∀ b ∈ blanks, isSpace b = true := by
    intro b hb
    rw [hblank b hb]
    rfl
  obtain ⟨b, ds, rfl⟩ := List.exists_cons_of_ne_nil hne
  rw [cString_of_notMem hnul, atoi_skip hspace, atoi_digit ds (hdigit b List.mem_cons_self),
    leadingNumber_of_digits hdigit]

/-- A negative number is a large `size_t`. -/
theorem toSizeT_neg {n : Nat} (hpos : 0 < n) (h : n < 2 ^ 63) :
    maxBodyLength < toSizeT (-(n : Int)) := by
  show 512 < toSizeT (-(n : Int))
  rw [toSizeT]
  omega

/-- The digits a header of four bytes begins with, wherever they begin, are a small number. -/
theorem leadingNumber_header {header blanks t : Bytes} (hlength : header.length = headerLength)
    (h : cString header = blanks ++ t) : leadingNumber t < 10000 := by
  have hle : t.length ≤ headerLength := by
    have hprefix := (cString_isPrefix header).length_le
    rw [h, List.length_append, hlength] at hprefix
    omega
  exact (leadingNumber_lt t).trans_le (Nat.pow_le_pow_right (by decide) hle)

theorem zero_notMem_digits {digits : Bytes} (h : ∀ b ∈ digits, IsDigit b) :
    (0 : Byte) ∉ digits := fun hmem => absurd (h 0 hmem) (by decide)

/-- A header that is out of range is a large number as a `size_t`. -/
theorem OutOfRange.large {header : Bytes} (hlength : header.length = headerLength)
    (h : OutOfRange header) : maxBodyLength < toSizeT (atoi (cString header)) := by
  obtain ⟨blanks, sign, digits, rest, rfl, hspace, hdigit, hcases⟩ := h
  have hsign : (0 : Byte) ∉ sign := by
    rcases hcases with ⟨rfl, -⟩ | ⟨rfl | rfl, -⟩ <;> decide
  have hfront : (0 : Byte) ∉ blanks ++ sign := by
    rw [List.mem_append]
    exact not_or.mpr ⟨fun hmem => absurd (hspace 0 hmem) (by decide), hsign⟩
  have hread : cString (blanks ++ sign ++ (digits ++ rest)) =
      blanks ++ sign ++ (digits ++ cString rest) := by
    rw [cString_append hfront, cString_append (zero_notMem_digits hdigit)]
  have hsmall := leadingNumber_header hlength hread
  have hle := decimalValue_le_leadingNumber hdigit (cString rest)
  rw [hread, List.append_assoc, atoi_skip hspace]
  rcases hcases with ⟨rfl, hpos⟩ | ⟨hplus, hlarge⟩
  · exact toSizeT_neg (hpos.trans_le hle) (hsmall.trans (by decide))
  · have hvalue : atoi (sign ++ (digits ++ cString rest)) =
        leadingNumber (digits ++ cString rest) := by
      rcases hplus with rfl | rfl
      · rfl
      · cases digits with
        | nil => exact absurd hlarge (by decide)
        | cons b ds => exact atoi_digit _ (hdigit b List.mem_cons_self)
    rw [hvalue, toSizeT_natCast (hsmall.trans (by decide))]
    exact hlarge.trans_le hle

/-- A header that is a large number is out of range: what `atoi` takes shows it. -/
theorem outOfRange_of_large {header : Bytes} (hlength : header.length = headerLength)
    (hlarge : maxBodyLength < toSizeT (atoi (cString header))) : OutOfRange header := by
  obtain ⟨tail, htail⟩ := cString_isPrefix header
  obtain ⟨blanks, sign, u, hread, hspace, hcases⟩ := atoi_cases (cString header)
  have hsmall := leadingNumber_header hlength hread
  -- the digits that are read, and what follows them in the header
  refine ⟨blanks, sign, u.takeWhile fun b => IsDigit b,
    u.dropWhile (fun b => IsDigit b) ++ tail, ?_, hspace,
    fun b hb => isDigit_of_mem_takeWhile hb, ?_⟩
  · calc
      header = cString header ++ tail := htail.symm
      _ = blanks ++ sign ++ (u ++ tail) := by rw [hread, List.append_assoc]
      _ = _ := by rw [← List.append_assoc (u.takeWhile _), List.takeWhile_append_dropWhile]
  · rcases hcases with ⟨hminus, hvalue⟩ | ⟨hplus, hvalue⟩
    · refine Or.inl ⟨hminus, Nat.pos_of_ne_zero fun hzero => ?_⟩
      have hnone : leadingNumber u = 0 := hzero
      rw [hvalue, hnone] at hlarge
      exact absurd hlarge (by decide)
    · rw [hvalue, toSizeT_natCast (hsmall.trans (by decide))] at hlarge
      exact Or.inr ⟨hplus, hlarge⟩

namespace ChatMessage

variable (m : ChatMessage)

/-- `decode_header` accepts the header exactly when it is a number that is not too large, takes that
number for the length of the body, and leaves a length of zero otherwise. -/
structure DecodesLength : Prop where
  accepted : m.decodeHeader.2 = true ↔ ∃ n ≤ maxBodyLength, Numeral m.header n
  value : ∀ n ≤ maxBodyLength, Numeral m.header n → m.decodeHeader.1.bodyLength_ = n
  rejected : m.decodeHeader.2 = false → m.decodeHeader.1.bodyLength_ = 0

theorem decodeHeader_rejected (h : m.decodeHeader.2 = false) :
    m.decodeHeader.1.bodyLength_ = 0 := by
  rw [decodeHeader] at h ⊢
  split_ifs at h ⊢
  rfl

theorem decodeHeader_rejects : m.decodeHeader.2 = false ↔ OutOfRange m.header := by
  rw [← Bool.not_eq_true, decodeHeader_accepts, not_le]
  exact ⟨outOfRange_of_large m.header_length, OutOfRange.large m.header_length⟩

theorem headerValue_numeral {n : Nat} (h : Numeral m.header n) : m.headerValue = n := by
  obtain ⟨blanks, digits, hheader, -, -, hdigit, hn⟩ := id h
  have hsmall : n < 2 ^ 64 := by
    have hbound := leadingNumber_lt digits
    have hlength := congrArg List.length hheader
    rw [m.header_length, List.length_append] at hlength
    rw [leadingNumber_of_digits hdigit, hn] at hbound
    have hdigits : digits.length ≤ headerLength := by omega
    exact hbound.trans_le ((Nat.pow_le_pow_right (by decide) hdigits).trans (by decide))
  have hatoi : atoi (cString m.header) = n := h.atoi
  show toSizeT (atoi (cString m.header)) = n
  rw [hatoi, toSizeT_natCast hsmall]

variable {m} in
/-- A header that is accepted, but has a byte that is neither a blank nor a digit, or no digit. -/
theorem not_decodesLength (haccepted : m.decodeHeader.2 = true)
    (h : (∃ b ∈ m.header, b ≠ chr ' ' ∧ ¬ IsDigit b) ∨ ∀ b ∈ m.header, ¬ IsDigit b) :
    ¬ m.DecodesLength := by
  intro hdecodes
  obtain ⟨n, -, blanks, digits, hheader, hblank, hne, hdigit, -⟩ := hdecodes.accepted.mp haccepted
  rw [hheader] at h
  rcases h with ⟨b, hb, hspace, hnot⟩ | hnone
  · rcases List.mem_append.mp hb with hb | hb
    · exact hspace (hblank b hb)
    · exact hnot (hdigit b hb)
  · obtain ⟨b, ds, rfl⟩ := List.exists_cons_of_ne_nil hne
    exact hnone b (List.mem_append_right _ List.mem_cons_self) (hdigit b List.mem_cons_self)

/-- Any header is decoded as it should be if and only if it is a number, or what it begins with is
out of range. -/
theorem decodesLength_iff :
    m.DecodesLength ↔ (∃ n, Numeral m.header n) ∨ OutOfRange m.header := by
  constructor
  · intro hdecodes
    cases hresult : m.decodeHeader.2 with
    | false => exact Or.inr (m.decodeHeader_rejects.mp hresult)
    | true =>
        obtain ⟨n, -, hnumeral⟩ := hdecodes.accepted.mp hresult
        exact Or.inl ⟨n, hnumeral⟩
  · intro hcases
    refine ⟨⟨fun haccepted => ?_, ?_⟩, ?_, m.decodeHeader_rejected⟩
    · rcases hcases with ⟨n, hnumeral⟩ | hrange
      · have hle := m.decodeHeader_accepts.mp haccepted
        rw [m.headerValue_numeral hnumeral] at hle
        exact ⟨n, hle, hnumeral⟩
      · rw [m.decodeHeader_rejects.mpr hrange] at haccepted
        cases haccepted
    · rintro ⟨n, hle, hnumeral⟩
      rw [decodeHeader_accepts, m.headerValue_numeral hnumeral]
      exact hle
    · intro n hle hnumeral
      have hvalue := m.headerValue_numeral hnumeral
      have haccepted : m.decodeHeader.2 = true := by
        rw [decodeHeader_accepts, hvalue]
        exact hle
      rw [m.decodeHeader_accepted haccepted, hvalue]

/-- Letters, a number with letters behind it, one with a sign, one with a NUL behind it, and blanks
only: all of them are accepted. -/
theorem accepts_malformed :
    ¬ (ChatMessage.blank.store 0 (ascii "abcd")).DecodesLength ∧
      ¬ (ChatMessage.blank.store 0 (ascii "12ab")).DecodesLength ∧
      ¬ (ChatMessage.blank.store 0 (ascii "  +7")).DecodesLength ∧
      ¬ (ChatMessage.blank.store 0 [55, 0, 0, 0]).DecodesLength ∧
      ¬ (ChatMessage.blank.store 0 (ascii "    ")).DecodesLength := by
  refine ⟨?_, ?_, ?_, ?_, ?_⟩
  · exact not_decodesLength (by decide +kernel) (Or.inl (by decide +kernel))
  · exact not_decodesLength (by decide +kernel) (Or.inl (by decide +kernel))
  · exact not_decodesLength (by decide +kernel) (Or.inl (by decide +kernel))
  · exact not_decodesLength (by decide +kernel) (Or.inl (by decide +kernel))
  · exact not_decodesLength (by decide +kernel) (Or.inr (by decide +kernel))

end ChatMessage

end AsioTest.Chat
