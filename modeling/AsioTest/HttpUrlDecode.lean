import AsioTest.HttpRequestHandler

/-!
What `url_decode` makes of a uri. The two characters behind a `%` go through a formatted extraction,
which reads every pair of hexadecimal digits as its value, but also takes a blank or a sign for the
first and, behind a digit, anything for the second.
-/

namespace AsioTest.Http

open ByteStrings

/-- `url_decode` with the string it is handed for `out`, which it clears. -/
def urlDecodeInto (out input : Bytes) : Bool × Bytes :=
  let out := out.take 0
  urlDecodeLoop out input

theorem urlDecodeInto_eq (out input : Bytes) : urlDecodeInto out input = urlDecode input := rfl

/-! ### Pairs of characters -/

def IsHex (b : Byte) : Prop := (hexDigit b).isSome = true

instance (b : Byte) : Decidable (IsHex b) := inferInstanceAs (Decidable (_ = true))

theorem isHex_range {b : Byte} (h : IsHex b) : 48 ≤ b.toNat := by
  unfold IsHex hexDigit at h
  simp only [Bool.and_eq_true, decide_eq_true_eq, UInt8.le_iff_toNat_le] at h
  split_ifs at h with h1 h2 h3
  · exact h1.1
  · exact Nat.le_trans (by decide) h2.1
  · exact Nat.le_trans (by decide) h3.1
  · cases h

/-- A digit is neither a blank nor a sign. -/
theorem isHex_not_lenient {b : Byte} (h : IsHex b) :
    ¬ (isSpace b = true ∨ b = chr '+' ∨ b = chr '-') := by
  have hge := isHex_range h
  rintro (hspace | rfl | rfl)
  · simp only [isSpace, Bool.or_eq_true, Bool.and_eq_true, decide_eq_true_eq,
      UInt8.le_iff_toNat_le] at hspace
    rcases hspace with rfl | ⟨-, hle⟩
    · exact absurd hge (by decide)
    · simp only [UInt8.reduceToNat] at hle
      omega
  · exact absurd hge (by decide)
  · exact absurd hge (by decide)

theorem extractHexDigits_single (b : Byte) : extractHexDigits [b] = hexDigit b := by
  unfold extractHexDigits
  split
  next heq =>
    cases heq
    rfl
  next =>
    cases hb : hexDigit b with
    | none => simp [hb]
    | some v => simp [hb, hexValue]

/-- Behind a digit another one is taken, and anything else ends the number; `0x` is none. -/
theorem extractHexDigits_pair (a b : Byte) : extractHexDigits [a, b] =
    (hexDigit a).bind fun hi => match hexDigit b with
      | some lo => some (16 * hi + lo)
      | none => if a = chr '0' ∧ (b = chr 'x' ∨ b = chr 'X') then none else some hi := by
  unfold extractHexDigits
  split
  next t heq =>
    cases heq
    by_cases hx : b = chr 'x' ∨ b = chr 'X'
    · rcases hx with rfl | rfl
      · rfl
      · rfl
    · have hdigit : hexDigit 48 = some 0 := rfl
      have hhead : ¬ (([b] : Bytes).head? = some (chr 'x') ∨ [b].head? = some (chr 'X')) := by
        simpa using hx
      rw [not_or] at hx
      cases hb : hexDigit b with
      | none => simp [hb, hx, hdigit, hexValue]
      | some v => simp [hb, hx, hdigit, hexValue]
  next hne =>
    have ha : ¬ a = chr '0' := by
      rintro rfl
      exact hne [b] rfl
    cases hda : hexDigit a with
    | none => simp [hda]
    | some hi =>
        cases hb : hexDigit b with
        | none => simp [hda, hb, hexValue, ha]
        | some lo => simp [hda, hb, hexValue]

/-- Behind the white space one sign is taken. -/
theorem extractHex_cons {a : Byte} (ha : isSpace a = false) (t : Bytes) : extractHex (a :: t) =
    if a = chr '-' then (extractHexDigits t).map fun v : Nat => -(v : Int)
    else if a = chr '+' then (extractHexDigits t).map Nat.cast
    else (extractHexDigits (a :: t)).map Nat.cast := by
  rw [extractHex, List.dropWhile_cons, ha]
  split
  next heq =>
    cases heq
    cases extractHexDigits t <;> rfl
  next heq =>
    cases heq
    cases extractHexDigits t <;> rfl
  next hminus hplus =>
    have h1 : ¬ a = chr '-' := by
      rintro rfl
      exact hminus t rfl
    have h2 : ¬ a = chr '+' := by
      rintro rfl
      exact hplus t rfl
    rw [if_neg h1, if_neg h2, if_neg Bool.false_ne_true]
    cases extractHexDigits (a :: t) <;> rfl

theorem extractHex_space {a : Byte} (ha : isSpace a = true) (t : Bytes) :
    extractHex (a :: t) = extractHex t := by
  rw [extractHex, extractHex, List.dropWhile_cons, ha]
  rfl

theorem extractHex_single (b : Byte) : (extractHex [b]).isSome = true ↔ IsHex b := by
  cases hspace : isSpace b with
  | true =>
      rw [extractHex_space hspace]
      exact iff_of_false nofun fun hb => isHex_not_lenient hb (Or.inl hspace)
  | false =>
      rw [extractHex_cons hspace]
      split_ifs with hminus hplus
      · exact iff_of_false nofun fun hb => isHex_not_lenient hb (Or.inr (Or.inr hminus))
      · exact iff_of_false nofun fun hb => isHex_not_lenient hb (Or.inr (Or.inl hplus))
      · rw [Option.isSome_map, extractHexDigits_single, IsHex]

/-- Two hexadecimal digits. -/
def HexPair : Bytes → Prop
  | [a, b] => IsHex a ∧ IsHex b
  | _ => False

/-- Not two digits, but taken as a number: a blank or a sign before a digit, or a digit before a
character that ends the number. -/
def LenientPair : Bytes → Prop
  | [a, b] =>
      ((isSpace a = true ∨ a = chr '+' ∨ a = chr '-') ∧ IsHex b) ∨
        (IsHex a ∧ ¬ IsHex b ∧ ¬ (a = chr '0' ∧ (b = chr 'x' ∨ b = chr 'X')))
  | _ => False

instance (e : Bytes) : Decidable (HexPair e) := by
  unfold HexPair
  split <;> infer_instance

instance (e : Bytes) : Decidable (LenientPair e) := by
  unfold LenientPair
  split <;> infer_instance

theorem HexPair.not_lenient {e : Bytes} (h : HexPair e) : ¬ LenientPair e := by
  unfold HexPair at h
  split at h
  · rintro (⟨hblank, -⟩ | ⟨-, hb, -⟩)
    · exact isHex_not_lenient h.1 hblank
    · exact hb h.2
  · exact h.elim

/-- The extraction takes these pairs and no others. -/
theorem extractHex_isSome (a b : Byte) :
    (extractHex [a, b]).isSome = true ↔ HexPair [a, b] ∨ LenientPair [a, b] := by
  have hskip : (isSpace a = true ∨ a = chr '+' ∨ a = chr '-') →
      (IsHex b ↔ HexPair [a, b] ∨ LenientPair [a, b]) := fun hblank => by
    constructor
    · exact fun hb => Or.inr (Or.inl ⟨hblank, hb⟩)
    · rintro (⟨ha, -⟩ | ⟨-, hb⟩ | ⟨ha, -⟩)
      · exact absurd hblank (isHex_not_lenient ha)
      · exact hb
      · exact absurd hblank (isHex_not_lenient ha)
  cases hspace : isSpace a with
  | true =>
      rw [extractHex_space hspace, extractHex_single]
      exact hskip (Or.inl hspace)
  | false =>
      rw [extractHex_cons hspace]
      split_ifs with hminus hplus
      · rw [Option.isSome_map, extractHexDigits_single]
        exact hskip (Or.inr (Or.inr hminus))
      · rw [Option.isSome_map, extractHexDigits_single]
        exact hskip (Or.inr (Or.inl hplus))
      · rw [Option.isSome_map, extractHexDigits_pair]
        unfold HexPair LenientPair IsHex
        cases hda : hexDigit a with
        | none => simp [hda, hspace, hminus, hplus]
        | some hi =>
            cases hdb : hexDigit b with
            | none => simp [hda, hdb, hspace, hminus, hplus, Option.isSome_iff_ne_none]
            | some lo => simp [hda, hdb]

/-- Two digits are read as their value. -/
theorem extractHex_digits {a b : Byte} {hi lo : Nat} (ha : hexDigit a = some hi)
    (hb : hexDigit b = some lo) : extractHex [a, b] = some ((16 * hi + lo : Nat) : Int) := by
  have hhex : IsHex a := by
    rw [IsHex, ha]
    rfl
  have hplain := isHex_not_lenient hhex
  rw [not_or, not_or, Bool.not_eq_true] at hplain
  rw [extractHex_cons hplain.1, if_neg hplain.2.2, if_neg hplain.2.1, extractHexDigits_pair, ha,
    Option.bind_some, hb]
  rfl

/-! ### The scan -/

/-- What follows each `%` that a scan from the left reaches: two characters, or what is left. -/
def escapes : Bytes → List Bytes
  | [] => []
  | 37 :: a :: b :: rest => [a, b] :: escapes rest
  | c :: rest => if c = chr '%' then [rest] else escapes rest

theorem escapes_cons {c : Byte} (hc : c ≠ chr '%') (rest : Bytes) :
    escapes (c :: rest) = escapes rest := by
  rw [escapes, if_neg hc]
  rintro a b t rfl
  exact absurd rfl hc

/-- The character any byte but `%` stands for. -/
def unplus (c : Byte) : Byte := if c = chr '+' then chr ' ' else c

theorem urlDecodeLoop_cons {c : Byte} (hc : c ≠ chr '%') (out rest : Bytes) :
    urlDecodeLoop out (c :: rest) = urlDecodeLoop (out ++ [unplus c]) rest := by
  rw [urlDecodeLoop, if_neg hc, unplus]
  · split_ifs <;> rfl
  · rintro a b t rfl
    exact absurd rfl hc

theorem urlDecodeLoop_escape {a b : Byte} {value : Int} (h : extractHex [a, b] = some value)
    (out rest : Bytes) : urlDecodeLoop out (chr '%' :: a :: b :: rest) =
      urlDecodeLoop (out ++ [UInt8.ofInt value]) rest := by
  show urlDecodeLoop out (37 :: a :: b :: rest) = _
  rw [urlDecodeLoop, h]

/-- The scan ends well if and only if each pair behind a `%` is taken. -/
theorem urlDecodeLoop_iff (out s : Bytes) : (urlDecodeLoop out s).1 = true ↔
    ∀ e ∈ escapes s, HexPair e ∨ LenientPair e := by
  induction s using escapes.induct generalizing out with
  | case1 => exact iff_of_true rfl nofun
  | case2 a b rest ih =>
      rw [escapes, List.forall_mem_cons, ← extractHex_isSome]
      cases h : extractHex [a, b] with
      | none =>
          rw [urlDecodeLoop, h]
          exact iff_of_false nofun fun hall => absurd hall.1 nofun
      | some value =>
          rw [urlDecodeLoop, h]
          exact (ih _).trans (iff_and_self.mpr fun _ => rfl)
  | case3 rest hshort =>
      have hout : urlDecodeLoop out (chr '%' :: rest) = (false, out) := by
        rw [urlDecodeLoop, if_pos rfl]
        exact fun a b t _ ht => hshort a b t rfl ht
      have hescapes : escapes (chr '%' :: rest) = [rest] := by
        rw [escapes, if_pos rfl]
        exact fun a b t _ ht => hshort a b t rfl ht
      rw [hout, hescapes, List.forall_mem_singleton]
      refine iff_of_false nofun ?_
      match rest with
      | [] => exact fun hpair => hpair.elim id id
      | [a] => exact fun hpair => hpair.elim id id
      | a :: b :: t => exact absurd rfl (hshort a b t rfl)
  | case4 c rest hne hc ih =>
      rw [urlDecodeLoop_cons hc, escapes_cons hc]
      exact ih _

/-- If `url_decode` succeeds, two hexadecimal digits follow every `%` that the scan reaches. -/
def RejectsMalformed (s : Bytes) : Prop := (urlDecode s).1 = true → ∀ e ∈ escapes s, HexPair e

/-- A malformed escape is rejected, unless all that are reached are pairs that the extraction
takes. -/
theorem rejectsMalformed_iff (s : Bytes) : RejectsMalformed s ↔
    (∀ e ∈ escapes s, ¬ LenientPair e) ∨ ∃ e ∈ escapes s, ¬ HexPair e ∧ ¬ LenientPair e := by
  rw [RejectsMalformed, urlDecode, urlDecodeLoop_iff]
  constructor
  · intro hrejects
    by_cases hall : ∀ e ∈ escapes s, HexPair e ∨ LenientPair e
    · exact Or.inl fun e he => (hrejects hall e he).not_lenient
    · obtain ⟨e, he⟩ := not_forall.mp hall
      obtain ⟨hmem, hneither⟩ := Classical.not_imp.mp he
      exact Or.inr ⟨e, hmem, not_or.mp hneither⟩
  · rintro (hstrict | ⟨e, hmem, hneither⟩) hall
    · exact fun e he => (hall e he).resolve_right (hstrict e he)
    · exact absurd (hall e hmem) (not_or.mpr hneither)

/-- One hexadecimal digit and a letter that is none. -/
theorem oneDigit_not_rejected :
    urlDecode (ascii "/%1g") = (true, [chr '/', 1]) ∧ ¬ RejectsMalformed (ascii "/%1g") := by
  refine ⟨rfl, fun hrejects => ?_⟩
  have hpair := hrejects rfl (ascii "1g") (by decide)
  revert hpair
  decide

/-! ### Percent-encoding -/

/-- The legal spellings of a byte. -/
inductive Spells : Byte → Bytes → Prop
  | raw {b : Byte} (hpercent : b ≠ chr '%') (hplus : b ≠ chr '+') : Spells b [b]
  | plus : Spells (chr ' ') [chr '+']
  | escape {b x y : Byte} {hi lo : Nat} (hx : hexDigit x = some hi) (hy : hexDigit y = some lo)
      (hvalue : b.toNat = 16 * hi + lo) : Spells b [chr '%', x, y]

theorem Spells.decode {b : Byte} {spelling : Bytes} (h : Spells b spelling) (out rest : Bytes) :
    urlDecodeLoop out (spelling ++ rest) = urlDecodeLoop (out ++ [b]) rest := by
  cases h with
  | raw hpercent hplus =>
      rw [List.singleton_append, urlDecodeLoop_cons hpercent, unplus, if_neg hplus]
  | plus =>
      rw [List.singleton_append, urlDecodeLoop_cons (by decide)]
      rfl
  | @escape _ x y hi lo hx hy hvalue =>
      have hb : UInt8.ofInt ((16 * hi + lo : Nat) : Int) = b := by
        have hlt := b.toNat_lt
        have hmod : ((b.toNat : Int) % 2 ^ 8).toNat = b.toNat := by omega
        rw [← hvalue, UInt8.ofInt, hmod, UInt8.ofNat_toNat]
      calc
        urlDecodeLoop out (chr '%' :: x :: y :: rest) =
            urlDecodeLoop (out ++ [UInt8.ofInt ((16 * hi + lo : Nat) : Int)]) rest :=
          urlDecodeLoop_escape (extractHex_digits hx hy) out rest
        _ = urlDecodeLoop (out ++ [b]) rest := by rw [hb]

/-- Every spelling of a byte string is decoded to it, whatever `out` held before. -/
theorem urlDecode_spelled {s : Bytes} {spellings : List Bytes} (h : List.Forall₂ Spells s spellings)
    (out : Bytes) : urlDecodeInto out spellings.flatten = (true, s) := by
  have hloop : ∀ decoded, urlDecodeLoop decoded spellings.flatten = (true, decoded ++ s) := by
    induction h with
    | nil =>
        intro decoded
        rw [List.append_nil]
        rfl
    | @cons b spelling s spellings hspells _ ih =>
        intro decoded
        rw [List.flatten_cons, hspells.decode, ih, List.append_assoc]
        rfl
  rw [urlDecodeInto_eq]
  exact hloop []

/-- `%` and `+` themselves, a space, and a byte above 127. -/
theorem urlDecode_spelled_mixed :
    urlDecodeInto (ascii "old") (ascii "%25%2b+%fF") = (true, [37, 43, 32, 255]) := by
  have hspells : List.Forall₂ Spells [37, 43, 32, 255]
      [ascii "%25", ascii "%2b", ascii "+", ascii "%fF"] :=
    .cons (.escape rfl rfl rfl) (.cons (.escape rfl rfl rfl) (.cons .plus
      (.cons (.escape rfl rfl rfl) .nil)))
  exact urlDecode_spelled hspells (ascii "old")

end AsioTest.Http
