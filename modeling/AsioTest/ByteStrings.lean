import Mathlib.Data.List.Infix
import Mathlib.Data.List.TakeWhile
import Mathlib.Data.Nat.Digits.Defs

/-!
Byte strings as lists of bytes: character literals, the C string a byte string begins with,
searching, decimal numerals, and slash-separated paths resolved segment by segment.
-/

abbrev Byte := UInt8

abbrev Bytes := List Byte

namespace ByteStrings

/-- The byte of an ASCII character. -/
abbrev chr (c : Char) : Byte := c.toUInt8

/-- The bytes of an ASCII literal. -/
def ascii (s : String) : Bytes := s.toList.map Char.toUInt8

/-! ### C strings and searching -/

/-- What a reader of NUL-terminated strings sees of `s`. -/
def cString (s : Bytes) : Bytes := s.takeWhile (· ≠ 0)

theorem cString_append {s t : Bytes} (hs : (0 : Byte) ∉ s) :
    cString (s ++ t) = s ++ cString t := by
  apply List.takeWhile_append_of_pos
  intro b hb
  rw [decide_eq_true_eq]
  rintro rfl
  exact hs hb

theorem cString_of_notMem {s : Bytes} (hs : (0 : Byte) ∉ s) : cString s = s := by
  rw [← List.append_nil s, cString_append hs]
  rfl

theorem cString_isPrefix (s : Bytes) : cString s <+: s := List.takeWhile_prefix _

/-- The string that begins at the start of an object, read up to its first NUL; `none` when the
object ends before one is found. -/
def readCString : Bytes → Option Bytes
  | [] => none
  | b :: bs => if b = 0 then some [] else (readCString bs).map (b :: ·)

theorem readCString_eq_none_iff {s : Bytes} : readCString s = none ↔ (0 : Byte) ∉ s := by
  induction s with
  | nil => exact iff_of_true rfl List.not_mem_nil
  | cons b bs ih =>
      rw [readCString, List.mem_cons]
      by_cases hb : b = 0
      · rw [if_pos hb]
        exact iff_of_false (Option.some_ne_none []) fun hnot => hnot (Or.inl hb.symm)
      · rw [if_neg hb, Option.map_eq_none_iff, ih, not_or, and_iff_right fun heq => hb heq.symm]

/-- The first position of `pat` in `s`. -/
def find (pat : Bytes) : Bytes → Option Nat
  | [] => if pat.isPrefixOf [] then some 0 else none
  | b :: bs => if pat.isPrefixOf (b :: bs) then some 0 else (find pat bs).map (· + 1)

theorem find_isSome (pat s : Bytes) : (find pat s).isSome ↔ pat <:+: s := by
  induction s with
  | nil =>
      rw [find]
      split_ifs with h
      · exact iff_of_true rfl (List.isPrefixOf_iff_prefix.mp h).isInfix
      · refine iff_of_false (by simp) fun hpair => h ?_
        rw [List.infix_nil.mp hpair]
        rfl
  | cons b bs ih =>
      rw [find, List.infix_cons_iff, ← List.isPrefixOf_iff_prefix]
      split_ifs with h
      · exact iff_of_true rfl (Or.inl h)
      · rw [Option.isSome_map, ih, or_iff_right h]

/-- The last position of the byte `c` in `s`. -/
def findLastOf (c : Byte) : Bytes → Option Nat
  | [] => none
  | b :: bs =>
      match findLastOf c bs with
      | some i => some (i + 1)
      | none => if b = c then some 0 else none

/-- What stands behind the last byte `c` of `s`. -/
def afterLast (c : Byte) : Bytes → Option Bytes
  | [] => none
  | b :: bs =>
      match afterLast c bs with
      | some t => some t
      | none => if b = c then some bs else none

theorem afterLast_of_notMem {c : Byte} {s : Bytes} (hs : c ∉ s) : afterLast c s = none := by
  induction s with
  | nil => rfl
  | cons b bs ih =>
      have hb : ¬ b = c := fun heq => hs (heq ▸ List.mem_cons_self)
      rw [afterLast, ih fun hmem => hs (List.mem_cons_of_mem b hmem)]
      exact if_neg hb

theorem afterLast_append {c : Byte} {t : Bytes} (ht : c ∉ t) (p : Bytes) :
    afterLast c (p ++ c :: t) = some t := by
  induction p with
  | nil =>
      rw [List.nil_append, afterLast, afterLast_of_notMem ht]
      exact if_pos rfl
  | cons b p ih => rw [List.cons_append, afterLast, ih]

theorem findLastOf_of_notMem {c : Byte} {s : Bytes} (hs : c ∉ s) : findLastOf c s = none := by
  induction s with
  | nil => rfl
  | cons b bs ih =>
      have hb : ¬ b = c := fun heq => hs (heq ▸ List.mem_cons_self)
      rw [findLastOf, ih fun hmem => hs (List.mem_cons_of_mem b hmem)]
      exact if_neg hb

theorem findLastOf_append {c : Byte} {t : Bytes} (ht : c ∉ t) (p : Bytes) :
    findLastOf c (p ++ c :: t) = some p.length := by
  induction p with
  | nil =>
      rw [List.nil_append, findLastOf, findLastOf_of_notMem ht]
      exact if_pos rfl
  | cons b p ih => rw [List.cons_append, findLastOf, ih, List.length_cons]

/-- A string that holds `c` ends with its last `c` and bytes other than `c`. -/
theorem exists_last {c : Byte} {s : Bytes} (hs : c ∈ s) : ∃ p t, s = p ++ c :: t ∧ c ∉ t := by
  obtain ⟨t, p, hrev, ht⟩ := List.eq_append_cons_of_mem (List.mem_reverse.mpr hs)
  refine ⟨p.reverse, t.reverse, ?_, fun hmem => ht (List.mem_reverse.mp hmem)⟩
  calc
    s = s.reverse.reverse := s.reverse_reverse.symm
    _ = (t ++ c :: p).reverse := by rw [hrev]
    _ = p.reverse ++ c :: t.reverse := by simp

/-! ### Decimal numerals -/

/-- The decimal numeral of `n`. -/
def decimal (n : Nat) : Bytes := (Nat.toDigits 10 n).map Char.toUInt8

/-- The number a digit string denotes. -/
def decimalValue (s : Bytes) : Nat := s.foldl (fun v b => 10 * v + (b.toNat - 48)) 0

/-- A digit byte of a decimal numeral. -/
def IsDigit (b : Byte) : Prop := 48 ≤ b.toNat ∧ b.toNat ≤ 57

instance (b : Byte) : Decidable (IsDigit b) := inferInstanceAs (Decidable (_ ∧ _))

theorem toNat_digit {c : Char} (hc : c.isDigit) : c.toUInt8.toNat = c.toNat := by
  have hle : c.toNat ≤ 57 := by
    have h : c.val ≤ 57 := by
      simp only [Char.isDigit, Bool.and_eq_true, decide_eq_true_eq] at hc
      exact hc.2
    exact UInt32.le_iff_toNat_le.mp h
  rw [Char.toUInt8, UInt32.toNat_toUInt8]
  exact Nat.mod_eq_of_lt (show c.toNat < 256 by omega)

theorem isDigit_of_mem_decimal {n : Nat} {b : Byte} (hb : b ∈ decimal n) : IsDigit b := by
  obtain ⟨c, hc, rfl⟩ := List.mem_map.mp hb
  have hdigit := Nat.isDigit_of_mem_toDigits (by decide) (by decide) hc
  rw [IsDigit, toNat_digit hdigit]
  simp only [Char.isDigit, Bool.and_eq_true, decide_eq_true_eq] at hdigit
  exact ⟨UInt32.le_iff_toNat_le.mp hdigit.1, UInt32.le_iff_toNat_le.mp hdigit.2⟩

theorem foldl_decimal_chars (cs : List Char) (hcs : ∀ c ∈ cs, c.isDigit) (v : Nat) :
    (cs.map Char.toUInt8).foldl (fun v b => 10 * v + (b.toNat - 48)) v =
      Nat.ofDigitChars 10 cs v := by
  induction cs generalizing v with
  | nil => rw [Nat.ofDigitChars_nil, List.map_nil, List.foldl_nil]
  | cons c cs ih =>
      rw [List.map_cons, List.foldl_cons, toNat_digit (hcs c List.mem_cons_self),
        ih fun d hd => hcs d (List.mem_cons_of_mem c hd), Nat.ofDigitChars_cons]
      rfl

/-- A decimal numeral denotes the number it was made from. -/
theorem decimalValue_decimal (n : Nat) : decimalValue (decimal n) = n := by
  rw [decimalValue, decimal, foldl_decimal_chars _ fun c hc =>
    Nat.isDigit_of_mem_toDigits (by decide) (by decide) hc]
  exact Nat.ofDigitChars_ten_toDigits

/-- White space of the C locale. -/
def isSpace (b : Byte) : Bool := b = 32 || (9 ≤ b && b ≤ 13)

/-- The digits a string begins with, as a number. -/
def leadingNumber (s : Bytes) : Nat := decimalValue (s.takeWhile fun b => IsDigit b)

/-- `atoi`: white space is skipped, one sign is taken, and the number ends at the first byte that
is no digit; without digits it is zero. -/
def atoi (s : Bytes) : Int :=
  match s.dropWhile isSpace with
  | 45 :: t => -(leadingNumber t : Int)
  | 43 :: t => (leadingNumber t : Int)
  | t => (leadingNumber t : Int)

/-- `%*d`: the numeral with blanks in front up to a width. -/
def padded (width n : Nat) : Bytes :=
  List.replicate (width - (decimal n).length) 32 ++ decimal n

theorem decimal_ne_nil (n : Nat) : decimal n ≠ [] := by
  rw [decimal, Ne, List.map_eq_nil_iff]
  exact Nat.toDigits_ne_nil

theorem leadingNumber_of_digits {ds : Bytes} (hds : ∀ b ∈ ds, IsDigit b) :
    leadingNumber ds = decimalValue ds := by
  have htake : ds.takeWhile (fun b => IsDigit b) = ds :=
    List.takeWhile_eq_self_iff.mpr fun b hb => decide_eq_true (hds b hb)
  rw [leadingNumber, htake]

theorem leadingNumber_decimal (n : Nat) : leadingNumber (decimal n) = n := by
  rw [leadingNumber_of_digits fun b hb => isDigit_of_mem_decimal hb, decimalValue_decimal]

/-- White space in front is skipped. -/
theorem atoi_skip {blanks : Bytes} (h : ∀ b ∈ blanks, isSpace b = true) (t : Bytes) :
    atoi (blanks ++ t) = atoi t := by
  rw [atoi, List.dropWhile_append_of_pos h, atoi]

theorem not_isSpace_of_isDigit {b : Byte} (hb : IsDigit b) : ¬ isSpace b = true := by
  simp only [isSpace, Bool.or_eq_true, Bool.and_eq_true, decide_eq_true_eq]
  rintro (rfl | ⟨-, hle⟩)
  · exact absurd hb (by decide)
  · have hnat : b.toNat ≤ 13 := UInt8.le_iff_toNat_le.mp hle
    have hlow := hb.1
    omega

/-- What does not begin with white space or a sign is read as it stands. -/
theorem atoi_unsigned {b : Byte} (t : Bytes) (hspace : ¬ isSpace b = true) (hminus : b ≠ 45)
    (hplus : b ≠ 43) : atoi (b :: t) = leadingNumber (b :: t) := by
  rw [atoi, List.dropWhile_cons_of_neg hspace]
  split
  next heq =>
    cases heq
    exact absurd rfl hminus
  next heq =>
    cases heq
    exact absurd rfl hplus
  next => rfl

theorem atoi_digit {b : Byte} (t : Bytes) (hb : IsDigit b) :
    atoi (b :: t) = leadingNumber (b :: t) := by
  refine atoi_unsigned t (not_isSpace_of_isDigit hb) ?_ ?_
  · rintro rfl
    exact absurd hb (by decide)
  · rintro rfl
    exact absurd hb (by decide)

/-- A numeral with blanks in front is read back as its number. -/
theorem atoi_padded (width n : Nat) : atoi (padded width n) = n := by
  obtain ⟨b, rest, hcons⟩ := List.exists_cons_of_ne_nil (decimal_ne_nil n)
  have hb : IsDigit b := isDigit_of_mem_decimal (hcons ▸ List.mem_cons_self)
  have hblank : ∀ x ∈ List.replicate (width - (decimal n).length) (32 : Byte),
      isSpace x = true := by
    intro x hx
    rw [List.eq_of_mem_replicate hx]
    rfl
  rw [padded, atoi_skip hblank, hcons, atoi_digit rest hb, ← hcons, leadingNumber_decimal]

/-- What `atoi` skips, the sign it takes and what it reads. -/
theorem atoi_cases (s : Bytes) : ∃ blanks sign u, s = blanks ++ sign ++ u ∧
    (∀ b ∈ blanks, isSpace b = true) ∧
      ((sign = [45] ∧ atoi s = -(leadingNumber u : Int)) ∨
        ((sign = [43] ∨ sign = []) ∧ atoi s = leadingNumber u)) := by
  have hsplit : s = s.takeWhile isSpace ++ s.dropWhile isSpace :=
    List.takeWhile_append_dropWhile.symm
  have hspace : ∀ b ∈ s.takeWhile isSpace, isSpace b = true := fun b hb =>
    List.mem_takeWhile_imp hb
  have hatoi : atoi s = atoi (s.dropWhile isSpace) :=
    (congrArg atoi hsplit).trans (atoi_skip hspace _)
  rw [hatoi]
  cases ht : s.dropWhile isSpace with
  | nil =>
      rw [ht] at hsplit
      exact ⟨_, [], [], by rw [List.append_nil, ← hsplit], hspace, Or.inr ⟨Or.inr rfl, rfl⟩⟩
  | cons b u =>
      have hfirst : ¬ isSpace b = true := by
        have hhead := List.head?_dropWhile_not isSpace s
        rw [ht] at hhead
        simpa using hhead
      rw [ht, ← List.singleton_append, ← List.append_assoc] at hsplit
      by_cases hminus : b = 45
      · subst hminus
        exact ⟨_, [45], u, hsplit, hspace, Or.inl ⟨rfl, rfl⟩⟩
      · by_cases hplus : b = 43
        · subst hplus
          exact ⟨_, [43], u, hsplit, hspace, Or.inr ⟨Or.inl rfl, rfl⟩⟩
        · rw [List.append_assoc, List.singleton_append] at hsplit
          refine ⟨_, [], b :: u, by rw [List.append_nil, ← hsplit], hspace, ?_⟩
          exact Or.inr ⟨Or.inr rfl, atoi_unsigned u hfirst hminus hplus⟩

/-! ### Bounds on numerals -/

theorem foldl_decimal_bounds (ds : Bytes) (hds : ∀ b ∈ ds, IsDigit b) (v : Nat) :
    v ≤ ds.foldl (fun v b => 10 * v + (b.toNat - 48)) v ∧
      ds.foldl (fun v b => 10 * v + (b.toNat - 48)) v < (v + 1) * 10 ^ ds.length := by
  induction ds generalizing v with
  | nil => exact ⟨Nat.le_refl v, by simp⟩
  | cons b ds ih =>
      have hb := hds b List.mem_cons_self
      obtain ⟨hlow, hhigh⟩ := ih (fun c hc => hds c (List.mem_cons_of_mem b hc))
        (10 * v + (b.toNat - 48))
      have hdigit : 10 * v + (b.toNat - 48) + 1 ≤ (v + 1) * 10 := by
        have hle := hb.2
        omega
      rw [List.foldl_cons, List.length_cons]
      refine ⟨by omega, hhigh.trans_le ?_⟩
      calc
        (10 * v + (b.toNat - 48) + 1) * 10 ^ ds.length ≤ (v + 1) * 10 * 10 ^ ds.length :=
          Nat.mul_le_mul_right _ hdigit
        _ = (v + 1) * 10 ^ (ds.length + 1) := by rw [Nat.mul_assoc, Nat.pow_succ']

theorem isDigit_of_mem_takeWhile {s : Bytes} {b : Byte}
    (hb : b ∈ s.takeWhile fun b => IsDigit b) : IsDigit b := by
  simpa using List.mem_takeWhile_imp hb

/-- More digits do not make the number less. -/
theorem decimalValue_le_leadingNumber {ds : Bytes} (hds : ∀ b ∈ ds, IsDigit b) (rest : Bytes) :
    decimalValue ds ≤ leadingNumber (ds ++ rest) := by
  rw [leadingNumber, List.takeWhile_append_of_pos fun b hb => decide_eq_true (hds b hb),
    decimalValue, decimalValue, List.foldl_append]
  exact (foldl_decimal_bounds _ (fun b hb => isDigit_of_mem_takeWhile hb) _).1

theorem leadingNumber_lt (s : Bytes) : leadingNumber s < 10 ^ s.length := by
  have hbound := (foldl_decimal_bounds (s.takeWhile fun b => IsDigit b)
    (fun b hb => isDigit_of_mem_takeWhile hb) 0).2
  rw [Nat.zero_add, Nat.one_mul] at hbound
  exact hbound.trans_le (Nat.pow_le_pow_right (by decide) (List.takeWhile_prefix _).length_le)

theorem padded_length {width n : Nat} (hwidth : 0 < width) (h : n < 10 ^ width) :
    (padded width n).length = width := by
  have hle : (decimal n).length ≤ width := by
    rw [decimal, List.length_map]
    exact (Nat.length_toDigits_le_iff (by decide) hwidth).mpr h
  rw [padded, List.length_append, List.length_replicate]
  omega

theorem zero_notMem_padded (width n : Nat) : (0 : Byte) ∉ padded width n := by
  rw [padded, List.mem_append, List.mem_replicate]
  rintro (⟨-, hzero⟩ | hmem)
  · cases hzero
  · exact absurd (isDigit_of_mem_decimal hmem) (by decide)

/-! ### Writing into a buffer -/

/-- `data` with `bytes` written at `offset`; what falls behind the end of `data` is not kept. -/
def overwrite (data : Bytes) (offset : Nat) (bytes : Bytes) : Bytes :=
  (data.take offset ++ bytes ++ data.drop (offset + bytes.length)).take data.length

@[simp] theorem overwrite_length (data : Bytes) (offset : Nat) (bytes : Bytes) :
    (overwrite data offset bytes).length = data.length := by
  simp only [overwrite, List.length_take, List.length_append, List.length_drop]
  omega

section

variable {data bytes : Bytes} {offset : Nat}

theorem overwrite_eq (h : offset + bytes.length ≤ data.length) :
    overwrite data offset bytes =
      data.take offset ++ bytes ++ data.drop (offset + bytes.length) := by
  apply List.take_of_length_le
  simp only [List.length_take, List.length_append, List.length_drop]
  omega

theorem overwrite_take (h : offset + bytes.length ≤ data.length) :
    (overwrite data offset bytes).take offset = data.take offset := by
  have hlength : (data.take offset).length = offset := by
    rw [List.length_take]
    omega
  rw [overwrite_eq h, List.append_assoc]
  exact List.take_left' hlength

theorem overwrite_drop (h : offset + bytes.length ≤ data.length) :
    (overwrite data offset bytes).drop offset = bytes ++ data.drop (offset + bytes.length) := by
  have hlength : (data.take offset).length = offset := by
    rw [List.length_take]
    omega
  rw [overwrite_eq h, List.append_assoc]
  exact List.drop_left' hlength

end

/-! ### Paths -/

/-- The segments of a path. -/
def segments (path : Bytes) : List Bytes := path.splitOn (chr '/')

/-- Resolves segments against the directories entered so far: `..` leaves the last of them, and
fails when there is none, that is when it would leave the directory the walk began in. -/
def resolve : List Bytes → List Bytes → Option (List Bytes)
  | entered, [] => some entered
  | entered, seg :: segs =>
      if seg = [] ∨ seg = [chr '.'] then resolve entered segs
      else if seg = [chr '.', chr '.'] then
        match entered with
        | [] => none
        | _ :: outer => resolve outer segs
      else resolve (seg :: entered) segs

theorem infix_of_mem_splitOn {c : Byte} {s seg : Bytes} (h : seg ∈ s.splitOn c) : seg <:+: s := by
  induction s generalizing seg with
  | nil =>
      rw [List.splitOn_nil, List.mem_singleton] at h
      rw [h]
  | cons b s ih =>
      rw [List.splitOn_cons_eq_if_modifyHead] at h
      split_ifs at h with hb
      · rcases List.mem_cons.mp h with rfl | hmem
        · exact List.nil_infix
        · exact List.infix_cons (ih hmem)
      · obtain ⟨first, others, hsplit⟩ := List.exists_cons_of_ne_nil (List.splitOn_ne_nil c s)
        rw [hsplit, List.modifyHead_cons] at h
        rcases List.mem_cons.mp h with rfl | hmem
        · -- the first segment is a prefix of the rest, and `b` is put in front of both
          have hprefix : first <+: s := by
            have hjoin : [c].intercalate (s.splitOn c) = s := List.intercalate_splitOn c
            rw [hsplit] at hjoin
            rw [← hjoin]
            cases others with
            | nil => simp
            | cons second others => simp [List.intercalate, List.intersperse]
          exact (List.cons_prefix_cons.mpr ⟨rfl, hprefix⟩).isInfix
        · exact List.infix_cons (ih (by rw [hsplit]; exact List.mem_cons_of_mem first hmem))

/-- A path in which two dots never follow each other has no parent segment. -/
theorem segment_ne_dotdot {path : Bytes} (h : ¬ [chr '.', chr '.'] <:+: path) :
    ∀ seg ∈ segments path, seg ≠ [chr '.', chr '.'] := by
  rintro seg hseg rfl
  exact h (infix_of_mem_splitOn hseg)

/-- Without a parent segment the walk never leaves the directory it began in. -/
theorem resolve_isSome {segs : List Bytes} (h : ∀ seg ∈ segs, seg ≠ [chr '.', chr '.'])
    (entered : List Bytes) : (resolve entered segs).isSome := by
  induction segs generalizing entered with
  | nil => rfl
  | cons seg segs ih =>
      have htail := fun x hx => h x (List.mem_cons_of_mem seg hx)
      simp only [resolve, if_neg (h seg List.mem_cons_self)]
      split_ifs
      · exact ih htail entered
      · exact ih htail (seg :: entered)

end ByteStrings
