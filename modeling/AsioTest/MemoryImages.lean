import AsioTest.ByteStrings
import Mathlib.Algebra.Order.Ring.Abs
import Mathlib.Data.List.GetD
import Mathlib.Data.Rat.Cast.Order
import Mathlib.Order.WithBot
import Mathlib.Tactic.Positivity

/-!
Memory as the bytes from some address on: copying into it, little-endian numbers in it, and single
precision numbers with their comparisons. What is read of a stretch of memory depends on the bytes
of that stretch alone.
-/

namespace MemoryImages

/-- The bytes from an address on. -/
abbrev Memory := Nat → Byte

variable {m m' : Memory}

/-- `memcpy` to the beginning. -/
def memcpy (bytes : Bytes) (m : Memory) : Memory := fun i => bytes.getD i (m i)

theorem memcpy_of_lt {bytes : Bytes} {i : Nat} (hi : i < bytes.length) :
    memcpy bytes m i = bytes[i] := by
  rw [memcpy, List.getD_eq_getElem bytes (m i) hi]

/-- Nothing is written behind the bytes copied. -/
theorem memcpy_of_le {bytes : Bytes} {i : Nat} (hi : bytes.length ≤ i) :
    memcpy bytes m i = m i := by
  rw [memcpy, List.getD_eq_default bytes (m i) hi]

/-- Copying changes nothing behind the first `size` bytes of any memory if and only if no more
bytes are copied. -/
theorem memcpy_inside_iff {size : Nat} {bytes : Bytes} :
    (∀ m i, size ≤ i → memcpy bytes m i = m i) ↔ bytes.length ≤ size := by
  constructor
  · intro h
    by_contra hlt
    have hsize : size < bytes.length := Nat.lt_of_not_le hlt
    -- two memories of which one holds another byte there
    have hzero := h (fun _ => 0) size (Nat.le_refl size)
    have hone := h (fun _ => 1) size (Nat.le_refl size)
    rw [memcpy_of_lt hsize] at hzero hone
    exact absurd (hzero.symm.trans hone) (by decide)
  · intro hle m i hi
    exact memcpy_of_le (Nat.le_trans hle hi)

/-- The number of `count` bytes from `start` on, the lowest byte first. -/
def littleEndian (m : Memory) (start : Nat) : Nat → Nat
  | 0 => 0
  | count + 1 => (m start).toNat + 256 * littleEndian m (start + 1) count

/-- The first `size` bytes are the same. -/
def Agree (size : Nat) (m m' : Memory) : Prop := ∀ i < size, m i = m' i

instance (size : Nat) (m m' : Memory) : Decidable (Agree size m m') :=
  inferInstanceAs (Decidable (∀ i < size, m i = m' i))

theorem Agree.refl (size : Nat) (m : Memory) : Agree size m m := fun _ _ => rfl

theorem Agree.littleEndian {size start count : Nat} (h : Agree size m m')
    (hsize : start + count ≤ size) : littleEndian m start count = littleEndian m' start count := by
  induction count generalizing start with
  | zero => rfl
  | succ count ih =>
      have hfirst : m start = m' start := h start (by omega)
      rw [MemoryImages.littleEndian, MemoryImages.littleEndian, hfirst, ih (by omega)]

/-- Copying a beginning of the bytes only leaves the same memory if and only if the other bytes
stood there already. -/
theorem agree_memcpy_iff {size : Nat} {bytes rest : Bytes} :
    Agree size (memcpy bytes m) (memcpy (bytes ++ rest) m) ↔
      ∀ i < size, bytes.length ≤ i → memcpy (bytes ++ rest) m i = m i := by
  constructor
  · intro h i hi hle
    rw [← h i hi, memcpy_of_le hle]
  · intro h i hi
    by_cases hlt : i < bytes.length
    · have hboth : i < (bytes ++ rest).length := by
        rw [List.length_append]
        omega
      rw [memcpy_of_lt hlt, memcpy_of_lt hboth, List.getElem_append_left hlt]
    · have hle : bytes.length ≤ i := Nat.le_of_not_lt hlt
      rw [memcpy_of_le hle, h i hi hle]

/-! ### Single precision -/

/-- A single precision number; a finite one counts units of 2⁻¹⁴⁹. -/
inductive Single where
  | nan
  | infinite (negative : Bool)
  | finite (units : Int)
  deriving DecidableEq

namespace Single

def signed (negative : Bool) (units : Nat) : Int := if negative then -units else units

/-- The number with these 32 bits: the sign, eight bits of exponent and 23 bits of fraction. -/
def ofBits (bits : Nat) : Single :=
  let negative : Bool := bits / 2 ^ 31 % 2 = 1
  let exponent := bits / 2 ^ 23 % 2 ^ 8
  let fraction := bits % 2 ^ 23
  if exponent = 255 then if fraction = 0 then infinite negative else nan
  else if exponent = 0 then finite (signed negative fraction)
  else finite (signed negative ((2 ^ 23 + fraction) * 2 ^ (exponent - 1)))

/-- `x <= bound`, which does not hold of `nan`. -/
def atMost : Single → Int → Bool
  | nan, _ => false
  | infinite negative, _ => negative
  | finite units, bound => units ≤ bound * 2 ^ 149

/-- `x >= bound`, which does not hold of `nan`. -/
def atLeast : Single → Int → Bool
  | nan, _ => false
  | infinite negative, _ => !negative
  | finite units, bound => bound * 2 ^ 149 ≤ units

/-! ### Absolute values -/

/-- The absolute value of a number, in the rationals with an infinity. -/
def magnitude : Single → Option (WithTop ℚ)
  | nan => none
  | infinite _ => some ⊤
  | finite units => some ((|(units : ℚ)| / 2 ^ 149 : ℚ) : WithTop ℚ)

/-- The absolute value is less than `b`, and so on; none of these holds of `nan`. -/
def Below (x : Single) (b : ℚ) : Prop := ∃ q ∈ x.magnitude, q < b

def AtMost (x : Single) (b : ℚ) : Prop := ∃ q ∈ x.magnitude, q ≤ b

def AtLeast (x : Single) (b : ℚ) : Prop := ∃ q ∈ x.magnitude, b ≤ q

def Above (x : Single) (b : ℚ) : Prop := ∃ q ∈ x.magnitude, b < q

variable {x : Single} {a b : ℚ}

theorem magnitude_eq_none : x.magnitude = none ↔ x = nan := by
  cases x with
  | nan => exact iff_of_true rfl rfl
  | infinite negative => exact iff_of_false (Option.some_ne_none _) Single.noConfusion
  | finite units => exact iff_of_false (Option.some_ne_none _) Single.noConfusion

theorem ne_nan_of_mem {q : WithTop ℚ} (h : q ∈ x.magnitude) : x ≠ nan := fun hnan =>
  Option.some_ne_none q (h.symm.trans (magnitude_eq_none.mpr hnan))

theorem exists_magnitude (h : x ≠ nan) : ∃ q, x.magnitude = some q :=
  Option.ne_none_iff_exists'.mp fun hnone => h (magnitude_eq_none.mp hnone)

theorem below_or_atLeast (h : x ≠ nan) (b : ℚ) : x.Below b ∨ x.AtLeast b := by
  obtain ⟨q, hq⟩ := exists_magnitude h
  rcases lt_or_ge q b with hlt | hge
  · exact Or.inl ⟨q, hq, hlt⟩
  · exact Or.inr ⟨q, hq, hge⟩

theorem atMost_or_above (h : x ≠ nan) (b : ℚ) : x.AtMost b ∨ x.Above b := by
  obtain ⟨q, hq⟩ := exists_magnitude h
  rcases le_or_gt q b with hle | hgt
  · exact Or.inl ⟨q, hq, hle⟩
  · exact Or.inr ⟨q, hq, hgt⟩

theorem Below.ne_nan (h : x.Below b) : x ≠ nan := by
  obtain ⟨q, hq, -⟩ := h
  exact ne_nan_of_mem hq

theorem AtMost.ne_nan (h : x.AtMost b) : x ≠ nan := by
  obtain ⟨q, hq, -⟩ := h
  exact ne_nan_of_mem hq

theorem AtLeast.ne_nan (h : x.AtLeast b) : x ≠ nan := by
  obtain ⟨q, hq, -⟩ := h
  exact ne_nan_of_mem hq

theorem AtLeast.not_below (h : x.AtLeast a) (hba : b ≤ a) : ¬ x.Below b := by
  rintro ⟨q, hq, hlt⟩
  obtain ⟨q', hq', hle⟩ := h
  obtain rfl : q = q' := Option.some.inj (hq.symm.trans hq')
  have hcoe : (b : WithTop ℚ) ≤ a := WithTop.coe_le_coe.mpr hba
  exact absurd (hcoe.trans hle) hlt.not_ge

theorem Above.not_atMost (h : x.Above a) (hba : b ≤ a) : ¬ x.AtMost b := by
  rintro ⟨q, hq, hle⟩
  obtain ⟨q', hq', hlt⟩ := h
  obtain rfl : q = q' := Option.some.inj (hq.symm.trans hq')
  have hcoe : (b : WithTop ℚ) ≤ a := WithTop.coe_le_coe.mpr hba
  exact absurd (hle.trans hcoe) hlt.not_ge

theorem Below.atMost (h : x.Below b) : x.AtMost b := by
  obtain ⟨q, hq, hlt⟩ := h
  exact ⟨q, hq, hlt.le⟩

theorem Above.atLeast (h : x.Above b) : x.AtLeast b := by
  obtain ⟨q, hq, hlt⟩ := h
  exact ⟨q, hq, hlt.le⟩

theorem AtLeast.mono (h : x.AtLeast a) (hba : b ≤ a) : x.AtLeast b := by
  obtain ⟨q, hq, hle⟩ := h
  exact ⟨q, hq, (WithTop.coe_le_coe.mpr hba).trans hle⟩

/-- The two comparisons that leave out the numbers of absolute value less than `b`. -/
theorem atMost_or_atLeast_iff {b : Int} :
    (x.atMost (-b) = true ∨ x.atLeast b = true) ↔ x.AtLeast b := by
  cases x with
  | nan => simp [atMost, atLeast, AtLeast, magnitude]
  | infinite negative =>
      cases negative with
      | false => simp [atMost, atLeast, AtLeast, magnitude]
      | true => simp [atMost, atLeast, AtLeast, magnitude]
  | finite units =>
      have hscale : (b : ℚ) ≤ |(units : ℚ)| / 2 ^ 149 ↔ b * 2 ^ 149 ≤ |units| := by
        rw [le_div_iff₀ (by positivity), ← Int.cast_abs]
        norm_cast
      simp only [atMost, atLeast, AtLeast, magnitude, Option.mem_some_iff, exists_eq_left',
        WithTop.coe_le_coe, decide_eq_true_eq, hscale, le_abs]
      omega

end Single

end MemoryImages
