import AsioTest.ActionRequestHandler
import AsioTest.MemoryImages

/-!
The action server's `request_parser`. It copies the bytes received over a `request` and reads the
fields where a compiler for 64-bit little-endian machines puts them: a string has the address of
its text, its length, and 16 bytes more. A `request` is given by the memory from its address on, so
that a copy of more than its size changes what lies behind it.
-/

namespace AsioTest.Action

open ByteStrings MemoryImages

/-- `sizeof(request)` -/
def requestSize : Nat := 112

/-! ### The fields of a request -/

def method (req : Memory) : UInt32 := UInt32.ofNat (littleEndian req 0 4)

def bodyLength (req : Memory) : Int := (littleEndian req 4 4 : Int).bmod (2 ^ 32)

/-- Where the strings `id`, `pwd` and `secret` begin. -/
def idOffset : Nat := 8

def pwdOffset : Nat := 40

def secretOffset : Nat := 72

/-- `std::string::size` -/
def stringSize (req : Memory) (offset : Nat) : Nat := littleEndian req (offset + 8) 8

/-- The text of a string, in the memory of the process. -/
def stringText (process req : Memory) (offset : Nat) : Bytes :=
  (List.range (stringSize req offset)).map fun i => process (littleEndian req offset 8 + i)

def gpsLong (req : Memory) : Single := Single.ofBits (littleEndian req 104 4)

def gpsLat (req : Memory) : Single := Single.ofBits (littleEndian req 108 4)

/-- The request that its memory holds, as the handler reads it. -/
def requestAt (process req : Memory) : Request where
  method := method req
  id := stringText process req idOffset
  pwd := stringText process req pwdOffset
  secret := stringText process req secretOffset

/-! ### `parse` -/

/-- `result_type` -/
inductive ResultType where
  | good
  | bad
  | indeterminate
  deriving DecidableEq

/-- An `int` as a `size_t`. -/
def sizeT (v : Int) : Nat := (v % 2 ^ 64).toNat

/-- The comparison of the length; `sizeof(method_type)` is 4. -/
def LengthMatches (bytesTransferred : Nat) (req : Memory) : Prop :=
  sizeT (bodyLength req) = (sizeT bytesTransferred + 4) % 2 ^ 64

instance (bytesTransferred : Nat) (req : Memory) : Decidable (LengthMatches bytesTransferred req) :=
  inferInstanceAs (Decidable (_ = _))

/-- The `switch` of `parse`, which has no branch for a number that is no enumerator. -/
def FieldsValid (req : Memory) : Prop :=
  match MethodType.ofNumber (method req) with
  | some .signIn => ¬ (stringSize req idOffset = 0 ∨ stringSize req pwdOffset = 0)
  | some .logIn => ¬ (stringSize req idOffset = 0 ∨ stringSize req pwdOffset = 0)
  | some .logOut => True
  | some .getUserGps => True
  | some .getItemGps => True
  | some .sendUserGps =>
      ¬ ((gpsLong req).atMost (-90) ∨ (gpsLong req).atLeast 90 ∨
        (gpsLat req).atMost (-180) ∨ (gpsLat req).atLeast 180)
  | none => True

instance (req : Memory) : Decidable (FieldsValid req) := by
  unfold FieldsValid
  split <;> infer_instance

/-- The method field holds one of the six enumerators. -/
def KnownMethod (req : Memory) : Prop := MethodType.ofNumber (method req) ≠ none

instance (req : Memory) : Decidable (KnownMethod req) := inferInstanceAs (Decidable (_ ≠ none))

/-- The result, and the memory after the copy. -/
def parse (received : Bytes) (req : Memory) : ResultType × Memory :=
  let req := memcpy received req
  if ¬ LengthMatches received.length req then (.bad, req)
  else if ¬ FieldsValid req then (.bad, req)
  else (.good, req)

/-- A request that `parse` finds good when it is the result of copying that many bytes. -/
def Acceptable (bytesTransferred : Nat) (req : Memory) : Prop :=
  LengthMatches bytesTransferred req ∧ FieldsValid req

instance (bytesTransferred : Nat) (req : Memory) : Decidable (Acceptable bytesTransferred req) :=
  inferInstanceAs (Decidable (_ ∧ _))

variable {req req' : Memory}

theorem parse_eq (received : Bytes) (req : Memory) : parse received req =
    (if Acceptable received.length (memcpy received req) then .good else .bad,
      memcpy received req) := by
  rw [parse]
  by_cases hlength : LengthMatches received.length (memcpy received req)
  · by_cases hfields : FieldsValid (memcpy received req)
    · simp only [Acceptable, hlength, hfields, not_true, if_false, and_self, if_true]
    · simp only [Acceptable, hlength, hfields, not_true, not_false_eq_true, if_false, if_true,
        and_false]
  · simp only [Acceptable, hlength, not_false_eq_true, if_true, false_and, if_false]

/-- `parse` never asks for more. -/
theorem parse_ne_indeterminate (received : Bytes) (req : Memory) :
    (parse received req).1 ≠ .indeterminate := by
  rw [parse_eq]
  split_ifs
  · exact nofun
  · exact nofun

/-! ### What a request depends on -/

theorem bodyLength_congr (h : Agree requestSize req req') : bodyLength req = bodyLength req' := by
  have hbytes : littleEndian req 4 4 = littleEndian req' 4 4 := h.littleEndian (by decide)
  unfold bodyLength
  rw [hbytes]

theorem lengthMatches_congr (h : Agree requestSize req req') (n : Nat) :
    LengthMatches n req ↔ LengthMatches n req' := by
  simp only [LengthMatches, bodyLength_congr h]

/-- The fields lie in the first `requestSize` bytes. -/
theorem fieldsValid_congr (h : Agree requestSize req req') :
    FieldsValid req ↔ FieldsValid req' := by
  have hmethod : littleEndian req 0 4 = littleEndian req' 0 4 := h.littleEndian (by decide)
  have hid : stringSize req idOffset = stringSize req' idOffset := h.littleEndian (by decide)
  have hpwd : stringSize req pwdOffset = stringSize req' pwdOffset := h.littleEndian (by decide)
  have hlong : littleEndian req 104 4 = littleEndian req' 104 4 := h.littleEndian (by decide)
  have hlat : littleEndian req 108 4 = littleEndian req' 108 4 := h.littleEndian (by decide)
  simp only [FieldsValid, method, gpsLong, gpsLat, hmethod, hid, hpwd, hlong, hlat]

theorem acceptable_congr (h : Agree requestSize req req') (n : Nat) :
    Acceptable n req ↔ Acceptable n req' :=
  and_congr (lengthMatches_congr h n) (fieldsValid_congr h)

/-- The length field fits one number of bytes received only. -/
theorem LengthMatches.unique {n k : Nat} (hn : LengthMatches n req) (hk : LengthMatches k req)
    (hnle : n ≤ 8192) (hkle : k ≤ 8192) : n = k := by
  have hsame : (sizeT n + 4) % 2 ^ 64 = (sizeT k + 4) % 2 ^ 64 := hn.symm.trans hk
  unfold sizeT at hsame
  omega

/-! ### What is accepted -/

/-- `parse` writes to the request only, whatever memory it is called on, and finds it good only when
every field was received and the method is an enumerator. -/
structure ParsesSafely (received : Bytes) (req : Memory) : Prop where
  inside : ∀ m i, requestSize ≤ i → (parse received m).2 i = m i
  complete : (parse received req).1 = .good → received.length = requestSize
  known : (parse received req).1 = .good → KnownMethod (parse received req).2

/-- As many bytes as a request has were received, with a known method or the wrong length; or
fewer, with the wrong length or fields that are not valid. -/
def Harmless (received : Bytes) (req : Memory) : Prop :=
  (received.length = requestSize ∧
    (KnownMethod (memcpy received req) ∨ ¬ LengthMatches received.length (memcpy received req))) ∨
  (received.length < requestSize ∧
    (¬ LengthMatches received.length (memcpy received req) ∨ ¬ FieldsValid (memcpy received req)))

instance (received : Bytes) (req : Memory) : Decidable (Harmless received req) :=
  inferInstanceAs (Decidable (_ ∨ _))

theorem fieldsValid_of_unknown (h : ¬ KnownMethod req) : FieldsValid req := by
  rw [KnownMethod, not_not] at h
  rw [FieldsValid, h]
  trivial

theorem parse_good_iff {received : Bytes} :
    (parse received req).1 = .good ↔ Acceptable received.length (memcpy received req) := by
  rw [parse_eq]
  by_cases hacceptable : Acceptable received.length (memcpy received req)
  · rw [if_pos hacceptable]
    exact iff_of_true rfl hacceptable
  · rw [if_neg hacceptable]
    exact iff_of_false nofun hacceptable

theorem parse_inside_iff {received : Bytes} :
    (∀ m i, requestSize ≤ i → (parse received m).2 i = m i) ↔ received.length ≤ requestSize := by
  simp only [parse_eq]
  exact memcpy_inside_iff

/-- `parse` is safe on the bytes of a completion, and accepts complete requests with a known method
only, if and only if they are harmless. -/
theorem parsesSafely_iff (received : Bytes) (req : Memory) :
    ParsesSafely received req ↔ Harmless received req := by
  have himage : (parse received req).2 = memcpy received req := by rw [parse_eq]
  constructor
  · rintro ⟨hinside, hcomplete, hknown⟩
    rw [parse_good_iff] at hcomplete hknown
    rw [himage] at hknown
    rcases Nat.lt_or_eq_of_le (parse_inside_iff.mp hinside) with hlt | heq
    · refine Or.inr ⟨hlt, not_and_or.mp fun hacceptable => ?_⟩
      exact absurd (hcomplete hacceptable) (Nat.ne_of_lt hlt)
    · refine Or.inl ⟨heq, ?_⟩
      by_contra hneither
      obtain ⟨hunknown, hlength⟩ := not_or.mp hneither
      exact hunknown (hknown ⟨not_not.mp hlength, fieldsValid_of_unknown hunknown⟩)
  · intro hharmless
    have hgood : (parse received req).1 = .good →
        received.length = requestSize ∧ KnownMethod (memcpy received req) := by
      rw [parse_good_iff]
      rintro ⟨hlength, hfields⟩
      rcases hharmless with ⟨heq, hknown | hlength'⟩ | ⟨-, hlength' | hfields'⟩
      · exact ⟨heq, hknown⟩
      · exact absurd hlength hlength'
      · exact absurd hlength hlength'
      · exact absurd hfields hfields'
    refine ⟨parse_inside_iff.mpr ?_, fun h => (hgood h).1, fun h => ?_⟩
    · rcases hharmless with ⟨heq, -⟩ | ⟨hlt, -⟩
      · exact Nat.le_of_eq heq
      · exact Nat.le_of_lt hlt
    · rw [himage]
      exact (hgood h).2

/-- Eight bytes of a `log_out` are good although nothing of its strings was received, a request with
the method number 6 is good, and 113 bytes are copied over the byte behind the request. -/
theorem parse_not_safe :
    (parse [1, 0, 0, 0, 12, 0, 0, 0] fun _ => 0).1 = .good ∧
      ¬ ParsesSafely [1, 0, 0, 0, 12, 0, 0, 0] (fun _ => 0) ∧
      (parse ([6, 0, 0, 0, 116, 0, 0, 0] ++ List.replicate 104 0) fun _ => 0).1 = .good ∧
      ¬ ParsesSafely ([6, 0, 0, 0, 116, 0, 0, 0] ++ List.replicate 104 0) (fun _ => 0) ∧
      (parse (List.replicate 113 1) fun _ => 0).2 requestSize = 1 ∧
      ¬ ParsesSafely (List.replicate 113 1) (fun _ => 0) := by
  have hshort : (parse [1, 0, 0, 0, 12, 0, 0, 0] fun _ => 0).1 = .good := by decide
  have hunknown : (parse ([6, 0, 0, 0, 116, 0, 0, 0] ++ List.replicate 104 0) fun _ => 0).1 =
      .good := by decide +kernel
  have hbehind : (parse (List.replicate 113 1) fun _ => 0).2 requestSize = 1 := by decide +kernel
  refine ⟨hshort, fun h => ?_, hunknown, fun h => ?_, hbehind, fun h => ?_⟩
  · exact absurd (h.complete hshort) (by decide)
  · exact absurd (h.known hunknown) (by decide +kernel)
  · exact absurd (hbehind.symm.trans (h.inside _ requestSize (Nat.le_refl _))) (by decide)

end AsioTest.Action
