import AsioTest.ActionConnection

/-!
The positions that `send_user_gps` reports. `parse` compares the longitude with the bounds of a
latitude and the latitude with those of a longitude, and its comparisons do not hold of `nan`.
-/

namespace AsioTest.Action

open ByteStrings MemoryImages AsyncSocket

/-- A longitude and a latitude on the globe. -/
def RealPosition (long lat : Single) : Prop := long.Below 180 ∧ lat.Below 90

/-- What is no position. -/
def NoPosition (long lat : Single) : Prop :=
  long.Above 180 ∨ lat.Above 90 ∨ long = .nan ∨ lat = .nan

/-- The bounds that are compared lead to the right verdict. -/
def BoundsAgree (long lat : Single) : Prop :=
  (long.Below 90 ∧ lat.AtMost 90) ∨ long.AtLeast 180 ∨ lat.AtLeast 180 ∨
    (long.AtLeast 90 ∧ ¬ lat.Below 90)

/-- The message of a `send_user_gps` with the right length, when it is copied over a request. -/
structure ReportsPosition (received : Bytes) (req : Memory) : Prop where
  method : MethodType.ofNumber (method (memcpy received req)) = some .sendUserGps
  length : LengthMatches received.length (memcpy received req)

section Verdict

variable {received : Bytes} {req : Memory}

theorem fieldsValid_sendUserGps (h : MethodType.ofNumber (method req) = some .sendUserGps) :
    FieldsValid req ↔ ¬ ((gpsLong req).AtLeast 90 ∨ (gpsLat req).AtLeast 180) := by
  have hlong : ((gpsLong req).atMost (-90) = true ∨ (gpsLong req).atLeast 90 = true) ↔
      (gpsLong req).AtLeast 90 := Single.atMost_or_atLeast_iff
  have hlat : ((gpsLat req).atMost (-180) = true ∨ (gpsLat req).atLeast 180 = true) ↔
      (gpsLat req).AtLeast 180 := Single.atMost_or_atLeast_iff
  rw [← hlong, ← hlat, or_assoc, FieldsValid, h]

/-- A message with the right length is good when its longitude is less than 90, and its latitude
less than 180, or `nan`. -/
theorem ReportsPosition.good_iff (h : ReportsPosition received req) :
    (parse received req).1 = .good ↔
      ¬ ((gpsLong (memcpy received req)).AtLeast 90 ∨
        (gpsLat (memcpy received req)).AtLeast 180) := by
  rw [parse_good_iff, Acceptable, and_iff_right h.length, fieldsValid_sendUserGps h.method]

theorem parse_bad_iff : (parse received req).1 = .bad ↔ ¬ (parse received req).1 = .good := by
  rw [parse_eq]
  split_ifs
  · exact iff_of_false nofun fun hnot => hnot rfl
  · exact iff_of_true rfl nofun

end Verdict

/-- The two comparisons sort out what is no position and nothing on the globe exactly where the
bounds agree. -/
theorem boundsAgree_iff (long lat : Single) :
    ((RealPosition long lat → ¬ (long.AtLeast 90 ∨ lat.AtLeast 180)) ∧
      (NoPosition long lat → long.AtLeast 90 ∨ lat.AtLeast 180)) ↔ BoundsAgree long lat := by
  constructor
  · rintro ⟨hreal, hno⟩
    by_cases hlong : long.AtLeast 90
    · rcases Single.below_or_atLeast hlong.ne_nan 180 with hbelow | hatLeast
      · refine Or.inr (Or.inr (Or.inr ⟨hlong, fun hlat => ?_⟩))
        exact hreal ⟨hbelow, hlat⟩ (Or.inl hlong)
      · exact Or.inr (Or.inl hatLeast)
    · by_cases hlat : lat.AtLeast 180
      · exact Or.inr (Or.inr (Or.inl hlat))
      · have hposition : ¬ NoPosition long lat := fun h => (hno h).elim hlong hlat
        simp only [NoPosition, not_or] at hposition
        obtain ⟨-, habove, hlongNan, hlatNan⟩ := hposition
        have hbelow := (Single.below_or_atLeast hlongNan 90).resolve_right hlong
        exact Or.inl ⟨hbelow, (Single.atMost_or_above hlatNan 90).resolve_right habove⟩
  · intro hagree
    constructor
    · rintro ⟨hlong, hlat⟩
      rcases hagree with ⟨hbelow, -⟩ | hatLeast | hatLeast | ⟨-, hnot⟩
      · rintro (h | h)
        · exact h.not_below le_rfl hbelow
        · exact h.not_below (by norm_num) hlat
      · exact absurd hlong (hatLeast.not_below le_rfl)
      · exact absurd hlat (hatLeast.not_below (by norm_num))
      · exact absurd hlat hnot
    · intro hno
      rcases hagree with ⟨hbelow, hatMost⟩ | hatLeast | hatLeast | ⟨hatLeast, -⟩
      · rcases hno with h | h | rfl | rfl
        · exact absurd hbelow (h.atLeast.not_below (by norm_num))
        · exact absurd hatMost (h.not_atMost le_rfl)
        · exact absurd rfl hbelow.ne_nan
        · exact absurd rfl hatMost.ne_nan
      · exact Or.inl (hatLeast.mono (by norm_num))
      · exact Or.inr hatLeast
      · exact Or.inl hatLeast

namespace ServerConnection

variable {σ : Type}

/-- The read handler hands a real position to the request handler, and what is no position to the
branch of bad requests. -/
structure AcceptsPositions (host : Host σ) (c : ServerConnection σ) (received : Bytes) : Prop where
  real : RealPosition (gpsLong (memcpy received c.request_))
      (gpsLat (memcpy received c.request_)) →
    (c.onRead host (.success received)).result = some .good
  no : NoPosition (gpsLong (memcpy received c.request_)) (gpsLat (memcpy received c.request_)) →
    (c.onRead host (.success received)).result = some .bad

theorem onRead_result (host : Host σ) (c : ServerConnection σ) (received : Bytes) :
    (c.onRead host (.success received)).result = some (parse received c.request_).1 := by
  rw [onRead_success]
  exact (onParsed_verdict _ _).1

/-- The verdict on a `send_user_gps` message of the right length is right if and only if the bounds
agree for its coordinates. -/
theorem acceptsPositions_iff (host : Host σ) (c : ServerConnection σ) {received : Bytes}
    (h : ReportsPosition received c.request_) :
    c.AcceptsPositions host received ↔
      BoundsAgree (gpsLong (memcpy received c.request_)) (gpsLat (memcpy received c.request_)) := by
  have hresult := onRead_result host c received
  have hgood : (c.onRead host (.success received)).result = some .good ↔
      ¬ ((gpsLong (memcpy received c.request_)).AtLeast 90 ∨
        (gpsLat (memcpy received c.request_)).AtLeast 180) := by
    rw [hresult, Option.some.injEq, h.good_iff]
  have hbad : (c.onRead host (.success received)).result = some .bad ↔
      (gpsLong (memcpy received c.request_)).AtLeast 90 ∨
        (gpsLat (memcpy received c.request_)).AtLeast 180 := by
    rw [hresult, Option.some.injEq, parse_bad_iff, h.good_iff, not_not]
  rw [← boundsAgree_iff, ← hgood, ← hbad]
  exact ⟨fun haccepts => ⟨haccepts.real, haccepts.no⟩, fun hboth => ⟨hboth.1, hboth.2⟩⟩

/-- A whole `send_user_gps` with these bytes for its coordinates. -/
def gpsImage (long lat : Bytes) : Bytes :=
  [5, 0, 0, 0, 116, 0, 0, 0] ++ List.replicate 96 0 ++ long ++ lat

/-- The longitude 12.5 and the latitude 45. -/
theorem acceptsPositions_iff_inland : tableServer.AcceptsPositions tableHost
    (gpsImage [0, 0, 72, 65] [0, 0, 52, 66]) := by
  have hlong : gpsLong (memcpy (gpsImage [0, 0, 72, 65] [0, 0, 52, 66]) tableServer.request_) =
      .finite (25 * 2 ^ 148) := by decide +kernel
  have hlat : gpsLat (memcpy (gpsImage [0, 0, 72, 65] [0, 0, 52, 66]) tableServer.request_) =
      .finite (45 * 2 ^ 149) := by decide +kernel
  refine (acceptsPositions_iff tableHost tableServer ⟨by decide +kernel, by decide +kernel⟩).mpr ?_
  rw [hlong, hlat]
  exact Or.inl ⟨⟨_, rfl, WithTop.coe_lt_coe.mpr (by norm_num)⟩,
    ⟨_, rfl, WithTop.coe_le_coe.mpr (by norm_num)⟩⟩

/-- The real position with longitude 100 and latitude 0 is bad; a latitude of 91, and a longitude
that is not a number, are good. -/
theorem positions_misjudged :
    (ReportsPosition (gpsImage [0, 0, 200, 66] [0, 0, 0, 0]) tableServer.request_ ∧
      ¬ tableServer.AcceptsPositions tableHost (gpsImage [0, 0, 200, 66] [0, 0, 0, 0])) ∧
    (ReportsPosition (gpsImage [0, 0, 0, 0] [0, 0, 182, 66]) tableServer.request_ ∧
      ¬ tableServer.AcceptsPositions tableHost (gpsImage [0, 0, 0, 0] [0, 0, 182, 66])) ∧
    ReportsPosition (gpsImage [0, 0, 192, 127] [0, 0, 0, 0]) tableServer.request_ ∧
      ¬ tableServer.AcceptsPositions tableHost (gpsImage [0, 0, 192, 127] [0, 0, 0, 0]) := by
  refine ⟨⟨⟨by decide +kernel, by decide +kernel⟩, fun h => ?_⟩,
    ⟨⟨by decide +kernel, by decide +kernel⟩, fun h => ?_⟩,
    ⟨by decide +kernel, by decide +kernel⟩, fun h => ?_⟩
  · have hlong : gpsLong (memcpy (gpsImage [0, 0, 200, 66] [0, 0, 0, 0]) tableServer.request_) =
        .finite (100 * 2 ^ 149) := by decide +kernel
    have hlat : gpsLat (memcpy (gpsImage [0, 0, 200, 66] [0, 0, 0, 0]) tableServer.request_) =
        .finite 0 := by decide +kernel
    have hreal : RealPosition
        (gpsLong (memcpy (gpsImage [0, 0, 200, 66] [0, 0, 0, 0]) tableServer.request_))
        (gpsLat (memcpy (gpsImage [0, 0, 200, 66] [0, 0, 0, 0]) tableServer.request_)) := by
      rw [hlong, hlat]
      exact ⟨⟨_, rfl, WithTop.coe_lt_coe.mpr (by norm_num)⟩,
        ⟨_, rfl, WithTop.coe_lt_coe.mpr (by norm_num)⟩⟩
    have hgood := h.real hreal
    rw [onRead_result] at hgood
    revert hgood
    decide +kernel
  · have hlat : gpsLat (memcpy (gpsImage [0, 0, 0, 0] [0, 0, 182, 66]) tableServer.request_) =
        .finite (91 * 2 ^ 149) := by decide +kernel
    have habove : (gpsLat (memcpy (gpsImage [0, 0, 0, 0] [0, 0, 182, 66])
        tableServer.request_)).Above 90 := by
      rw [hlat]
      exact ⟨_, rfl, WithTop.coe_lt_coe.mpr (by norm_num)⟩
    have hbad := h.no (Or.inr (Or.inl habove))
    rw [onRead_result] at hbad
    revert hbad
    decide +kernel
  · have hnan : gpsLong (memcpy (gpsImage [0, 0, 192, 127] [0, 0, 0, 0]) tableServer.request_) =
        .nan := by decide +kernel
    have hbad := h.no (Or.inr (Or.inr (Or.inl hnan)))
    rw [onRead_result] at hbad
    revert hbad
    decide +kernel

end ServerConnection

end AsioTest.Action
