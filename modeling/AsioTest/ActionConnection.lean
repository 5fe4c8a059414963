import AsioTest.ActionRequestParser
import AsioTest.AsyncSocket

/-!
The action server's `connection`. Its read handler parses what one completion has brought, on top
of what `request_` held before, and reads again only when the result is indeterminate, which it
never is. So the first completion decides, whatever follows it.
-/

namespace AsioTest.Action

open ByteStrings MemoryImages AsyncSocket

/-- What the handlers run on; `process` is the memory that the addresses in a request lead to. -/
structure Host (σ : Type) where
  conn : Connection σ
  time : Int
  process : Memory

/-- What the connection is doing; an exception of the request handler leaves `run`. -/
inductive Phase where
  | idle
  | reading
  | writing
  | stopped
  | threw
  deriving DecidableEq

/-- `connection`, with the database that `request_handler_` is connected to and the last result of
`parse`. The memory behind `request_` is kept with it; the other members are not read from there. -/
structure ServerConnection (σ : Type) where
  buffer_ : Bytes := List.replicate 8192 0
  request_ : Memory
  reply_ : Reply := {}
  database : σ
  result : Option ResultType := none
  phase : Phase := .idle

namespace ServerConnection

variable {σ : Type} (host : Host σ)

def doRead (c : ServerConnection σ) : ServerConnection σ := { c with phase := .reading }

/-- The write itself is commented out. -/
def doWrite (c : ServerConnection σ) : ServerConnection σ := { c with phase := .writing }

def start (c : ServerConnection σ) : ServerConnection σ := c.doRead

def stop (c : ServerConnection σ) : ServerConnection σ := { c with phase := .stopped }

/-- What the read handler does after `parse`; the stock reply it makes is thrown away. -/
def onParsed (c : ServerConnection σ) (r : ResultType × Memory) : ServerConnection σ :=
  let c := { c with request_ := r.2, result := some r.1 }
  match r.1 with
  | .good =>
      match handleRequest host.conn host.time (requestAt host.process c.request_) c.reply_
        c.database with
      | some (rep, s) => { c with reply_ := rep, database := s }.doWrite
      | none => { c with phase := .threw }
  | .bad => c.doWrite
  | .indeterminate => c.doRead

/-- The read handler; the bytes of a completion stand at the front of `buffer_`. -/
def onRead (c : ServerConnection σ) : Completion Bytes → ServerConnection σ
  | .success bytes =>
      let c := { c with buffer_ := bytes ++ c.buffer_.drop bytes.length }
      c.onParsed host (parse (c.buffer_.take bytes.length) c.request_)
  | .aborted => { c with phase := .idle }
  | .failed => c.stop

/-- Each piece completes the outstanding read; without one it is left in the socket. -/
def receive (c : ServerConnection σ) (chunks : List Bytes) : ServerConnection σ :=
  chunks.foldl (fun c chunk => if c.phase = .reading then c.onRead host (.success chunk) else c) c

variable {host} {c : ServerConnection σ}

theorem onParsed_verdict (c : ServerConnection σ) (r : ResultType × Memory) :
    (c.onParsed host r).result = some r.1 ∧ (c.onParsed host r).request_ = r.2 := by
  rcases r with ⟨result, req⟩
  unfold onParsed
  cases result with
  | good =>
      dsimp only
      split
      · exact ⟨rfl, rfl⟩
      · exact ⟨rfl, rfl⟩
  | bad => exact ⟨rfl, rfl⟩
  | indeterminate => exact ⟨rfl, rfl⟩

theorem onParsed_not_reading {r : ResultType × Memory} (hr : r.1 ≠ .indeterminate) :
    (c.onParsed host r).phase ≠ .reading := by
  rcases r with ⟨result, req⟩
  unfold onParsed
  cases result with
  | good =>
      dsimp only
      split
      · exact nofun
      · exact nofun
  | bad => exact nofun
  | indeterminate => exact absurd rfl hr

theorem onRead_success (c : ServerConnection σ) (bytes : Bytes) :
    c.onRead host (.success bytes) =
      { c with buffer_ := bytes ++ c.buffer_.drop bytes.length }.onParsed host
        (parse bytes c.request_) := by
  rw [onRead]
  dsimp only
  rw [List.take_left]

/-- A connection that no longer reads ignores what arrives. -/
theorem receive_not_reading (h : c.phase ≠ .reading) (chunks : List Bytes) :
    c.receive host chunks = c := by
  rw [receive]
  exact List.foldl_fixed' (fun _ => if_neg h) chunks

/-- The first completion decides. -/
theorem receive_start (host : Host σ) (c : ServerConnection σ) (first : Bytes) (rest : List Bytes) :
    (c.start.receive host (first :: rest)).result = some (parse first c.request_).1 ∧
      (c.start.receive host (first :: rest)).request_ = memcpy first c.request_ := by
  have hstep : c.start.receive host (first :: rest) =
      (c.start.onRead host (.success first)).receive host rest := by
    have hreading : c.start.phase = .reading := rfl
    rw [receive, List.foldl_cons, if_pos hreading]
    rfl
  have hdecided := parse_ne_indeterminate first c.start.request_
  rw [hstep, onRead_success, receive_not_reading (onParsed_not_reading hdecided)]
  refine ⟨(onParsed_verdict _ _).1, (onParsed_verdict _ _).2.trans ?_⟩
  rw [parse_eq]
  rfl

/-! ### Segmentation -/

/-- The connection ends with the result and the request that it has when all arrives in one
completion, and asks for more as long as bytes of a good request are missing. -/
structure SegmentationIndependent (host : Host σ) (c : ServerConnection σ)
    (chunks : List Bytes) : Prop where
  result : (c.start.receive host chunks).result = (c.start.receive host [chunks.flatten]).result
  request : Agree requestSize (c.start.receive host chunks).request_
    (c.start.receive host [chunks.flatten]).request_
  more : (c.start.receive host [chunks.flatten]).result = some .good →
    ∀ pre, pre <+: chunks → pre ≠ [] → pre ≠ chunks →
      (c.start.receive host pre).result = some .indeterminate

/-- All arrives in one completion, or what follows the first stood in the request before and the
request is acceptable neither for the bytes of the first nor for all. -/
def Insensitive (c : ServerConnection σ) (first : Bytes) (rest : List Bytes) : Prop :=
  rest = [] ∨
    ((∀ i < requestSize, first.length ≤ i →
        memcpy (first ++ rest.flatten) c.request_ i = c.request_ i) ∧
      ¬ Acceptable first.length (memcpy (first ++ rest.flatten) c.request_) ∧
      ¬ Acceptable (first ++ rest.flatten).length (memcpy (first ++ rest.flatten) c.request_))

/-- Two results on the same request are the same only when it is acceptable for neither. -/
theorem parse_result_eq_iff {first image : Bytes} {req : Memory}
    (hlt : first.length < image.length) (hle : image.length ≤ 8192)
    (hagree : Agree requestSize (memcpy first req) (memcpy image req)) :
    (parse first req).1 = (parse image req).1 ↔
      ¬ Acceptable first.length (memcpy image req) ∧
        ¬ Acceptable image.length (memcpy image req) := by
  have hfirst := acceptable_congr hagree first.length
  have hone : ¬ (Acceptable first.length (memcpy image req) ∧
      Acceptable image.length (memcpy image req)) := fun hboth =>
    absurd (hboth.1.1.unique hboth.2.1 (by omega) hle) (Nat.ne_of_lt hlt)
  rw [parse_eq, parse_eq]
  dsimp only
  by_cases hshort : Acceptable first.length (memcpy image req)
  · have hlong : ¬ Acceptable image.length (memcpy image req) := fun hlong => hone ⟨hshort, hlong⟩
    rw [if_pos (hfirst.mpr hshort), if_neg hlong]
    exact iff_of_false nofun fun hneither => hneither.1 hshort
  · rw [if_neg fun hacceptable => hshort (hfirst.mp hacceptable)]
    by_cases hlong : Acceptable image.length (memcpy image req)
    · rw [if_pos hlong]
      exact iff_of_false nofun fun hneither => hneither.2 hlong
    · rw [if_neg hlong]
      exact iff_of_true rfl ⟨hshort, hlong⟩

/-- What arrives in one completion is not cut. -/
theorem segmentationIndependent_single (host : Host σ) (c : ServerConnection σ) (image : Bytes) :
    c.SegmentationIndependent host [image] := by
  have hflatten : [image].flatten = image := List.flatten_singleton
  refine ⟨?_, ?_, fun _ pre hpre hne hproper => ?_⟩
  · rw [hflatten]
  · rw [hflatten]
    exact Agree.refl _ _
  · rcases List.prefix_cons_iff.mp hpre with rfl | ⟨t, rfl, ht⟩
    · exact absurd rfl hne
    · rw [List.prefix_nil.mp ht] at hproper
      exact absurd rfl hproper

/-- The verdict on a request that fits one completion does not depend on how it is cut if and only
if it is not cut, or changes nothing behind its first piece and is bad with and without it. -/
theorem segmentationIndependent_iff (host : Host σ) (c : ServerConnection σ) {first : Bytes}
    {rest : List Bytes} (hchunks : ∀ chunk ∈ first :: rest, chunk ≠ [])
    (htotal : (first :: rest).flatten.length ≤ 8192) :
    c.SegmentationIndependent host (first :: rest) ↔ c.Insensitive first rest := by
  obtain ⟨hresult, hrequest⟩ := receive_start host c first rest
  obtain ⟨hresult', hrequest'⟩ := receive_start host c (first :: rest).flatten []
  rw [List.flatten_cons] at hresult' hrequest' htotal
  cases rest with
  | nil =>
      exact iff_of_true (segmentationIndependent_single host c first) (Or.inl rfl)
  | cons second rest =>
      have hsecond : 0 < second.length := List.length_pos_iff.mpr (hchunks second (by simp))
      have hlt : first.length < (first ++ (second :: rest).flatten).length := by
        rw [List.flatten_cons, List.length_append, List.length_append]
        omega
      have hagree : Agree requestSize (memcpy first c.request_)
          (memcpy (first ++ (second :: rest).flatten) c.request_) ↔ _ := agree_memcpy_iff
      constructor
      · rintro ⟨hsame, hreq, -⟩
        rw [List.flatten_cons, hresult, hresult'] at hsame
        rw [List.flatten_cons, hrequest, hrequest'] at hreq
        refine Or.inr ⟨hagree.mp hreq, ?_⟩
        exact (parse_result_eq_iff hlt htotal hreq).mp (Option.some.inj hsame)
      · rintro (hnil | ⟨hrest, hneither⟩)
        · cases hnil
        · have hreq := hagree.mpr hrest
          have hsame := (parse_result_eq_iff hlt htotal hreq).mpr hneither
          refine ⟨?_, ?_, fun hgood => ?_⟩
          · rw [List.flatten_cons, hresult, hresult', hsame]
          · rw [List.flatten_cons, hrequest, hrequest']
            exact hreq
          · rw [List.flatten_cons, hresult', parse_eq, if_neg hneither.2] at hgood
            exact absurd hgood nofun

/-- A connection with the table of users for a database, and `request_` all zeros. -/
def tableServer : ServerConnection (List UserRow) where
  request_ := fun _ => 0
  database := []

def tableHost : Host (List UserRow) := ⟨tableConnection, 0, fun _ => 0⟩

/-- Two zeros, one by one. -/
theorem segmentationIndependent_iff_zeros :
    tableServer.SegmentationIndependent tableHost [[0], [0]] :=
  (segmentationIndependent_iff tableHost tableServer (by decide) (by decide)).mpr
    (Or.inr (by decide))

/-- A `log_out` of `sizeof(request)` bytes with the right length. -/
def logOutImage : Bytes := [1, 0, 0, 0, 116, 0, 0, 0] ++ List.replicate 104 0

/-- The image is acceptable, and its first eight bytes are answered with bad. -/
theorem logOutImage_not_independent :
    logOutImage.length = requestSize ∧
      (tableServer.start.receive tableHost [logOutImage]).result = some .good ∧
      (tableServer.start.receive tableHost [logOutImage.take 8]).result = some .bad ∧
      ¬ tableServer.SegmentationIndependent tableHost [logOutImage.take 8, logOutImage.drop 8] := by
  have hgood : (tableServer.start.receive tableHost [logOutImage]).result = some .good := by
    rw [(receive_start tableHost tableServer logOutImage []).1]
    decide
  have hbad : ∀ rest, (tableServer.start.receive tableHost (logOutImage.take 8 :: rest)).result =
      some .bad := by
    intro rest
    rw [(receive_start tableHost tableServer (logOutImage.take 8) rest).1]
    decide
  refine ⟨rfl, hgood, hbad [], fun hindependent => ?_⟩
  have hsame := hindependent.result
  rw [hbad] at hsame
  exact absurd (hsame.trans hgood) (by decide)

end ServerConnection

end AsioTest.Action
