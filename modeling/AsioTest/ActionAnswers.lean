import AsioTest.ActionConnection
import AsioTest.TransitionRuns

/-!
What stands in `reply_` when the action server's connection writes it. The reply is constructed
without a status; a branch of `handle_request` assigns one, while a request that is bad, or whose
method number is no enumerator, is written as the reply was constructed.
-/

namespace AsioTest.Action

open ByteStrings MemoryImages AsyncSocket TransitionRuns

variable {σ : Type}

section Handler

variable {conn : Connection σ} {time : Int} {req : Request} {rep rep' : Reply} {s s' : σ}

theorem handleRequest_unknown (h : MethodType.ofNumber req.method = none) :
    handleRequest conn time req rep s = some (rep, s) := by
  rw [handleRequest, h]

theorem answerBySecret_status (h : answerBySecret conn req rep s = some (rep', s')) :
    ∃ status, rep'.status = some status := by
  obtain ⟨answer, -, heq⟩ := Option.bind_eq_some_iff.mp h
  cases heq
  exact ⟨_, rfl⟩

theorem answerById_status (h : answerById conn req rep s = some (rep', s')) :
    ∃ status, rep'.status = some status := by
  obtain ⟨answer, -, heq⟩ := Option.bind_eq_some_iff.mp h
  cases heq
  exact ⟨_, rfl⟩

theorem answerSignIn_status (h : answerSignIn conn time req rep s = some (rep', s')) :
    ∃ status, rep'.status = some status := by
  cases hget : getSecret conn req.id req.pwd s with
  | none =>
      rw [answerSignIn, hget] at h
      cases h
  | some answer =>
      rw [answerSignIn_eq hget] at h
      split_ifs at h
      · obtain ⟨s'', -, heq⟩ := Option.map_eq_some_iff.mp h
        cases heq
        exact ⟨_, rfl⟩
      · cases h
        exact ⟨_, rfl⟩

/-- Every branch assigns a status. -/
theorem handleRequest_status {m : MethodType} (hmethod : MethodType.ofNumber req.method = some m)
    (h : handleRequest conn time req rep s = some (rep', s')) :
    ∃ status, rep'.status = some status := by
  rw [handleRequest, hmethod] at h
  cases m with
  | logIn => exact answerBySecret_status h
  | logOut => exact answerById_status h
  | signIn => exact answerSignIn_status h
  | getUserGps => exact answerBySecret_status h
  | getItemGps => exact answerBySecret_status h
  | sendUserGps => exact answerById_status h

end Handler

namespace ServerConnection

variable (host : Host σ)

/-- The connection as it is constructed, on whatever memory its request gets. -/
def accepted (request_ : Memory) (database : σ) : ServerConnection σ where
  request_ := request_
  database := database

/-- A completion of the outstanding read. -/
def step (c : ServerConnection σ) (e : Completion Bytes) : Option (ServerConnection σ) :=
  if c.phase = .reading then some (c.onRead host e) else none

/-- When the connection writes, the status of its reply has been assigned: `bad_request` after a
bad result, and otherwise by the branch of `handle_request` for the method. -/
structure Assigned (database : σ) (c : ServerConnection σ) : Prop where
  written : c.phase = .writing →
    if c.result = some .bad then c.reply_.status = some .badRequest
    else ∃ status, c.reply_.status = some status ∧
      handleRequest host.conn host.time (requestAt host.process c.request_) {} database =
        some (c.reply_, c.database)

/-- A read that succeeds has brought an acceptable request with a known method. -/
def Answerable (c : ServerConnection σ) : Completion Bytes → Prop
  | .success bytes =>
      Acceptable bytes.length (memcpy bytes c.request_) ∧ KnownMethod (memcpy bytes c.request_)
  | _ => True

/-- While the connection reads, nothing has been answered. -/
structure Unanswered (database : σ) (c : ServerConnection σ) : Prop where
  assigned : Assigned host database c
  reading : c.phase = .reading → c.reply_ = {} ∧ c.database = database

variable {host} {database : σ} {c c' : ServerConnection σ}

theorem start_unanswered (host : Host σ) (request_ : Memory) (database : σ) :
    Unanswered host database (accepted request_ database).start :=
  ⟨⟨nofun⟩, fun _ => ⟨rfl, rfl⟩⟩

theorem unanswered_of_phase (hwriting : c.phase ≠ .writing) (hreading : c.phase ≠ .reading) :
    Unanswered host database c :=
  ⟨⟨fun h => absurd h hwriting⟩, fun h => absurd h hreading⟩

/-- What one read completion leads to: the reply is assigned if and only if the read has brought an
answerable request or nothing is written. -/
theorem onParsed_assigned (hreply : c.reply_ = {}) (hdatabase : c.database = database)
    (bytes : Bytes) : Assigned host database (c.onParsed host (parse bytes c.request_)) ↔
      Answerable c (.success bytes) := by
  rw [parse_eq]
  by_cases hacceptable : Acceptable bytes.length (memcpy bytes c.request_)
  · rw [if_pos hacceptable]
    cases hmethod : MethodType.ofNumber (method (memcpy bytes c.request_)) with
    | none =>
        have hanswer : handleRequest host.conn host.time
            (requestAt host.process (memcpy bytes c.request_)) c.reply_ c.database =
              some (c.reply_, c.database) := handleRequest_unknown hmethod
        simp only [onParsed, hanswer]
        refine iff_of_false (fun h => ?_) fun h => h.2 hmethod
        obtain ⟨status, hstatus, -⟩ := h.written rfl
        have hunset : c.reply_.status = none := by rw [hreply]
        exact absurd (hunset.symm.trans hstatus) (Option.some_ne_none status).symm
    | some m =>
        have hknown : KnownMethod (memcpy bytes c.request_) := by
          rw [KnownMethod, hmethod]
          exact Option.some_ne_none m
        refine iff_of_true ?_ ⟨hacceptable, hknown⟩
        simp only [onParsed]
        cases hanswer : handleRequest host.conn host.time
            (requestAt host.process (memcpy bytes c.request_)) c.reply_ c.database with
        | none => exact ⟨fun hphase => Phase.noConfusion hphase⟩
        | some answer =>
            obtain ⟨rep, s⟩ := answer
            have hbranch : MethodType.ofNumber
                (requestAt host.process (memcpy bytes c.request_)).method = some m := hmethod
            obtain ⟨status, hstatus⟩ := handleRequest_status hbranch hanswer
            rw [hreply, hdatabase] at hanswer
            exact ⟨fun _ => ⟨status, hstatus, hanswer⟩⟩
  · rw [if_neg hacceptable]
    refine iff_of_false (fun h => ?_) fun h => hacceptable h.1
    have hunset : c.reply_.status = none := by rw [hreply]
    exact absurd (hunset.symm.trans (h.written rfl)) (Option.some_ne_none _).symm

theorem onParsed_unanswered (hreply : c.reply_ = {}) (hdatabase : c.database = database)
    {bytes : Bytes} (h : Answerable c (.success bytes)) :
    Unanswered host database (c.onParsed host (parse bytes c.request_)) :=
  ⟨(onParsed_assigned hreply hdatabase bytes).mpr h, fun hreading =>
    absurd hreading (onParsed_not_reading (parse_ne_indeterminate bytes c.request_))⟩

/-- A reading connection that a completion finds unanswered. -/
theorem step_success {bytes : Bytes} (h : step host c (.success bytes) = some c') :
    c.phase = .reading ∧ c' = { c with
      buffer_ := bytes ++ c.buffer_.drop bytes.length }.onParsed host
        (parse bytes c.request_) := by
  rw [step] at h
  split_ifs at h with hreading
  have heq := Option.some.inj h
  rw [onRead_success] at heq
  exact ⟨hreading, heq.symm⟩

theorem step_unanswered {e : Completion Bytes} (hc : Unanswered host database c)
    (he : Answerable c e) (h : step host c e = some c') : Unanswered host database c' := by
  cases e with
  | success bytes =>
      obtain ⟨hreading, heq⟩ := step_success h
      obtain ⟨hreply, hdatabase⟩ := hc.reading hreading
      rw [heq]
      exact onParsed_unanswered (c := { c with
        buffer_ := bytes ++ c.buffer_.drop bytes.length }) hreply hdatabase he
  | aborted =>
      rw [step] at h
      split_ifs at h
      cases h
      exact unanswered_of_phase nofun nofun
  | failed =>
      rw [step] at h
      split_ifs at h
      cases h
      exact unanswered_of_phase nofun nofun

theorem step_not_assigned {e : Completion Bytes} (hc : Unanswered host database c)
    (he : ¬ Answerable c e) (h : step host c e = some c') : ¬ Assigned host database c' := by
  cases e with
  | success bytes =>
      obtain ⟨hreading, heq⟩ := step_success h
      obtain ⟨hreply, hdatabase⟩ := hc.reading hreading
      rw [heq]
      intro hassigned
      exact he ((onParsed_assigned (c := { c with
        buffer_ := bytes ++ c.buffer_.drop bytes.length }) hreply hdatabase bytes).mp hassigned)
  | aborted => exact absurd trivial he
  | failed => exact absurd trivial he

/-- In every run of an accepted connection the reply is assigned whenever it is written if and only
if every read that succeeds brings an acceptable request with a known method. -/
theorem assigned_iff (host : Host σ) (request_ : Memory) (database : σ)
    {es : List (Completion Bytes)} {c : ServerConnection σ}
    (hrun : run (step host) (accepted request_ database).start es = some c) :
    Always (step host) (Assigned host database) (accepted request_ database).start es ↔
      Throughout (step host) Answerable (accepted request_ database).start es := by
  exact always_iff_throughout (A := fun _ _ => True)
    (fun _ _ _ hc _ he h => step_unanswered hc he h) (fun _ hc => hc.assigned)
    (fun _ _ _ hc _ he h => step_not_assigned hc he h) (start_unanswered host request_ database)
    hrun fun _ _ _ _ _ => trivial

/-- An image of `sizeof(request)` bytes, all zeros behind the method and the right length. -/
def bareImage (number : Byte) : Bytes := [number, 0, 0, 0, 116, 0, 0, 0] ++ List.replicate 104 0

/-- A `get_user_gps` that names no secret. -/
theorem assigned_iff_getUserGps :
    Always (step tableHost) (Assigned tableHost []) (accepted (fun _ => 0) []).start
      [.success (bareImage 3)] := by
  refine (assigned_iff tableHost (fun _ => 0) [] (run_singleton.mpr (if_pos rfl))).mpr ?_
  refine throughout_cons.mpr ⟨⟨?_, ?_⟩, fun _ _ => throughout_nil⟩
  · decide +kernel
  · decide +kernel

/-- A single zero is bad, and a request with the method number 6 is good; both replies are written
without a status. -/
theorem unassigned_replies :
    (∃ c, run (step tableHost) (accepted (fun _ => 0) []).start [.success [0]] = some c ∧
      c.phase = .writing ∧ c.result = some .bad ∧ c.reply_.status = none ∧
      ¬ Assigned tableHost [] c) ∧
    ∃ c, run (step tableHost) (accepted (fun _ => 0) []).start [.success (bareImage 6)] = some c ∧
      c.phase = .writing ∧ c.result = some .good ∧ c.reply_.status = none ∧
      ¬ Assigned tableHost [] c := by
  have hstart := start_unanswered tableHost (fun _ => 0) []
  constructor
  · refine ⟨_, run_singleton.mpr (if_pos rfl), by decide +kernel, by decide +kernel,
      by decide +kernel, step_not_assigned hstart (fun h => ?_) (if_pos rfl)⟩
    exact absurd h.1 (by decide +kernel)
  · refine ⟨_, run_singleton.mpr (if_pos rfl), by decide +kernel, by decide +kernel,
      by decide +kernel, step_not_assigned hstart (fun h => ?_) (if_pos rfl)⟩
    exact absurd h.2 (by decide +kernel)

end ServerConnection

end AsioTest.Action
