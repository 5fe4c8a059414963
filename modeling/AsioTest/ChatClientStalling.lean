import AsioTest.ChatClient

/-!
When a client can be left with messages that it never sends. The handler of a write that fails does
nothing, so that the queue stays as it is with no write outstanding, and only `socket_closed` would
tell `main` to stop reading lines.
-/

namespace AsioTest.Chat

open AsyncSocket ByteStrings TransitionRuns

namespace ChatClient

/-- While messages are queued, a write is outstanding or `main` is told to stop. -/
def NotStuck (s : ChatClient) : Prop :=
  s.writeMsgs_ ≠ [] → s.writes ≠ [] ∨ s.socketClosed = true

/-- A write fails only when `socket_closed` has been set. -/
def FailsShut (s : ChatClient) : ClientEvent → Prop
  | .complete k r => (∃ msg buffer, s.nextOp k = some (.write msg buffer)) →
      (∀ bytes, r ≠ .success bytes) → s.socketClosed = true
  | _ => True

/-- A write fails. -/
def WriteFails (s : ChatClient) (e : ClientEvent) : Prop :=
  ∃ k r msg buffer, e = .complete k r ∧ s.nextOp k = some (.write msg buffer) ∧
    ∀ bytes, r ≠ .success bytes

variable {s t : ChatClient} {e : ClientEvent}

theorem failsShut_iff : FailsShut s e ↔ (WriteFails s e → s.socketClosed = true) := by
  constructor
  · rintro h ⟨k, r, msg, buffer, rfl, hnext, hr⟩
    exact h ⟨msg, buffer, hnext⟩ hr
  · intro h
    cases e with
    | complete k r =>
        rintro ⟨msg, buffer, hnext⟩ hr
        exact h ⟨k, r, msg, buffer, rfl, hnext, hr⟩
    | _ => trivial

theorem handle_writeFailed {op : ChatOp} {r : Completion Bytes}
    (h : ∀ msg buffer, op = .write msg buffer → ∃ bytes, r = .success bytes) :
    (s.handle op r).writeFailed = s.writeFailed ∧
      (s.socketClosed = true → (s.handle op r).socketClosed = true) := by
  cases op with
  | readHeader buffer =>
      cases r with
      | success bytes =>
          by_cases haccepted : (s.readMsg_.store 0 bytes).decodeHeader.2 = true
          · rw [handle, onReadHeader_of_accepted s haccepted]
            exact ⟨rfl, id⟩
          · rw [handle, onReadHeader_of_rejected s haccepted]
            exact ⟨rfl, fun _ => rfl⟩
      | aborted => exact ⟨rfl, fun _ => rfl⟩
      | failed => exact ⟨rfl, fun _ => rfl⟩
  | readBody buffer =>
      cases r with
      | success bytes => exact ⟨rfl, id⟩
      | aborted => exact ⟨rfl, fun _ => rfl⟩
      | failed => exact ⟨rfl, fun _ => rfl⟩
  | write msg buffer =>
      obtain ⟨bytes, rfl⟩ := h msg buffer rfl
      simp only [handle, onWrite]
      split_ifs
      · exact ⟨rfl, fun _ => rfl⟩
      · exact ⟨ChatPeer.doWrite_writeFailed _, id⟩

/-- Only a write that fails makes `writeFailed` true, and `socketClosed` is never reset. -/
theorem step_writeFailed (h : s.step e = some t) (hnot : ¬ WriteFails s e) :
    t.writeFailed = s.writeFailed ∧ (s.socketClosed = true → t.socketClosed = true) := by
  cases e with
  | write msg =>
      cases h
      exact ⟨rfl, id⟩
  | close =>
      cases h
      exact ⟨rfl, id⟩
  | runPosted =>
      obtain ⟨p, rest, -, rfl⟩ := runPosted_eq_some h
      cases p with
      | write msg => exact ⟨ChatPeer.enqueue_writeFailed _ msg, id⟩
      | close => exact ⟨rfl, id⟩
  | establish =>
      simp only [step] at h
      split_ifs at h
      cases h
      exact ⟨rfl, id⟩
  | connect r =>
      simp only [step] at h
      split_ifs at h
      cases h
      cases r <;> exact ⟨rfl, id⟩
  | complete k r =>
      obtain ⟨⟨op, p⟩, hfinish, rfl⟩ := Option.map_eq_some_iff.mp h
      obtain ⟨-, -, -, hfailed⟩ := ChatPeer.finish_kept hfinish
      have hnext := ChatPeer.finish_nextOp hfinish
      have hsucceeds : ∀ msg buffer, op = .write msg buffer → ∃ bytes, r = .success bytes := by
        rintro msg buffer rfl
        by_contra hr
        exact hnot ⟨k, r, msg, buffer, rfl, hnext, fun bytes heq => hr ⟨bytes, heq⟩⟩
      obtain ⟨hsame, hkept⟩ := handle_writeFailed (s := { s with toChatPeer := p }) hsucceeds
      exact ⟨hsame.trans hfailed, hkept⟩

/-- A write that fails leaves everything else as it was. -/
theorem step_of_writeFails (h : s.step e = some t) (hfails : WriteFails s e) :
    t.writeFailed = true ∧ t.socketClosed = s.socketClosed := by
  obtain ⟨k, r, msg, buffer, rfl, hnext, hr⟩ := hfails
  obtain ⟨⟨op, p⟩, hfinish, rfl⟩ := Option.map_eq_some_iff.mp h
  obtain rfl : op = .write msg buffer :=
    Option.some.inj ((ChatPeer.finish_nextOp hfinish).symm.trans hnext)
  cases r with
  | success bytes => exact absurd rfl (hr bytes)
  | aborted => exact ⟨rfl, rfl⟩
  | failed => exact ⟨rfl, rfl⟩

/-- No write has failed, unless `socket_closed` has been set. -/
structure Steady (s : ChatClient) : Prop where
  orderly : s.outputQueue.Orderly
  shut : s.writeFailed = true → s.socketClosed = true

theorem Steady.notStuck (hs : s.Steady) : s.NotStuck := by
  intro hqueue
  cases hfailed : s.writeFailed with
  | true => exact Or.inr (hs.shut hfailed)
  | false =>
      left
      rw [ChatPeer.writes_front hs.orderly hfailed]
      obtain ⟨m, rest, hcons⟩ := List.exists_cons_of_ne_nil hqueue
      rw [hcons]
      exact List.cons_ne_nil _ _

theorem Steady.step (hs : s.Steady) (hshut : FailsShut s e) (h : s.step e = some t) :
    t.Steady := by
  refine ⟨orderly_step h hs.orderly, fun hfailed => ?_⟩
  by_cases hfails : WriteFails s e
  · rw [(step_of_writeFails h hfails).2]
    exact failsShut_iff.mp hshut hfails
  · obtain ⟨hsame, hmono⟩ := step_writeFailed h hfails
    exact hmono (hs.shut (hsame ▸ hfailed))

/-- After a write that fails while `main` is not told to stop, the client is stuck. -/
theorem stuck_of_not_failsShut (hs : s.Steady) (hshut : ¬ FailsShut s e)
    (h : s.step e = some t) : ¬ t.NotStuck := by
  rw [failsShut_iff, Classical.not_imp] at hshut
  obtain ⟨hfails, hopen⟩ := hshut
  obtain ⟨hfailed, hsame⟩ := step_of_writeFails h hfails
  obtain ⟨hnone, hqueue⟩ := (orderly_step h hs.orderly).stopped hfailed
  intro hnot
  have hqueue' : t.writeMsgs_ ≠ [] := fun hnil => hqueue (congrArg (List.map _) hnil)
  rcases hnot hqueue' with hwrites | hclosed
  · exact hwrites hnone
  · exact hopen (hsame ▸ hclosed)

/-- In every run of a client, from before it is connected: it is never stuck if and only if no write
fails while `socket_closed` is not set. -/
theorem client_never_stuck_iff (readMsg_ : ChatMessage) {es : List ClientEvent} {t : ChatClient}
    (h : run ChatClient.step (.fresh readMsg_) es = some t) :
    Always ChatClient.step NotStuck (.fresh readMsg_) es ↔
      Throughout ChatClient.step FailsShut (.fresh readMsg_) es :=
  always_iff_throughout (I := Steady) (A := fun _ _ => True)
    (fun _ _ _ hs _ hshut hstep => hs.step hshut hstep) (fun _ hs => hs.notStuck)
    (fun _ _ _ hs _ hshut hstep => stuck_of_not_failsShut hs hshut hstep)
    ⟨⟨rfl, fun _ => rfl, fun hfailed => by cases hfailed⟩, fun hfailed => by cases hfailed⟩ h
    fun _ _ _ _ _ => trivial

/-- The server closes the connection, and the write that is outstanding fails after that. -/
def failsAfterRead : List ClientEvent :=
  [.establish, .connect (.success ()), .write .blank, .runPosted, .complete 0 .failed,
    .complete 0 .failed]

theorem client_never_stuck_iff_afterRead :
    Always ChatClient.step NotStuck (.fresh .blank) failsAfterRead := by
  have hrun : run ChatClient.step (.fresh .blank) failsAfterRead = some _ := rfl
  refine (client_never_stuck_iff .blank hrun).mpr ?_
  refine throughout_cons.mpr ⟨trivial, fun s₁ h₁ => throughout_cons.mpr ⟨trivial, fun s₂ h₂ => ?_⟩⟩
  cases h₁
  cases h₂
  refine throughout_cons.mpr ⟨trivial, fun s₃ h₃ => throughout_cons.mpr ⟨trivial, fun s₄ h₄ => ?_⟩⟩
  cases h₃
  cases h₄
  refine throughout_cons.mpr ⟨fun hwrite => ?_, fun s₅ h₅ => ?_⟩
  · obtain ⟨msg, buffer, hnext⟩ := hwrite
    cases hnext
  · cases h₅
    exact throughout_cons.mpr ⟨fun _ _ => rfl, fun _ _ => throughout_nil⟩

/-- A line is written before the connection is established. -/
def writtenEarly : List ClientEvent := [.write .blank, .runPosted, .complete 0 .failed]

theorem writtenEarly_stuck :
    ∃ s, Reachable ChatClient.step (.fresh .blank) s ∧ ¬ s.NotStuck := by
  refine ⟨_, ⟨writtenEarly, rfl⟩, fun hnot => ?_⟩
  rcases hnot (List.cons_ne_nil _ _) with hwrites | hclosed
  · exact hwrites rfl
  · cases hclosed

end ChatClient

end AsioTest.Chat
