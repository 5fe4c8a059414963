import AsioTest.ChatClient

/-!
What a connected client sends when nobody closes it and no operation fails. The handler of a write
closes the socket when the queue has drained, so that the client goes on exactly as long as every
write finds another message behind it.
-/

namespace AsioTest.Chat

open AsyncSocket ByteStrings TransitionRuns

namespace ChatClient

/-- No call of `close`, and every operation that completes succeeds. -/
def Quiet : ClientEvent → Bool
  | .write _ => true
  | .runPosted => true
  | .complete _ (.success _) => true
  | _ => false

/-- A write that completes has another message behind it, and a header that has been read is
accepted. -/
def KeepsOn (s : ChatClient) : ClientEvent → Prop
  | .complete k (.success bytes) =>
      match s.nextOp k with
      | some (.write _ _) => 2 ≤ s.writeMsgs_.length
      | some (.readHeader _) => (s.readMsg_.store 0 bytes).decodeHeader.2 = true
      | _ => True
  | _ => True

/-- The socket has not been closed, and when there is nothing left to do, everything the client was
asked to send has been written. -/
def SendsAll (s : ChatClient) : Prop :=
  s.closed = false ∧
    (s.writes = [] → s.posted = [] → s.written = s.asked.flatMap ChatMessage.wire)

/-- The state of a client that goes on sending: what it was asked to send and has not enqueued is
posted, in the same order. -/
structure Sending (s : ChatClient) : Prop where
  orderly : s.outputQueue.Orderly
  ok : s.writeFailed = false
  opened : s.closed = false
  waiting : ∃ msgs, s.posted = msgs.map Posted.write ∧ s.asked = s.enqueued ++ msgs

theorem Sending.sendsAll {s : ChatClient} (h : s.Sending) : s.SendsAll := by
  refine ⟨h.opened, fun hwrites hposted => ?_⟩
  obtain ⟨msgs, hmsgs, hasked⟩ := h.waiting
  have hnone : msgs = [] := List.map_eq_nil_iff.mp (hmsgs.symm.trans hposted)
  rw [ChatPeer.written_all h.orderly h.ok hwrites, hasked, hnone, List.append_nil]

theorem sending_connected (readMsg_ : ChatMessage) : (connected readMsg_).Sending := by
  refine ⟨?_, rfl, rfl, [], rfl, rfl⟩
  show (ChatPeer.doReadHeader _).outputQueue.Orderly
  rw [ChatPeer.doReadHeader_outputQueue]
  exact ⟨rfl, fun _ => rfl, nofun⟩

section

variable {s : ChatClient} {k : Nat} {bytes : Bytes}

theorem keepsOn_write {msg : ChatMessage} {buffer : Span}
    (hnext : s.nextOp k = some (.write msg buffer)) :
    s.KeepsOn (.complete k (.success bytes)) ↔ 2 ≤ s.writeMsgs_.length := by
  simp only [KeepsOn, hnext]

theorem keepsOn_readHeader {buffer : Span} (hnext : s.nextOp k = some (.readHeader buffer)) :
    s.KeepsOn (.complete k (.success bytes)) ↔
      (s.readMsg_.store 0 bytes).decodeHeader.2 = true := by
  simp only [KeepsOn, hnext]

theorem keepsOn_readBody {buffer : Span} (hnext : s.nextOp k = some (.readBody buffer)) :
    s.KeepsOn (.complete k (.success bytes)) := by
  simp only [KeepsOn, hnext]

variable (s bytes)

theorem onWrite_of_more (request : WriteRequest) (h : 2 ≤ s.writeMsgs_.length) :
    s.onWrite request (.success bytes) =
      { s with toChatPeer := (s.toChatPeer.popWritten request).doWrite } := by
  have htail : s.writeMsgs_.tail.isEmpty = false := by
    rw [List.isEmpty_eq_false_iff, ← List.length_pos_iff, List.length_tail]
    omega
  simp only [onWrite, ChatPeer.popWritten, htail]
  rfl

theorem onWrite_of_drained (request : WriteRequest) (h : ¬ 2 ≤ s.writeMsgs_.length) :
    (s.onWrite request (.success bytes)).closed = true := by
  have htail : s.writeMsgs_.tail.isEmpty = true := by
    rw [List.isEmpty_iff, ← List.length_eq_zero_iff, List.length_tail]
    omega
  simp only [onWrite, ChatPeer.popWritten, htail]
  rfl

end

/-! ### Runs -/

/-- A successful completion keeps the client going under the condition: a read changes nothing the
queue depends on, and a write hands on to the message behind it. -/
theorem Sending.complete {s t : ChatClient} {k : Nat} {bytes : Bytes} (hs : s.Sending)
    (hkeeps : s.KeepsOn (.complete k (.success bytes)))
    (h : s.step (.complete k (.success bytes)) = some t) : t.Sending := by
  have horderly := orderly_step h hs.orderly
  obtain ⟨-, hok, hopened, msgs, hposted, hasked⟩ := hs
  obtain ⟨⟨op, p⟩, hfinish, rfl⟩ := Option.map_eq_some_iff.mp h
  have hnext := ChatPeer.finish_nextOp hfinish
  obtain ⟨hread, hqueue, henqueued, hfailed⟩ := ChatPeer.finish_kept hfinish
  have hok' : p.writeFailed = false := hfailed.trans hok
  have hasked' : s.asked = p.enqueued ++ msgs := by rw [henqueued, hasked]
  cases op with
  | write msg buffer =>
      have hmore : 2 ≤ p.writeMsgs_.length := by
        rw [hqueue]
        exact (keepsOn_write hnext).mp hkeeps
      have ht := onWrite_of_more { s with toChatPeer := p } bytes (msg, buffer) hmore
      simp only [handle] at horderly ⊢
      rw [ht] at horderly ⊢
      refine ⟨horderly, ?_, hopened, msgs, hposted, ?_⟩
      · exact (ChatPeer.doWrite_writeFailed _).trans hok'
      · show s.asked = (p.popWritten (msg, buffer)).doWrite.enqueued ++ msgs
        rw [ChatPeer.doWrite_enqueued]
        exact hasked'
  | readHeader buffer =>
      have haccepted : (p.readMsg_.store 0 bytes).decodeHeader.2 = true := by
        rw [hread]
        exact (keepsOn_readHeader hnext).mp hkeeps
      have ht := onReadHeader_of_accepted { s with toChatPeer := p } haccepted
      simp only [handle] at horderly ⊢
      rw [ht] at horderly ⊢
      exact ⟨horderly, hok', hopened, msgs, hposted, hasked'⟩
  | readBody buffer => exact ⟨horderly, hok', hopened, msgs, hposted, hasked'⟩

theorem Sending.step {s t : ChatClient} {e : ClientEvent} (hs : s.Sending) (hquiet : Quiet e = true)
    (hkeeps : KeepsOn s e) (h : s.step e = some t) : t.Sending := by
  have horderly := orderly_step h hs.orderly
  obtain ⟨msgs, hposted, hasked⟩ := hs.waiting
  cases e with
  | write msg =>
      cases h
      refine ⟨horderly, hs.ok, hs.opened, msgs ++ [msg], ?_, ?_⟩
      · show s.posted ++ [.write msg] = (msgs ++ [msg]).map Posted.write
        rw [hposted, List.map_append]
        rfl
      · show s.asked ++ [msg] = s.enqueued ++ (msgs ++ [msg])
        rw [hasked, List.append_assoc]
  | runPosted =>
      obtain ⟨p, rest, hcons, rfl⟩ := runPosted_eq_some h
      cases msgs with
      | nil => cases hcons.symm.trans hposted
      | cons msg msgs =>
          obtain ⟨rfl, rfl⟩ := List.cons.inj (hcons.symm.trans hposted)
          refine ⟨horderly, ?_, hs.opened, msgs, rfl, ?_⟩
          · exact (ChatPeer.enqueue_writeFailed _ _).trans hs.ok
          · show s.asked = (s.toChatPeer.enqueue msg).enqueued ++ msgs
            calc
              s.asked = s.enqueued ++ ([msg] ++ msgs) := hasked
              _ = (s.toChatPeer.enqueue msg).enqueued ++ msgs := by
                rw [ChatPeer.enqueue_enqueued, List.append_assoc]
  | complete k r =>
      cases r with
      | success bytes => exact hs.complete hkeeps h
      | aborted => cases hquiet
      | failed => cases hquiet
  | close => cases hquiet
  | establish => cases hquiet
  | connect r => cases hquiet

/-- A step that does not keep the client going closes its socket. -/
theorem not_sendsAll_of_not_keepsOn {s t : ChatClient} {e : ClientEvent}
    (hkeeps : ¬ KeepsOn s e) (h : s.step e = some t) : ¬ t.SendsAll := by
  have hclosed : t.closed = true := by
    cases e with
    | complete k r =>
        cases r with
        | aborted => exact absurd trivial hkeeps
        | failed => exact absurd trivial hkeeps
        | success bytes =>
            obtain ⟨⟨op, p⟩, hfinish, rfl⟩ := Option.map_eq_some_iff.mp h
            have hnext := ChatPeer.finish_nextOp hfinish
            obtain ⟨hread, hqueue, -, -⟩ := ChatPeer.finish_kept hfinish
            cases op with
            | write msg buffer =>
                rw [keepsOn_write hnext, ← hqueue] at hkeeps
                exact onWrite_of_drained { s with toChatPeer := p } bytes _ hkeeps
            | readHeader buffer =>
                rw [keepsOn_readHeader hnext, ← hread] at hkeeps
                exact congrArg closed (onReadHeader_of_rejected { s with toChatPeer := p } hkeeps)
            | readBody buffer => exact absurd (keepsOn_readBody hnext) hkeeps
    | _ => exact absurd trivial hkeeps
  intro hall
  cases hall.1.symm.trans hclosed

/-- In a run of a connected client without a call of `close` in which every operation succeeds, the
client always sends all that the calls of `write` have brought (`asked_run`) and is never closed, if
and only if every write that completes has another message behind it and every header read is
accepted. -/
theorem client_sends_all_iff (readMsg_ : ChatMessage) {es : List ClientEvent} {t : ChatClient}
    (h : run ChatClient.step (.connected readMsg_) es = some t) (hquiet : ∀ e ∈ es, Quiet e) :
    Always ChatClient.step SendsAll (.connected readMsg_) es ↔
      Throughout ChatClient.step KeepsOn (.connected readMsg_) es :=
  always_iff_throughout (I := Sending)
    (fun _ _ _ hs hq hk hstep => hs.step hq hk hstep) (fun _ hs => hs.sendsAll)
    (fun _ _ _ _ _ hk hstep => not_sendsAll_of_not_keepsOn hk hstep)
    (sending_connected readMsg_) h (throughout_of_forall_mem hquiet _)

/-- Two messages are posted and enqueued, and the first is written. -/
def twoMessages : List ClientEvent :=
  [.write .blank, .write .blank, .runPosted, .runPosted, .complete 1 (.success [])]

theorem client_sends_all_iff_twoMessages :
    Always ChatClient.step SendsAll (.connected .blank) twoMessages := by
  have hrun : run ChatClient.step (.connected .blank) twoMessages = some _ := rfl
  refine (client_sends_all_iff .blank hrun (by decide)).mpr ?_
  refine throughout_cons.mpr ⟨trivial, fun s₁ h₁ => throughout_cons.mpr ⟨trivial, fun s₂ h₂ => ?_⟩⟩
  cases h₁
  cases h₂
  refine throughout_cons.mpr ⟨trivial, fun s₃ h₃ => throughout_cons.mpr ⟨trivial, fun s₄ h₄ => ?_⟩⟩
  cases h₃
  cases h₄
  exact throughout_cons.mpr ⟨(keepsOn_write rfl).mpr (Nat.le_refl 2), fun _ _ => throughout_nil⟩

/-- One message is posted, enqueued and written. -/
def oneMessage : List ClientEvent := [.write .blank, .runPosted, .complete 1 (.success [])]

theorem oneMessage_not_sendsAll : (∀ e ∈ oneMessage, Quiet e) ∧
    ∃ s, run ChatClient.step (.connected .blank) oneMessage = some s ∧ s.closed = true ∧
      ¬ Always ChatClient.step SendsAll (.connected .blank) oneMessage := by
  have hrun : run ChatClient.step (.connected .blank) oneMessage = some _ := rfl
  refine ⟨by decide, _, hrun, rfl, fun hall => ?_⟩
  cases (hall oneMessage _ List.prefix_rfl hrun).1

end ChatClient

end AsioTest.Chat
