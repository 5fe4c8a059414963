import AsioTest.ChatRelaying

/-!
How long a session of a `chat_server` lives. It is kept by `participants_` and by the handlers of
its operations, each of which holds `self`. The room never keeps one that will not hear of its peer
any more, and one that neither keeps is never touched again.
-/

namespace AsioTest.Chat

open AsyncSocket ByteStrings TransitionRuns

namespace ChatSession

/-- As long as it is joined, a session reads. -/
def Attentive (s : ChatSession) : Prop :=
  s.reads.length ≤ 1 ∧ (s.joined = true → s.reads.length = 1)

variable {s t : ChatSession}

theorem Attentive.deliver (hs : s.Attentive) (msg : ChatMessage) : (s.deliver msg).Attentive := by
  have hsame := s.deliver_undisturbed msg
  rw [Attentive, hsame.reads, hsame.joined]
  exact hs

theorem Attentive.complete {k : Nat} {r : Completion Bytes} (hs : s.Attentive)
    (h : s.step (.complete k r) = some t) : t.Attentive := by
  cases complete_effect hs.1 h with
  | written hcalls hreads hjoined =>
      rw [Attentive, hreads, hjoined]
      exact hs
  | writeFailed hwrite hr hcalls hreads hjoined =>
      rw [Attentive, hreads, hjoined]
      exact ⟨hs.1, nofun⟩
  | readEnded hreading hcalls hreads hjoined =>
      rw [Attentive, hreads, hjoined]
      exact ⟨Nat.zero_le 1, nofun⟩
  | headerRead hreading hcalls hreads hjoined =>
      obtain ⟨buffer, hreads⟩ := hreads
      rw [Attentive, hreads]
      exact ⟨Nat.le_refl 1, fun _ => rfl⟩
  | bodyRead hreading msg hcalls hreads hjoined =>
      rw [Attentive, hreads]
      exact ⟨Nat.le_refl 1, fun _ => rfl⟩

theorem attentive_reachable {readMsg_ : ChatMessage} {recentMsgs : List ChatMessage}
    (h : Reachable step (started readMsg_ recentMsgs) s) : s.Attentive := by
  refine h.invariant (I := Attentive) (fun s e t hs ht => ?_) ?_
  · cases e with
    | deliver msg =>
        cases ht
        exact hs.deliver msg
    | complete k r => exact hs.complete ht
  · rw [Attentive, (started_effect _ _).2.2.2]
    exact ⟨Nat.le_refl 1, fun _ => rfl⟩

/-- A session that has left does not come back. -/
theorem run_left {es : List SessionEvent} (hs : s.Attentive) (hleft : s.joined = false)
    (h : run step s es = some t) : t.joined = false := by
  refine (run_invariant (I := fun t => Attentive t ∧ t.joined = false) (fun s e t hs ht => ?_)
    ⟨hs, hleft⟩ h).2
  cases e with
  | deliver msg =>
      cases ht
      exact ⟨hs.1.deliver msg, hs.2⟩
  | complete k r =>
      refine ⟨hs.1.complete ht, ?_⟩
      cases complete_effect hs.1.1 ht with
      | written hcalls hreads hjoined => exact hjoined.trans hs.2
      | writeFailed hwrite hr hcalls hreads hjoined => exact hjoined
      | readEnded hreading hcalls hreads hjoined => exact hjoined
      | headerRead hreading hcalls hreads hjoined => exact hjoined.trans hs.2
      | bodyRead hreading msg hcalls hreads hjoined => exact hjoined.trans hs.2

/-- With nothing outstanding no handler of the session runs. -/
theorem step_idle (hidle : s.socket_.pending = []) (k : Nat) (r : Completion Bytes) :
    s.step (.complete k r) = none := by
  simp only [step, ChatPeer.finish, Socket.finish_nil hidle, Option.map_none]

end ChatSession

namespace ChatServer

variable {s t : ChatServer}

theorem wellFormed_run {es : List ChatServerEvent} (hs : s.WellFormed)
    (h : run ChatServer.step s es = some t) : t.WellFormed :=
  run_invariant (I := WellFormed) (fun _ _ _ hs ht => hs.step ht) hs h

/-- A session outside the room gets nothing from the handlers of the others. -/
theorem WellFormed.partOf_outside (hs : s.WellFormed) {i j k : Nat} {r : Completion Bytes}
    (hij : j ≠ i) (hout : j ∉ s.room_.participants_) (h : s.step (.complete i k r) = some t) :
    partOf j s (.complete i k r) = [] := by
  obtain ⟨calls, -, hmade, -⟩ := hs.passedOn h
  have hnever : (roomOps (calls.map (Prod.mk i))).countP (RoomOp.isJoin j) = 0 := by
    rw [countP_roomOps, callsBy_map, if_neg hij]
    rfl
  rw [partOf, if_neg hij, hmade, received_outside hout hnever]
  rfl

/-- A session without operations, outside the room, is as it was after any event. -/
theorem WellFormed.idle_step (hs : s.WellFormed) {e : ChatServerEvent} {i : Nat} {x : ChatSession}
    (hx : s.sessions[i]? = some x) (hidle : x.socket_.pending = []) (hout : x.joined = false)
    (h : s.step e = some t) : t.sessions[i]? = some x := by
  obtain ⟨d, hd, hrun⟩ := (session_component i).moves s e t x h hx
  have hpart : partOf i s e = [] := by
    cases e with
    | accept r readMsg_ => rfl
    | complete j k r =>
        by_cases hij : i = j
        · rw [partOf, if_pos hij] at hrun
          rw [run_singleton, ChatSession.step_idle hidle] at hrun
          cases hrun
        · refine hs.partOf_outside hij (fun hmem => ?_) h
          cases hout.symm.trans ((hs.member i x hx).mp hmem)
  rw [hpart] at hrun
  cases hrun
  exact hd

/-- In every state of the server, and for every session in it: as long as it is a participant, it
has exactly one read outstanding; once it is none, it never becomes one again; and when nothing of
it is outstanding, it is no participant, and it stays just as it is however the run goes on. -/
theorem sessions_kept (h : Reachable ChatServer.step {} s) {i : Nat} {x : ChatSession}
    (hx : s.sessions[i]? = some x) :
    (i ∈ s.room_.participants_ → x.reads.length = 1) ∧
    (i ∉ s.room_.participants_ → ∀ es t, run ChatServer.step s es = some t →
      i ∉ t.room_.participants_) ∧
    (x.socket_.pending = [] → i ∉ s.room_.participants_ ∧
      ∀ es t, run ChatServer.step s es = some t → t.sessions[i]? = some x) := by
  have hs := wellFormed_reachable h
  obtain ⟨readMsg_, recentMsgs, hreach⟩ := session_reachable h hx
  have hattentive := ChatSession.attentive_reachable hreach
  have hreading : i ∈ s.room_.participants_ → x.reads.length = 1 :=
    fun hmem => hattentive.2 ((hs.member i x hx).mp hmem)
  have hleft : i ∉ s.room_.participants_ → x.joined = false := fun hout => by
    rw [hs.member i x hx] at hout
    simpa using hout
  refine ⟨hreading, fun hout es t ht => ?_, fun hidle => ?_⟩
  · obtain ⟨d, hd, hrun⟩ := (session_component i).run_of_exists hx ht
    rw [(wellFormed_run hs ht).member i d hd, ChatSession.run_left hattentive (hleft hout) hrun]
    exact Bool.false_ne_true
  · have hout : i ∉ s.room_.participants_ := by
      intro hmem
      have hnone : x.reads = [] := by
        rw [ChatPeer.reads, Socket.outstanding, hidle]
        rfl
      have hone := hreading hmem
      rw [hnone] at hone
      cases hone
    refine ⟨hout, fun es t ht => ?_⟩
    refine (run_invariant (I := fun t : ChatServer => t.WellFormed ∧ t.sessions[i]? = some x)
      (fun s e t hs ht => ⟨hs.1.step ht, ?_⟩) ⟨hs, hx⟩ ht).2
    exact hs.1.idle_step hs.2 hidle (hleft hout) ht

/-- The first read of a session fails. -/
theorem sessions_kept_failed : ∃ s x,
    run ChatServer.step {} [.accept (.success ()) .blank, .complete 0 0 .failed] = some s ∧
    s.sessions[0]? = some x ∧ 0 ∉ s.room_.participants_ ∧
    ∀ es t, run ChatServer.step s es = some t → t.sessions[0]? = some x := by
  have hrun : run ChatServer.step {} [.accept (.success ()) .blank, .complete 0 0 .failed] =
      some _ := rfl
  have hkept := sessions_kept ⟨_, hrun⟩ (i := 0) rfl
  exact ⟨_, _, hrun, rfl, hkept.2.2 rfl⟩

end ChatServer

end AsioTest.Chat
