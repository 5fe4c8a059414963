import AsioTest.ChatRelaying

/-!
All sessions of a `chat_server` are given the same messages in the same order: each has been given a
part of one sequence without gaps, and what two participants have been given ends alike.
-/

namespace AsioTest.Chat

open AsyncSocket TransitionRuns

/-! ### The room -/

theorem deliveredIn_append {P M : Type*} (ops ops' : List (RoomOp P M)) :
    deliveredIn (ops ++ ops') = deliveredIn ops ++ deliveredIn ops' := List.filterMap_append

variable {P M : Type*} [LinearOrder P] {room : ChatRoom P M} {p : P} {ops : List (RoomOp P M)}

/-- Who is outside stays outside until it joins. -/
theorem notMem_run (hp : p ∉ room.participants_) (hops : ops.countP (RoomOp.isJoin p) = 0) :
    p ∉ (room.run ops).1.participants_ := by
  induction ops generalizing room with
  | nil => exact hp
  | cons op ops ih =>
      obtain ⟨hop, hops⟩ := countP_join_cons hops
      refine ih ?_ hops
      rw [mem_apply, hop]
      simp [hp]

/-- Who is in the room at the end, and has not joined since, has not left. -/
theorem untilLeave_of_mem (hops : ops.countP (RoomOp.isJoin p) = 0)
    (h : p ∈ (room.run ops).1.participants_) : untilLeave p ops = ops := by
  induction ops generalizing room with
  | nil => rfl
  | cons op ops ih =>
      obtain ⟨hop, hops⟩ := countP_join_cons hops
      cases hleave : op.isLeave p with
      | false =>
          rw [untilLeave, List.takeWhile_cons_of_pos (by simp [hleave])]
          exact congrArg (op :: ·) (ih hops h)
      | true =>
          have hout : p ∉ (room.apply op).1.participants_ := by
            rw [mem_apply, hop, hleave]
            simp
          have hnever := notMem_run hout hops
          exact absurd h hnever

/-- What a participant should receive, where it has joined. -/
theorem expected_split (h : ops.any (RoomOp.isJoin p) = true) : ∃ op rest,
    ops = beforeJoin p ops ++ op :: rest ∧ op.isJoin p = true ∧
    expected p ops =
      (deliveredIn (beforeJoin p ops)).rtake maxRecentMsgs ++ deliveredIn (untilLeave p rest) := by
  have hsplit : ∃ op rest, ops = beforeJoin p ops ++ op :: rest ∧ op.isJoin p = true ∧
      whileJoined p ops = untilLeave p rest := by
    induction ops with
    | nil => cases h
    | cons op ops ih =>
        cases hop : op.isJoin p with
        | true =>
            refine ⟨op, ops, ?_, hop, ?_⟩
            · rw [beforeJoin, List.takeWhile_cons_of_neg (by simp [hop])]
              rfl
            · rw [whileJoined, List.dropWhile_cons_of_neg (by simp [hop])]
              rfl
        | false =>
            rw [List.any_cons, hop, Bool.false_or] at h
            obtain ⟨join, rest, hops, hjoin, hwhile⟩ := ih h
            refine ⟨join, rest, ?_, hjoin, ?_⟩
            · rw [beforeJoin, List.takeWhile_cons_of_pos (by simp [hop]), List.cons_append]
              exact congrArg (op :: ·) hops
            · rw [whileJoined, List.dropWhile_cons_of_pos (by simp [hop])]
              exact hwhile
  obtain ⟨op, rest, hops, hop, hwhile⟩ := hsplit
  refine ⟨op, rest, hops, hop, ?_⟩
  rw [expected, if_pos h, hwhile]

theorem deliveredIn_join {op : RoomOp P M} {before rest : List (RoomOp P M)}
    (hop : op.isJoin p = true) :
    deliveredIn (before ++ op :: rest) = deliveredIn before ++ deliveredIn rest := by
  cases op with
  | join q => rw [deliveredIn_append, deliveredIn_cons]; rfl
  | leave q => cases hop
  | deliver msg => cases hop

/-- What a participant should receive is a part of what is delivered, without gaps. -/
theorem expected_within (p : P) (ops : List (RoomOp P M)) :
    expected p ops <:+: deliveredIn ops := by
  cases hany : ops.any (RoomOp.isJoin p) with
  | false =>
      rw [expected, hany]
      exact List.nil_infix
  | true =>
      obtain ⟨op, rest, hops, hop, hexpected⟩ := expected_split hany
      have hrest : deliveredIn rest = deliveredIn (untilLeave p rest) ++
          deliveredIn (rest.dropWhile fun op => !op.isLeave p) := by
        rw [untilLeave, ← deliveredIn_append, List.takeWhile_append_dropWhile]
      obtain ⟨old, hold⟩ := List.drop_suffix
        ((deliveredIn (beforeJoin p ops)).length - maxRecentMsgs) (deliveredIn (beforeJoin p ops))
      refine ⟨old, deliveredIn (rest.dropWhile fun op => !op.isLeave p), ?_⟩
      rw [hexpected]
      conv_rhs => rw [hops, deliveredIn_join hop, hrest, ← hold]
      simp only [List.rtake, List.append_assoc]

/-- For who is in the room, it goes on to the end. -/
theorem expected_suffix (hops : ops.countP (RoomOp.isJoin p) ≤ 1)
    (h : p ∈ (({} : ChatRoom P M).run ops).1.participants_) :
    expected p ops <:+ deliveredIn ops := by
  have hany : ops.any (RoomOp.isJoin p) = true := by
    by_contra hnone
    refine notMem_run (Finset.notMem_empty p) (List.countP_eq_zero.mpr fun op hop hjoin => ?_) h
    exact hnone (List.any_eq_true.mpr ⟨op, hop, hjoin⟩)
  obtain ⟨op, rest, hsplit, hop, hexpected⟩ := expected_split hany
  have hrest : rest.countP (RoomOp.isJoin p) = 0 := by
    rw [hsplit, List.countP_append, List.countP_cons_of_pos hop] at hops
    omega
  have hall : untilLeave p rest = rest := by
    rw [hsplit, run_append] at h
    exact untilLeave_of_mem hrest h
  rw [hexpected, hall]
  conv_rhs => rw [hsplit, deliveredIn_join hop]
  exact List.suffix_append_self_iff.mpr (List.drop_suffix _ _)

/-! ### The sessions -/

namespace ChatServer

variable {s : ChatServer}

/-- In every run of the server there is one sequence of messages, those that the sessions have
passed to the room, of which each session has been given a part without gaps, and has written the
wire forms of the first of that part. Of two participants, what one has been given is the end of
what the other has been given: they agree on everything since the later of them joined, and on up
to 100 messages before. -/
theorem sessions_agree {es : List ChatServerEvent} (h : run ChatServer.step {} es = some s) :
    (∀ (i : Nat) (x : ChatSession), s.sessions[i]? = some x →
      x.enqueued <:+: deliveredIn (roomOps (allCalls es)) ∧
      ∃ sent, sent <+: x.enqueued ∧ x.written = sent.flatMap ChatMessage.wire) ∧
    ∀ (i j : Nat) (x y : ChatSession), s.sessions[i]? = some x → s.sessions[j]? = some y →
      i ∈ s.room_.participants_ → j ∈ s.room_.participants_ →
      x.enqueued <:+ y.enqueued ∨ y.enqueued <:+ x.enqueued := by
  have hs := relayed_run h
  have hsuffix : ∀ (i : Nat) (x : ChatSession), s.sessions[i]? = some x →
      i ∈ s.room_.participants_ → x.enqueued <:+ deliveredIn (roomOps (allCalls es)) := by
    intro i x hx hi
    rw [hs.enqueued_eq hx]
    rw [hs.room] at hi
    exact expected_suffix ((countP_roomOps i _).trans_le (hs.joins i)) hi
  constructor
  · intro i x hx
    obtain ⟨-, hsent⟩ := written_sent h hx
    rw [hs.enqueued_eq hx]
    exact ⟨expected_within i _, hsent⟩
  · intro i j x y hx hy hi hj
    exact List.suffix_or_suffix_of_suffix (hsuffix i x hx hi) (hsuffix j y hy hj)

/-- Two sessions, the first of which sends two messages. -/
def twoPeers : List ChatServerEvent :=
  [.accept (.success ()) .blank, .accept (.success ()) .blank] ++ ofSession 0 echoed

set_option maxRecDepth 4000 in
theorem sessions_agree_echoed : ∃ s x, run ChatServer.step {} twoPeers = some s ∧
    s.sessions[0]? = some x ∧ x.written = [32, 32, 32, 49, 104, 32, 32, 32, 50, 105, 33] ∧
    x.enqueued <:+: deliveredIn (roomOps (allCalls twoPeers)) := by
  have hsession : run ChatSession.step (.started .blank [])
      (echoed.map fun c => .complete c.1 c.2) = some _ := rfl
  have haccept : run ChatServer.step {}
      [.accept (.success ()) .blank, .accept (.success ()) .blank] =
      some (startSession (startSession {} .blank) .blank) := rfl
  obtain ⟨s, hs, hget⟩ := run_of_session
    (s := startSession (startSession {} .blank) .blank) (i := 0) rfl hsession
  have hrun : run ChatServer.step {} twoPeers = some s :=
    TransitionRuns.run_append.mpr ⟨_, haccept, hs⟩
  have hx := (sessions_agree hrun).1 0 _ hget
  exact ⟨s, _, hrun, hget, by decide, hx.1⟩

end ChatServer

end AsioTest.Chat
