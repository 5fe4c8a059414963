import Mathlib.Data.Finset.Sort
import Mathlib.Data.List.DropRight

/-!
`chat_room`, for any participants and messages. An operation returns the calls of
`participant->deliver` it makes, in the order in which it makes them; `participants_` is iterated
in the order of the addresses.
-/

namespace AsioTest.Chat

inductive RoomOp (P M : Type*) where
  | join (participant : P)
  | leave (participant : P)
  | deliver (msg : M)

structure ChatRoom (P M : Type*) where
  participants_ : Finset P := ∅
  recentMsgs_ : List M := []

abbrev maxRecentMsgs : Nat := 100

/-- `while(recent_msgs_.size() > max_recent_msgs) recent_msgs_.pop_front();` -/
def trimRecent {M : Type*} : List M → List M
  | [] => []
  | msg :: msgs => if (msg :: msgs).length > maxRecentMsgs then trimRecent msgs else msg :: msgs

variable {P M N : Type*}

/-- The messages delivered to the room. -/
def deliveredIn (ops : List (RoomOp P M)) : List M :=
  ops.filterMap fun
    | .deliver msg => some msg
    | _ => none

theorem deliveredIn_cons (op : RoomOp P M) (ops : List (RoomOp P M)) :
    deliveredIn (op :: ops) = deliveredIn [op] ++ deliveredIn ops :=
  List.filterMap_append (l := [op])

/-- The same operation on other messages. -/
def RoomOp.map (f : M → N) : RoomOp P M → RoomOp P N
  | .join p => .join p
  | .leave p => .leave p
  | .deliver msg => .deliver (f msg)

/-- The operations with each message numbered by its place among those delivered. -/
def numberFrom : Nat → List (RoomOp P M) → List (RoomOp P (Nat × M))
  | _, [] => []
  | n, .deliver msg :: ops => .deliver (n, msg) :: numberFrom (n + 1) ops
  | n, .join p :: ops => .join p :: numberFrom n ops
  | n, .leave p :: ops => .leave p :: numberFrom n ops

def number (ops : List (RoomOp P M)) : List (RoomOp P (Nat × M)) := numberFrom 0 ops

theorem map_numberFrom (n : Nat) (ops : List (RoomOp P M)) :
    (numberFrom n ops).map (RoomOp.map Prod.snd) = ops := by
  induction ops generalizing n with
  | nil => rfl
  | cons op ops ih =>
      cases op with
      | join p => exact congrArg _ (ih n)
      | leave p => exact congrArg _ (ih n)
      | deliver msg => exact congrArg _ (ih (n + 1))

/-- The numbers increase from the first message to the last. -/
theorem numberFrom_increasing (n : Nat) (ops : List (RoomOp P M)) :
    (deliveredIn (numberFrom n ops)).Pairwise (fun x y => x.1 < y.1) ∧
      ∀ x ∈ deliveredIn (numberFrom n ops), n ≤ x.1 := by
  induction ops generalizing n with
  | nil => exact ⟨List.Pairwise.nil, nofun⟩
  | cons op ops ih =>
      cases op with
      | join p => exact ih n
      | leave p => exact ih n
      | deliver msg =>
          obtain ⟨hpairwise, hle⟩ := ih (n + 1)
          refine ⟨List.Pairwise.cons (fun x hx => hle x hx) hpairwise, fun x hx => ?_⟩
          rcases List.mem_cons.mp hx with rfl | hx
          · exact Nat.le_refl n
          · exact Nat.le_of_succ_le (hle x hx)

variable [LinearOrder P]

namespace ChatRoom

def join (room : ChatRoom P M) (p : P) : ChatRoom P M × List (P × M) :=
  ({ room with participants_ := insert p room.participants_ },
    room.recentMsgs_.map fun msg => (p, msg))

def leave (room : ChatRoom P M) (p : P) : ChatRoom P M × List (P × M) :=
  ({ room with participants_ := room.participants_.erase p }, [])

def deliver (room : ChatRoom P M) (msg : M) : ChatRoom P M × List (P × M) :=
  ({ room with recentMsgs_ := trimRecent (room.recentMsgs_ ++ [msg]) },
    (room.participants_.sort fun p q => p ≤ q).map fun p => (p, msg))

def apply (room : ChatRoom P M) : RoomOp P M → ChatRoom P M × List (P × M)
  | .join p => room.join p
  | .leave p => room.leave p
  | .deliver msg => room.deliver msg

/-- The room after some operations, and all calls they made. -/
def run (room : ChatRoom P M) : List (RoomOp P M) → ChatRoom P M × List (P × M)
  | [] => (room, [])
  | op :: ops => (((room.apply op).1.run ops).1, (room.apply op).2 ++ ((room.apply op).1.run ops).2)

end ChatRoom

/-- The messages of the calls to one participant. -/
def callsTo (p : P) (calls : List (P × M)) : List M :=
  (calls.filter fun call => call.1 = p).map Prod.snd

/-- The messages passed to one participant. -/
def ChatRoom.received (room : ChatRoom P M) (p : P) (ops : List (RoomOp P M)) : List M :=
  callsTo p (room.run ops).2

/-! ### What a participant should receive -/

def RoomOp.isJoin (p : P) : RoomOp P M → Bool
  | .join q => q = p
  | _ => false

def RoomOp.isLeave (p : P) : RoomOp P M → Bool
  | .leave q => q = p
  | _ => false

/-- The operations before a participant joins, and those from there until it leaves. -/
def beforeJoin (p : P) (ops : List (RoomOp P M)) : List (RoomOp P M) :=
  ops.takeWhile fun op => !op.isJoin p

def untilLeave (p : P) (ops : List (RoomOp P M)) : List (RoomOp P M) :=
  ops.takeWhile fun op => !op.isLeave p

def whileJoined (p : P) (ops : List (RoomOp P M)) : List (RoomOp P M) :=
  untilLeave p ((ops.dropWhile fun op => !op.isJoin p).drop 1)

/-- The last messages before the join, as many as the room keeps, and all until it leaves. -/
def expected (p : P) (ops : List (RoomOp P M)) : List M :=
  if ops.any (RoomOp.isJoin p) then
    (deliveredIn (beforeJoin p ops)).rtake maxRecentMsgs ++ deliveredIn (whileJoined p ops)
  else []

/-! ### One operation -/

theorem trimRecent_eq (msgs : List M) : trimRecent msgs = msgs.rtake maxRecentMsgs := by
  induction msgs with
  | nil => rfl
  | cons msg msgs ih =>
      rw [trimRecent]
      split_ifs with h
      · rw [ih, List.rtake, List.rtake]
        have hlength : (msg :: msgs).length - maxRecentMsgs =
            msgs.length - maxRecentMsgs + 1 := by
          rw [List.length_cons] at h ⊢
          omega
        rw [hlength, List.drop_succ_cons]
      · rw [List.rtake, Nat.sub_eq_zero_of_le (Nat.le_of_not_lt h), List.drop_zero]

theorem rtake_rtake (msgs : List M) (m n : Nat) (h : n ≤ m) :
    (msgs.rtake m).rtake n = msgs.rtake n := by
  simp only [List.rtake_eq_reverse_take_reverse, List.reverse_reverse, List.take_take,
    Nat.min_eq_left h]

/-- Trimming after each message is trimming once. -/
theorem trimRecent_concat (msgs : List M) (msg : M) :
    trimRecent (msgs.rtake maxRecentMsgs ++ [msg]) = (msgs ++ [msg]).rtake maxRecentMsgs := by
  rw [trimRecent_eq, List.rtake_concat_succ, List.rtake_concat_succ, rtake_rtake _ _ _ (by decide)]

section Calls

variable (room : ChatRoom P M) (p q : P) (msg : M)

theorem callsTo_append (calls calls' : List (P × M)) :
    callsTo p (calls ++ calls') = callsTo p calls ++ callsTo p calls' := by
  rw [callsTo, List.filter_append, List.map_append]
  rfl

theorem callsTo_join :
    callsTo p (room.join q).2 = if q = p then room.recentMsgs_ else [] := by
  split_ifs with h
  · simp [callsTo, ChatRoom.join, h, List.filter_map, Function.comp_def]
  · simp [callsTo, ChatRoom.join, h]

/-- A participant in the room gets one call for a message, any other none. -/
theorem callsTo_deliver :
    callsTo p (room.deliver msg).2 = if p ∈ room.participants_ then [msg] else [] := by
  have hcalls : callsTo p (room.deliver msg).2 =
      ((room.participants_.sort fun p q => p ≤ q).filter fun q => q = p).map fun _ => msg := by
    rw [callsTo, ChatRoom.deliver, List.filter_map, List.map_map]
    rfl
  rw [hcalls, List.filter_eq, List.map_replicate]
  split_ifs with h
  · rw [List.count_eq_one_of_mem (Finset.sort_nodup _ _) ((Finset.mem_sort _).mpr h)]
    rfl
  · rw [List.count_eq_zero_of_not_mem fun hmem => h ((Finset.mem_sort _).mp hmem)]
    rfl

end Calls

/-- What an operation does for one participant: who is in the room after it, what was received,
and what the room keeps. -/
theorem mem_apply {room : ChatRoom P M} {p : P} (op : RoomOp P M) :
    p ∈ (room.apply op).1.participants_ ↔
      op.isJoin p = true ∨ p ∈ room.participants_ ∧ op.isLeave p = false := by
  cases op with
  | join q =>
      simp [ChatRoom.apply, ChatRoom.join, RoomOp.isJoin, RoomOp.isLeave, eq_comm (a := q)]
  | leave q =>
      simp [ChatRoom.apply, ChatRoom.leave, RoomOp.isJoin, RoomOp.isLeave, eq_comm (a := q),
        and_comm]
  | deliver msg =>
      simp only [ChatRoom.apply, ChatRoom.deliver, RoomOp.isJoin, RoomOp.isLeave,
        Bool.false_eq_true, false_or, and_true]

variable {room : ChatRoom P M} {p : P} {op : RoomOp P M} {ops : List (RoomOp P M)}

theorem callsTo_apply_join (h : op.isJoin p = true) :
    callsTo p (room.apply op).2 = room.recentMsgs_ := by
  cases op with
  | join q => exact (callsTo_join room p q).trans (if_pos (of_decide_eq_true h))
  | leave q => cases h
  | deliver msg => cases h

theorem callsTo_apply_outside (hp : p ∉ room.participants_) (h : op.isJoin p = false) :
    callsTo p (room.apply op).2 = [] := by
  cases op with
  | join q => exact (callsTo_join room p q).trans (if_neg (of_decide_eq_false h))
  | leave q => rfl
  | deliver msg => exact (callsTo_deliver room p msg).trans (if_neg hp)

theorem callsTo_apply_inside (hp : p ∈ room.participants_) (h : op.isJoin p = false) :
    callsTo p (room.apply op).2 = deliveredIn [op] := by
  cases op with
  | join q => exact (callsTo_join room p q).trans (if_neg (of_decide_eq_false h))
  | leave q => rfl
  | deliver msg => exact (callsTo_deliver room p msg).trans (if_pos hp)

theorem apply_recent {before : List M} (h : room.recentMsgs_ = before.rtake maxRecentMsgs)
    (op : RoomOp P M) :
    (room.apply op).1.recentMsgs_ = (before ++ deliveredIn [op]).rtake maxRecentMsgs := by
  cases op with
  | join q => exact h.trans (by rw [deliveredIn, List.filterMap, List.filterMap, List.append_nil])
  | leave q => exact h.trans (by rw [deliveredIn, List.filterMap, List.filterMap, List.append_nil])
  | deliver msg =>
      simp only [ChatRoom.apply, ChatRoom.deliver, h, trimRecent_concat]
      rfl

/-! ### Whole sequences -/

theorem received_cons (room : ChatRoom P M) (p : P) (op : RoomOp P M) (ops : List (RoomOp P M)) :
    room.received p (op :: ops) =
      callsTo p (room.apply op).2 ++ (room.apply op).1.received p ops :=
  callsTo_append p _ _

theorem countP_join_cons (h : (op :: ops).countP (RoomOp.isJoin p) = 0) :
    op.isJoin p = false ∧ ops.countP (RoomOp.isJoin p) = 0 := by
  rw [List.countP_cons] at h
  split_ifs at h with hop
  exact ⟨by simpa using hop, h⟩

theorem run_recent (before : List M) (h : room.recentMsgs_ = before.rtake maxRecentMsgs)
    (ops : List (RoomOp P M)) :
    (room.run ops).1.recentMsgs_ = (before ++ deliveredIn ops).rtake maxRecentMsgs := by
  induction ops generalizing room before with
  | nil => exact h.trans (by rw [deliveredIn, List.filterMap, List.append_nil])
  | cons op ops ih =>
      rw [deliveredIn_cons, ← List.append_assoc]
      exact ih (before ++ deliveredIn [op]) (apply_recent h op)

/-- Outside the room a participant receives nothing until it joins. -/
theorem received_outside (hp : p ∉ room.participants_)
    (hops : ops.countP (RoomOp.isJoin p) = 0) : room.received p ops = [] := by
  induction ops generalizing room with
  | nil => rfl
  | cons op ops ih =>
      obtain ⟨hop, hops⟩ := countP_join_cons hops
      have hout : p ∉ (room.apply op).1.participants_ := by
        rw [mem_apply, hop]
        simp [hp]
      rw [received_cons, callsTo_apply_outside hp hop, ih hout hops, List.append_nil]

/-- In the room it receives what is delivered until it leaves. -/
theorem received_inside (hp : p ∈ room.participants_)
    (hops : ops.countP (RoomOp.isJoin p) = 0) :
    room.received p ops = deliveredIn (untilLeave p ops) := by
  induction ops generalizing room with
  | nil => rfl
  | cons op ops ih =>
      obtain ⟨hop, hops⟩ := countP_join_cons hops
      rw [received_cons, callsTo_apply_inside hp hop, untilLeave]
      cases hleave : op.isLeave p with
      | true =>
          have hout : p ∉ (room.apply op).1.participants_ := by
            rw [mem_apply, hop, hleave]
            simp
          have hnone : deliveredIn [op] = [] := by
            cases op with
            | leave q => rfl
            | join q => cases hleave
            | deliver msg => cases hleave
          rw [received_outside hout hops, hnone, List.takeWhile_cons_of_neg (by simp [hleave])]
          rfl
      | false =>
          have hin : p ∈ (room.apply op).1.participants_ :=
            mem_apply op |>.mpr (Or.inr ⟨hp, hleave⟩)
          rw [ih hin hops, List.takeWhile_cons_of_pos (by simp [hleave])]
          exact (deliveredIn_cons op _).symm

/-- Before it joins, what the room keeps of the past is what it will be given first. -/
theorem received_before (before : List M) (hp : p ∉ room.participants_)
    (hrecent : room.recentMsgs_ = before.rtake maxRecentMsgs)
    (hops : ops.countP (RoomOp.isJoin p) ≤ 1) :
    room.received p ops = if ops.any (RoomOp.isJoin p) then
      (before ++ deliveredIn (beforeJoin p ops)).rtake maxRecentMsgs ++
        deliveredIn (whileJoined p ops) else [] := by
  induction ops generalizing room before with
  | nil => rfl
  | cons op ops ih =>
      rw [received_cons, List.any_cons, beforeJoin, whileJoined]
      cases hop : op.isJoin p with
      | true =>
          have hin : p ∈ (room.apply op).1.participants_ := (mem_apply op).mpr (Or.inl hop)
          have hrest : ops.countP (RoomOp.isJoin p) = 0 := by
            rw [List.countP_cons_of_pos hop] at hops
            omega
          rw [callsTo_apply_join hop, received_inside hin hrest, hrecent,
            List.takeWhile_cons_of_neg (by simp [hop]), List.dropWhile_cons_of_neg (by simp [hop]),
            Bool.true_or, if_pos rfl]
          simp [deliveredIn]
      | false =>
          have hout : p ∉ (room.apply op).1.participants_ := by
            rw [mem_apply, hop]
            simp [hp]
          rw [List.countP_cons_of_neg (by simp [hop])] at hops
          rw [callsTo_apply_outside hp hop, ih (before ++ deliveredIn [op]) hout
            (apply_recent hrecent op) hops,
            List.takeWhile_cons_of_pos (by simp [hop]), List.dropWhile_cons_of_pos (by simp [hop]),
            Bool.false_or, deliveredIn_cons op (List.takeWhile _ ops), ← List.append_assoc]
          rfl

/-! ### The common order -/

/-- What a list without repetitions shares with one of its sublists is the sublist. -/
theorem filter_mem_of_sublist [BEq M] [LawfulBEq M] {l l' : List M} (h : l'.Sublist l)
    (hnodup : l.Nodup) : l.filter (· ∈ l') = l' := by
  induction h with
  | slnil => rfl
  | cons a h ih =>
      obtain ⟨ha, hnodup⟩ := List.nodup_cons.mp hnodup
      rw [List.filter_cons_of_neg (by simpa using fun hmem => ha (h.mem hmem))]
      exact ih hnodup
  | @cons_cons l' l a h ih =>
      obtain ⟨ha, hnodup⟩ := List.nodup_cons.mp hnodup
      rw [List.filter_cons_of_pos (by simp)]
      have htail : l.filter (· ∈ a :: l') = l.filter (· ∈ l') := by
        refine List.filter_congr fun x hx => ?_
        have hne : x ≠ a := by
          rintro rfl
          exact ha hx
        simp [hne]
      rw [htail, ih hnodup]

/-- Two sublists of a list without repetitions have what they share in the same order. -/
theorem filter_mem_comm [BEq M] [LawfulBEq M] {l l₁ l₂ : List M}
    (h₁ : l₁.Sublist l) (h₂ : l₂.Sublist l) (hnodup : l.Nodup) :
    l₁.filter (· ∈ l₂) = l₂.filter (· ∈ l₁) :=
  calc
    l₁.filter (· ∈ l₂) = (l.filter (· ∈ l₁)).filter (· ∈ l₂) := by
      rw [filter_mem_of_sublist h₁ hnodup]
    _ = (l.filter (· ∈ l₂)).filter (· ∈ l₁) := List.filter_comm _ _ l
    _ = l₂.filter (· ∈ l₁) := by rw [filter_mem_of_sublist h₂ hnodup]

def ChatRoom.map (f : M → N) (room : ChatRoom P M) : ChatRoom P N :=
  ⟨room.participants_, room.recentMsgs_.map f⟩

theorem countP_numberFrom (p : P) (n : Nat) (ops : List (RoomOp P M)) :
    (numberFrom n ops).countP (RoomOp.isJoin p) = ops.countP (RoomOp.isJoin p) := by
  induction ops generalizing n with
  | nil => rfl
  | cons op ops ih =>
      cases op with
      | join q => rw [numberFrom, List.countP_cons, List.countP_cons, ih]; rfl
      | leave q => rw [numberFrom, List.countP_cons, List.countP_cons, ih]; rfl
      | deliver msg => rw [numberFrom, List.countP_cons, List.countP_cons, ih]; rfl

theorem trimRecent_map (f : M → N) (msgs : List M) :
    trimRecent (msgs.map f) = (trimRecent msgs).map f := by
  rw [trimRecent_eq, trimRecent_eq, List.rtake, List.rtake, List.length_map, List.map_drop]

theorem apply_map (f : M → N) (room : ChatRoom P M) (op : RoomOp P M) :
    (room.map f).apply (op.map f) =
      ((room.apply op).1.map f, (room.apply op).2.map (Prod.map id f)) := by
  cases op with
  | join p => simp [RoomOp.map, ChatRoom.apply, ChatRoom.join, ChatRoom.map]
  | leave p => simp [RoomOp.map, ChatRoom.apply, ChatRoom.leave, ChatRoom.map]
  | deliver msg =>
      simp [RoomOp.map, ChatRoom.apply, ChatRoom.deliver, ChatRoom.map, ← trimRecent_map]

/-- The room treats all messages alike. -/
theorem received_map (f : M → N) (room : ChatRoom P M) (p : P) (ops : List (RoomOp P M)) :
    (room.map f).received p (ops.map (RoomOp.map f)) = (room.received p ops).map f := by
  induction ops generalizing room with
  | nil => rfl
  | cons op ops ih =>
      have hcalls : callsTo p ((room.apply op).2.map (Prod.map id f)) =
          (callsTo p (room.apply op).2).map f := by
        simp [callsTo, List.filter_map, Function.comp_def]
      rw [List.map_cons, received_cons, received_cons, apply_map, hcalls, ih, List.map_append]

/-- What is received is part of what is delivered, in the same order. -/
theorem expected_sublist (p : P) (ops : List (RoomOp P M)) :
    (expected p ops).Sublist (deliveredIn ops) := by
  have hsplit : deliveredIn ops = deliveredIn (beforeJoin p ops) ++
      deliveredIn (ops.dropWhile fun op => !op.isJoin p) := by
    rw [beforeJoin, deliveredIn, deliveredIn, deliveredIn, ← List.filterMap_append,
      List.takeWhile_append_dropWhile]
  rw [expected]
  split_ifs
  · rw [hsplit]
    refine (List.drop_sublist _ _).append (List.Sublist.filterMap _ ?_)
    exact (List.takeWhile_sublist _).trans (List.drop_sublist _ _)
  · exact List.nil_sublist _

theorem received_eq_expected (hops : ops.countP (RoomOp.isJoin p) ≤ 1) :
    ({} : ChatRoom P M).received p ops = expected p ops := by
  rw [received_before [] (Finset.notMem_empty p) (List.rtake_nil _).symm hops]
  simp only [List.nil_append, expected]

/-- In every sequence of operations in which each participant joins at most once: a participant
receives the last messages before its join and all from there until it leaves; the room keeps the
last messages of all; and of the numbered messages each participant receives none twice, and any
two those they both receive in the same order. -/
theorem room_deliveries [DecidableEq M] (ops : List (RoomOp P M))
    (hops : ∀ p, ops.countP (RoomOp.isJoin p) ≤ 1) :
    (∀ p, ({} : ChatRoom P M).received p ops = expected p ops) ∧
    (({} : ChatRoom P M).run ops).1.recentMsgs_ = (deliveredIn ops).rtake maxRecentMsgs ∧
    (∀ p, (({} : ChatRoom P (Nat × M)).received p (number ops)).map Prod.snd =
      ({} : ChatRoom P M).received p ops) ∧
    (∀ p, (({} : ChatRoom P (Nat × M)).received p (number ops)).Nodup) ∧
    ∀ p q, (({} : ChatRoom P (Nat × M)).received p (number ops)).filter
        (· ∈ ({} : ChatRoom P (Nat × M)).received q (number ops)) =
      (({} : ChatRoom P (Nat × M)).received q (number ops)).filter
        (· ∈ ({} : ChatRoom P (Nat × M)).received p (number ops)) := by
  have hnumber : ∀ p, (number ops).countP (RoomOp.isJoin p) ≤ 1 := by
    intro p
    rw [number, countP_numberFrom]
    exact hops p
  have hnodup : (deliveredIn (number ops)).Nodup := by
    refine (numberFrom_increasing 0 ops).1.imp fun {x y} hlt heq => ?_
    rw [heq] at hlt
    exact Nat.lt_irrefl _ hlt
  have hsublist : ∀ p, (({} : ChatRoom P (Nat × M)).received p (number ops)).Sublist
      (deliveredIn (number ops)) := by
    intro p
    rw [received_eq_expected (hnumber p)]
    exact expected_sublist p _
  refine ⟨fun p => received_eq_expected (hops p), ?_, ?_, fun p => (hsublist p).nodup hnodup, ?_⟩
  · exact run_recent [] (List.rtake_nil _).symm ops
  · intro p
    rw [← received_map, number, map_numberFrom]
    rfl
  · intro p q
    exact filter_mem_comm (hsublist p) (hsublist q) hnodup

/-- Two participants, the second of which leaves again. -/
def briefVisit : List (RoomOp Nat Nat) :=
  [.deliver 7, .join 0, .deliver 8, .join 1, .deliver 7, .leave 1, .deliver 9]

theorem room_deliveries_briefVisit :
    (∀ p, briefVisit.countP (RoomOp.isJoin p) ≤ 1) ∧
      ({} : ChatRoom Nat Nat).received 1 briefVisit = [7, 8, 7] := by
  have hops : ∀ p, briefVisit.countP (RoomOp.isJoin p) ≤ 1 := by
    intro p
    have hcount : briefVisit.countP (RoomOp.isJoin p) =
        (if 1 = p then 1 else 0) + if 0 = p then 1 else 0 := by
      simp [briefVisit, List.countP_cons, RoomOp.isJoin]
    rw [hcount]
    split_ifs <;> omega
  exact ⟨hops, ((room_deliveries briefVisit hops).1 1).trans (by decide)⟩

end AsioTest.Chat
