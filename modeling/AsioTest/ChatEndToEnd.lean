import AsioTest.ChatClientReading
import AsioTest.ChatRelaying

/-!
From the bytes one peer sends to the lines another prints. `relayed` cuts a stream the way a session
reads it: behind a header that announces `n` bytes it takes `n + 4`, and passes on the header with
the first `n` of them. What is passed on is well formed whatever was sent, so that a client at the
other end prints just the bodies.
-/

namespace AsioTest.Chat

open AsyncSocket ByteStrings TransitionRuns

/-! ### Cutting a stream -/

/-- The number in a header. -/
def announced (header : Bytes) : Nat := toSizeT (atoi (cString header))

/-- The wire forms of the messages that are taken off the front of a stream. -/
def relayed (stream : Bytes) : List Bytes :=
  if announced (stream.take headerLength) ≤ maxBodyLength ∧
      headerLength + (headerLength + announced (stream.take headerLength)) ≤ stream.length then
    stream.take (headerLength + announced (stream.take headerLength)) ::
      relayed (stream.drop (headerLength + (headerLength + announced (stream.take headerLength))))
  else []
termination_by stream.length
decreasing_by
  have hpos : 0 < headerLength := by decide
  rw [List.length_drop]
  omega

/-- The bytes a message has been read from. -/
structure ReadFrom (block : Bytes) (m : ChatMessage) : Prop where
  length_eq : block.length = headerLength + m.length
  announced_eq : announced (block.take headerLength) = m.bodyLength_
  wire_eq : m.wire = block.take m.length

theorem ReadFrom.relayed {block : Bytes} {m : ChatMessage} (h : ReadFrom block m) (rest : Bytes) :
    relayed (block ++ rest) = m.wire :: Chat.relayed rest := by
  have hheader : (block ++ rest).take headerLength = block.take headerLength :=
    List.take_append_of_le_length (h.length_eq ▸ Nat.le_add_right _ _)
  have hlength : headerLength + (headerLength + m.bodyLength_) = block.length := h.length_eq.symm
  rw [Chat.relayed, hheader, h.announced_eq, hlength, if_pos, List.drop_left, h.wire_eq]
  · refine congrArg (· :: _) ?_
    exact List.take_append_of_le_length (h.length_eq ▸ Nat.le_add_left _ _)
  · rw [List.length_append]
    exact ⟨m.bodyLength_le, Nat.le_add_right _ _⟩

theorem relayed_blocks {blocks : List Bytes} {msgs : List ChatMessage}
    (h : List.Forall₂ ReadFrom blocks msgs) (rest : Bytes) :
    relayed (blocks.flatten ++ rest) = msgs.map ChatMessage.wire ++ relayed rest := by
  induction h with
  | nil => rfl
  | @cons block m blocks msgs hblock htail ih =>
      rw [List.flatten_cons, List.append_assoc, hblock.relayed, ih]
      rfl

/-- Nothing is relayed of a header alone, nor of anything shorter. -/
theorem relayed_short {rest : Bytes} (h : rest.length ≤ headerLength) : relayed rest = [] := by
  have hpos : 0 < headerLength := by decide
  rw [relayed, if_neg]
  rintro ⟨-, hlength⟩
  omega

/-! ### The read loop of a session -/

namespace ChatMessage

theorem decodeHeader_data (m : ChatMessage) : m.decodeHeader.1.data_ = m.data_ := by
  unfold decodeHeader
  split_ifs <;> rfl

theorem store_header {m : ChatMessage} {bytes : Bytes} (h : bytes.length = headerLength) :
    (m.store 0 bytes).header = bytes := by
  show (overwrite m.data_ 0 bytes).take headerLength = bytes
  rw [overwrite, List.take_take, m.data_length, List.take_zero, List.nil_append,
    Nat.min_eq_left (Nat.le_add_right _ _), ← h, List.take_left]

theorem storeBody_header (m : ChatMessage) (bytes : Bytes) :
    (m.store headerLength bytes).header = m.header := by
  have hlength : (m.data_.take headerLength).length = headerLength := m.header_length
  show (overwrite m.data_ headerLength bytes).take headerLength = m.data_.take headerLength
  rw [overwrite, List.take_take, m.data_length, Nat.min_eq_left (Nat.le_add_right _ _),
    List.append_assoc]
  exact List.take_left' hlength

/-- Of more bytes than the body has, the first are the body. -/
theorem storeBody_body {m : ChatMessage} {bytes : Bytes} (h : m.bodyLength_ ≤ bytes.length) :
    (m.store headerLength bytes).body = bytes.take m.bodyLength_ := by
  have hle := m.bodyLength_le
  have hlength : (m.data_.take headerLength).length = headerLength := m.header_length
  show ((overwrite m.data_ headerLength bytes).drop headerLength).take m.bodyLength_ = _
  rw [overwrite, List.drop_take, List.take_take, m.data_length, List.append_assoc,
    List.drop_left' hlength, Nat.min_eq_left (by omega), List.take_append_of_le_length h]

end ChatMessage

namespace ReadSide

/-- The messages have been read from the stream up to `rest`. -/
def ReadUpTo (v : ReadSide) (rest : Bytes) : Prop :=
  ∃ blocks, List.Forall₂ ReadFrom blocks v.messages ∧ v.received.flatten = blocks.flatten ++ rest

/-- Where the loop stands: before a header; before a body, behind a header that announces it; or at
its end, behind a header that was not accepted. -/
inductive Cuts (v : ReadSide) : Prop where
  | atHeader (hreads : v.reads = [.readHeader (ChatMessage.dataSpan headerLength)] ∨ v.reads = [])
      (hstream : v.ReadUpTo [])
  | atBody (hreads : v.reads = [.readBody (ChatMessage.bodySpan v.readMsg.length)] ∨ v.reads = [])
      (hannounced : announced v.readMsg.header = v.readMsg.bodyLength_)
      (hstream : v.ReadUpTo v.readMsg.header)
  | rejected {header : Bytes} (hreads : v.reads = []) (hlength : header.length = headerLength)
      (hstream : v.ReadUpTo header)

variable {v w : ReadSide}

theorem ReadUpTo.snoc {rest bytes : Bytes} (h : v.ReadUpTo rest) (reads : List ChatOp)
    (m : ChatMessage) :
    ReadUpTo ⟨reads, m, v.received ++ [bytes], v.messages⟩ (rest ++ bytes) := by
  obtain ⟨blocks, hblocks, hreceived⟩ := h
  refine ⟨blocks, hblocks, ?_⟩
  rw [List.flatten_append, hreceived, List.flatten_singleton, List.append_assoc]

theorem ReadUpTo.block {rest bytes : Bytes} {m : ChatMessage} (h : v.ReadUpTo rest)
    (hblock : ReadFrom (rest ++ bytes) m) (reads : List ChatOp) :
    ReadUpTo ⟨reads, m, v.received ++ [bytes], v.messages ++ [m]⟩ [] := by
  obtain ⟨blocks, hblocks, hreceived⟩ := h
  refine ⟨blocks ++ [rest ++ bytes], ?_, ?_⟩
  · exact List.rel_append hblocks (.cons hblock .nil)
  · rw [List.flatten_append, hreceived, List.flatten_append, List.flatten_singleton,
      List.flatten_singleton, List.append_nil, List.append_assoc]

theorem readFrom_store {m : ChatMessage} {bytes : Bytes} (hbytes : bytes.length = m.length)
    (hannounced : announced m.header = m.bodyLength_) :
    ReadFrom (m.header ++ bytes) (m.store headerLength bytes) := by
  have htake : (m.header ++ bytes).take headerLength = m.header :=
    List.take_left' m.header_length
  constructor
  case length_eq => rw [List.length_append, m.header_length, hbytes, ChatMessage.store_length]
  case announced_eq => rw [htake, hannounced, ChatMessage.store_bodyLength]
  case wire_eq =>
    have hle : m.bodyLength_ ≤ bytes.length := hbytes ▸ Nat.le_add_left _ _
    rw [ChatMessage.wire_eq, ChatMessage.storeBody_header, ChatMessage.storeBody_body hle,
      ChatMessage.store_length, ChatMessage.length, ← m.header_length, List.take_length_add_append]

theorem Step.cuts (h : v.Step ChatMessage.length w) (hv : v.Cuts) : w.Cuts := by
  cases h with
  | @accepted buffer bytes m hreads hbytes hm =>
      rcases hv with ⟨heq | heq, hstream⟩ | ⟨heq | heq, -, -⟩ | ⟨heq, -, -⟩
      · cases hreads.symm.trans heq
        have haccepted : (v.readMsg.store 0 bytes).decodeHeader.2 = true := by rw [hm]
        have hdata := (v.readMsg.store 0 bytes).decodeHeader_data
        have hvalue := ChatMessage.decodeHeader_accepted _ haccepted
        rw [ChatMessage.store_headerValue _ hbytes] at hvalue
        rw [hm] at hdata hvalue
        have hheader : m.header = bytes := by
          rw [ChatMessage.header, hdata]
          exact ChatMessage.store_header hbytes
        refine .atBody (Or.inl rfl) ?_ ?_
        · show announced m.header = m.bodyLength_
          rw [hheader, hvalue, announced]
        · show ReadUpTo _ m.header
          rw [hheader]
          exact hstream.snoc _ m
      all_goals cases hreads.symm.trans heq
  | @rejected buffer bytes m hreads hbytes hm =>
      rcases hv with ⟨heq | heq, hstream⟩ | ⟨heq | heq, -, -⟩ | ⟨heq, -, -⟩
      · cases hreads.symm.trans heq
        exact .rejected rfl hbytes (hstream.snoc [] m)
      all_goals cases hreads.symm.trans heq
  | @body buffer bytes m hreads hbytes hm =>
      rcases hv with ⟨heq | heq, -⟩ | ⟨heq | heq, hannounced, hstream⟩ | ⟨heq, -, -⟩
      · cases hreads.symm.trans heq
      · cases hreads.symm.trans heq
      · cases hreads.symm.trans heq
        subst hm
        exact .atHeader (Or.inl rfl) (hstream.block (readFrom_store hbytes hannounced) _)
      · cases hreads.symm.trans heq
      · cases hreads.symm.trans heq
  | failed hreads =>
      rcases hv with ⟨-, hstream⟩ | ⟨-, hannounced, hstream⟩ | ⟨-, hlength, hstream⟩
      · exact .atHeader (Or.inr rfl) hstream
      · exact .atBody (Or.inr rfl) hannounced hstream
      · exact .rejected rfl hlength hstream

theorem Cuts.reads_le (h : v.Cuts) : v.reads.length ≤ 1 := by
  rcases h with ⟨hreads | hreads, -⟩ | ⟨hreads | hreads, -, -⟩ | ⟨hreads, -, -⟩ <;> simp [hreads]

/-- What has been read is cut into the messages and a part of at most a header. -/
theorem Cuts.readUpTo (h : v.Cuts) : ∃ rest, rest.length ≤ headerLength ∧ v.ReadUpTo rest := by
  rcases h with ⟨-, hstream⟩ | ⟨-, -, hstream⟩ | ⟨-, hlength, hstream⟩
  · exact ⟨[], Nat.zero_le _, hstream⟩
  · exact ⟨_, Nat.le_of_eq v.readMsg.header_length, hstream⟩
  · exact ⟨_, Nat.le_of_eq hlength, hstream⟩

end ReadSide

/-- What a header announces is the length of the body, in every message a session has read. -/
theorem ReadFrom.announces {block : Bytes} {m : ChatMessage} (h : ReadFrom block m) :
    Announces m.header m.bodyLength_ := by
  have hlength : headerLength ≤ m.length := Nat.le_add_right _ _
  have hheader : m.header = block.take headerLength := by
    have htake : m.wire.take headerLength = m.header := by
      rw [ChatMessage.wire_eq, List.take_left' m.header_length]
    rw [← htake, h.wire_eq, List.take_take, Nat.min_eq_left hlength]
  have hannounced : announced m.header = m.bodyLength_ := hheader ▸ h.announced_eq
  rw [announces_iff m.header_length, ← announced, hannounced]
  exact ⟨rfl, m.bodyLength_le⟩

namespace ChatSession

theorem cuts_reachable {readMsg_ : ChatMessage} {recentMsgs : List ChatMessage}
    {s : ChatSession} (h : Reachable step (started readMsg_ recentMsgs) s) : s.loop.Cuts := by
  refine h.invariant (I := fun s => s.loop.Cuts) (fun s e t hs ht => ?_) ?_
  · rcases step_loop ht hs.reads_le with heq | hstep
    · rw [heq]
      exact hs
    · exact hstep.cuts hs
  · rw [started_loop]
    exact .atHeader (Or.inl rfl) ⟨[], .nil, rfl⟩

/-- In every run of a session, however its reads are answered: the wire forms of the messages it has
passed to the room are what `relayed` makes of the bytes it has read, and the header of each of
them announces the length of its body. -/
theorem session_relays {readMsg_ : ChatMessage} {recentMsgs : List ChatMessage}
    {s : ChatSession} (h : Reachable step (started readMsg_ recentMsgs) s) :
    (deliveredMessages s.calls).map ChatMessage.wire = relayed s.received.flatten ∧
    ∀ m ∈ deliveredMessages s.calls, Announces m.header m.bodyLength_ := by
  obtain ⟨rest, hshort, blocks, hblocks, hreceived⟩ := (cuts_reachable h).readUpTo
  change List.Forall₂ ReadFrom blocks (deliveredMessages s.calls) at hblocks
  change s.received.flatten = _ at hreceived
  refine ⟨?_, fun m hm => ?_⟩
  · rw [hreceived, relayed_blocks hblocks, relayed_short hshort, List.append_nil]
  · obtain ⟨i, hi, rfl⟩ := List.mem_iff_getElem.mp hm
    have hlength := hblocks.length_eq
    exact (List.Forall₂.get hblocks (hlength ▸ hi) hi).announces

set_option maxRecDepth 4000 in
theorem session_relays_echoed : ∃ s, run step (started .blank [])
    (ChatServer.echoed.map fun c => .complete c.1 c.2) = some s ∧
    relayed s.received.flatten = [[32, 32, 32, 49, 104], [32, 32, 32, 50, 105, 33]] := by
  have hrun : run step (started .blank [])
      (ChatServer.echoed.map fun c => .complete c.1 c.2) = some _ := rfl
  exact ⟨_, hrun, (session_relays ⟨_, hrun⟩).1.symm.trans (by decide +kernel)⟩

end ChatSession

/-! ### From one session to the client of another -/

/-- The frames of messages whose headers announce their bodies. -/
theorem frames_of_announces {msgs : List ChatMessage}
    (h : ∀ m ∈ msgs, Announces m.header m.bodyLength_) : ∃ frames : List Frame,
      frames.flatMap Frame.wire = msgs.flatMap ChatMessage.wire ∧
      frames.map Frame.body = msgs.map ChatMessage.body := by
  induction msgs with
  | nil => exact ⟨[], rfl, rfl⟩
  | cons m msgs ih =>
      obtain ⟨frames, hwire, hbody⟩ := ih fun m' hm => h m' (List.mem_cons_of_mem m hm)
      have hannounces : Announces m.header m.body.length :=
        m.body_length.symm ▸ h m List.mem_cons_self
      refine ⟨⟨m.header, m.body, m.header_length, hannounces⟩ :: frames, ?_, ?_⟩
      · rw [List.flatMap_cons, List.flatMap_cons, hwire, m.wire_eq]
        rfl
      · rw [List.map_cons, List.map_cons, hbody]

namespace ChatServer

variable {s : ChatServer} {es : List ChatServerEvent}

/-- What a session is given was read by some session. -/
theorem expected_relayed (h : run ChatServer.step {} es = some s) {i : Nat} {m : ChatMessage}
    (hm : m ∈ expected i (roomOps (allCalls es))) : Announces m.header m.bodyLength_ ∧
      ∃ (j : Nat) (y : ChatSession), s.sessions[j]? = some y ∧
        m.wire ∈ relayed y.received.flatten := by
  have hs := relayed_run h
  obtain ⟨op, hop, hdeliver⟩ := List.mem_filterMap.mp ((expected_sublist i _).mem hm)
  obtain ⟨⟨j, call⟩, hcall, rfl⟩ := List.mem_map.mp hop
  have hmine : call ∈ callsBy j (allCalls es) :=
    List.mem_map.mpr ⟨(j, call), List.mem_filter.mpr ⟨hcall, decide_eq_true rfl⟩, rfl⟩
  cases hy : s.sessions[j]? with
  | none =>
      rw [hs.unborn j hy] at hmine
      cases hmine
  | some y =>
      rw [hs.made j y hy] at hmine
      obtain ⟨readMsg_, recentMsgs, hreach⟩ := session_reachable ⟨es, h⟩ hy
      obtain ⟨hwires, hannounces⟩ := ChatSession.session_relays hreach
      have hmem : m ∈ deliveredMessages y.calls := by
        refine List.mem_filterMap.mpr ⟨call, hmine, ?_⟩
        cases call with
        | join => cases hdeliver
        | leave => cases hdeliver
        | deliver msg => exact hdeliver
      refine ⟨hannounces m hmem, j, y, hy, ?_⟩
      rw [← hwires]
      exact List.mem_map_of_mem hmem

/-- Take any run of the server, whatever bytes the peers of its sessions send, and a client that
receives what one session writes, none of its reads failing. Every message for that session was cut
out of what some session read; the client prints the bodies of the first of these messages, and of
all when it has read a header and a body for each; and no read makes it close its socket. -/
theorem relayed_printed (h : run ChatServer.step {} es = some s) {i : Nat} {x : ChatSession}
    (hx : s.sessions[i]? = some x) {readMsg_ : ChatMessage} {cs : List ClientEvent}
    {c : ChatClient} (hc : run ChatClient.step (.fresh readMsg_) cs = some c)
    (hsucceed : Throughout ChatClient.step ChatClient.ReadsSucceed (.fresh readMsg_) cs)
    (hstream : c.received.flatten <+: x.written) :
    (∀ m ∈ expected i (roomOps (allCalls es)), ∃ (j : Nat) (y : ChatSession),
      s.sessions[j]? = some y ∧ m.wire ∈ relayed y.received.flatten) ∧
    c.printed <+: (expected i (roomOps (allCalls es))).map ChatMessage.body ∧
    (c.connecting = false → c.received.length = 2 * (expected i (roomOps (allCalls es))).length →
      c.printed = (expected i (roomOps (allCalls es))).map ChatMessage.body) ∧
    ∀ e d, c.step e = some d → c.ReadsSucceed e → c.CompletesRead e →
      d.received.flatten <+: x.written →
      d.closed = c.closed ∧ d.socketClosed = c.socketClosed := by
  obtain ⟨frames, hwire, hbody⟩ := frames_of_announces fun m hm => (expected_relayed h hm).1
  have hwritten : x.written <+: frames.flatMap Frame.wire ++ [] := by
    obtain ⟨-, sent, ⟨unsent, hsent⟩, hwritten⟩ := written_sent h hx
    rw [hwritten, hwire, List.append_nil, ← hsent, List.flatMap_append]
    exact List.prefix_append _ _
  have hfollows := (ChatClient.follows_fresh readMsg_ frames []).run stops_nil hc hsucceed
    (hstream.trans hwritten)
  rw [← hbody]
  refine ⟨fun m hm => (expected_relayed h hm).2, hfollows.prefixes.2, ?_, ?_⟩
  · intro hconnecting hlength
    refine (hfollows.all_read hconnecting ?_).1
    have hframes : (frames.flatMap Frame.parts).length = c.received.length := by
      have hcount := congrArg List.length hbody
      rw [List.length_map, List.length_map] at hcount
      rw [ChatClient.parts_length, hlength, hcount]
    rcases hfollows.prefixes.1 with hprefix | ⟨bad, hbad, hfour, -⟩
    · exact hprefix.eq_of_length hframes.symm
    · rw [List.prefix_nil.mp hbad] at hfour
      cases hfour
  · intro e d hd hnow hread hreceived
    exact (hfollows.step stops_nil hnow hd (hreceived.trans hwritten)).2 hread rfl

/-- A client reads the two messages that came back. -/
def readsEcho : List ClientEvent :=
  [.establish, .connect (.success ()), .complete 0 (.success [32, 32, 32, 49]),
    .complete 0 (.success [104]), .complete 0 (.success [32, 32, 32, 50]),
    .complete 0 (.success [105, 33])]

theorem readsEcho_succeeds : Throughout ChatClient.step ChatClient.ReadsSucceed (.fresh .blank)
    readsEcho := by
  refine throughout_cons.mpr ⟨trivial, fun _ _ => throughout_cons.mpr ⟨rfl, fun _ _ => ?_⟩⟩
  refine throughout_cons.mpr ⟨Or.inl ⟨_, rfl⟩, fun _ _ => ?_⟩
  refine throughout_cons.mpr ⟨Or.inl ⟨_, rfl⟩, fun _ _ => ?_⟩
  refine throughout_cons.mpr ⟨Or.inl ⟨_, rfl⟩, fun _ _ => ?_⟩
  exact throughout_cons.mpr ⟨Or.inl ⟨_, rfl⟩, fun _ _ => throughout_nil⟩

set_option maxRecDepth 4000 in
theorem relayed_printed_echoed : ∃ s x c, run ChatServer.step {} echoedRun = some s ∧
    s.sessions[0]? = some x ∧ run ChatClient.step (.fresh .blank) readsEcho = some c ∧
    c.printed = [[104], [105, 33]] ∧
    c.printed <+: (expected 0 (roomOps (allCalls echoedRun))).map ChatMessage.body := by
  have hsession : run ChatSession.step (.started .blank [])
      (echoed.map fun c => .complete c.1 c.2) = some _ := rfl
  have haccept : ChatServer.step {} (.accept (.success ()) .blank) =
      some (startSession {} .blank) := rfl
  obtain ⟨s, hs, hget⟩ := run_of_session (s := startSession {} .blank) (i := 0) rfl hsession
  have hrun : run ChatServer.step {} echoedRun = some s := run_cons.mpr ⟨_, haccept, hs⟩
  have hclient : run ChatClient.step (.fresh .blank) readsEcho = some _ := rfl
  have hprinted := relayed_printed hrun hget hclient readsEcho_succeeds (by decide)
  exact ⟨s, _, _, hrun, hget, hclient, rfl, hprinted.2.1⟩

end ChatServer

end AsioTest.Chat
