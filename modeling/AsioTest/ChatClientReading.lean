import AsioTest.ChatReadLoop
import AsioTest.ChatWireForm

/-!
What a client prints of the stream it receives. The read loop is followed through a stream of
frames, that is of headers and the bodies they announce, with a tail behind them that does not
begin with another header.
-/

namespace AsioTest.Chat

open AsyncSocket ByteStrings TransitionRuns

/-! ### Frames -/

/-- A header that is accepted, and as many bytes as it announces. -/
structure Frame where
  header : Bytes
  body : Bytes
  header_length : header.length = headerLength
  announces : Announces header body.length

namespace Frame

def wire (f : Frame) : Bytes := f.header ++ f.body

/-- The reads that take the frame off the stream. -/
def parts (f : Frame) : List Bytes := [f.header, f.body]

theorem parts_flatten (frames : List Frame) :
    (frames.flatMap parts).flatten = frames.flatMap wire := by
  induction frames with
  | nil => rfl
  | cons f frames ih =>
      calc
        ((f :: frames).flatMap parts).flatten =
            f.header ++ (f.body ++ (frames.flatMap parts).flatten) := rfl
        _ = f.wire ++ frames.flatMap wire := by rw [ih, wire, List.append_assoc]

end Frame

/-- The frame of a message that is sent with an encoded header. -/
def ChatMessage.frame (m : ChatMessage) : Frame where
  header := m.encodeHeader.header
  body := m.body
  header_length := m.encodeHeader.header_length
  announces := by
    rw [m.body_length]
    exact m.encodeHeader_announces

theorem frame_wire (m : ChatMessage) : m.frame.wire = m.encodeHeader.wire := by
  rw [ChatMessage.wire_eq, ChatMessage.encodeHeader_body]
  rfl

def Rejected (header : Bytes) : Prop :=
  ∀ r : ChatMessage, (r.store 0 header).decodeHeader.2 = false

/-- No header that would be accepted stands at the beginning. -/
def Stops (tail : Bytes) : Prop :=
  ∀ header, header <+: tail → header.length = headerLength → Rejected header

theorem stops_nil : Stops [] := by
  intro header hprefix hlength
  rw [List.prefix_nil.mp hprefix] at hlength
  cases hlength

theorem stops_append {bad : Bytes} (hlength : bad.length = headerLength)
    (hbad : Rejected bad) (rest : Bytes) : Stops (bad ++ rest) := by
  intro header hprefix hheader
  obtain rfl : header = bad := by
    rw [List.prefix_iff_eq_take.mp hprefix, hheader, ← hlength, List.take_left]
  exact hbad

/-- A body that fills the message is what the message shows of it. -/
theorem store_body {r : ChatMessage} {bytes : Bytes} (h : bytes.length = r.bodyLength_) :
    (r.store headerLength bytes).wire.drop headerLength = bytes := by
  have hfits : headerLength + bytes.length ≤ r.data_.length := by
    rw [r.data_length, h]
    exact Nat.add_le_add_left r.bodyLength_le headerLength
  rw [← ChatMessage.body_eq_drop_wire, ChatMessage.body]
  show ((overwrite r.data_ headerLength bytes).drop headerLength).take r.bodyLength_ = bytes
  rw [overwrite_drop hfits, ← h, List.take_left]

/-! ### The loop in a stream -/

namespace ChatClient

/-- No read and no connect fails. -/
def ReadsSucceed (s : ChatClient) : ClientEvent → Prop
  | .connect r => r = .success ()
  | .complete k r =>
      (∃ bytes, r = .success bytes) ∨ ∃ msg buffer, s.nextOp k = some (.write msg buffer)
  | _ => True

/-- The handler that runs is that of a read. -/
def CompletesRead (s : ChatClient) : ClientEvent → Prop
  | .complete k _ => ∃ op, s.nextOp k = some op ∧ op.read = some op
  | _ => False

/-- How far the read loop has got in the stream. -/
inductive Follows (frames : List Frame) (tail : Bytes) (s : ChatClient) : Prop where
  | unconnected (hconnecting : s.connecting = true) (hreads : s.reads = [])
      (hreceived : s.received = []) (hprinted : s.printed = [])
  | atHeader {done todo : List Frame} (hconnecting : s.connecting = false)
      (hframes : frames = done ++ todo)
      (hreads : s.reads = [.readHeader (ChatMessage.dataSpan headerLength)])
      (hreceived : s.received = done.flatMap Frame.parts)
      (hprinted : s.printed = done.map Frame.body)
  | atBody {done todo : List Frame} {f : Frame} (hconnecting : s.connecting = false)
      (hframes : frames = done ++ f :: todo)
      (hreads : s.reads = [.readBody (ChatMessage.bodySpan f.body.length)])
      (hsize : s.readMsg_.bodyLength_ = f.body.length)
      (hreceived : s.received = done.flatMap Frame.parts ++ [f.header])
      (hprinted : s.printed = done.map Frame.body)
  | ended {bad : Bytes} (hconnecting : s.connecting = false)
      (hbad : bad <+: tail) (hlength : bad.length = headerLength) (hreads : s.reads = [])
      (hreceived : s.received = frames.flatMap Frame.parts ++ [bad])
      (hprinted : s.printed = frames.map Frame.body)
      (hclosed : s.closed = true) (hsocketClosed : s.socketClosed = true)

/-- A handler that has nothing to do with reading. -/
structure Aside (s t : ChatClient) : Prop where
  reads : t.reads = s.reads
  received : t.received = s.received
  readMsg : t.readMsg_ = s.readMsg_
  printed : t.printed = s.printed
  connecting : t.connecting = s.connecting
  closed : s.closed = true → t.closed = true
  socketClosed : s.socketClosed = true → t.socketClosed = true

variable {frames : List Frame} {tail : Bytes} {s t : ChatClient}

theorem Follows.reads_le (hs : s.Follows frames tail) : s.reads.length ≤ 1 := by
  rcases hs with ⟨-, hreads, -, -⟩ | ⟨-, -, hreads, -, -⟩ | ⟨-, -, hreads, -, -, -⟩ |
    ⟨-, -, -, hreads, -, -, -, -⟩ <;> simp [hreads]

theorem Follows.aside (hs : s.Follows frames tail) (h : Aside s t) : t.Follows frames tail := by
  obtain ⟨ereads, ereceived, ereadMsg, eprinted, econnecting, eclosed, esocketClosed⟩ := h
  cases hs with
  | unconnected hconnecting hreads hreceived hprinted =>
      exact .unconnected (econnecting.trans hconnecting) (ereads.trans hreads)
        (ereceived.trans hreceived) (eprinted.trans hprinted)
  | atHeader hconnecting hframes hreads hreceived hprinted =>
      exact .atHeader (econnecting.trans hconnecting) hframes (ereads.trans hreads)
        (ereceived.trans hreceived) (eprinted.trans hprinted)
  | atBody hconnecting hframes hreads hsize hreceived hprinted =>
      exact .atBody (econnecting.trans hconnecting) hframes (ereads.trans hreads)
        ((congrArg _ ereadMsg).trans hsize) (ereceived.trans hreceived) (eprinted.trans hprinted)
  | ended hconnecting hbad hlength hreads hreceived hprinted hclosed hsocketClosed =>
      exact .ended (econnecting.trans hconnecting) hbad hlength (ereads.trans hreads)
        (ereceived.trans hreceived) (eprinted.trans hprinted) (eclosed hclosed)
        (esocketClosed hsocketClosed)

theorem onWrite_aside (request : WriteRequest) (r : Completion Bytes) :
    Aside s (s.onWrite request r) := by
  cases r with
  | success bytes =>
      unfold onWrite
      simp only
      split_ifs
      · exact ⟨rfl, rfl, rfl, rfl, rfl, fun _ => rfl, fun _ => rfl⟩
      · exact ⟨ChatPeer.doWrite_reads _, ChatPeer.doWrite_received _, ChatPeer.doWrite_readMsg _,
          rfl, rfl, id, id⟩
  | aborted => exact ⟨rfl, rfl, rfl, rfl, rfl, id, id⟩
  | failed => exact ⟨rfl, rfl, rfl, rfl, rfl, id, id⟩

/-- What is neither a connect nor the completion of a read has nothing to do with reading. -/
theorem step_aside {e : ClientEvent} (hle : s.reads.length ≤ 1) (h : s.step e = some t)
    (hconnect : ∀ r, e ≠ .connect r) (hread : ¬ CompletesRead s e) : Aside s t := by
  cases e with
  | write msg =>
      cases h
      exact ⟨rfl, rfl, rfl, rfl, rfl, id, id⟩
  | close =>
      cases h
      exact ⟨rfl, rfl, rfl, rfl, rfl, id, id⟩
  | runPosted =>
      obtain ⟨p, rest, -, rfl⟩ := runPosted_eq_some h
      cases p with
      | write msg =>
          have hside := s.toChatPeer.enqueue_readSide [] msg
          exact ⟨congrArg ReadSide.reads hside, congrArg ReadSide.received hside,
            congrArg ReadSide.readMsg hside, rfl, rfl, id, id⟩
      | close => exact ⟨rfl, rfl, rfl, rfl, rfl, fun _ => rfl, id⟩
  | establish =>
      simp only [step] at h
      split_ifs at h
      cases h
      exact ⟨rfl, rfl, rfl, rfl, rfl, id, id⟩
  | connect r => exact absurd rfl (hconnect r)
  | complete k r =>
      obtain ⟨⟨op, p⟩, hfinish, rfl⟩ := Option.map_eq_some_iff.mp h
      have hnext := ChatPeer.finish_nextOp hfinish
      cases op with
      | readHeader buffer => exact absurd ⟨_, hnext, rfl⟩ hread
      | readBody buffer => exact absurd ⟨_, hnext, rfl⟩ hread
      | write msg buffer =>
          have hside := ChatPeer.finish_write hfinish hle
          have haside : Aside s { s with toChatPeer := p } :=
            ⟨congrArg ReadSide.reads hside, congrArg ReadSide.received hside,
              congrArg ReadSide.readMsg hside, rfl, rfl, id, id⟩
          have hwrite := onWrite_aside (s := { s with toChatPeer := p }) (msg, buffer) r
          exact ⟨hwrite.reads.trans haside.reads, hwrite.received.trans haside.received,
            hwrite.readMsg.trans haside.readMsg, hwrite.printed, hwrite.connecting,
            hwrite.closed, hwrite.socketClosed⟩

/-- What is read next of a stream stands at its beginning. -/
theorem next_prefix {done todo : List Frame} {parts : List Bytes} {bytes : Bytes}
    (hparts : parts = done.flatMap Frame.parts)
    (h : (parts ++ [bytes]).flatten <+: (done ++ todo).flatMap Frame.wire ++ tail) :
    bytes <+: todo.flatMap Frame.wire ++ tail := by
  rw [hparts, List.flatten_append, Frame.parts_flatten, List.flatten_singleton,
    List.flatMap_append, List.append_assoc] at h
  exact (List.prefix_append_right_inj _).mp h

theorem eq_of_prefix_append {a b c : Bytes} (h : a <+: b ++ c) (hlength : a.length = b.length) :
    a = b := by
  rw [List.prefix_iff_eq_take.mp h, hlength, List.take_left]

/-- A header is that of the next frame, or the stream has ended with one that is rejected. -/
theorem Follows.readHeader {p : ChatPeer} {k : Nat} {bytes : Bytes} {buffer : Span}
    (hs : s.Follows frames tail) (htail : Stops tail)
    (h : s.finish k (.success bytes) = some (.readHeader buffer, p))
    (ht : t = onReadHeader { s with toChatPeer := p } (.success bytes))
    (hstream : t.received.flatten <+: frames.flatMap Frame.wire ++ tail) :
    t.Follows frames tail ∧
      (tail = [] → t.closed = s.closed ∧ t.socketClosed = s.socketClosed) := by
  obtain ⟨hop, hnone, hp, -, hlength⟩ := ChatPeer.finish_read h hs.reads_le rfl
  cases hs with
  | unconnected hconnecting hreads => cases hop.symm.trans hreads
  | atBody hconnecting hframes hreads => cases hop.symm.trans hreads
  | ended hconnecting hbad hlength hreads => cases hop.symm.trans hreads
  | @atHeader done todo hconnecting hframes hreads hreceived hprinted =>
      cases hop.symm.trans hreads
      rw [hreceived] at hp
      by_cases haccepted : (p.readMsg_.store 0 bytes).decodeHeader.2 = true
      · rw [onReadHeader_of_accepted { s with toChatPeer := p } haccepted] at ht
        subst ht
        change p.received.flatten <+: _ at hstream
        rw [hp, hframes] at hstream
        have hnext := next_prefix rfl hstream
        refine ⟨?_, fun _ => ⟨rfl, rfl⟩⟩
        cases todo with
        | nil =>
            cases haccepted.symm.trans (htail bytes hnext hlength p.readMsg_)
        | cons f todo =>
            rw [List.flatMap_cons, Frame.wire, List.append_assoc, List.append_assoc] at hnext
            obtain rfl := eq_of_prefix_append hnext (hlength.trans f.header_length.symm)
            have hsize := (f.announces p.readMsg_).2
            refine .atBody hconnecting hframes ?_ hsize hp hprinted
            calc
              ChatPeer.reads _ = p.reads ++ [_] := ChatPeer.readBodyOf_reads _ _
              _ = [.readBody (ChatMessage.bodySpan f.body.length)] := by
                rw [hnone, List.nil_append, ← hsize]
      · rw [onReadHeader_of_rejected { s with toChatPeer := p } haccepted] at ht
        subst ht
        change p.received.flatten <+: _ at hstream
        rw [hp, hframes] at hstream
        have hnext := next_prefix rfl hstream
        cases todo with
        | nil =>
            rw [List.append_nil] at hframes
            subst hframes
            refine ⟨.ended hconnecting hnext hlength hnone hp hprinted rfl rfl, ?_⟩
            rintro rfl
            rw [List.flatMap_nil, List.append_nil, List.prefix_nil] at hnext
            rw [hnext] at hlength
            cases hlength
        | cons f todo =>
            rw [List.flatMap_cons, Frame.wire, List.append_assoc, List.append_assoc] at hnext
            obtain rfl := eq_of_prefix_append hnext (hlength.trans f.header_length.symm)
            exact absurd (f.announces p.readMsg_).1 haccepted

/-- A body is that of the frame whose header has been read. -/
theorem Follows.readBody {p : ChatPeer} {k : Nat} {bytes : Bytes} {buffer : Span}
    (hs : s.Follows frames tail)
    (h : s.finish k (.success bytes) = some (.readBody buffer, p))
    (ht : t = onReadBody { s with toChatPeer := p } (.success bytes))
    (hstream : t.received.flatten <+: frames.flatMap Frame.wire ++ tail) :
    t.Follows frames tail ∧ t.closed = s.closed ∧ t.socketClosed = s.socketClosed := by
  obtain ⟨hop, hnone, hp, hmsg, hlength⟩ := ChatPeer.finish_read h hs.reads_le rfl
  subst ht
  refine ⟨?_, rfl, rfl⟩
  cases hs with
  | unconnected hconnecting hreads => cases hop.symm.trans hreads
  | atHeader hconnecting hframes hreads => cases hop.symm.trans hreads
  | ended hconnecting hbad hlength hreads => cases hop.symm.trans hreads
  | @atBody done todo f hconnecting hframes hreads hsize hreceived hprinted =>
      cases hop.symm.trans hreads
      rw [hreceived] at hp
      change p.received.flatten <+: _ at hstream
      have hbody : bytes = f.body := by
        have hflat : (done.flatMap Frame.parts ++ [f.header] ++ [bytes]).flatten =
            done.flatMap Frame.wire ++ (f.header ++ bytes) := by
          simp [Frame.parts_flatten]
        rw [hp, hflat, hframes, List.flatMap_append, List.flatMap_cons, List.append_assoc,
          List.prefix_append_right_inj, Frame.wire, List.append_assoc, List.append_assoc,
          List.prefix_append_right_inj] at hstream
        exact eq_of_prefix_append hstream hlength
      have hshown : (p.readMsg_.store headerLength bytes).wire.drop headerLength = f.body := by
        rw [store_body (hlength.trans (hmsg ▸ hsize.symm)), hbody]
      have hreceived' : p.received = (done ++ [f]).flatMap Frame.parts := by
        rw [hp, hbody, List.flatMap_append, List.flatMap_singleton, List.append_assoc]
        rfl
      refine .atHeader hconnecting (hframes.trans (List.append_cons done f todo)) ?_ hreceived' ?_
      · calc
          ChatPeer.reads _ = p.reads ++ [_] := ChatPeer.doReadHeader_reads _
          _ = [.readHeader (ChatMessage.dataSpan headerLength)] := by
            rw [hnone, List.nil_append]
      · show s.printed ++ [_] = (done ++ [f]).map Frame.body
        rw [hprinted, List.map_append]
        exact congrArg (fun body => done.map Frame.body ++ [body]) hshown

theorem Follows.connect (hs : s.Follows frames tail) {u : Unit}
    (h : s.step (.connect (.success u)) = some t) : t.Follows frames tail := by
  simp only [ChatClient.step] at h
  split_ifs at h with hcan
  cases h
  have hconnecting : s.connecting = true := (Bool.and_eq_true_iff.mp hcan).1
  cases hs with
  | unconnected _ hreads hreceived hprinted =>
      have hframes : frames = [] ++ frames := rfl
      refine .atHeader rfl hframes ?_ hreceived hprinted
      calc
        ChatPeer.reads _ = s.reads ++ [_] := ChatPeer.doReadHeader_reads _
        _ = [.readHeader (ChatMessage.dataSpan headerLength)] := by rw [hreads, List.nil_append]
  | atHeader hfalse => cases hconnecting.symm.trans hfalse
  | atBody hfalse => cases hconnecting.symm.trans hfalse
  | ended hfalse => cases hconnecting.symm.trans hfalse

/-- As long as no read fails the loop stays in the stream, and only a header that is rejected makes
it close the socket. -/
theorem Follows.step {e : ClientEvent} (hs : s.Follows frames tail) (htail : Stops tail)
    (hsucceed : ReadsSucceed s e) (h : s.step e = some t)
    (hstream : t.received.flatten <+: frames.flatMap Frame.wire ++ tail) :
    t.Follows frames tail ∧ (CompletesRead s e → tail = [] →
      t.closed = s.closed ∧ t.socketClosed = s.socketClosed) := by
  by_cases hread : CompletesRead s e
  · cases e with
    | complete k r =>
        obtain ⟨⟨op, p⟩, hfinish, rfl⟩ := Option.map_eq_some_iff.mp h
        have hnext := ChatPeer.finish_nextOp hfinish
        obtain ⟨op', hop', hread⟩ := hread
        obtain rfl : op = op' := Option.some.inj (hnext.symm.trans hop')
        rcases hsucceed with ⟨bytes, rfl⟩ | ⟨msg, buffer, hwrite⟩
        · cases op with
          | readHeader buffer =>
              obtain ⟨ht, hkept⟩ := hs.readHeader htail hfinish rfl hstream
              exact ⟨ht, fun _ => hkept⟩
          | readBody buffer =>
              obtain ⟨ht, hkept⟩ := hs.readBody hfinish rfl hstream
              exact ⟨ht, fun _ _ => hkept⟩
          | write msg buffer => cases hread
        · cases hnext.symm.trans hwrite
          cases hread
    | _ => cases hread
  · refine ⟨?_, fun hnot => absurd hnot hread⟩
    by_cases hconnect : ∃ r, e = .connect r
    · obtain ⟨r, rfl⟩ := hconnect
      cases hsucceed
      exact hs.connect h
    · exact hs.aside (step_aside hs.reads_le h (fun r hr => hconnect ⟨r, hr⟩) hread)

/-- Once a header has been rejected nothing is read any more. -/
theorem ended_step {e : ClientEvent} (hconnecting : s.connecting = false) (hreads : s.reads = [])
    (h : s.step e = some t) : Aside s t := by
  have hle : s.reads.length ≤ 1 := by
    rw [hreads]
    exact Nat.zero_le 1
  refine step_aside hle h ?_ ?_
  · rintro r rfl
    simp only [step, canConnect] at h
    cases r <;> simp [hconnecting] at h
  · intro hread
    cases e with
    | complete k r =>
        obtain ⟨⟨op, p⟩, hfinish, -⟩ := Option.map_eq_some_iff.mp h
        obtain ⟨op', hop', hread⟩ := hread
        obtain rfl : op = op' :=
          Option.some.inj ((ChatPeer.finish_nextOp hfinish).symm.trans hop')
        have hside := (ChatPeer.finish_readSide [] hfinish hle).2
        rw [hread] at hside
        cases hside.1.symm.trans hreads
    | _ => cases hread

theorem ended_run {es : List ClientEvent} (hconnecting : s.connecting = false)
    (hreads : s.reads = []) (h : run step s es = some t) : Aside s t := by
  refine run_invariant (I := Aside s) (fun u e v hu hv => ?_)
    ⟨rfl, rfl, rfl, rfl, rfl, id, id⟩ h
  have haside := ended_step (hu.connecting.trans hconnecting) (hu.reads.trans hreads) hv
  exact ⟨haside.reads.trans hu.reads, haside.received.trans hu.received,
    haside.readMsg.trans hu.readMsg, haside.printed.trans hu.printed,
    haside.connecting.trans hu.connecting, haside.closed ∘ hu.closed,
    haside.socketClosed ∘ hu.socketClosed⟩

/-! ### Runs -/

theorem handle_received (op : ChatOp) (r : Completion Bytes) :
    (s.handle op r).received = s.received := by
  cases op with
  | readHeader buffer =>
      cases r with
      | success bytes =>
          by_cases haccepted : (s.readMsg_.store 0 bytes).decodeHeader.2 = true
          · exact congrArg (fun t => t.received) (onReadHeader_of_accepted s haccepted)
          · exact congrArg (fun t => t.received) (onReadHeader_of_rejected s haccepted)
      | aborted => rfl
      | failed => rfl
  | readBody buffer => cases r <;> rfl
  | write msg buffer => exact (onWrite_aside (msg, buffer) r).received

/-- What has been received stays so. -/
theorem step_received {e : ClientEvent} (h : s.step e = some t) : s.received <+: t.received := by
  cases e with
  | complete k r =>
      obtain ⟨⟨op, p⟩, hfinish, rfl⟩ := Option.map_eq_some_iff.mp h
      obtain ⟨socket, -, -, rfl⟩ := ChatPeer.finish_eq_some hfinish
      rw [handle_received]
      exact List.prefix_append _ _
  | write msg =>
      cases h
      exact List.prefix_rfl
  | close =>
      cases h
      exact List.prefix_rfl
  | runPosted =>
      obtain ⟨p, rest, -, rfl⟩ := runPosted_eq_some h
      cases p with
      | write msg =>
          have hsame := congrArg ReadSide.received (s.toChatPeer.enqueue_readSide [] msg)
          exact ⟨[], (List.append_nil _).trans hsame.symm⟩
      | close => exact List.prefix_rfl
  | establish =>
      simp only [step] at h
      split_ifs at h
      cases h
      exact List.prefix_rfl
  | connect r =>
      simp only [step] at h
      split_ifs at h
      cases h
      cases r <;> exact List.prefix_rfl

theorem run_received {es : List ClientEvent} (h : run step s es = some t) :
    s.received <+: t.received :=
  run_invariant (I := fun t : ChatClient => s.received <+: t.received)
    (fun _ _ _ hs ht => hs.trans (step_received ht)) List.prefix_rfl h

theorem flatten_mono {a b : List Bytes} (h : a <+: b) : a.flatten <+: b.flatten := by
  obtain ⟨c, rfl⟩ := h
  rw [List.flatten_append]
  exact List.prefix_append _ _

theorem Follows.run {es : List ClientEvent} (hs : s.Follows frames tail) (htail : Stops tail)
    (h : run ChatClient.step s es = some t)
    (hsucceed : Throughout ChatClient.step ReadsSucceed s es)
    (hstream : t.received.flatten <+: frames.flatMap Frame.wire ++ tail) :
    t.Follows frames tail := by
  induction es generalizing s with
  | nil =>
      cases h
      exact hs
  | cons e es ih =>
      obtain ⟨u, hu, ht⟩ := run_cons.mp h
      obtain ⟨hfirst, hrest⟩ := throughout_cons.mp hsucceed
      have hreceived := (flatten_mono (run_received ht)).trans hstream
      exact ih (hs.step htail hfirst hu hreceived).1 ht (hrest u hu)

theorem follows_fresh (readMsg_ : ChatMessage) (frames : List Frame) (tail : Bytes) :
    (fresh readMsg_).Follows frames tail := .unconnected rfl rfl rfl rfl

/-- Nothing is received but the parts of the frames and the header behind them, and nothing is
printed but the bodies. -/
theorem Follows.prefixes (hs : s.Follows frames tail) :
    (s.received <+: frames.flatMap Frame.parts ∨ ∃ bad, bad <+: tail ∧
      bad.length = headerLength ∧ s.received = frames.flatMap Frame.parts ++ [bad]) ∧
    s.printed <+: frames.map Frame.body := by
  cases hs with
  | unconnected hconnecting hreads hreceived hprinted =>
      rw [hreceived, hprinted]
      exact ⟨Or.inl List.nil_prefix, List.nil_prefix⟩
  | atHeader hconnecting hframes hreads hreceived hprinted =>
      rw [hreceived, hprinted, hframes, List.flatMap_append, List.map_append]
      exact ⟨Or.inl (List.prefix_append _ _), List.prefix_append _ _⟩
  | @atBody done todo f hconnecting hframes hreads hsize hreceived hprinted =>
      rw [hreceived, hprinted, hframes, List.flatMap_append, List.flatMap_cons, List.map_append]
      refine ⟨Or.inl ?_, List.prefix_append _ _⟩
      refine (List.prefix_append_right_inj _).mpr ?_
      exact ⟨f.body :: todo.flatMap Frame.parts, rfl⟩
  | ended hconnecting hbad hlength hreads hreceived hprinted =>
      rw [hprinted]
      exact ⟨Or.inr ⟨_, hbad, hlength, hreceived⟩, List.prefix_rfl⟩

theorem parts_length (frames : List Frame) :
    (frames.flatMap Frame.parts).length = 2 * frames.length := by
  induction frames with
  | nil => rfl
  | cons f frames ih =>
      rw [List.flatMap_cons, List.length_append, ih, List.length_cons, Frame.parts]
      simp only [List.length_cons, List.length_nil]
      omega

/-- When all frames have been read, their bodies have been printed and a header is waited for. -/
theorem Follows.all_read (hs : s.Follows frames tail) (hconnecting : s.connecting = false)
    (hall : s.received = frames.flatMap Frame.parts) : s.printed = frames.map Frame.body ∧
      s.reads = [.readHeader (ChatMessage.dataSpan headerLength)] := by
  have hlength := congrArg List.length hall
  rw [parts_length] at hlength
  cases hs with
  | unconnected htrue => cases hconnecting.symm.trans htrue
  | @atHeader done todo _ hframes hreads hreceived hprinted =>
      rw [hreceived, parts_length, hframes, List.length_append] at hlength
      have htodo : todo = [] := List.length_eq_zero_iff.mp (by omega)
      rw [htodo, List.append_nil] at hframes
      exact ⟨hframes ▸ hprinted, hreads⟩
  | atBody _ hframes hreads hsize hreceived hprinted =>
      rw [hreceived, List.length_append, parts_length, List.length_singleton] at hlength
      omega
  | ended _ hbad hlen hreads hreceived hprinted =>
      rw [hreceived, List.length_append, parts_length, List.length_singleton] at hlength
      omega

/-- When the header behind the frames has been read, the client has stopped. -/
theorem Follows.all_stopped (hs : s.Follows frames tail) {bad : Bytes}
    (hall : s.received = frames.flatMap Frame.parts ++ [bad]) :
    s.printed = frames.map Frame.body ∧ s.connecting = false ∧ s.reads = [] ∧ s.closed = true ∧
      s.socketClosed = true := by
  have hlength := congrArg List.length hall
  rw [List.length_append, parts_length, List.length_singleton] at hlength
  cases hs with
  | unconnected _ _ hreceived =>
      rw [hreceived, List.length_nil] at hlength
      omega
  | atHeader _ hframes hreads hreceived hprinted =>
      rw [hreceived, parts_length] at hlength
      omega
  | @atBody done todo f _ hframes hreads hsize hreceived hprinted =>
      rw [hreceived, List.length_append, parts_length, List.length_singleton, hframes,
        List.length_append, List.length_cons] at hlength
      omega
  | ended hconnecting hbad hlen hreads hreceived hprinted hclosed hsocketClosed =>
      exact ⟨hprinted, hconnecting, hreads, hclosed, hsocketClosed⟩

/-! ### A run of reads -/

/-- The only operation outstanding on an open socket can complete. -/
theorem finish_only {p : ChatPeer} {op : ChatOp} (hsocket : p.socket_ = ⟨true, [⟨op, true⟩]⟩)
    {bytes : Bytes} (hfits : op.Fits (.success bytes) = true) : p.finish 0 (.success bytes) =
      some (op, { p with
        socket_ := ⟨true, []⟩
        received := p.received ++ op.received (.success bytes) }) := by
  have hsocket' : p.socket_.finish 0 (.success bytes) = some (op, ⟨true, []⟩) := by
    rw [hsocket]
    rfl
  unfold ChatPeer.finish
  rw [hsocket']
  exact if_pos hfits

/-- The socket of a client that does nothing but wait for a header. -/
def waiting : Socket ChatOp := ⟨true, [⟨.readHeader (ChatMessage.dataSpan headerLength), true⟩]⟩

theorem step_header {header : Bytes} (hsocket : s.socket_ = waiting)
    (hlength : header.length = headerLength) :
    s.step (.complete 0 (.success header)) = some (onReadHeader { s with
      socket_ := ⟨true, []⟩
      received := s.received ++ [header] } (.success header)) := by
  have hfits : (ChatOp.readHeader (ChatMessage.dataSpan headerLength)).Fits (.success header) :=
    decide_eq_true hlength
  have hfinish := finish_only hsocket hfits
  exact congrArg (Option.map _) hfinish

/-- What both reads of a frame leave as it was. -/
def Untouched (s t : ChatClient) : Prop := t.closed = s.closed ∧ t.socketClosed = s.socketClosed

theorem step_frame_header (f : Frame) (hsocket : s.socket_ = waiting) :
    ∃ t, s.step (.complete 0 (.success f.header)) = some t ∧
      t.socket_ = ⟨true, [⟨.readBody (ChatMessage.bodySpan f.body.length), true⟩]⟩ ∧
      t.readMsg_.bodyLength_ = f.body.length ∧ t.received = s.received ++ [f.header] ∧
      t.printed = s.printed ∧ Untouched s t := by
  obtain ⟨haccepted, hsize⟩ := f.announces s.readMsg_
  refine ⟨_, (step_header hsocket f.header_length).trans
    (congrArg some (onReadHeader_of_accepted _ haccepted)), ?_, hsize, rfl, rfl, rfl, rfl⟩
  show Socket.mk true [⟨ChatOp.readBody (ChatMessage.bodySpan _), true⟩] = _
  rw [hsize]

theorem step_frame_body {body : Bytes} (hsize : s.readMsg_.bodyLength_ = body.length)
    (hsocket : s.socket_ = ⟨true, [⟨.readBody (ChatMessage.bodySpan body.length), true⟩]⟩) :
    ∃ t, s.step (.complete 0 (.success body)) = some t ∧ t.socket_ = waiting ∧
      t.received = s.received ++ [body] ∧ t.printed = s.printed ++ [body] ∧ Untouched s t := by
  have hfits : (ChatOp.readBody (ChatMessage.bodySpan body.length)).Fits (.success body) :=
    decide_eq_true rfl
  have hfinish := finish_only hsocket hfits
  refine ⟨_, congrArg (Option.map _) hfinish, rfl, rfl, ?_, rfl, rfl⟩
  exact congrArg (fun shown => s.printed ++ [shown]) (store_body hsize.symm)

/-- The frames are read one after the other. -/
theorem run_frames (frames : List Frame) (hsocket : s.socket_ = waiting) :
    ∃ es t, run step s es = some t ∧
      (∀ e ∈ es, ∃ k bytes, e = ClientEvent.complete k (.success bytes)) ∧
      t.socket_ = waiting ∧ t.received = s.received ++ frames.flatMap Frame.parts ∧
      t.printed = s.printed ++ frames.map Frame.body ∧ Untouched s t := by
  induction frames generalizing s with
  | nil => exact ⟨[], s, rfl, nofun, hsocket, (List.append_nil _).symm, (List.append_nil _).symm,
      rfl, rfl⟩
  | cons f frames ih =>
      obtain ⟨u, hu, usocket, usize, ureceived, uprinted, uclosed, uflag⟩ :=
        step_frame_header f hsocket
      obtain ⟨v, hv, vsocket, vreceived, vprinted, vclosed, vflag⟩ := step_frame_body usize usocket
      obtain ⟨es, t, ht, hes, tsocket, treceived, tprinted, tclosed, tflag⟩ := ih vsocket
      refine ⟨.complete 0 (.success f.header) :: .complete 0 (.success f.body) :: es, t,
        run_cons.mpr ⟨u, hu, run_cons.mpr ⟨v, hv, ht⟩⟩, ?_, tsocket, ?_, ?_,
        tclosed.trans (vclosed.trans uclosed), tflag.trans (vflag.trans uflag)⟩
      · intro e he
        rcases List.mem_cons.mp he with rfl | he
        · exact ⟨0, f.header, rfl⟩
        rcases List.mem_cons.mp he with rfl | he
        · exact ⟨0, f.body, rfl⟩
        · exact hes e he
      · rw [treceived, vreceived, ureceived, List.append_assoc, List.append_assoc]
        rfl
      · rw [tprinted, vprinted, uprinted, List.append_assoc]
        rfl

/-! ### Relayed messages -/

/-- A client that receives the wire forms of `msgs`, with encoded headers, can read them to the
end; it has then printed just the bodies and waits for a header. On no run over this stream in
which no read fails does it read or print anything else, and no handler of a read closes the
socket. -/
structure Recovers (readMsg_ : ChatMessage) (msgs : List ChatMessage) : Prop where
  reached : ∃ es t, run step (connected readMsg_) es = some t ∧
    (∀ e ∈ es, ∃ k bytes, e = ClientEvent.complete k (.success bytes)) ∧
    t.received.flatten = msgs.flatMap (fun m => m.encodeHeader.wire) ∧
    t.printed = msgs.map ChatMessage.body ∧
    t.reads = [.readHeader (ChatMessage.dataSpan headerLength)] ∧
    t.closed = false ∧ t.socketClosed = false
  only : ∀ es t, run step (fresh readMsg_) es = some t →
    Throughout step ReadsSucceed (fresh readMsg_) es →
    t.received.flatten <+: msgs.flatMap (fun m => m.encodeHeader.wire) →
    t.received <+: (msgs.map ChatMessage.frame).flatMap Frame.parts ∧
    t.printed <+: msgs.map ChatMessage.body ∧
    (t.connecting = false → t.received = (msgs.map ChatMessage.frame).flatMap Frame.parts →
      t.printed = msgs.map ChatMessage.body ∧
      t.reads = [.readHeader (ChatMessage.dataSpan headerLength)])
  keepsOpen : ∀ es s e t, run step (fresh readMsg_) es = some s →
    Throughout step ReadsSucceed (fresh readMsg_) es → s.step e = some t →
    ReadsSucceed s e → CompletesRead s e →
    t.received.flatten <+: msgs.flatMap (fun m => m.encodeHeader.wire) →
    t.closed = s.closed ∧ t.socketClosed = s.socketClosed

/-- A client that receives some frames and behind them a header that is rejected can read up to
there. On every run over this stream in which no read fails it prints the bodies of the frames, and
when it has read the header it has closed the socket, and it never reads or prints again. -/
structure StopsAt (readMsg_ : ChatMessage) (frames : List Frame) (bad rest : Bytes) : Prop where
  reached : ∃ es t, run step (connected readMsg_) es = some t ∧
    (∀ e ∈ es, ∃ k bytes, e = ClientEvent.complete k (.success bytes)) ∧
    t.received = frames.flatMap Frame.parts ++ [bad]
  only : ∀ es t, run step (fresh readMsg_) es = some t →
    Throughout step ReadsSucceed (fresh readMsg_) es →
    t.received.flatten <+: frames.flatMap Frame.wire ++ (bad ++ rest) →
    t.received <+: frames.flatMap Frame.parts ++ [bad] ∧
    t.printed <+: frames.map Frame.body ∧
    (t.received = frames.flatMap Frame.parts ++ [bad] →
      t.printed = frames.map Frame.body ∧ ∀ es' u, run step t es' = some u →
        u.received = t.received ∧ u.printed = t.printed ∧ u.reads = [] ∧ u.closed = true ∧
        u.socketClosed = true)

theorem frames_wire (msgs : List ChatMessage) :
    (msgs.map ChatMessage.frame).flatMap Frame.wire =
      msgs.flatMap fun m => m.encodeHeader.wire := by
  rw [List.flatMap_map]
  simp only [frame_wire]

theorem frames_body (msgs : List ChatMessage) :
    (msgs.map ChatMessage.frame).map Frame.body = msgs.map ChatMessage.body := by
  rw [List.map_map]
  rfl

theorem recovers (readMsg_ : ChatMessage) (msgs : List ChatMessage) :
    Recovers readMsg_ msgs where
  reached := by
    obtain ⟨es, t, ht, hes, hsocket, hreceived, hprinted, hclosed, hflag⟩ :=
      run_frames (s := connected readMsg_) (msgs.map ChatMessage.frame) rfl
    refine ⟨es, t, ht, hes, ?_, hprinted.trans (frames_body msgs), ?_, hclosed, hflag⟩
    · rw [hreceived, ← frames_wire, ← Frame.parts_flatten]
      rfl
    · rw [ChatPeer.reads, hsocket]
      rfl
  only := by
    intro es t ht hsucceed hstream
    rw [← frames_wire, ← List.append_nil (List.flatMap _ _)] at hstream
    have hfollows := (follows_fresh readMsg_ _ []).run stops_nil ht hsucceed hstream
    rw [← frames_body]
    refine ⟨?_, hfollows.prefixes.2, hfollows.all_read⟩
    rcases hfollows.prefixes.1 with hprefix | ⟨bad, hbad, hlength, -⟩
    · exact hprefix
    · rw [List.prefix_nil.mp hbad] at hlength
      cases hlength
  keepsOpen := by
    intro es s e t hs hsucceed ht hnow hread hstream
    rw [← frames_wire, ← List.append_nil (List.flatMap _ _)] at hstream
    have hbefore := (flatten_mono (step_received ht)).trans hstream
    have hfollows := (follows_fresh readMsg_ _ []).run stops_nil hs hsucceed hbefore
    exact (hfollows.step stops_nil hnow ht hstream).2 hread rfl

theorem stopsAt (readMsg_ : ChatMessage) (frames : List Frame) {bad : Bytes}
    (hlength : bad.length = headerLength) (hbad : Rejected bad) (rest : Bytes) :
    StopsAt readMsg_ frames bad rest where
  reached := by
    obtain ⟨es, s, hs, hes, hsocket, hreceived, -⟩ :=
      run_frames (s := connected readMsg_) frames rfl
    have hstep := step_header hsocket hlength
    refine ⟨es ++ [.complete 0 (.success bad)], _, run_append.mpr ⟨s, hs, run_singleton.mpr hstep⟩,
      ?_, ?_⟩
    · intro e he
      rcases List.mem_append.mp he with he | he
      · exact hes e he
      · exact ⟨0, bad, List.mem_singleton.mp he⟩
    · exact (handle_received (.readHeader (ChatMessage.dataSpan 4)) (.success bad)).trans
        (congrArg (· ++ [bad]) hreceived)
  only := by
    intro es t ht hsucceed hstream
    have hfollows := (follows_fresh readMsg_ frames (bad ++ rest)).run
      (stops_append hlength hbad rest) ht hsucceed hstream
    refine ⟨?_, hfollows.prefixes.2, fun hall => ?_⟩
    · rcases hfollows.prefixes.1 with hprefix | ⟨bad', hbad', hlength', hreceived⟩
      · exact hprefix.trans (List.prefix_append _ _)
      · rw [hreceived, eq_of_prefix_append hbad' (hlength'.trans hlength.symm)]
    · obtain ⟨hprinted, hconnecting, hreads, hclosed, hflag⟩ := hfollows.all_stopped hall
      refine ⟨hprinted, fun es' u hu => ?_⟩
      have haside := ended_run hconnecting hreads hu
      exact ⟨haside.received, haside.printed, haside.reads.trans hreads, haside.closed hclosed,
        haside.socketClosed hflag⟩

/-- The read loop of a client recovers every list of messages that is relayed with encoded headers,
and in every stream in which a header is rejected it stops there. -/
theorem client_reads_relayed (readMsg_ : ChatMessage) :
    (∀ msgs, Recovers readMsg_ msgs) ∧
    ∀ frames bad rest, bad.length = headerLength → Rejected bad →
      StopsAt readMsg_ frames bad rest :=
  ⟨recovers readMsg_, fun frames _ rest hlength hbad => stopsAt readMsg_ frames hlength hbad rest⟩

/-- An empty message, and then a header that announces too many bytes. -/
theorem client_reads_relayed_tooLong :
    StopsAt .blank [ChatMessage.blank.frame] (ascii " 513") [] := by
  refine (client_reads_relayed .blank).2 _ _ _ rfl fun r => ?_
  rw [Bool.eq_false_iff, Ne, ChatMessage.decodeHeader_accepts,
    ChatMessage.store_headerValue _ rfl]
  decide

end ChatClient

end AsioTest.Chat
