import AsioTest.HttpConnection

/-!
A reply does not depend on how the stream was cut into read completions. What a waiting connection
does with the pieces is what `parse` makes of their concatenation; two cuttings of one stream
therefore end with the same reply after the same byte.
-/

namespace AsioTest.Http

open ByteStrings AsyncSocket TransitionRuns

variable {site : Site} {c : Connection}

theorem onParsed_indeterminate {r : ParseResult} (h : r.result = .indeterminate) :
    c.onParsed site r = { c with requestParser_ := r.state_, request_ := r.req }.doRead := by
  simp only [Connection.onParsed, h]

theorem onParsed_decided {r : ParseResult} (h : r.result ≠ .indeterminate) :
    c.onParsed site r = { c with
      requestParser_ := r.state_
      request_ := r.req
      reply_ := replyTo site r c.reply_ }.doWrite := by
  cases hresult : r.result with
  | indeterminate => exact absurd hresult h
  | good => simp only [Connection.onParsed, replyTo, hresult]
  | bad => simp only [Connection.onParsed, replyTo, hresult]

/-- While `parse` is undecided on the whole input, the connection goes on reading. -/
theorem receive_indeterminate {chunks : List Bytes} (hc : c.Waiting)
    (hfits : ∀ chunk ∈ chunks, Fits (.success chunk))
    (h : (parse c.requestParser_ c.request_ chunks.flatten).result = .indeterminate) :
    (c.receive site chunks).Waiting ∧
      (c.receive site chunks).reply_ = c.reply_ ∧
      (c.receive site chunks).consumed = c.consumed + chunks.flatten.length ∧
      (c.receive site chunks).issued =
        c.issued ++ List.replicate chunks.length .readSome := by
  induction chunks generalizing c with
  | nil => exact ⟨hc, rfl, rfl, (List.append_nil _).symm⟩
  | cons chunk chunks ih =>
      rw [List.flatten_cons] at h ⊢
      have hchunk : (parse c.requestParser_ c.request_ chunk).result = .indeterminate := by
        by_contra hdecided
        rw [parse_append_decided hdecided] at h
        exact hdecided h
      rw [parse_append_indeterminate hchunk] at h
      have hrest := parse_indeterminate_rest hchunk
      rw [receive_cons_waiting hc (hfits chunk List.mem_cons_self), onParsed_indeterminate hchunk,
        hrest]
      obtain ⟨hwaiting, hreply, hconsumed, hissued⟩ := ih
        (c := ({ c.fill chunk with
          socket_ := ⟨true, []⟩
          requestParser_ := (parse c.requestParser_ c.request_ chunk).state_
          request_ := (parse c.requestParser_ c.request_ chunk).req
          consumed := c.consumed + (chunk.length - ([] : Bytes).length) } : Connection).doRead)
        rfl (fun d hd => hfits d (List.mem_cons_of_mem chunk hd)) h
      refine ⟨hwaiting, hreply, ?_, ?_⟩
      · rw [hconsumed, List.length_append, ← Nat.add_assoc]
        rfl
      · rw [hissued, List.length_cons, List.replicate_succ, List.append_cons c.issued]
        rfl

/-- When `parse` decides on the whole input, the connection has replied, and nothing was started
after the write. -/
theorem receive_decided {chunks : List Bytes} (hc : c.Waiting)
    (hfits : ∀ chunk ∈ chunks, Fits (.success chunk))
    (h : (parse c.requestParser_ c.request_ chunks.flatten).result ≠ .indeterminate) :
    (c.receive site chunks).reply_ =
        replyTo site (parse c.requestParser_ c.request_ chunks.flatten) c.reply_ ∧
      (c.receive site chunks).consumed = c.consumed + (chunks.flatten.length -
        (parse c.requestParser_ c.request_ chunks.flatten).rest.length) ∧
      ∃ reads, (c.receive site chunks).issued = c.issued ++ List.replicate reads .readSome ++
        [.write (c.receive site chunks).reply_.toBuffers] := by
  induction chunks generalizing c with
  | nil => exact absurd rfl h
  | cons chunk chunks ih =>
      rw [List.flatten_cons] at h ⊢
      rw [receive_cons_waiting hc (hfits chunk List.mem_cons_self)]
      by_cases hchunk : (parse c.requestParser_ c.request_ chunk).result = .indeterminate
      · rw [parse_append_indeterminate hchunk] at h ⊢
        have hrest := parse_indeterminate_rest hchunk
        rw [onParsed_indeterminate hchunk, hrest]
        obtain ⟨hreply, hconsumed, reads, hissued⟩ := ih
          (c := ({ c.fill chunk with
            socket_ := ⟨true, []⟩
            requestParser_ := (parse c.requestParser_ c.request_ chunk).state_
            request_ := (parse c.requestParser_ c.request_ chunk).req
            consumed := c.consumed + (chunk.length - ([] : Bytes).length) } : Connection).doRead)
          rfl (fun d hd => hfits d (List.mem_cons_of_mem chunk hd)) h
        have hle := (parse_rest_length_le (parse c.requestParser_ c.request_ chunk).state_
          (parse c.requestParser_ c.request_ chunk).req chunks.flatten)
        refine ⟨hreply, ?_, reads + 1, ?_⟩
        · rw [hconsumed, List.length_append, Nat.add_sub_assoc hle, ← Nat.add_assoc]
          rfl
        · rw [hissued, List.replicate_succ, List.append_cons c.issued]
          rfl
      · rw [onParsed_decided hchunk, receive_not_reading rfl, parse_append_decided hchunk]
        refine ⟨rfl, ?_, 0, by simp [Connection.doWrite, Connection.fill]⟩
        simp only [Connection.doWrite, Connection.fill, List.length_append]
        omega

section Serve

variable (site) {s : Bytes} (cutting : Cutting s)

theorem serve_reply : (serve site cutting).reply_ =
    if (parse .methodStart {} s).result = .indeterminate then {}
    else replyTo site (parse .methodStart {} s) {} := by
  obtain ⟨chunks, rfl, hfits⟩ := cutting
  split_ifs with h
  · exact (receive_indeterminate started_waiting hfits h).2.1
  · exact (receive_decided started_waiting hfits h).1

theorem serve_consumed : (serve site cutting).consumed =
    s.length - (parse .methodStart {} s).rest.length := by
  obtain ⟨chunks, rfl, hfits⟩ := cutting
  by_cases h : (parse .methodStart {} chunks.flatten).result = .indeterminate
  · rw [parse_indeterminate_rest h]
    exact ((receive_indeterminate started_waiting hfits h).2.2.1).trans (Nat.zero_add _)
  · exact ((receive_decided started_waiting hfits h).2.1).trans (Nat.zero_add _)

/-- What has been started: reads only, and after a decision one write of the reply. -/
theorem serve_issued : ∃ reads, (serve site cutting).issued =
    List.replicate reads .readSome ++
      if (parse .methodStart {} s).result = .indeterminate then []
      else [.write (serve site cutting).reply_.toBuffers] := by
  obtain ⟨chunks, rfl, hfits⟩ := cutting
  split_ifs with h
  · refine ⟨chunks.length + 1, ?_⟩
    rw [List.append_nil, List.replicate_succ]
    exact (receive_indeterminate started_waiting hfits h).2.2.2
  · obtain ⟨reads, hissued⟩ := (@receive_decided site _ _ started_waiting hfits h).2.2
    refine ⟨reads + 1, ?_⟩
    rw [List.replicate_succ]
    exact hissued

theorem serve_replied : (serve site cutting).Replied ↔
    (parse .methodStart {} s).result ≠ .indeterminate := by
  obtain ⟨reads, hissued⟩ := serve_issued site cutting
  rw [Connection.Replied, hissued]
  split_ifs with h
  · simp [h]
  · simp [h]

end Serve

/-- The bytes up to the deciding one decide in the same way, whatever follows them. -/
theorem parse_after_decision {s : Bytes}
    (h : (parse .methodStart {} s).result ≠ .indeterminate) (t : Bytes) :
    parse .methodStart {} (s.take (s.length - (parse .methodStart {} s).rest.length) ++ t) =
      { parse .methodStart {} s with rest := t } := by
  obtain ⟨p, hp, hdecided⟩ := parse_rest_suffix .methodStart {} s
  have htake : s.take (s.length - (parse .methodStart {} s).rest.length) = p := by
    have hlength := congrArg List.length hp
    rw [List.length_append] at hlength
    rw [hlength, Nat.add_sub_cancel]
    conv_lhs => rw [hp]
    exact List.take_left
  rw [htake, parse_append_decided (by rw [hdecided]; exact h), hdecided, List.nil_append]

/-! ### At most one reply -/

/-- What a connection has started and what is outstanding of it. -/
def Connection.OneReply (c : Connection) : Prop :=
  (∃ reads, c.issued = List.replicate reads .readSome ∧
    (c.socket_.pending = [] ∨ ∃ onOpen, c.socket_.pending = [⟨.readSome, onOpen⟩])) ∨
  ∃ reads buffers, c.issued = List.replicate reads .readSome ++ [.write buffers] ∧
    (c.socket_.pending = [] ∨ ∃ onOpen, c.socket_.pending = [⟨.write buffers, onOpen⟩])

theorem Connection.OneReply.stop (h : c.OneReply) : c.stop.OneReply := h

theorem Connection.OneReply.complete {k : Nat} {r : Completion Bytes} {d : Connection × Bool}
    (h : c.OneReply) (hd : c.complete site k r = some d) : d.1.OneReply := by
  rcases h with ⟨reads, hissued, hpending⟩ | ⟨reads, buffers, hissued, hpending⟩
  · rcases hpending with hnil | ⟨onOpen, hsingle⟩
    · rw [complete_nil hnil] at hd
      cases hd
    rcases complete_single hsingle hd with
      rfl | ⟨rfl, -⟩ | ⟨e, op, rfl, -, hsocket, hissue, rfl | rfl, -⟩
    · exact Or.inl ⟨reads, hissued, Or.inl rfl⟩
    · exact Or.inl ⟨reads, hissued, Or.inl rfl⟩
    · refine Or.inl ⟨reads + 1, ?_, Or.inr ⟨c.socket_.isOpen, by rw [hsocket]; rfl⟩⟩
      rw [hissue, hissued, List.replicate_succ']
    · exact Or.inr ⟨reads, _, by rw [hissue, hissued],
        Or.inr ⟨c.socket_.isOpen, by rw [hsocket]; rfl⟩⟩
  · rcases hpending with hnil | ⟨onOpen, hsingle⟩
    · rw [complete_nil hnil] at hd
      cases hd
    rcases complete_single hsingle hd with rfl | ⟨rfl, -⟩ | ⟨e, op, rfl, hread, -⟩
    · exact Or.inr ⟨reads, buffers, hissued, Or.inl rfl⟩
    · exact Or.inr ⟨reads, buffers, hissued, Or.inl rfl⟩
    · cases hread

theorem oneReply_reachable (h : Reachable (Connection.step site) .started c) : c.OneReply := by
  refine h.invariant (I := Connection.OneReply) (fun c e d hc hd => ?_)
    (Or.inl ⟨1, rfl, Or.inr ⟨true, rfl⟩⟩)
  obtain ⟨⟨d', stopped⟩, hcomplete, rfl⟩ := Option.map_eq_some_iff.mp hd
  have hd' : d'.OneReply := hc.complete hcomplete
  cases stopped with
  | true => exact hd'.stop
  | false => exact hd'

/-- Two cuttings of one stream lead to a reply or not, to the same reply, after the same byte;
the bytes behind that byte do not matter; and in every run a connection starts reads only and,
after them, at most one write. -/
theorem reply_independent_of_cutting (site : Site) {s : Bytes} (a b : Cutting s) :
    ((serve site a).Replied ↔ (serve site b).Replied) ∧
    (serve site a).reply_ = (serve site b).reply_ ∧
    (serve site a).consumed = (serve site b).consumed ∧
    (∀ (t : Bytes) (d : Cutting (s.take (serve site a).consumed ++ t)), (serve site a).Replied →
      (serve site d).Replied ∧ (serve site d).reply_ = (serve site a).reply_ ∧
        (serve site d).consumed = (serve site a).consumed) ∧
    (∀ c, Reachable (Connection.step site) .started c →
      ∃ reads, c.issued = List.replicate reads .readSome ∨
        ∃ buffers, c.issued = List.replicate reads .readSome ++ [.write buffers]) := by
  refine ⟨by rw [serve_replied, serve_replied], by rw [serve_reply, serve_reply],
    by rw [serve_consumed, serve_consumed], ?_, ?_⟩
  · intro t d hreplied
    rw [serve_replied] at hreplied
    have hafter := parse_after_decision hreplied t
    rw [← serve_consumed site a] at hafter
    refine ⟨?_, ?_, ?_⟩
    · rw [serve_replied, hafter]
      exact hreplied
    · rw [serve_reply, serve_reply, hafter, if_neg hreplied, if_neg hreplied]
      rfl
    · have hle : (serve site a).consumed ≤ s.length := by
        rw [serve_consumed]
        exact Nat.sub_le _ _
      rw [serve_consumed, hafter, List.length_append, List.length_take, Nat.min_eq_left hle,
        Nat.add_sub_cancel]
  · intro c hc
    rcases oneReply_reachable hc with ⟨reads, hissued, -⟩ | ⟨reads, buffers, hissued, -⟩
    · exact ⟨reads, Or.inl hissued⟩
    · exact ⟨reads, Or.inr ⟨buffers, hissued⟩⟩

/-- A request of 19 bytes, and more behind it. -/
def requestAndMore : Bytes := ascii "GET /a HTTP/1.0\r\n\r\nmore"

/-- In three pieces and in two, and with other bytes behind it in one. -/
theorem reply_independent_of_cutting_behind :
    ∃ (a b : Cutting requestAndMore) (d : Cutting (requestAndMore.take 19 ++ ascii "other")),
      a.chunks.length = 3 ∧ b.chunks.length = 2 ∧ d.chunks.length = 1 ∧
      (serve ⟨fun _ => none, []⟩ a).Replied ∧ (serve ⟨fun _ => none, []⟩ b).Replied ∧
      (serve ⟨fun _ => none, []⟩ a).reply_ = (serve ⟨fun _ => none, []⟩ b).reply_ ∧
      (serve ⟨fun _ => none, []⟩ d).Replied ∧
      (serve ⟨fun _ => none, []⟩ d).reply_ = (serve ⟨fun _ => none, []⟩ a).reply_ := by
  let a : Cutting requestAndMore :=
    ⟨[ascii "GET /a HT", ascii "TP/1.0\r\n\r\nmo", ascii "re"], rfl, by decide⟩
  let b : Cutting requestAndMore :=
    ⟨[ascii "GET /a HTTP/1.0\r\n\r", ascii "\nmore"], rfl, by decide⟩
  let d : Cutting (requestAndMore.take 19 ++ ascii "other") :=
    ⟨[ascii "GET /a HTTP/1.0\r\n\r\nother"], rfl, by decide⟩
  have hdecided : (parse .methodStart {} requestAndMore).result ≠ .indeterminate := by decide
  have hreplied : (serve ⟨fun _ => none, []⟩ a).Replied := (serve_replied _ a).mpr hdecided
  obtain ⟨hboth, hreply, -, hbehind, -⟩ := reply_independent_of_cutting ⟨fun _ => none, []⟩ a b
  obtain ⟨hreplied', hreply', -⟩ := hbehind (ascii "other") d hreplied
  exact ⟨a, b, d, rfl, rfl, rfl, hreplied, hboth.mp hreplied, hreply, hreplied', hreply'⟩

end AsioTest.Http
