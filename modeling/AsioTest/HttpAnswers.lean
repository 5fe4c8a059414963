import AsioTest.ComponentRuns
import AsioTest.HttpSegmentation
import AsioTest.HttpServer

/-!
Any number of connections of `http_server` at once. Whatever the others do, a connection is in the
state that its own completions and the stop signal lead it to, so that what it writes is the reply
to the bytes it has itself received.
-/

namespace AsioTest.Http

open ByteStrings AsyncSocket TransitionRuns

/-- What can happen to one connection. -/
inductive ConnectionEvent where
  | complete (k : Nat) (r : Completion Bytes)
  | stopAll

/-- A connection, and whether it is in `connections_`, by itself. -/
def Connection.alone (site : Site) (v : Connection × Bool) :
    ConnectionEvent → Option (Connection × Bool)
  | .complete k r => (v.1.complete site k r).map fun d =>
      if d.2 then (d.1.stop, false) else (d.1, v.2)
  | .stopAll => some (if v.2 then v.1.stop else v.1, false)

/-- What an event of the server is for the connection at position `i`. -/
def ServerEvent.partOf (i : Nat) : ServerEvent → List ConnectionEvent
  | .accept _ _ => []
  | .io j k r => if j = i then [.complete k r] else []
  | .signal => [.stopAll]

variable {site : Site} {s t : Server}

/-! ### One connection in the server -/

theorem view_eq_some {i : Nat} {v : Connection × Bool} (h : s.view i = some v) :
    s.started[i]? = some v.1 := by
  obtain ⟨c, hc, rfl⟩ := Option.map_eq_some_iff.mp h
  exact hc

/-- A handler of a connection changes what stands at its position, and nothing else. -/
theorem io_view {i k : Nat} {r : Completion Bytes} (h : s.step site (.io i k r) = some t) :
    ∃ c d, s.started[i]? = some c ∧ c.complete site k r = some d ∧ ∀ j, t.view j =
      (s.view j).map fun v => if i = j then (if d.2 then (d.1.stop, false) else (d.1, v.2))
        else v := by
  rw [Server.step] at h
  split at h
  next => cases h
  next c hc =>
    obtain ⟨⟨d, stopped⟩, hcomplete, rfl⟩ := Option.map_eq_some_iff.mp h
    refine ⟨c, _, hc, hcomplete, fun j => ?_⟩
    have hset : Server.view { s with started := s.started.set i d } j =
        (s.view j).map fun v => if i = j then (d, v.2) else v := by
      simp only [Server.view, List.getElem?_set', Option.map_map]
      split_ifs with hij
      · subst hij
        simp [hc]
      · rfl
    cases stopped with
    | true =>
        rw [if_pos rfl, managerStop_view, hset, Option.map_map]
        congr 1
        funext v
        by_cases hij : i = j
        · simp [hij]
        · simp [hij]
    | false =>
        rw [if_neg Bool.false_ne_true, hset]
        rfl

/-- A connection in the server: it is created as `start` leaves it, and takes part in its own
completions and in the stop signal. -/
theorem connection_component (site : Site) (i : Nat) :
    Component (Server.step site) (Server.view · i) (Connection.alone site)
      (fun _ e => e.partOf i) (· = (.started, true)) := by
  constructor
  case moves =>
      intro s e t v h hv
      cases e with
      | accept k r =>
          refine ⟨v, ?_, rfl⟩
          obtain ⟨p, -, rfl⟩ := Option.map_eq_some_iff.mp h
          have hlt : i < s.started.length := (List.getElem?_eq_some_iff.mp (view_eq_some hv)).1
          rcases onAccept_cases { s with acceptor_ := p.2 } r with heq | heq | heq
          · rw [heq]
            exact hv
          · rw [heq]
            exact hv
          · rw [heq, doAccept_view, managerStart_view, if_neg (Nat.ne_of_lt hlt)]
            exact hv
      | io j k r =>
          obtain ⟨c, d, hc, hd, hview⟩ := io_view h
          rw [hview, hv]
          by_cases hij : j = i
          · subst hij
            obtain rfl : v.1 = c := Option.some.inj ((view_eq_some hv).symm.trans hc)
            refine ⟨_, rfl, ?_⟩
            simp only [ServerEvent.partOf, if_true]
            rw [run_singleton, Connection.alone, hd]
            rfl
          · refine ⟨v, by simp [hij], ?_⟩
            simp [ServerEvent.partOf, hij]
      | signal =>
          rw [Server.step] at h
          split_ifs at h
          cases h
          refine ⟨(if v.2 then v.1.stop else v.1, false), ?_, run_singleton.mpr rfl⟩
          rw [Server.onSignal, managerStopAll_view]
          exact congrArg (Option.map _) hv
  case starts =>
      intro s e t v h hnone hv
      have hturn := step_turn h i
      rw [hnone, hv] at hturn
      cases hturn
      rfl

/-- In every run of the server a connection is in the state to which its own completions and the
stop signal would have led it alone: neither the other connections nor the order in which they are
served make a difference. -/
theorem connections_isolated {es : List ServerEvent}
    (h : run (Server.step site) .listening es = some s) {i : Nat} {v : Connection × Bool}
    (hv : s.view i = some v) :
    run (Connection.alone site) (.started, true)
      (life (Server.step site) (Server.view · i) (fun _ e => e.partOf i) .listening es) =
        some v := by
  obtain ⟨c, rfl, hrun⟩ := (connection_component site i).run_of_created rfl h hv
  exact hrun

/-- Two connections that are served in turns, and the stop signal before the second is answered. -/
def twoConnections : List ServerEvent :=
  [.accept 0 (.success ()), .accept 0 (.success ()), .io 1 0 (.success [71]),
    .io 0 0 (.success [10]), .signal, .io 1 0 (.success [10])]

theorem connections_isolated_second :
    ∃ s v, run (Server.step ⟨fun _ => none, []⟩) .listening twoConnections = some s ∧
      s.view 1 = some v ∧ run (Connection.alone ⟨fun _ => none, []⟩) (.started, true)
        [.complete 0 (.success [71]), .stopAll, .complete 0 (.success [10])] = some v := by
  have hrun : run (Server.step ⟨fun _ => none, []⟩) .listening twoConnections = some _ := rfl
  have halone := connections_isolated hrun (i := 1) rfl
  exact ⟨_, _, hrun, rfl, halone⟩

/-! ### What a connection answers -/

/-- The bytes an event brings a connection. -/
def ConnectionEvent.bytes : ConnectionEvent → Bytes
  | .complete _ (.success bytes) => bytes
  | _ => []

def ServerEvent.bytesFor (i : Nat) : ServerEvent → Bytes
  | .io j _ (.success bytes) => if j = i then bytes else []
  | _ => []

/-- What a connection that has received `input` starts: reads, and the write of the reply when
`parse` decides. -/
def answer (site : Site) (input : Bytes) : List IoOp :=
  if (parse .methodStart {} input).result = .indeterminate then []
  else [.write (replyTo site (parse .methodStart {} input) {}).toBuffers]

/-- A connection that has received `input` and is still reading, or has answered it. -/
inductive Connection.Heard (site : Site) (input : Bytes) (c : Connection) : Prop where
  | undecided (hparse : parse .methodStart {} input =
        ⟨.indeterminate, [], c.requestParser_, c.request_⟩)
      (hreply : c.reply_ = {}) (hissued : ∃ reads, c.issued = List.replicate reads .readSome)
      (hpending : c.socket_.pending = [] ∨ ∃ onOpen, c.socket_.pending = [⟨.readSome, onOpen⟩])
  | decided (hparse : (parse .methodStart {} input).result ≠ .indeterminate)
      (hissued : ∃ reads, c.issued = List.replicate reads .readSome ++ answer site input)
      (hpending : c.socket_.pending = [] ∨
        ∃ buffers onOpen, c.socket_.pending = [⟨.write buffers, onOpen⟩])

variable {c d : Connection} {input : Bytes}

theorem started_heard (site : Site) : Connection.started.Heard site [] :=
  .undecided rfl rfl ⟨1, rfl⟩ (Or.inr ⟨true, rfl⟩)

theorem Connection.Heard.stop (h : c.Heard site input) : c.stop.Heard site input := by
  cases h with
  | undecided hparse hreply hissued hpending => exact .undecided hparse hreply hissued hpending
  | decided hparse hissued hpending => exact .decided hparse hissued hpending

theorem Connection.Heard.issued (h : c.Heard site input) :
    ∃ reads, c.issued = List.replicate reads .readSome ++ answer site input := by
  cases h with
  | undecided hparse hreply hissued hpending =>
      obtain ⟨reads, hreads⟩ := hissued
      have hanswer : answer site input = [] := by
        rw [answer, hparse]
        rfl
      exact ⟨reads, by rw [hreads, hanswer, List.append_nil]⟩
  | decided hparse hissued hpending => exact hissued

/-- Once it has been decided, what else arrives makes no difference. -/
theorem answer_append (h : (parse .methodStart {} input).result ≠ .indeterminate) (more : Bytes) :
    answer site (input ++ more) = answer site input := by
  simp only [answer, parse_append_decided h, if_neg h]
  rfl

/-- The handler of a read goes on with the parse of all that has been received. -/
theorem onRead_heard (site : Site) (bytes : Bytes) (hparse : parse .methodStart {} input =
      ⟨.indeterminate, [], c.requestParser_, c.request_⟩) (hreply : c.reply_ = {})
    (hissued : ∃ reads, c.issued = List.replicate reads .readSome)
    (hpending : c.socket_.pending = []) :
    (c.onRead site (.success bytes)).1.Heard site (input ++ bytes) := by
  obtain ⟨reads, hreads⟩ := hissued
  have happend : parse .methodStart {} (input ++ bytes) =
      parse c.requestParser_ c.request_ bytes := by
    rw [parse_append_indeterminate (by rw [hparse]), hparse]
  have hstate : (c.fill bytes).requestParser_ = c.requestParser_ := rfl
  have hrequest : (c.fill bytes).request_ = c.request_ := rfl
  simp only [Connection.onRead, fill_take, hstate, hrequest]
  by_cases hresult : (parse c.requestParser_ c.request_ bytes).result = .indeterminate
  · rw [onParsed_indeterminate hresult]
    refine .undecided ?_ hreply ⟨reads + 1, ?_⟩ (Or.inr ⟨c.socket_.isOpen, ?_⟩)
    · rw [happend]
      have hrest := parse_indeterminate_rest hresult
      rcases hdone : parse c.requestParser_ c.request_ bytes with ⟨result, rest, state_, req⟩
      rw [hdone] at hresult hrest
      obtain rfl : result = .indeterminate := hresult
      obtain rfl : rest = [] := hrest
      rfl
    · show c.issued ++ [.readSome] = _
      rw [hreads, List.replicate_succ']
    · show c.socket_.pending ++ [_] = _
      rw [hpending]
      rfl
  · rw [onParsed_decided hresult]
    refine .decided (by rwa [happend]) ⟨reads, ?_⟩ (Or.inr
      ⟨(replyTo site (parse c.requestParser_ c.request_ bytes) c.reply_).toBuffers,
        c.socket_.isOpen, ?_⟩)
    · show c.issued ++ [.write _] = _
      rw [hreads, answer, happend, if_neg hresult]
      show _ ++ [IoOp.write (replyTo site _ c.reply_).toBuffers] = _
      rw [hreply]
    · show c.socket_.pending ++ [_] = _
      rw [hpending]
      rfl

theorem Connection.Heard.complete {k : Nat} {r : Completion Bytes} {stopped : Bool}
    (h : c.Heard site input) (hd : c.complete site k r = some (d, stopped)) :
    d.Heard site (input ++ (ConnectionEvent.complete k r).bytes) := by
  cases h with
  | undecided hparse hreply hissued hpending =>
      rcases hpending with hnil | ⟨onOpen, hsingle⟩
      · rw [complete_nil hnil] at hd
        cases hd
      · rw [Connection.complete] at hd
        split at hd
        next socket hfinish =>
          obtain ⟨-, -, rfl⟩ := Socket.finish_single hsingle hfinish
          split_ifs at hd
          cases r with
          | success bytes =>
              have hheard := onRead_heard site bytes
                (c := { c with socket_ := { c.socket_ with pending := [] } }) hparse hreply hissued
                rfl
              rwa [Option.some.inj hd] at hheard
          | aborted =>
              cases hd
              have hnone : (ConnectionEvent.complete k .aborted).bytes = [] := rfl
              rw [hnone, List.append_nil]
              exact .undecided hparse hreply hissued (Or.inl rfl)
          | failed =>
              cases hd
              have hnone : (ConnectionEvent.complete k .failed).bytes = [] := rfl
              rw [hnone, List.append_nil]
              exact .undecided hparse hreply hissued (Or.inl rfl)
        next buffers socket hfinish =>
          obtain ⟨hop, -, -⟩ := Socket.finish_single hsingle hfinish
          cases hop
        next => cases hd
  | decided hparse hissued hpending =>
      rcases hpending with hnil | ⟨buffers, onOpen, hsingle⟩
      · rw [complete_nil hnil] at hd
        cases hd
      · have hdrained : c.drained.Heard site (input ++ (ConnectionEvent.complete k r).bytes) := by
          refine .decided ?_ ?_ (Or.inl rfl)
          · rw [parse_append_decided hparse]
            exact hparse
          · rw [answer_append hparse]
            exact hissued
        rcases complete_single hsingle hd with heq | ⟨heq, -⟩ | ⟨e, op, -, hread, -⟩
        · cases heq
          exact hdrained
        · cases heq
          exact hdrained
        · cases hread

theorem alone_heard {v w : Connection × Bool} {e : ConnectionEvent} (hv : v.1.Heard site input)
    (h : Connection.alone site v e = some w) : w.1.Heard site (input ++ e.bytes) := by
  cases e with
  | complete k r =>
      obtain ⟨⟨d, stopped⟩, hd, rfl⟩ := Option.map_eq_some_iff.mp h
      have hheard := hv.complete hd
      cases stopped with
      | true => exact hheard.stop
      | false => exact hheard
  | stopAll =>
      cases h
      have hnone : ConnectionEvent.stopAll.bytes = [] := rfl
      rw [hnone, List.append_nil]
      split_ifs
      · exact hv.stop
      · exact hv

theorem alone_run_heard {v w : Connection × Bool} {es : List ConnectionEvent}
    (hv : v.1.Heard site input) (h : run (Connection.alone site) v es = some w) :
    w.1.Heard site (input ++ es.flatMap ConnectionEvent.bytes) := by
  induction es generalizing v input with
  | nil =>
      cases h
      rwa [List.flatMap_nil, List.append_nil]
  | cons e es ih =>
      obtain ⟨u, hu, h⟩ := run_cons.mp h
      rw [List.flatMap_cons, ← List.append_assoc]
      exact ih (alone_heard hv hu) h

/-- What a connection has received in its life is what the events of the run brought it. -/
theorem life_bytes {es : List ServerEvent} (h : run (Server.step site) .listening es = some s)
    (i : Nat) : (life (Server.step site) (Server.view · i) (fun _ e => e.partOf i)
      .listening es).flatMap ConnectionEvent.bytes = es.flatMap (ServerEvent.bytesFor i) := by
  refine flatMap_life _ _ (fun s e t v _ _ => ?_) (fun s e t hstep hnone => ?_) h
  · cases e with
    | accept k r => rfl
    | io j k r =>
        cases r with
        | success bytes =>
            simp only [ServerEvent.partOf, ServerEvent.bytesFor]
            split_ifs
            · exact List.append_nil bytes
            · rfl
        | aborted =>
            simp only [ServerEvent.partOf, ServerEvent.bytesFor]
            split_ifs
            · rfl
            · rfl
        | failed =>
            simp only [ServerEvent.partOf, ServerEvent.bytesFor]
            split_ifs
            · rfl
            · rfl
    | signal => rfl
  · cases e with
    | accept k r => rfl
    | io j k r =>
        have hne : j ≠ i := by
          rintro rfl
          obtain ⟨c, d, hc, -⟩ := io_view hstep
          rw [Server.view, hc] at hnone
          cases hnone
        cases r with
        | success bytes => exact if_neg hne
        | aborted => rfl
        | failed => rfl
    | signal => rfl

/-- In every run of the server, in whatever order its connections are served, fail and are stopped:
a connection has started reads only, until what it has itself received decides a request, and then
one write, of the reply to that request. -/
theorem connections_answered {es : List ServerEvent}
    (h : run (Server.step site) .listening es = some s) {i : Nat} {c : Connection}
    (hc : s.started[i]? = some c) : ∃ reads, c.issued =
      List.replicate reads .readSome ++ answer site (es.flatMap (ServerEvent.bytesFor i)) := by
  have hv : s.view i = some (c, decide (i ∈ s.connections_)) := by
    rw [Server.view, hc]
    rfl
  have hheard := alone_run_heard (started_heard site) (connections_isolated h hv)
  rw [List.nil_append, life_bytes h i] at hheard
  exact hheard.issued

theorem connections_answered_second :
    ∃ s c, run (Server.step ⟨fun _ => none, []⟩) .listening twoConnections = some s ∧
      s.started[1]? = some c ∧ ∃ reads, c.issued =
        List.replicate reads .readSome ++ answer ⟨fun _ => none, []⟩ [71, 10] := by
  have hrun : run (Server.step ⟨fun _ => none, []⟩) .listening twoConnections = some _ := rfl
  have hanswered := connections_answered hrun (i := 1) rfl
  exact ⟨_, _, hrun, rfl, hanswered⟩

end AsioTest.Http
