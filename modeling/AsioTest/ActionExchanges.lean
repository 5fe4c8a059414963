import AsioTest.ActionServer

/-!
What the connections of the action server do to the database they share. Every connection has one
request handled at most, and the database is where the requests lead it one after the other; a
connection that has answered stays as it is until the signal.
-/

namespace AsioTest.Action

open ByteStrings MemoryImages AsyncSocket TransitionRuns

variable {σ : Type}

/-- A request that was handled, by which connection, when, and with which reply. -/
structure Exchange where
  client : Nat
  time : Int
  request : Request
  reply : Reply

/-- The handler alone, on the one request; it makes this reply. -/
def serve (conn : Connection σ) (s : σ) (e : Exchange) : Option σ :=
  (handleRequest conn e.time e.request {} s).bind fun answer =>
    if answer.1 = e.reply then some answer.2 else none

namespace Server

/-- The request that the read handler handles to its end, after `parse` has given `r`. -/
def answer (conn : Connection σ) (time : Int) (process : Memory) (i : Nat) (rep : Reply)
    (database : σ) (r : ResultType × Memory) : List Exchange :=
  match r.1, handleRequest conn time (requestAt process r.2) rep database with
  | .good, some (reply, _) => [⟨i, time, requestAt process r.2, reply⟩]
  | _, _ => []

/-- The request that the handler of an event handles to its end. -/
def exchanged (conn : Connection σ) (s : Server σ) : ServerEvent → List Exchange
  | .read i _ (.success bytes) time process =>
      match s.started[i]? with
      | none => []
      | some c => answer conn time process i c.reply_ s.database (parse bytes c.request_)
  | _ => []

/-- All requests that are handled in a run from the start of the server. -/
def exchanges (conn : Connection σ) (database : σ) (es : List ServerEvent) : List Exchange :=
  outputs (handle conn) (exchanged conn) (listening database) es

/-- How the connection at position `i` stands after the exchanges `past`: with a read outstanding it
has not been answered; inside `connections_` it has one, or its reply has been made. -/
structure Accounted (past : List Exchange) (i : Nat) (inside : Bool) (c : SocketConnection σ) :
    Prop where
  inside_eq : inside = c.socket_.isOpen
  pending_le : c.socket_.pending.length ≤ 1
  waiting : c.socket_.pending ≠ [] →
    c.result = none ∧ c.reply_ = {} ∧ c.Disposable ∧ ∀ e ∈ past, e.client ≠ i
  reading : inside = true → c.socket_.pending ≠ [] → c.phase = .reading
  answered : inside = true → c.socket_.pending = [] → c.phase = .writing ∨ c.phase = .threw
  good : c.result = some .good → c.phase ≠ .threw → ∃ e ∈ past, e.client = i ∧ e.reply = c.reply_
  once : past.countP (fun e => e.client = i) ≤ 1

variable {conn : Connection σ} {database : σ} {s t : Server σ} {past : List Exchange}

/-! ### One connection -/

theorem accounted_started {i : Nat} (hpast : ∀ e ∈ past, e.client ≠ i) (request_ : NewRequest) :
    Accounted past i true (SocketConnection.started request_ database) where
  inside_eq := rfl
  pending_le := Nat.le_refl 1
  waiting := fun _ => ⟨rfl, rfl, request_.freesNothing, hpast⟩
  reading := fun _ _ => rfl
  answered := fun _ hnone => by cases hnone
  good := nofun
  once := by
    have hnone : past.countP (fun e => e.client = i) = 0 :=
      List.countP_eq_zero.mpr fun e he => by simpa using hpast e he
    rw [hnone]
    exact Nat.zero_le 1

theorem Accounted.stop {i : Nat} {inside : Bool} {c : SocketConnection σ}
    (h : Accounted past i inside c) (hphase : c.phase ≠ .threw) :
    Accounted past i false c.stop where
  inside_eq := rfl
  pending_le := h.pending_le
  waiting := h.waiting
  reading := nofun
  answered := nofun
  good := fun hgood _ => h.good hgood hphase
  once := h.once

/-- An exchange of another connection makes no difference. -/
theorem Accounted.other {i : Nat} {inside : Bool} {c : SocketConnection σ}
    (h : Accounted past i inside c) {new : List Exchange} (hnew : ∀ e ∈ new, e.client ≠ i) :
    Accounted (past ++ new) i inside c where
  inside_eq := h.inside_eq
  pending_le := h.pending_le
  waiting := fun hne => by
    obtain ⟨hresult, hreply, hdisposable, hpast⟩ := h.waiting hne
    refine ⟨hresult, hreply, hdisposable, fun e he => ?_⟩
    rcases List.mem_append.mp he with hmem | hmem
    · exact hpast e hmem
    · exact hnew e hmem
  reading := h.reading
  answered := h.answered
  good := fun hgood hphase => by
    obtain ⟨e, he, hclient⟩ := h.good hgood hphase
    exact ⟨e, List.mem_append_left new he, hclient⟩
  once := by
    have hnone : new.countP (fun e => e.client = i) = 0 :=
      List.countP_eq_zero.mpr fun e he => by simpa using hnew e he
    rw [List.countP_append, hnone]
    exact h.once

/-- What the read handler makes of a connection, and the exchanges that come of it. -/
inductive Outcome (host : Host σ) (database : σ) (i : Nat) (c : SocketConnection σ)
    (socket : Socket Unit) (d : SocketConnection σ) : Completion Bytes → List Exchange → Prop where
  | answered {bytes : Bytes} {e : Exchange} (hclient : e.client = i)
      (hserve : c.reply_ = {} → serve host.conn database e = some d.database)
      (hreply : d.reply_ = e.reply) (hphase : d.phase = .writing) (hsocket : d.socket_ = socket) :
      Outcome host database i c socket d (.success bytes) [e]
  | threw {bytes : Bytes} (hphase : d.phase = .threw) (hdatabase : d.database = database)
      (hsocket : d.socket_ = socket) : Outcome host database i c socket d (.success bytes) []
  | refused {bytes : Bytes} (hresult : d.result = some .bad) (hphase : d.phase = .writing)
      (hdatabase : d.database = database) (hsocket : d.socket_ = socket) :
      Outcome host database i c socket d (.success bytes) []
  | aborted (hresult : d.result = c.result) (hphase : d.phase = .idle)
      (hdatabase : d.database = database) (hsocket : d.socket_ = socket) :
      Outcome host database i c socket d .aborted []
  | failed (hresult : d.result = c.result) (hphase : d.phase = .stopped)
      (hdatabase : d.database = database) (hsocket : d.socket_ = socket) :
      Outcome host database i c socket d .failed []

theorem onParsed_outcome (host : Host σ) (i : Nat) (c : SocketConnection σ) (socket : Socket Unit)
    {d : ServerConnection σ} (hreply : d.reply_ = c.reply_) {r : ResultType × Memory}
    (hr : r.1 ≠ .indeterminate) (bytes : Bytes) :
    Outcome host d.database i c socket
      { c with
        toServerConnection := d.onParsed host r
        socket_ := if (d.onParsed host r).phase = .reading then socket.issue () else socket }
      (.success bytes)
      (answer host.conn host.time host.process i c.reply_ d.database r) := by
  have hsocket : (if (d.onParsed host r).phase = .reading then socket.issue () else socket) =
      socket := if_neg (ServerConnection.onParsed_not_reading hr)
  obtain ⟨result, request_⟩ := r
  rw [answer, hsocket]
  cases result with
  | indeterminate => exact absurd rfl hr
  | bad => exact .refused rfl rfl rfl rfl
  | good =>
      rcases Option.eq_none_or_eq_some (handleRequest host.conn host.time
        (requestAt host.process request_) c.reply_ d.database) with hanswer | ⟨⟨rep, s⟩, hanswer⟩
      · simp only [ServerConnection.onParsed, hreply, hanswer]
        exact .threw rfl rfl rfl
      · simp only [ServerConnection.onParsed, hreply, hanswer]
        refine .answered rfl (fun hempty => ?_) rfl rfl rfl
        rw [hempty] at hanswer
        simp [serve, hanswer, ServerConnection.doWrite]

theorem onRead_outcome {i k : Nat} {c : SocketConnection σ} (hc : s.started[i]? = some c)
    (socket : Socket Unit) (r : Completion Bytes) (time : Int) (process : Memory) :
    Outcome ⟨conn, time, process⟩ s.database i c socket
      (c.onRead ⟨conn, time, process⟩ s.database socket r) r
      (s.exchanged conn (.read i k r time process)) := by
  cases r with
  | aborted => exact .aborted rfl rfl rfl rfl
  | failed => exact .failed rfl rfl rfl rfl
  | success bytes =>
      let d : ServerConnection σ := { c.toServerConnection with
        buffer_ := bytes ++ c.buffer_.drop bytes.length
        database := s.database }
      let next := d.onParsed ⟨conn, time, process⟩ (parse bytes c.request_)
      have hread : c.onRead ⟨conn, time, process⟩ s.database socket (.success bytes) =
          { c with
            toServerConnection := next
            socket_ := if next.phase = .reading then socket.issue () else socket } := by
        rw [SocketConnection.onRead, ServerConnection.onRead_success]
      have hexchanged : s.exchanged conn (.read i k (.success bytes) time process) =
          answer conn time process i c.reply_ s.database (parse bytes c.request_) := by
        rw [exchanged, hc]
      rw [hread, hexchanged]
      exact onParsed_outcome ⟨conn, time, process⟩ i c socket (d := d) rfl
        (parse_ne_indeterminate bytes c.request_) bytes

/-- The memory of a request after a read. -/
def copied (req : Memory) : Completion Bytes → Memory
  | .success bytes => memcpy bytes req
  | _ => req

theorem onRead_request (host : Host σ) (database : σ) (socket : Socket Unit)
    (r : Completion Bytes) (c : SocketConnection σ) :
    (c.onRead host database socket r).request_ = copied c.request_ r := by
  cases r with
  | success bytes =>
      rw [SocketConnection.onRead]
      dsimp only
      rw [ServerConnection.onRead_success, (ServerConnection.onParsed_verdict _ _).2, parse_eq]
      rfl
  | aborted => rfl
  | failed => rfl

/-- The server after a read handler that has made the connection at position `i` to `d`. -/
def replaced (s : Server σ) (i : Nat) (d : SocketConnection σ) : Server σ :=
  { s with
    started := s.started.set i d
    database := d.database
    running := decide (d.phase ≠ .threw) }

/-- What a read handler changes in the server. -/
inductive ReadBy (s : Server σ) (i : Nat) (d : SocketConnection σ) :
    Completion Bytes → Server σ → Prop where
  | kept {r : Completion Bytes} (hr : r ≠ .failed) : ReadBy s i d r (s.replaced i d)
  | stopped : ReadBy s i d .failed { s.replaced i d with
      started := s.started.set i d.stop
      connections_ := s.connections_.erase i }

theorem handle_read {i k : Nat} {r : Completion Bytes} {time : Int} {process : Memory}
    (h : s.handle conn (.read i k r time process) = some t) :
    ∃ c d u socket, s.started[i]? = some c ∧ c.socket_.finish k r = some (u, socket) ∧
      Outcome ⟨conn, time, process⟩ s.database i c socket d r
        (s.exchanged conn (.read i k r time process)) ∧ ReadBy s i d r t ∧
      d.address = c.address ∧ d.request_ = copied c.request_ r := by
  rw [handle] at h
  split_ifs at h
  split at h
  next => cases h
  next c hc =>
    obtain ⟨⟨u, socket⟩, hfinish, rfl⟩ := Option.map_eq_some_iff.mp h
    refine ⟨c, _, u, socket, hc, hfinish, onRead_outcome hc socket r time process, ?_, rfl,
      onRead_request _ _ socket r c⟩
    cases r with
    | success bytes => exact .kept nofun
    | aborted => exact .kept nofun
    | failed =>
        have hstopped := ReadBy.stopped (s := s) (i := i)
          (d := c.onRead ⟨conn, time, process⟩ s.database socket .failed)
        rw [← modify_set] at hstopped
        exact hstopped

/-! ### One read -/

section Read

variable {host : Host σ} {i k : Nat} {c d : SocketConnection σ} {socket : Socket Unit} {u : Unit}
  {r : Completion Bytes} {new : List Exchange} {inside : Bool}

theorem Outcome.clients (h : Outcome host database i c socket d r new) :
    ∀ e ∈ new, e.client = i := by
  intro e he
  cases h with
  | answered hclient =>
      rw [List.mem_singleton.mp he]
      exact hclient
  | _ => cases he

/-- The exchange is what the handler alone does to the database. -/
theorem Outcome.served (h : Outcome host database i c socket d r new) (hreply : c.reply_ = {}) :
    run (serve host.conn) database new = some d.database := by
  cases h with
  | answered hclient hserve => exact run_singleton.mpr (hserve hreply)
  | threw hphase hdatabase => rw [hdatabase, run_nil]
  | refused hresult hphase hdatabase => rw [hdatabase, run_nil]
  | aborted hresult hphase hdatabase => rw [hdatabase, run_nil]
  | failed hresult hphase hdatabase => rw [hdatabase, run_nil]

theorem Outcome.socket_eq (h : Outcome host database i c socket d r new) : d.socket_ = socket := by
  cases h <;> assumption

/-- The only read outstanding completes, and its handler starts none. -/
theorem Accounted.finish (hc : Accounted past i inside c)
    (h : c.socket_.finish k r = some (u, socket)) : c.socket_.pending ≠ [] ∧
      (r = .aborted → inside = false) ∧ socket = ⟨inside, []⟩ := by
  rcases Nat.le_one_iff_eq_zero_or_eq_one.mp hc.pending_le with hzero | hone
  · rw [Socket.finish_nil (List.length_eq_zero_iff.mp hzero)] at h
    cases h
  obtain ⟨p, hp⟩ := List.length_eq_one_iff.mp hone
  obtain ⟨-, hpossible, rfl⟩ := Socket.finish_single hp h
  refine ⟨by rw [hp]; exact List.cons_ne_nil _ _, ?_, by rw [hc.inside_eq]⟩
  rintro rfl
  exact hc.inside_eq.trans (Pending.closed_of_aborted hpossible)

theorem Accounted.count (hc : Accounted past i inside c) (hwaiting : c.socket_.pending ≠ [])
    (h : Outcome host database i c socket d r new) :
    (past ++ new).countP (fun e => e.client = i) ≤ 1 := by
  have hnone : past.countP (fun e => e.client = i) = 0 :=
    List.countP_eq_zero.mpr fun e he => by simpa using (hc.waiting hwaiting).2.2.2 e he
  have hone : new.length ≤ 1 := by cases h <;> simp
  rw [List.countP_append, hnone, Nat.zero_add]
  exact List.countP_le_length.trans hone

/-- A reply that is good has been made in an exchange. -/
theorem Accounted.goodReply (hc : Accounted past i inside c) (hwaiting : c.socket_.pending ≠ [])
    (h : Outcome host database i c socket d r new) (hgood : d.result = some .good)
    (hphase : d.phase ≠ .threw) : ∃ e ∈ past ++ new, e.client = i ∧ e.reply = d.reply_ := by
  have hnone := (hc.waiting hwaiting).1
  cases h with
  | answered hclient hserve hreply =>
      exact ⟨_, List.mem_append_right past List.mem_cons_self, hclient, hreply.symm⟩
  | threw hthrew => exact absurd hthrew hphase
  | refused hresult => cases hgood.symm.trans hresult
  | aborted hresult => cases hgood.symm.trans (hresult.trans hnone)
  | failed hresult => cases hgood.symm.trans (hresult.trans hnone)

theorem Accounted.read (hc : Accounted past i inside c)
    (hfinish : c.socket_.finish k r = some (u, socket))
    (h : Outcome host database i c socket d r new) (hr : r ≠ .failed) :
    Accounted (past ++ new) i inside d := by
  obtain ⟨hwaiting, haborted, hsocket⟩ := hc.finish hfinish
  rw [← h.socket_eq] at hsocket
  constructor
  case inside_eq => rw [hsocket]
  case pending_le =>
    rw [hsocket]
    exact Nat.zero_le 1
  case waiting => exact fun hne => absurd (congrArg Socket.pending hsocket) hne
  case reading => exact fun _ hne => absurd (congrArg Socket.pending hsocket) hne
  case answered =>
    intro hinside _
    cases h with
    | answered hclient hserve hreply hphase => exact Or.inl hphase
    | threw hphase => exact Or.inr hphase
    | refused hresult hphase => exact Or.inl hphase
    | aborted => cases hinside.symm.trans (haborted rfl)
    | failed => exact absurd rfl hr
  case good => exact hc.goodReply hwaiting h
  case once => exact hc.count hwaiting h

theorem Accounted.readFailed (hc : Accounted past i inside c)
    (hfinish : c.socket_.finish k (.failed : Completion Bytes) = some (u, socket))
    (h : Outcome host database i c socket d .failed new) :
    Accounted (past ++ new) i false d.stop := by
  obtain ⟨hwaiting, -, hsocket⟩ := hc.finish hfinish
  rw [← h.socket_eq] at hsocket
  have hnone : d.stop.socket_.pending = [] := congrArg Socket.pending hsocket
  constructor
  case inside_eq => rfl
  case pending_le =>
    rw [hnone]
    exact Nat.zero_le 1
  case waiting => exact fun hne => absurd hnone hne
  case reading => exact nofun
  case answered => exact nofun
  case good =>
    intro hgood _
    have hphase : d.phase ≠ .threw := by
      cases h with
      | failed hresult hphase =>
          rw [hphase]
          exact nofun
    exact hc.goodReply (d := d) hwaiting h hgood hphase
  case once => exact hc.count hwaiting h

end Read

/-! ### The whole server -/

/-- What holds after the exchanges `past`. -/
structure Serialised (conn : Connection σ) (database : σ) (past : List Exchange) (s : Server σ) :
    Prop where
  served : run (serve conn) database past = some s.database
  connection : ∀ i c, s.started[i]? = some c → Accounted past i (decide (i ∈ s.connections_)) c
  unborn : ∀ i, s.started[i]? = none → i ∉ s.connections_ ∧ ∀ e ∈ past, e.client ≠ i
  thrown : ∀ c ∈ s.started, c.phase = .threw → s.running = false
  accepting : s.signalWait = true →
    s.acceptor_.isOpen = true ∧ s.acceptor_.pending.length = 1

theorem running_of_handle {e : ServerEvent} (h : s.handle conn e = some t) : s.running = true := by
  cases hrunning : s.running with
  | true => rfl
  | false =>
      unfold handle at h
      rw [hrunning] at h
      cases h

theorem Serialised.read {i k : Nat} {r : Completion Bytes} {time : Int} {process : Memory}
    (hs : Serialised conn database past s) (h : s.handle conn (.read i k r time process) = some t) :
    Serialised conn database (past ++ s.exchanged conn (.read i k r time process)) t := by
  have hrunning := running_of_handle h
  obtain ⟨c, d, u, socket, hc, hfinish, houtcome, hread, -⟩ := handle_read h
  have haccounted := hs.connection i c hc
  have hserved := houtcome.served (haccounted.waiting (haccounted.finish hfinish).1).2.1
  have hother : ∀ j x, s.started[j]? = some x → j ≠ i →
      Accounted (past ++ s.exchanged conn (.read i k r time process)) j
        (decide (j ∈ s.connections_)) x := fun j x hx hji =>
    (hs.connection j x hx).other fun e he => (houtcome.clients e he).trans_ne hji.symm
  have hcalm : ∀ x ∈ s.started, x.phase ≠ .threw := fun x hx hthrew => by
    cases hrunning.symm.trans (hs.thrown x hx hthrew)
  have hunborn : ∀ j, j ≠ i ∧ s.started[j]? = none → j ∉ s.connections_ ∧
      ∀ e ∈ past ++ s.exchanged conn (.read i k r time process), e.client ≠ j := by
    rintro j ⟨hji, hnone⟩
    obtain ⟨hout, hpast⟩ := hs.unborn j hnone
    refine ⟨hout, fun e he => ?_⟩
    rcases List.mem_append.mp he with hmem | hmem
    · exact hpast e hmem
    · exact (houtcome.clients e hmem).trans_ne hji.symm
  cases hread with
  | kept hr =>
      refine ⟨run_append.mpr ⟨_, hs.served, hserved⟩, fun j x hx => ?_,
        fun j hj => hunborn j (get_set_none hc hj), fun x hx hthrew => ?_, hs.accepting⟩
      · rcases get_set_cases hc hx with ⟨hji, hx⟩ | ⟨rfl, rfl⟩
        · exact hother j x hx hji
        · exact haccounted.read hfinish houtcome hr
      · rcases List.mem_or_eq_of_mem_set hx with hmem | rfl
        · exact absurd hthrew (hcalm x hmem)
        · exact decide_eq_false (not_not.mpr hthrew)
  | stopped =>
      refine ⟨run_append.mpr ⟨_, hs.served, hserved⟩, fun j x hx => ?_, fun j hj => ?_,
        fun x hx hthrew => ?_, hs.accepting⟩
      · rcases get_set_cases hc hx with ⟨hji, hx⟩ | ⟨rfl, rfl⟩
        · simpa [hji] using hother j x hx hji
        · simpa using haccounted.readFailed hfinish houtcome
      · obtain ⟨hout, hpast⟩ := hunborn j (get_set_none hc hj)
        exact ⟨fun hmem => hout (Finset.mem_of_mem_erase hmem), hpast⟩
      · rcases List.mem_or_eq_of_mem_set hx with hmem | rfl
        · exact absurd hthrew (hcalm x hmem)
        · cases hthrew

theorem Serialised.signal (hs : Serialised conn database past s)
    (h : s.handle conn .signal = some t) : Serialised conn database past t := by
  have hrunning := running_of_handle h
  rw [handle] at h
  split_ifs at h
  cases h
  have hcalm : ∀ x ∈ s.started, x.phase ≠ .threw := fun x hx hthrew => by
    cases hrunning.symm.trans (hs.thrown x hx hthrew)
  refine ⟨hs.served, fun j x hx => ?_, fun j hj => ?_, fun x hx hthrew => ?_, nofun⟩
  · simp only [onSignal, managerStopAll, List.getElem?_mapIdx] at hx
    obtain ⟨c, hc, rfl⟩ := Option.map_eq_some_iff.mp hx
    have haccounted := hs.connection j c hc
    simp only [onSignal, managerStopAll, Finset.notMem_empty, decide_false]
    split_ifs with hmem
    · exact haccounted.stop (hcalm c (List.mem_of_getElem? hc))
    · rwa [decide_eq_false hmem] at haccounted
  · simp only [onSignal, managerStopAll, List.getElem?_mapIdx, Option.map_eq_none_iff] at hj
    exact ⟨Finset.notMem_empty j, (hs.unborn j hj).2⟩
  · obtain ⟨j, hj, rfl⟩ := List.mem_mapIdx.mp hx
    split_ifs at hthrew
    · cases hthrew
    · exact absurd hthrew (hcalm _ (List.getElem_mem hj))

theorem onAccept_cases (s : Server σ) (r : Completion Unit) (request_ : NewRequest) :
    s.onAccept r request_ = s ∧ s.acceptor_.isOpen = false ∨
    (s.onAccept r request_ = s.doAccept ∨
      s.onAccept r request_ = (s.managerStart request_).doAccept) ∧
      s.acceptor_.isOpen = true := by
  by_cases hopen : s.acceptor_.isOpen = true
  · refine Or.inr ⟨?_, hopen⟩
    cases r with
    | success u => exact Or.inr (by simp [onAccept, hopen])
    | aborted => exact Or.inl (by simp [onAccept, hopen])
    | failed => exact Or.inl (by simp [onAccept, hopen])
  · exact Or.inl ⟨by simp [onAccept, hopen], by simpa using hopen⟩

theorem Serialised.start (hs : Serialised conn database past s) (request_ : NewRequest) :
    Serialised conn database past (s.managerStart request_) := by
  have hlast : s.started[s.started.length]? = none := List.getElem?_eq_none (Nat.le_refl _)
  obtain ⟨-, hpast⟩ := hs.unborn _ hlast
  refine ⟨hs.served, fun j x hx => ?_, fun j hj => ?_, fun x hx hthrew => ?_, hs.accepting⟩
  · rcases get_concat_cases hx with ⟨hne, hx⟩ | ⟨rfl, rfl⟩
    · simpa [managerStart, hne] using hs.connection j x hx
    · simpa [managerStart] using accounted_started hpast request_
  · obtain ⟨hne, hnone⟩ := get_concat_none hj
    obtain ⟨hout, hpast⟩ := hs.unborn j hnone
    refine ⟨fun hmem => ?_, hpast⟩
    rcases Finset.mem_insert.mp hmem with heq | hmem
    · exact hne heq
    · exact hout hmem
  · rcases List.mem_append.mp hx with hmem | hmem
    · exact hs.thrown x hmem hthrew
    · rw [List.mem_singleton.mp hmem] at hthrew
      cases hthrew

theorem Serialised.withAcceptor (hs : Serialised conn database past s) {acceptor_ : Socket Unit}
    (haccepting : s.signalWait = true → acceptor_.isOpen = true ∧ acceptor_.pending.length = 1) :
    Serialised conn database past { s with acceptor_ := acceptor_ } :=
  ⟨hs.served, hs.connection, hs.unborn, hs.thrown, haccepting⟩

theorem Serialised.accept {k : Nat} {r : Completion Unit} {request_ : NewRequest}
    (hs : Serialised conn database past s) (h : s.handle conn (.accept k r request_) = some t) :
    Serialised conn database past t := by
  rw [handle] at h
  split_ifs at h
  obtain ⟨⟨u, socket⟩, hfinish, rfl⟩ := Option.map_eq_some_iff.mp h
  have hissued : s.signalWait = true → (socket.issue ()).isOpen = true ∧
      (socket.issue ()).pending.length = 1 := by
    intro hwait
    obtain ⟨hopen, hone⟩ := hs.accepting hwait
    obtain ⟨p, hp⟩ := List.length_eq_one_iff.mp hone
    obtain ⟨-, -, rfl⟩ := Socket.finish_single hp hfinish
    exact ⟨hopen, rfl⟩
  have hopen : socket.isOpen = s.acceptor_.isOpen := by
    obtain ⟨p, -, -, -, rfl⟩ := Socket.finish_eq_some.mp hfinish
    rfl
  rcases onAccept_cases { s with acceptor_ := socket } r request_ with
    ⟨heq, hclosed⟩ | ⟨heq | heq, -⟩
  · rw [heq]
    refine hs.withAcceptor fun hwait => ?_
    cases hclosed.symm.trans (hopen.trans (hs.accepting hwait).1)
  · rw [heq]
    exact hs.withAcceptor hissued
  · rw [heq]
    exact (hs.withAcceptor hissued).start request_

theorem Serialised.step {e : ServerEvent} (hs : Serialised conn database past s)
    (h : s.handle conn e = some t) :
    Serialised conn database (past ++ s.exchanged conn e) t := by
  cases e with
  | accept k r request_ => exact (List.append_nil past).symm ▸ hs.accept h
  | signal => exact (List.append_nil past).symm ▸ hs.signal h
  | read i k r time process => exact hs.read h

theorem serialised_run {es : List ServerEvent}
    (h : run (handle conn) (listening database) es = some s) :
    Serialised conn database (exchanges conn database es) s := by
  have hstart : Serialised conn database [] (listening database) := by
    refine ⟨rfl, ?_, fun i _ => ⟨Finset.notMem_empty i, nofun⟩, nofun, fun _ => ⟨rfl, rfl⟩⟩
    rintro i c ⟨⟩
  exact run_outputs (I := Serialised conn database) (fun past s e t hs ht => hs.step ht) hstart h

/-- The strings of a new request at the beginning of a page of memory that was all zeros. -/
def zeroedMemory (page : Byte) : Memory
  | 8 => 24
  | 9 => page
  | 40 => 56
  | 41 => page
  | 72 => 88
  | 73 => page
  | _ => 0

theorem zeroedMemory_empty (page : Byte) :
    ∀ offset ∈ stringOffsets, stringSize (zeroedMemory page) offset = 0 := by
  rw [stringOffsets, List.forall_mem_cons, List.forall_mem_cons, List.forall_mem_singleton]
  simp [stringSize, littleEndian, zeroedMemory, idOffset, pwdOffset, secretOffset]

theorem zeroedMemory_ownText (page : Byte) : ∀ offset ∈ stringOffsets,
    littleEndian (zeroedMemory page) offset 8 = 256 * page.toNat + offset + 16 := by
  rw [stringOffsets, List.forall_mem_cons, List.forall_mem_cons, List.forall_mem_singleton]
  simp [littleEndian, zeroedMemory, idOffset, pwdOffset, secretOffset]
  omega

def zeroed (page : Byte) : NewRequest :=
  ⟨256 * page.toNat, zeroedMemory page, zeroedMemory_empty page, zeroedMemory_ownText page⟩

/-- Only the signal reaches a connection that has nothing outstanding. -/
theorem idle_step {e : ServerEvent} {i : Nat} {c : SocketConnection σ}
    (hc : s.started[i]? = some c) (hidle : c.socket_.pending = []) (hsignal : e ≠ .signal)
    (h : s.handle conn e = some t) :
    t.started[i]? = some c ∧ (i ∈ t.connections_ ↔ i ∈ s.connections_) := by
  have hlt := (List.getElem?_eq_some_iff.mp hc).1
  cases e with
  | signal => exact absurd rfl hsignal
  | accept k r request_ =>
      rw [handle] at h
      split_ifs at h
      obtain ⟨⟨u, socket⟩, -, rfl⟩ := Option.map_eq_some_iff.mp h
      rcases onAccept_cases { s with acceptor_ := socket } r request_ with
        ⟨heq, -⟩ | ⟨heq | heq, -⟩
      · rw [heq]
        exact ⟨hc, Iff.rfl⟩
      · rw [heq]
        exact ⟨hc, Iff.rfl⟩
      · have hne : i ≠ s.started.length := Nat.ne_of_lt hlt
        rw [heq]
        refine ⟨(List.getElem?_append_left hlt).trans hc, ?_⟩
        simp [doAccept, managerStart, hne]
  | read j k r time process =>
      obtain ⟨x, d, u, socket, hx, hfinish, -, hread, -⟩ := handle_read h
      have hij : j ≠ i := by
        rintro rfl
        obtain rfl : c = x := Option.some.inj (hc.symm.trans hx)
        rw [Socket.finish_nil hidle] at hfinish
        cases hfinish
      cases hread with
      | kept hr => exact ⟨(List.getElem?_set_ne hij).trans hc, Iff.rfl⟩
      | stopped =>
          refine ⟨(List.getElem?_set_ne hij).trans hc, ?_⟩
          simp [hij.symm]

theorem idle_run {es : List ServerEvent} {i : Nat} {c : SocketConnection σ}
    (hc : s.started[i]? = some c) (hidle : c.socket_.pending = []) (hsignal : .signal ∉ es)
    (h : run (handle conn) s es = some t) :
    t.started[i]? = some c ∧ (i ∈ t.connections_ ↔ i ∈ s.connections_) := by
  induction es generalizing s with
  | nil =>
      cases h
      exact ⟨hc, Iff.rfl⟩
  | cons e es ih =>
      obtain ⟨u, hu, ht⟩ := run_cons.mp h
      have hfirst : e ≠ .signal := fun heq => hsignal (heq ▸ List.mem_cons_self)
      obtain ⟨hkept, hmem⟩ := idle_step hc hidle hfirst hu
      obtain ⟨hrest, hmem'⟩ := ih hkept (fun hin => hsignal (List.mem_cons_of_mem e hin)) ht
      exact ⟨hrest, hmem'.trans hmem⟩

/-- In every state of the server that a run of defined steps leads to: a connection is in
`connections_` exactly while its socket is open; it is there either to read, with one read
outstanding, or because its reply has been made, or an exception thrown, with nothing outstanding.
From then on nothing but the signal changes it or takes it out: replies are not written, and
connections not closed. Until the signal, one accept is outstanding. -/
theorem answered_kept
    (h : Reachable (Server.step conn) (.defined (listening database)) (.defined s)) {i : Nat}
    {c : SocketConnection σ} (hc : s.started[i]? = some c) :
    (i ∈ s.connections_ ↔ c.socket_.isOpen = true) ∧
    (i ∈ s.connections_ → (c.phase = .reading ∧ c.socket_.pending.length = 1) ∨
      ((c.phase = .writing ∨ c.phase = .threw) ∧ c.socket_.pending = [])) ∧
    (i ∈ s.connections_ → c.socket_.pending = [] → ∀ es t,
      run (Server.step conn) (.defined s) es = some (.defined t) → .signal ∉ es →
        t.started[i]? = some c ∧ i ∈ t.connections_) ∧
    (s.signalWait = true → s.acceptor_.pending.length = 1) := by
  obtain ⟨past, hpast⟩ := h
  have hs := serialised_run (run_of_checked hpast)
  have haccounted := hs.connection i c hc
  refine ⟨?_, fun hmem => ?_, fun hmem hidle es t ht hsignal => ?_,
    fun hwait => (hs.accepting hwait).2⟩
  · rw [← haccounted.inside_eq, decide_eq_true_iff]
  · have hinside := decide_eq_true hmem
    by_cases hidle : c.socket_.pending = []
    · exact Or.inr ⟨haccounted.answered hinside hidle, hidle⟩
    · refine Or.inl ⟨haccounted.reading hinside hidle, ?_⟩
      exact Nat.le_antisymm haccounted.pending_le (List.length_pos_iff.mpr hidle)
  · obtain ⟨hkept, hinside⟩ := idle_run hc hidle hsignal (run_of_checked ht)
    exact ⟨hkept, hinside.mpr hmem⟩

/-- Of two connections, the second has sent a bad request. -/
def refusedRun : List ServerEvent :=
  [.accept 0 (.success ()) (zeroed 64), .accept 0 (.success ()) (zeroed 128),
    .read 1 0 (.success [0]) 0 fun _ => 0]

/-- It stays when the read of the other one fails. -/
theorem answered_kept_refused : ∃ s t c,
    run (Server.step tableConnection) (.defined (listening [kim])) refusedRun =
      some (.defined s) ∧
    s.started[1]? = some c ∧
    run (Server.step tableConnection) (.defined s) [.read 0 0 .failed 0 fun _ => 0] =
      some (.defined t) ∧
    t.started[1]? = some c ∧ 1 ∈ t.connections_ := by
  have hrun : run (Server.step tableConnection) (.defined (listening [kim])) refusedRun =
    some (.defined _) := rfl
  have hinside := (answered_kept ⟨_, hrun⟩ (i := 1) rfl).1.mpr rfl
  have hkept := (answered_kept ⟨_, hrun⟩ (i := 1) rfl).2.2.1 hinside rfl
  have hsignal : ServerEvent.signal ∉ [ServerEvent.read 0 0 .failed 0 fun _ => 0] := by simp
  exact ⟨_, _, _, hrun, rfl, rfl, hkept _ _ rfl hsignal⟩

end Server

end AsioTest.Action
