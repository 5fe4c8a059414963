import AsioTest.DaytimeServers
import AsioTest.DatagramNetwork

/-!
The UDP clients `sync_dc` and `daytime_client`, each with a socket of its own, and the UDP server,
in a network that may lose, repeat and reorder their datagrams. The operations that
`daytime_client` starts are waited for one after the other, so that it does what `sync_dc` does.
-/

namespace AsioTest.Daytime

open TransitionRuns DatagramNetwork

/-- A client is about to call `send_to`, waits in `receive_from`, or has ended. -/
inductive ClientPhase where
  | sending
  | waiting
  | finished
  | threw
  deriving DecidableEq

/-- `signal` is the byte in `send_buf`. -/
structure DaytimeClient where
  signal : UInt8
  phase : ClientPhase := .sending
  printed : Bytes := []
  deriving DecidableEq

/-- `send_to` returns or throws, and so does `receive_from`. -/
inductive ClientEvent where
  | sent (ok : Bool)
  | received (r : Option Bytes)
  deriving DecidableEq

/-- What does not fit into the 128 bytes of `recv_buf` is dropped. -/
def DaytimeClient.step (c : DaytimeClient) : ClientEvent → Option DaytimeClient
  | .sent ok =>
      if c.phase = .sending then some { c with phase := if ok then .waiting else .threw } else none
  | .received (some message) =>
      if c.phase = .waiting then some { c with phase := .finished, printed := message.take 128 }
      else none
  | .received none => if c.phase = .waiting then some { c with phase := .threw } else none

variable {Endpoint : Type}

/-- A datagram of a client to the server, or of the server to a client. -/
inductive DaytimeMessage (Endpoint : Type) where
  | request (source : Endpoint) (signal : UInt8)
  | answer (target : Endpoint) (message : Bytes)
  deriving DecidableEq

structure DaytimeSystem (Endpoint : Type) where
  server : UdpServer Endpoint
  clients : Endpoint → DaytimeClient

/-- The server receives a request at `time`, its receive fails, or its `k`-th send ends, and the
datagram has gone out or not. -/
inductive DaytimeEvent (Endpoint : Type) where
  | client (i : Endpoint) (e : ClientEvent)
  | serve (source : Endpoint) (signal : UInt8) (time : Int)
  | fail (endpoint : Endpoint) (time : Int)
  | sent (k : Nat) (ok : Bool)
  deriving DecidableEq

namespace DaytimeSystem

variable (makeDaytimeString : Int → Bytes)

def step [DecidableEq Endpoint] (s : DaytimeSystem Endpoint) :
    DaytimeEvent Endpoint → Option (DaytimeSystem Endpoint)
  | .client i e =>
      ((s.clients i).step e).map fun c => { s with clients := Function.update s.clients i c }
  | .serve source _ time =>
      (s.server.step makeDaytimeString (.receive ⟨.ok, source, time⟩)).map fun server =>
        { s with server := server }
  | .fail endpoint time =>
      (s.server.step makeDaytimeString (.receive ⟨.otherError, endpoint, time⟩)).map fun server =>
        { s with server := server }
  | .sent k _ =>
      (s.server.step makeDaytimeString (.sent k)).map fun server => { s with server := server }

def takes : DaytimeEvent Endpoint → Option (DaytimeMessage Endpoint)
  | .client i (.received (some message)) => some (.answer i message)
  | .serve source signal _ => some (.request source signal)
  | _ => none

def sends (s : DaytimeSystem Endpoint) :
    DaytimeEvent Endpoint → List (DaytimeMessage Endpoint)
  | .client i (.sent true) => [.request i (s.clients i).signal]
  | .sent k true => s.server.sends[k]?.toList.map fun x => .answer x.2 x.1
  | _ => []

def processes [DecidableEq Endpoint] : Processes (DaytimeSystem Endpoint) (DaytimeEvent Endpoint)
    (DaytimeMessage Endpoint) where
  step := step makeDaytimeString
  takes := takes
  sends := sends

/-- The server listens, and the clients have not sent anything. -/
def started (endpoint : Endpoint) (signals : Endpoint → UInt8) : DaytimeSystem Endpoint where
  server := .listening endpoint
  clients := fun i => { signal := signals i }

/-- The server has received a request that the client `i` had sent, at a time that makes
`message`. -/
def Answered (es : List (DaytimeEvent Endpoint)) (i : Endpoint) (message : Bytes) : Prop :=
  ∃ signal time, message = makeDaytimeString time ∧
    [.client i (.sent true), .serve i signal time].Sublist es

/-- A datagram under way has a cause. -/
def Caused (es : List (DaytimeEvent Endpoint)) : DaytimeMessage Endpoint → Prop
  | .request i _ => .client i (.sent true) ∈ es
  | .answer i message => Answered makeDaytimeString es i message

/-- The client `i` has printed an answer that was made for it. -/
def Told (es : List (DaytimeEvent Endpoint)) (i : Endpoint) (c : DaytimeClient) : Prop :=
  ∃ signal time, c.printed = (makeDaytimeString time).take 128 ∧
    [.client i (.sent true), .serve i signal time,
      .client i (.received (some (makeDaytimeString time)))].Sublist es

/-- What holds after the events `es` of the clients and the server. -/
structure Causal (es : List (DaytimeEvent Endpoint)) (s : DaytimeSystem Endpoint) : Prop where
  silent : ∀ i, (s.clients i).phase = .sending → .client i (.sent true) ∉ es
  answers : ∀ message i, (message, i) ∈ s.server.sends → Answered makeDaytimeString es i message
  told : ∀ i, (s.clients i).phase = .finished → Told makeDaytimeString es i (s.clients i)

variable {makeDaytimeString} {s t : DaytimeSystem Endpoint} {e : DaytimeEvent Endpoint}
  {es : List (DaytimeEvent Endpoint)} {i : Endpoint} {message : Bytes}

theorem Answered.later (h : Answered makeDaytimeString es i message) :
    Answered makeDaytimeString (es ++ [e]) i message := by
  obtain ⟨signal, time, hmessage, horder⟩ := h
  exact ⟨signal, time, hmessage, horder.trans (List.sublist_append_left es [e])⟩

theorem Caused.later {m : DaytimeMessage Endpoint} (h : Caused makeDaytimeString es m) :
    Caused makeDaytimeString (es ++ [e]) m := by
  cases m with
  | request i signal => exact List.mem_append_left _ h
  | answer i message => exact Answered.later h

theorem Told.later {c : DaytimeClient} (h : Told makeDaytimeString es i c) :
    Told makeDaytimeString (es ++ [e]) i c := by
  obtain ⟨signal, time, hprinted, horder⟩ := h
  exact ⟨signal, time, hprinted, horder.trans (List.sublist_append_left es [e])⟩

/-- What is sent has a cause. -/
theorem Causal.sends (hs : Causal makeDaytimeString es s) {m : DaytimeMessage Endpoint}
    (hm : m ∈ s.sends e) : Caused makeDaytimeString (es ++ [e]) m := by
  match e with
  | .client i (.sent true) =>
      cases List.mem_singleton.mp hm
      exact List.mem_append_right es List.mem_cons_self
  | .sent k true =>
      obtain ⟨x, hx, rfl⟩ := List.mem_map.mp hm
      exact (hs.answers x.1 x.2 (List.mem_of_getElem? (Option.mem_toList.mp hx))).later

/-- Only a step of the client itself is its first send. -/
theorem sent_before (hin : .client i (.sent true) ∈ es ++ [e]) (hne : e ≠ .client i (.sent true)) :
    .client i (.sent true) ∈ es := by
  obtain hold | hlast := List.mem_append.mp hin
  · exact hold
  · exact absurd (List.mem_singleton.mp hlast).symm hne

variable [DecidableEq Endpoint]

/-- A step of a client: it calls `send_to`, prints what it receives, or throws. -/
theorem client_cases {c : ClientEvent} (h : s.step makeDaytimeString (.client i c) = some t) :
    t.server = s.server ∧ (∀ j, j ≠ i → t.clients j = s.clients j) ∧
    ((c = .sent true ∧ (s.clients i).phase = .sending ∧ (t.clients i).phase = .waiting) ∨
    (∃ message, c = .received (some message) ∧ (s.clients i).phase = .waiting ∧
      (t.clients i).phase = .finished ∧ (t.clients i).printed = message.take 128) ∨
    ((c = .sent false ∨ c = .received none) ∧ (t.clients i).phase = .threw)) := by
  obtain ⟨d, hd, rfl⟩ := Option.map_eq_some_iff.mp h
  refine ⟨rfl, fun j hj => Function.update_of_ne hj _ _, ?_⟩
  simp only [Function.update_self]
  cases c with
  | sent ok =>
      simp only [DaytimeClient.step] at hd
      split_ifs at hd with hsending hok
      · cases hd
        exact Or.inl ⟨by rw [hok], hsending, rfl⟩
      · cases hd
        exact Or.inr (Or.inr ⟨Or.inl (by rw [Bool.eq_false_of_not_eq_true hok]), rfl⟩)
  | received r =>
      cases r with
      | none =>
          simp only [DaytimeClient.step] at hd
          split_ifs at hd
          cases hd
          exact Or.inr (Or.inr ⟨Or.inr rfl, rfl⟩)
      | some message =>
          simp only [DaytimeClient.step] at hd
          split_ifs at hd with hwaiting
          cases hd
          exact Or.inr (Or.inl ⟨message, rfl, hwaiting, rfl, rfl⟩)

/-- A step is one of a client, or one of the server. -/
theorem step_cases (h : s.step makeDaytimeString e = some t) :
    (∃ i c, e = .client i c ∧ s.step makeDaytimeString (.client i c) = some t) ∨
    ((∀ i c, e ≠ .client i c) ∧ t.clients = s.clients ∧
    ((∃ source signal time, e = .serve source signal time ∧ s.server.receives ≠ 0 ∧
      t.server.sends = s.server.sends ++ [(makeDaytimeString time, source)] ∧
      t.server.receives = s.server.receives) ∨
    (∃ endpoint time, e = .fail endpoint time ∧ t.server.sends = s.server.sends ∧
      t.server.receives = s.server.receives - 1) ∨
    (∃ k ok x, e = .sent k ok ∧ s.server.sends[k]? = some x ∧
      t.server.sends = s.server.sends.eraseIdx k ∧ t.server.receives = s.server.receives))) := by
  cases e with
  | client i c => exact Or.inl ⟨i, c, rfl, h⟩
  | serve source signal time =>
      obtain ⟨server, hstep, rfl⟩ := Option.map_eq_some_iff.mp h
      obtain ⟨hreceives, hsends, hagain⟩ := UdpServer.step_ok hstep
      exact Or.inr ⟨nofun, rfl, Or.inl ⟨source, signal, time, rfl, hreceives, hsends, hagain⟩⟩
  | fail endpoint time =>
      obtain ⟨server, hstep, rfl⟩ := Option.map_eq_some_iff.mp h
      obtain ⟨-, hsends, hless⟩ := UdpServer.step_otherError hstep
      exact Or.inr ⟨nofun, rfl, Or.inr (Or.inl ⟨endpoint, time, rfl, hsends, hless⟩)⟩
  | sent k ok =>
      obtain ⟨server, hstep, rfl⟩ := Option.map_eq_some_iff.mp h
      obtain ⟨x, hx, hsends, hsame⟩ := UdpServer.step_sent hstep
      exact Or.inr ⟨nofun, rfl, Or.inr (Or.inr ⟨k, ok, x, rfl, hx, hsends, hsame⟩)⟩

theorem Causal.client {c : ClientEvent} (hs : Causal makeDaytimeString es s)
    (htaken : ∀ m ∈ takes (.client i c), Caused makeDaytimeString es m)
    (h : s.step makeDaytimeString (.client i c) = some t) :
    Causal makeDaytimeString (es ++ [.client i c]) t := by
  obtain ⟨hserver, hothers, hcases⟩ := client_cases h
  constructor
  case silent =>
      intro j hj hin
      by_cases hji : j = i
      · subst hji
        obtain ⟨-, -, hphase⟩ | ⟨_, -, -, hphase, -⟩ | ⟨-, hphase⟩ := hcases <;>
          exact absurd (hj.symm.trans hphase) (by decide)
      · rw [hothers j hji] at hj
        refine hs.silent j hj (sent_before hin fun heq => hji ?_)
        cases heq
        rfl
  case answers =>
      intro message j hin
      rw [hserver] at hin
      exact (hs.answers message j hin).later
  case told =>
      intro j hj
      by_cases hji : j = i
      · subst hji
        obtain ⟨-, -, hphase⟩ | ⟨message, rfl, -, -, hprinted⟩ | ⟨-, hphase⟩ := hcases
        · exact absurd (hj.symm.trans hphase) (by decide)
        · obtain ⟨signal, time, rfl, horder⟩ := htaken _ rfl
          exact ⟨signal, time, hprinted, horder.append (List.Sublist.refl [_])⟩
        · exact absurd (hj.symm.trans hphase) (by decide)
      · rw [hothers j hji] at hj ⊢
        exact (hs.told j hj).later

theorem Causal.step (hs : Causal makeDaytimeString es s)
    (htaken : ∀ m ∈ takes e, Caused makeDaytimeString es m)
    (h : s.step makeDaytimeString e = some t) : Causal makeDaytimeString (es ++ [e]) t := by
  obtain ⟨j, c, rfl, hclient⟩ | ⟨hserver, hclients, hcases⟩ := step_cases h
  · exact hs.client htaken hclient
  · constructor
    case silent =>
        intro i hi hin
        rw [hclients] at hi
        exact hs.silent i hi (sent_before hin (hserver i _))
    case answers =>
        intro message i hin
        obtain ⟨source, signal, time, rfl, -, hsends, -⟩ | ⟨_, _, rfl, hsends, -⟩ |
          ⟨k, ok, x, rfl, -, hsends, -⟩ := hcases
        · rw [hsends] at hin
          obtain hold | hlast := List.mem_append.mp hin
          · exact (hs.answers message i hold).later
          · cases List.mem_singleton.mp hlast
            have hasked : .client i (.sent true) ∈ es := htaken _ rfl
            exact ⟨signal, time, rfl,
              (List.singleton_sublist.mpr hasked).append (List.Sublist.refl [_])⟩
        · rw [hsends] at hin
          exact (hs.answers message i hin).later
        · rw [hsends] at hin
          exact (hs.answers message i (List.mem_of_mem_eraseIdx hin)).later
    case told =>
        intro i hi
        rw [hclients] at hi ⊢
        exact (hs.told i hi).later

theorem causal_run {endpoint : Endpoint} {signals : Endpoint → UInt8}
    {s : Network (DaytimeSystem Endpoint) (DaytimeMessage Endpoint)}
    {es : List (NetworkEvent (DaytimeEvent Endpoint))}
    (h : run (Network.step (processes makeDaytimeString)) ⟨started endpoint signals, []⟩ es =
      some s) :
    Causal makeDaytimeString (es.flatMap NetworkEvent.action) s.processes ∧
    ∀ m ∈ s.underWay, Caused makeDaytimeString (es.flatMap NetworkEvent.action) m := by
  refine Network.run_valid (P := processes makeDaytimeString)
    (fun es s e t hs htaken ht => ⟨hs.step htaken ht, fun m hm => hm.later, fun m => hs.sends⟩) ?_ h
  exact ⟨fun i _ => List.not_mem_nil, nofun, nofun⟩

end DaytimeSystem

/-- The clients and the server in the network. -/
abbrev DaytimeNetwork (Endpoint : Type) :=
  Network (DaytimeSystem Endpoint) (DaytimeMessage Endpoint)

namespace DaytimeNetwork

variable [DecidableEq Endpoint]

def step (makeDaytimeString : Int → Bytes) :
    DaytimeNetwork Endpoint → NetworkEvent (DaytimeEvent Endpoint) →
      Option (DaytimeNetwork Endpoint) :=
  Network.step (DaytimeSystem.processes makeDaytimeString)

def started (endpoint : Endpoint) (signals : Endpoint → UInt8) : DaytimeNetwork Endpoint :=
  ⟨DaytimeSystem.started endpoint signals, []⟩

variable {makeDaytimeString : Int → Bytes} {endpoint : Endpoint} {signals : Endpoint → UInt8}
  {s t : DaytimeNetwork Endpoint} {es : List (NetworkEvent (DaytimeEvent Endpoint))} {i : Endpoint}

/-- In every run, whatever the network loses, repeats and reorders: a client that has ended well has
printed the time at which the server received a request of it, after the client had sent one and
before the client received this time. -/
theorem clients_told (h : run (step makeDaytimeString) (started endpoint signals) es = some s)
    (hi : (s.processes.clients i).phase = .finished) : ∃ signal time,
      (s.processes.clients i).printed = (makeDaytimeString time).take 128 ∧
      [.client i (.sent true), .serve i signal time,
        .client i (.received (some (makeDaytimeString time)))].Sublist
        (es.flatMap NetworkEvent.action) :=
  (DaytimeSystem.causal_run h).1.told i hi

/-- The request of one client is repeated and answered twice, the second answer arrives first, and
the request of another client is lost. -/
def lossyRun : List (NetworkEvent (DaytimeEvent Nat)) :=
  [.act (.client 1 (.sent true)), .double 0, .act (.client 2 (.sent true)),
    .act (.serve 1 65 100), .act (.serve 1 65 101), .act (.sent 1 true), .lose 0,
    .act (.client 1 (.received (some [101, 10])))]

theorem clients_told_second : ∃ s,
    run (step fun time => [UInt8.ofNat time.toNat, 10]) (started 0 fun _ => 65) lossyRun =
      some s ∧
    (s.processes.clients 1).printed = [101, 10] ∧ ∃ signal time,
      [101, 10] = [UInt8.ofNat time.toNat, 10].take 128 ∧
      [.client 1 (.sent true), .serve 1 signal time,
        .client 1 (.received (some [UInt8.ofNat time.toNat, 10]))].Sublist
        (lossyRun.flatMap NetworkEvent.action) := by
  have hrun : run (step fun time => [UInt8.ofNat time.toNat, 10]) (started 0 fun _ => 65) lossyRun =
    some _ := rfl
  have htold := clients_told (i := 1) hrun rfl
  exact ⟨_, hrun, rfl, htold⟩

/-- A step of the network, or of the clients and the server. -/
theorem step_cases {e : NetworkEvent (DaytimeEvent Endpoint)}
    (h : s.step makeDaytimeString e = some t) :
    (t.processes = s.processes ∧ ∀ m ∈ t.underWay, m ∈ s.underWay) ∨
    ∃ e, s.processes.step makeDaytimeString e = some t.processes ∧
      (∀ m ∈ DaytimeSystem.takes e, m ∈ s.underWay) ∧
      ∀ m ∈ t.underWay, m ∈ s.underWay ∨ m ∈ s.processes.sends e := by
  cases e with
  | lose k => exact Or.inl (Network.step_lose h)
  | double k => exact Or.inl (Network.step_double h)
  | act e =>
      obtain ⟨htaken, hstep, hunder⟩ := Network.step_act h
      exact Or.inr ⟨e, hstep, htaken, hunder⟩

end DaytimeNetwork

end AsioTest.Daytime
