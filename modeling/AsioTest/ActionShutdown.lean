import AsioTest.ActionExchanges
import Mathlib.Algebra.Group.Action.Defs
import Mathlib.Algebra.Order.BigOperators.Group.List

/-!
How the action server stops. After the signal every handler that runs ends one of the operations
that were outstanding then, and no handler starts another one: the acceptor is closed, and a read
handler never reads again. A request that had arrived before is still handled. The handler of the
signal destroys the connections that have answered, and that of a read its own connection, which is
defined only when the request still has its strings.
-/

namespace AsioTest.Action

open ByteStrings MemoryImages AsyncSocket TransitionRuns

variable {σ : Type}

namespace Server

/-- The operations outstanding on a connection. -/
def reads (c : SocketConnection σ) : Nat := c.socket_.pending.length

/-- The accepts and reads outstanding. -/
def outstanding (s : Server σ) : Nat := s.acceptor_.pending.length + (s.started.map reads).sum

/-- The signal has come. -/
structure Stopping (s : Server σ) : Prop where
  closed : s.acceptor_.isOpen = false
  signalled : s.signalWait = false
  empty : s.connections_ = ∅

variable {conn : Connection σ} {database : σ} {s t : Server σ}

theorem ReadBy.outstanding {i : Nat} {c d : SocketConnection σ} {r : Completion Bytes}
    (hc : s.started[i]? = some c) (h : ReadBy s i d r t) :
    t.outstanding + reads c = s.outstanding + reads d := by
  cases h with
  | kept hr =>
      have hsum := sum_map_set reads hc d
      simp only [Server.outstanding, replaced]
      omega
  | stopped =>
      have hsum := sum_map_set reads hc d.stop
      have hstop : reads d.stop = reads d := rfl
      simp only [Server.outstanding, replaced]
      omega

theorem ReadBy.stopping {i : Nat} {d : SocketConnection σ} {r : Completion Bytes}
    (hs : s.Stopping) (h : ReadBy s i d r t) :
    t.Stopping ∧ t.started.length = s.started.length := by
  cases h with
  | kept hr => exact ⟨⟨hs.closed, hs.signalled, hs.empty⟩, List.length_set⟩
  | stopped =>
      refine ⟨⟨hs.closed, hs.signalled, ?_⟩, List.length_set⟩
      show s.connections_.erase i = ∅
      rw [hs.empty, Finset.erase_empty]

/-- A handler ends an operation, and none is started. -/
theorem Stopping.step {e : ServerEvent} (hs : s.Stopping) (h : s.handle conn e = some t) :
    t.Stopping ∧ t.started.length = s.started.length ∧ t.outstanding + 1 = s.outstanding := by
  cases e with
  | accept k r request_ =>
      rw [handle] at h
      split_ifs at h
      obtain ⟨⟨u, socket⟩, hfinish, rfl⟩ := Option.map_eq_some_iff.mp h
      have hlength := Socket.finish_length hfinish
      have hclosed : socket.isOpen = false := by
        obtain ⟨p, -, -, -, rfl⟩ := Socket.finish_eq_some.mp hfinish
        exact hs.closed
      rcases onAccept_cases { s with acceptor_ := socket } r request_ with ⟨heq, -⟩ | ⟨-, hopen⟩
      · rw [heq]
        refine ⟨⟨hclosed, hs.signalled, hs.empty⟩, rfl, ?_⟩
        simp only [Server.outstanding]
        omega
      · cases hclosed.symm.trans hopen
  | read i k r time process =>
      obtain ⟨c, d, u, socket, hc, hfinish, houtcome, hread, -⟩ := handle_read h
      have hlength := Socket.finish_length hfinish
      have hsocket := houtcome.socket_eq
      have hsum := hread.outstanding hc
      obtain ⟨hstopping, hstarted⟩ := hread.stopping hs
      refine ⟨hstopping, hstarted, ?_⟩
      simp only [reads, hsocket] at hsum
      omega
  | signal =>
      rw [handle] at h
      split_ifs at h with hrunning hwait
      cases hs.signalled.symm.trans hwait

theorem Stopping.run {es : List ServerEvent} (hs : s.Stopping)
    (h : run (handle conn) s es = some t) :
    t.Stopping ∧ t.started.length = s.started.length ∧
      es.length + t.outstanding = s.outstanding := by
  have hinit : s.Stopping ∧ s.started.length = s.started.length ∧
      ([] : List ServerEvent).length + s.outstanding = s.outstanding := ⟨hs, rfl, Nat.zero_add _⟩
  refine run_history (I := fun es t => t.Stopping ∧ t.started.length = s.started.length ∧
    es.length + t.outstanding = s.outstanding) (fun es t e u ht hu => ?_) hinit h
  obtain ⟨hstopping, hstarted, hlength⟩ := ht
  obtain ⟨hstopping', hstarted', hstep⟩ := hstopping.step hu
  refine ⟨hstopping', hstarted'.trans hstarted, ?_⟩
  rw [List.length_append, List.length_singleton]
  omega

/-- A read that copies no more than a request has, and leaves strings that free nothing. -/
def Harmless (s : Server σ) : ServerEvent → Prop
  | .read i _ (.success bytes) _ _ => bytes.length ≤ requestSize ∧
      ∀ c ∈ s.started[i]?, FreesNothing c.address (memcpy bytes c.request_)
  | _ => True

end Server

end AsioTest.Action
