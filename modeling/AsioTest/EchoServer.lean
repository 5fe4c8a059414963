import AsioTest.AcceptLoop
import AsioTest.EchoSession

/-!
The echo server: an accept loop with the echo sessions. Each session has its allocator, and of the
heap behind it only the blocks of the session itself matter, so that each is left one of its own.
The results are about the version that gives the handlers' memory back; the other deletes `storage_`
when its first operation ends.
-/

namespace AsioTest.Alloc

open TransitionRuns AsyncSocket AcceptLoop

abbrev EchoServer := Loop EchoSession

/-- With an accepted connection come what `data_` holds and the memory for the first read. -/
abbrev EchoServerEvent := LoopEvent (Data × Block) EchoEvent

namespace EchoServer

def step (version : Version) : EchoServer → EchoServerEvent → Option EchoServer :=
  Loop.step (fun init => EchoSession.started version init.1 init.2) (EchoSession.step version)

/-- What the session `i` receives. -/
def receivedBy (i : Nat) (es : List EchoServerEvent) : Bytes :=
  (es.flatMap (LoopEvent.partOf i)).flatMap EchoEvent.received

variable {s : EchoServer} {es : List EchoServerEvent}

/-- In every run of the server, however the sessions take turns and whatever pieces their bytes come
and go in: what a session has written, with what the write outstanding has left, is what it has
received, and the write outstanding finds `data_` as it was; a session with nothing outstanding has
lost a piece at most and stays as it is; and the next connection will be accepted. -/
theorem sessions_echo (h : run (step server03) Loop.listening es = some s) {i : Nat}
    {x : EchoSession} (hx : s.sessions[i]? = some x) :
    x.Echoing (receivedBy i es) ∧
    (x.outstanding = [] → ∀ fs t, run (step server03) s fs = some t → t.sessions[i]? = some x) ∧
    s.Accepting := by
  obtain ⟨init, c, -, hc, hrun⟩ := (Loop.recorded_run h).alive i x hx
  refine ⟨EchoSession.echoing_run hc hrun, fun hnone fs t ht => ?_, Loop.accepting_run h⟩
  refine Loop.session_kept hx (fun e => ?_) ht
  cases e with
  | read k r next => simp [EchoSession.step, EchoSession.finish, hnone]
  | wrote k r next => simp [EchoSession.step, EchoSession.finish, hnone]

/-- Two sessions: the first echoes two bytes in two pieces, and the second has received one byte; an
accept has failed in between. -/
def twoSessions : List EchoServerEvent :=
  [.accept 0 (.success ()) (.zeros, ⟨100, 0⟩),
    .session 0 (.read 0 (some .twoBytes) ⟨200, 7⟩),
    .accept 0 .failed (.zeros, ⟨100, 0⟩), .session 0 (.wrote 0 (some 1) ⟨100, 0⟩),
    .accept 0 (.success ()) (.zeros, ⟨100, 0⟩), .session 0 (.wrote 0 (some 1) ⟨100, 0⟩),
    .session 1 (.read 0 (some ⟨[33], by decide, by decide⟩) ⟨100, 0⟩)]

theorem sessions_echo_second : ∃ s x, run (step server03) Loop.listening twoSessions = some s ∧
    s.sessions[1]? = some x ∧ x.unwritten = [33] ∧ x.Echoing [33] := by
  have hrun : run (step server03) Loop.listening twoSessions = some _ := rfl
  have hechoed := sessions_echo hrun (i := 1) rfl
  exact ⟨_, _, hrun, rfl, rfl, hechoed.1⟩

/-- In every run of the server, a handler is kept in `storage_` if it is small enough, and on the
heap otherwise: a session whose handlers are all small never asks the heap. What is in use is what
the operation outstanding holds, everything else has been given back, and `storage_` is never
deleted; and the session is one of those of the allocator. -/
theorem handlers_placed (h : run (step server03) Loop.listening es = some s) {i : Nat}
    {x : EchoSession} (hx : s.sessions[i]? = some x) :
    x.Placed server03 ∧
    ((∀ b ∈ x.asked, b.size < 128) → ∀ p ∈ x.allocator_.obtained, p = .storage) ∧
    Reachable (Session.step server03) {} x.handlers := by
  obtain ⟨init, c, -, hc, hrun⟩ := (Loop.recorded_run h).alive i x hx
  have hplaced := EchoSession.placed_run rfl hc hrun
  refine ⟨hplaced, fun hsmall p hp => ?_, EchoSession.handlers_run (EchoSession.handlers_started hc)
    hrun⟩
  rw [hplaced.obtained, List.mem_map] at hp
  obtain ⟨b, hb, rfl⟩ := hp
  exact if_pos (hsmall b hb)

/-- The handler of the first write is too large, and the next one is in `storage_` again. -/
theorem handlers_placed_first : ∃ s x,
    run (step server03) Loop.listening twoSessions = some s ∧ s.sessions[0]? = some x ∧
    x.allocator_.obtained = [.storage, .heap 7, .storage, .storage] ∧ x.Placed server03 := by
  have hrun : run (step server03) Loop.listening twoSessions = some _ := rfl
  have hplaced := handlers_placed hrun (i := 0) rfl
  exact ⟨_, _, hrun, rfl, rfl, hplaced.1⟩

end EchoServer

end AsioTest.Alloc
