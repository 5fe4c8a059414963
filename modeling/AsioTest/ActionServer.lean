import AsioTest.ActionAnswers
import AsioTest.ComponentRuns
import Mathlib.Data.Finset.Basic

/-!
The action server as a whole: acceptor, signals, `connection_manager` and any number of connections,
which share one `request_handler` and with it the database. The write of a reply is commented out,
so that a connection that has answered has nothing outstanding and is not stopped by anything but
the signal. An exception of the request handler leaves `ios.run()`, after which no handler runs.

A connection is destroyed when nothing refers to it any more, and with it the strings of its
request, over which `parse` has copied what was read. A handler that copies past the request, or
destroys a string that would free what it has not allocated, is an undefined step.
-/

namespace AsioTest.Action

open ByteStrings MemoryImages AsyncSocket TransitionRuns

variable {σ : Type}

/-! ### The strings of a request -/

/-- The members of a request with a destructor. -/
def stringOffsets : List Nat := [idOffset, pwdOffset, secretOffset]

/-- A new request: its constructor has made the strings empty, with their texts in their own
buffers, and has left the other members of the memory at `address` as they were. -/
structure NewRequest where
  address : Nat
  memory : Memory
  empty : ∀ offset ∈ stringOffsets, stringSize memory offset = 0
  ownText : ∀ offset ∈ stringOffsets, littleEndian memory offset 8 = address + offset + 16

/-- Destroying the request at `address` frees nothing: the text of each string is in its own buffer,
or nowhere. No string of a request ever allocates, so that any other text is not its own. -/
def FreesNothing (address : Nat) (req : Memory) : Prop :=
  ∀ offset ∈ stringOffsets,
    littleEndian req offset 8 = address + offset + 16 ∨ littleEndian req offset 8 = 0

instance (address : Nat) (req : Memory) : Decidable (FreesNothing address req) :=
  inferInstanceAs (Decidable (∀ offset ∈ stringOffsets, _))

theorem NewRequest.freesNothing (request_ : NewRequest) :
    FreesNothing request_.address request_.memory :=
  fun offset hoffset => Or.inl (request_.ownText offset hoffset)

/-! ### Connections -/

/-- A `connection` with its `socket_`, on which it only ever reads, and the address of its
`request_`. -/
structure SocketConnection (σ : Type) extends ServerConnection σ where
  socket_ : Socket Unit := {}
  address : Nat

namespace SocketConnection

def start (c : SocketConnection σ) : SocketConnection σ :=
  { c with toServerConnection := c.toServerConnection.start, socket_ := c.socket_.issue () }

def stop (c : SocketConnection σ) : SocketConnection σ :=
  { c with toServerConnection := c.toServerConnection.stop, socket_ := c.socket_.close }

/-- The read handler on the shared database; `socket` is what the completion has left. -/
def onRead (host : Host σ) (database : σ) (socket : Socket Unit) (r : Completion Bytes)
    (c : SocketConnection σ) : SocketConnection σ :=
  let d := { c.toServerConnection with database := database }.onRead host r
  { c with
    toServerConnection := d
    socket_ := if d.phase = .reading then socket.issue () else socket }

/-- A new connection, with its new request. -/
def started (request_ : NewRequest) (database : σ) : SocketConnection σ :=
  start { ServerConnection.accepted request_.memory database with
    socket_ := {}
    address := request_.address }

/-- The connection can be destroyed. -/
def Disposable (c : SocketConnection σ) : Prop := FreesNothing c.address c.request_

instance (c : SocketConnection σ) : Decidable c.Disposable :=
  inferInstanceAs (Decidable (FreesNothing _ _))

end SocketConnection

/-- `signalWait` says that the `async_wait` of the signals is outstanding, and `running` that
`ios.run()` has not been left by an exception. -/
structure Server (σ : Type) where
  acceptor_ : Socket Unit := {}
  signalWait : Bool := true
  started : List (SocketConnection σ) := []
  connections_ : Finset Nat := ∅
  database : σ
  running : Bool := true

/-- With an accepted connection comes its new request, with a read the time and the memory of the
process at that moment. -/
inductive ServerEvent where
  | accept (k : Nat) (r : Completion Unit) (request_ : NewRequest)
  | read (i k : Nat) (r : Completion Bytes) (time : Int) (process : Memory)
  | signal

namespace Server

/-! ### Connection manager -/

/-- `connection_manager::start` of a new connection. -/
def managerStart (s : Server σ) (request_ : NewRequest) : Server σ :=
  { s with
    connections_ := insert s.started.length s.connections_
    started := s.started ++ [.started request_ s.database] }

/-- `connection_manager::stop` -/
def managerStop (s : Server σ) (i : Nat) : Server σ :=
  { s with
    connections_ := s.connections_.erase i
    started := s.started.modify i SocketConnection.stop }

/-- `connection_manager::stop_all`; which connections `clear()` destroys `Disposes` says. -/
def managerStopAll (s : Server σ) : Server σ :=
  { s with
    started := s.started.mapIdx fun i c => if i ∈ s.connections_ then c.stop else c
    connections_ := ∅ }

/-! ### Handlers -/

def doAccept (s : Server σ) : Server σ := { s with acceptor_ := s.acceptor_.issue () }

def onAccept (s : Server σ) (r : Completion Unit) (request_ : NewRequest) : Server σ :=
  if !s.acceptor_.isOpen then s
  else
    match r with
    | .success _ => (s.managerStart request_).doAccept
    | _ => s.doAccept

def onSignal (s : Server σ) : Server σ :=
  { s with acceptor_ := s.acceptor_.close }.managerStopAll

/-- The read handler of the connection `c` at position `i`. Of a read that is copied past the
request it says only what becomes of the request; `step` calls it undefined. -/
def onRead (s : Server σ) (host : Host σ) (i : Nat) (c : SocketConnection σ)
    (socket : Socket Unit) (r : Completion Bytes) : Server σ :=
  let c := c.onRead host s.database socket r
  let s := { s with
    started := s.started.set i c
    database := c.database
    running := decide (c.phase ≠ .threw) }
  match r with
  | .failed => s.managerStop i
  | _ => s

/-- What the handler of an event does. -/
def handle (conn : Connection σ) (s : Server σ) (e : ServerEvent) : Option (Server σ) :=
  if !s.running then none
  else
    match e with
    | .accept k r request_ =>
        (s.acceptor_.finish k r).map fun p => { s with acceptor_ := p.2 }.onAccept r request_
    | .read i k r time process =>
        match s.started[i]? with
        | none => none
        | some c => (c.socket_.finish k r).map fun p => s.onRead ⟨conn, time, process⟩ i c p.2 r
    | .signal => if s.signalWait then some { s with signalWait := false }.onSignal else none

/-- The server after its constructor. -/
def listening (database : σ) : Server σ := doAccept { database := database }

/-! ### Defined steps -/

/-- What is read is not copied past the request. -/
def Fits : ServerEvent → Prop
  | .read _ _ (.success bytes) _ _ => bytes.length ≤ requestSize
  | _ => True

instance (e : ServerEvent) : Decidable (Fits e) := by
  unfold Fits
  split <;> infer_instance

/-- Something refers to the connection at position `i`: `connections_`, or the handler of its
read. -/
def Held (s : Server σ) (i : Nat) : Prop :=
  i ∈ s.connections_ ∨ ∃ c ∈ s.started[i]?, c.socket_.pending ≠ []

instance (s : Server σ) (i : Nat) : Decidable (s.Held i) := inferInstanceAs (Decidable (_ ∨ _))

/-- The connections that nothing refers to any more can be destroyed. -/
def Disposes (s t : Server σ) : Prop :=
  ∀ i < t.started.length, s.Held i → ¬ t.Held i → ∀ c ∈ t.started[i]?, c.Disposable

instance (s t : Server σ) : Decidable (s.Disposes t) :=
  inferInstanceAs (Decidable (∀ i < t.started.length, _))

/-- The handler of `e` leads from `s` to `t` and writes and frees no memory but its own. -/
def Sound (s : Server σ) (e : ServerEvent) (t : Server σ) : Prop := Fits e ∧ s.Disposes t

instance (s : Server σ) (e : ServerEvent) (t : Server σ) : Decidable (Sound s e t) :=
  inferInstanceAs (Decidable (_ ∧ _))

/-- The handler of an event, whose behaviour is defined when it is sound. -/
def step (conn : Connection σ) :
    Behaviour (Server σ) → ServerEvent → Option (Behaviour (Server σ)) :=
  checked (handle conn) Sound

end Server

end AsioTest.Action
