import AsioTest.AsyncSocket
import AsioTest.HttpHandlerPaths
import AsioTest.TransitionRuns

/-!
One connection of `http_server`: its read and write handlers, and what it does with a byte stream
that arrives in pieces. `consumed` counts the bytes handed to `consume` and `issued` lists the
operations started so far; the handlers do not look at either.
-/

namespace AsioTest.Http

open ByteStrings AsyncSocket TransitionRuns

/-- What the handler serves: the file system and the `doc_root` of the server. -/
structure Site where
  files : FileSystem
  docRoot : Bytes

inductive IoOp where
  | readSome
  | write (buffers : List ConstBuffer)
  deriving DecidableEq

structure Connection where
  socket_ : Socket IoOp := {}
  buffer_ : Bytes := List.replicate 8192 0
  request_ : Request := {}
  requestParser_ : ParserState := .methodStart
  reply_ : Reply := {}
  consumed : Nat := 0
  issued : List IoOp := []

def Connection.doRead (c : Connection) : Connection :=
  { c with socket_ := c.socket_.issue .readSome, issued := c.issued ++ [.readSome] }

def Connection.doWrite (c : Connection) : Connection :=
  { c with
    socket_ := c.socket_.issue (.write c.reply_.toBuffers)
    issued := c.issued ++ [.write c.reply_.toBuffers] }

def Connection.start (c : Connection) : Connection := c.doRead

def Connection.stop (c : Connection) : Connection := { c with socket_ := c.socket_.close }

/-- The bytes of a completed read stand at the front of `buffer_`. -/
def Connection.fill (c : Connection) (bytes : Bytes) : Connection :=
  { c with buffer_ := bytes ++ c.buffer_.drop bytes.length }

/-- What the read handler does after `parse`. -/
def Connection.onParsed (site : Site) (c : Connection) (r : ParseResult) : Connection :=
  let c := { c with requestParser_ := r.state_, request_ := r.req }
  match r.result with
  | .good =>
      { c with
        reply_ := (handleRequest site.files site.docRoot c.request_ c.reply_).rep }.doWrite
  | .bad => { c with reply_ := stockReply .badRequest }.doWrite
  | .indeterminate => c.doRead

/-- The read handler; the flag says that it calls `connection_manager_.stop`. -/
def Connection.onRead (site : Site) (c : Connection) : Completion Bytes → Connection × Bool
  | .success bytes =>
      let c := c.fill bytes
      let r := parse c.requestParser_ c.request_ (c.buffer_.take bytes.length)
      ({ c with consumed := c.consumed + (bytes.length - r.rest.length) }.onParsed site r, false)
  | .aborted => (c, false)
  | .failed => (c, true)

/-- The write handler; shutting the socket down first does not close it. -/
def Connection.onWrite (c : Connection) : Completion Bytes → Connection × Bool
  | .success _ => (c, true)
  | .aborted => (c, false)
  | .failed => (c, true)

/-- A read that succeeds has stored at least one byte and at most the size of `buffer_`. -/
def Fits : Completion Bytes → Prop
  | .success bytes => bytes ≠ [] ∧ bytes.length ≤ 8192
  | _ => True

instance (r : Completion Bytes) : Decidable (Fits r) := by
  cases r <;> unfold Fits <;> infer_instance

/-- The `k`-th outstanding operation completes and its handler runs. -/
def Connection.complete (site : Site) (c : Connection) (k : Nat) (r : Completion Bytes) :
    Option (Connection × Bool) :=
  match c.socket_.finish k r with
  | some (.readSome, socket) =>
      if Fits r then some ({ c with socket_ := socket }.onRead site r) else none
  | some (.write _, socket) => some ({ c with socket_ := socket }.onWrite r)
  | none => none

/-- A connection by itself: `connection_manager_.stop` closes the socket. -/
def Connection.step (site : Site) (c : Connection) (e : Nat × Completion Bytes) :
    Option Connection :=
  (c.complete site e.1 e.2).map fun d => if d.2 then d.1.stop else d.1

def Connection.started : Connection := ({} : Connection).start

/-! ### What a completion does -/

/-- After `parse` the connection starts one operation: another read, or the write of its reply. -/
theorem onParsed_issue (site : Site) (c : Connection) (r : ParseResult) :
    ∃ op, (c.onParsed site r).socket_ = c.socket_.issue op ∧
      (c.onParsed site r).issued = c.issued ++ [op] ∧
      (op = .readSome ∨ op = .write (c.onParsed site r).reply_.toBuffers) := by
  cases hresult : r.result with
  | good =>
      simp only [Connection.onParsed, hresult]
      exact ⟨_, rfl, rfl, Or.inr rfl⟩
  | bad =>
      simp only [Connection.onParsed, hresult]
      exact ⟨_, rfl, rfl, Or.inr rfl⟩
  | indeterminate =>
      simp only [Connection.onParsed, hresult]
      exact ⟨_, rfl, rfl, Or.inl rfl⟩

/-- The connection with nothing outstanding. -/
def Connection.drained (c : Connection) : Connection :=
  { c with socket_ := { c.socket_ with pending := [] } }

/-- The only outstanding operation completes: the handler stops the connection, or lets it go since
its socket is closed, or it follows a read that was started on the open socket and starts the next
operation. -/
theorem complete_single {site : Site} {c : Connection} {p : Pending IoOp} {k : Nat}
    {r : Completion Bytes} {d : Connection × Bool} (hp : c.socket_.pending = [p])
    (h : c.complete site k r = some d) :
    d = (c.drained, true) ∨ (d = (c.drained, false) ∧ c.socket_.isOpen = false) ∨
      ∃ e op, d = (e, false) ∧ p.op = .readSome ∧ e.socket_ = c.drained.socket_.issue op ∧
        e.issued = c.issued ++ [op] ∧ (op = .readSome ∨ op = .write e.reply_.toBuffers) ∧
        p.onOpen = true := by
  rw [Connection.complete] at h
  split at h
  next socket hfinish =>
    obtain ⟨hop, hpossible, rfl⟩ := Socket.finish_single hp hfinish
    split_ifs at h
    cases h
    cases r with
    | success bytes =>
        obtain ⟨op, hsocket, hissued, hkind⟩ := onParsed_issue site _ _
        exact Or.inr (Or.inr ⟨_, op, rfl, hop, hsocket, hissued, hkind, hpossible⟩)
    | aborted => exact Or.inr (Or.inl ⟨rfl, Pending.closed_of_aborted hpossible⟩)
    | failed => exact Or.inl rfl
  next buffers socket hfinish =>
    obtain ⟨-, hpossible, rfl⟩ := Socket.finish_single hp hfinish
    cases h
    cases r with
    | success bytes => exact Or.inl rfl
    | aborted => exact Or.inr (Or.inl ⟨rfl, Pending.closed_of_aborted hpossible⟩)
    | failed => exact Or.inl rfl
  next => cases h

theorem complete_nil {site : Site} {c : Connection} (hp : c.socket_.pending = []) (k : Nat)
    (r : Completion Bytes) : c.complete site k r = none := by
  rw [Connection.complete, Socket.finish_nil hp]

/-! ### A stream in pieces -/

/-- A byte stream cut into read completions. -/
structure Cutting (s : Bytes) where
  chunks : List Bytes
  flatten_chunks : chunks.flatten = s
  fits : ∀ chunk ∈ chunks, Fits (.success chunk)

/-- A read is outstanding. -/
def Connection.reading (c : Connection) : Bool :=
  c.socket_.pending.any fun p => p.op = .readSome

/-- Each piece completes the outstanding read; without one it is left in the socket. -/
def Connection.receive (site : Site) (c : Connection) (chunks : List Bytes) : Connection :=
  chunks.foldl (fun c chunk =>
    if c.reading then (c.step site (0, .success chunk)).getD c else c) c

def serve (site : Site) {s : Bytes} (cutting : Cutting s) : Connection :=
  Connection.started.receive site cutting.chunks

/-- `do_write` has been called. -/
def Connection.Replied (c : Connection) : Prop := ∃ buffers, IoOp.write buffers ∈ c.issued

/-- The reply the read handler leaves when `parse` decides. -/
def replyTo (site : Site) (r : ParseResult) (rep : Reply) : Reply :=
  match r.result with
  | .good => (handleRequest site.files site.docRoot r.req rep).rep
  | _ => stockReply .badRequest

/-- The connection waits for its one read. -/
def Connection.Waiting (c : Connection) : Prop :=
  c.socket_ = ⟨true, [⟨.readSome, true⟩]⟩

theorem started_waiting : Connection.started.Waiting := rfl

variable {site : Site} {c : Connection}

@[simp] theorem fill_take (bytes : Bytes) :
    (c.fill bytes).buffer_.take bytes.length = bytes := by
  simp [Connection.fill]

theorem Connection.Waiting.reading (h : c.Waiting) : c.reading = true := by
  rw [Connection.reading, h]
  rfl

/-- A waiting connection parses the next piece and acts on the result. -/
theorem Connection.Waiting.step (h : c.Waiting) {chunk : Bytes} (hfits : Fits (.success chunk)) :
    c.step site (0, .success chunk) = some (({ c.fill chunk with
      socket_ := ⟨true, []⟩
      consumed := c.consumed +
        (chunk.length - (parse c.requestParser_ c.request_ chunk).rest.length) }).onParsed site
      (parse c.requestParser_ c.request_ chunk)) := by
  have hfinish : c.socket_.finish 0 (Completion.success chunk) = some (.readSome, ⟨true, []⟩) := by
    rw [h]
    rfl
  simp only [Connection.step, Connection.complete, hfinish, if_pos hfits, Connection.onRead,
    Option.map_some]
  rw [fill_take]
  rfl

theorem receive_cons_waiting (h : c.Waiting) {chunk : Bytes} (hfits : Fits (.success chunk))
    (chunks : List Bytes) : c.receive site (chunk :: chunks) =
      (({ c.fill chunk with
        socket_ := ⟨true, []⟩
        consumed := c.consumed +
          (chunk.length - (parse c.requestParser_ c.request_ chunk).rest.length) }).onParsed site
        (parse c.requestParser_ c.request_ chunk)).receive site chunks := by
  simp only [Connection.receive, List.foldl_cons, if_pos h.reading, h.step hfits, Option.getD_some]

/-- A connection that no longer reads ignores what arrives. -/
theorem receive_not_reading (h : c.reading = false) (chunks : List Bytes) :
    c.receive site chunks = c := by
  have hnot : ¬ c.reading = true := Bool.eq_false_iff.mp h
  rw [Connection.receive]
  exact List.foldl_fixed' (fun _ => if_neg hnot) chunks

end AsioTest.Http
