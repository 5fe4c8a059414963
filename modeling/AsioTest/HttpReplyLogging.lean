import AsioTest.HttpConnection

/-!
The log of a reply. Before `do_write` starts the write it logs each buffer of the reply as a string
that begins where the buffer does, without its size, so that the end of the string is looked for in
the object the buffer points into. The strings end in a NUL; the two arrays of `misc_strings` do
not, and every reply has a buffer in one of them.
-/

namespace AsioTest.Http

open ByteStrings

/-- The loop of `do_write`; `none` when the end of a string is not found in its object. -/
def logBuffers : List ConstBuffer → Option (List Bytes)
  | [] => some []
  | cb :: data =>
      (readCString cb.object).bind fun text => (logBuffers data).map (text :: ·)

/-- What `do_write` logs. -/
def Connection.logReply (c : Connection) : Option (List Bytes) := logBuffers c.reply_.toBuffers

/-- There is a NUL in the object the buffer points into. -/
def ConstBuffer.Terminated (cb : ConstBuffer) : Prop := (0 : Byte) ∈ cb.object

instance (cb : ConstBuffer) : Decidable cb.Terminated := inferInstanceAs (Decidable (_ ∈ _))

/-- Every scan ends in its object. -/
def Reply.LogsInside (rep : Reply) : Prop := ∀ cb ∈ rep.toBuffers, cb.Terminated

/-- The log is written to its end exactly when every scan ends in its object. -/
theorem logBuffers_isSome_iff {data : List ConstBuffer} :
    (logBuffers data).isSome ↔ ∀ cb ∈ data, cb.Terminated := by
  induction data with
  | nil => exact iff_of_true rfl fun cb hcb => absurd hcb List.not_mem_nil
  | cons cb data ih =>
      rw [List.forall_mem_cons, ← ih, logBuffers]
      cases hread : readCString cb.object with
      | none => exact iff_of_false Bool.false_ne_true fun h => readCString_eq_none_iff.mp hread h.1
      | some text =>
          have hcb : cb.Terminated := by
            by_contra hnot
            rw [readCString_eq_none_iff.mpr hnot] at hread
            cases hread
          rw [and_iff_right hcb, Option.bind_some, Option.isSome_map]

/-! ### The buffers of a reply -/

theorem stringBuffer_terminated (s : Bytes) : (stringBuffer s).Terminated :=
  List.mem_append_right s List.mem_cons_self

theorem crlf_not_terminated : ¬ (arrayBuffer MiscStrings.crlf).Terminated := by decide

/-- The separator and the line end of a header. -/
theorem countP_headerBuffers (h : Header) :
    (headerBuffers h).countP (fun cb => ¬ cb.Terminated) = 2 := by
  have hseparator : ¬ (arrayBuffer MiscStrings.nameValueSeparator).Terminated := by decide
  simp [headerBuffers, stringBuffer_terminated, hseparator, crlf_not_terminated]

/-- Two buffers of each header have no NUL, and the one of the line behind the headers. -/
theorem countP_not_terminated (rep : Reply) :
    rep.toBuffers.countP (fun cb => ¬ cb.Terminated) = 2 * rep.headers.length + 1 := by
  have hheaders : ∀ headers : List Header,
      (headers.flatMap headerBuffers).countP (fun cb => ¬ cb.Terminated) = 2 * headers.length := by
    intro headers
    induction headers with
    | nil => rfl
    | cons h headers ih =>
        rw [List.flatMap_cons, List.countP_append, countP_headerBuffers, ih, List.length_cons]
        omega
  rw [Reply.toBuffers, List.cons_append, List.countP_cons, List.countP_append, hheaders,
    StatusStrings.toBuffer]
  simp [stringBuffer_terminated, crlf_not_terminated]

theorem not_logsInside (rep : Reply) : ¬ rep.LogsInside := by
  intro hinside
  have hzero : rep.toBuffers.countP (fun cb => ¬ cb.Terminated) = 0 :=
    List.countP_eq_zero.mpr fun cb hcb => by simpa using hinside cb hcb
  rw [countP_not_terminated] at hzero
  exact Nat.succ_ne_zero _ hzero

/-- Whatever the reply is, a scan reads past the end of an object, and the log is not written to
its end. -/
theorem reply_log_outside (c : Connection) : ¬ c.reply_.LogsInside ∧ c.logReply = none := by
  refine ⟨not_logsInside c.reply_, ?_⟩
  rw [Connection.logReply, ← Option.not_isSome_iff_eq_none, logBuffers_isSome_iff]
  exact not_logsInside c.reply_

/-- The log of the reply to a request that is not well formed: behind the first name there is no
NUL. -/
theorem badRequest_log_outside : ¬ (stockReply .badRequest).LogsInside := by
  intro hinside
  have hmem : arrayBuffer MiscStrings.nameValueSeparator ∈ (stockReply .badRequest).toBuffers := by
    decide +kernel
  exact absurd (hinside _ hmem) (by decide)

end AsioTest.Http
