import AsioTest.ActionRequestHandler
import AsioTest.SqlLiterals

/-!
The statements that the action server puts together from what a client sends. The values stand
between quotes as they are, so that the database reads them as they were sent only when they need
no escapes; and the last literal of the statement that inserts a user is never closed.
-/

namespace AsioTest.Action

open ByteStrings SqlLiterals

def secretStatement (id pwd : Bytes) : List Piece :=
  [.text (ascii "select secret from Users where id="), .field id, .text (ascii " && pwd="),
    .field pwd, .text (ascii ";")]

def idStatement (secret : Bytes) : List Piece :=
  [.text (ascii "select uid from Users where scr="), .field secret, .text (ascii ";")]

/-- The statement that the text of `insert_new_user` is meant to be. -/
def insertStatement (id pwd scr : Bytes) : List Piece :=
  [.text (ascii "insert into (id,pwd,scr)values("), .field id, .text (ascii ", "), .field pwd,
    .text (ascii ", "), .field scr, .text (ascii ");")]

/-- The statement that it is: what stands behind `scr` belongs to the literal. -/
def unclosedStatement (id pwd scr : Bytes) : List Piece :=
  [.text (ascii "insert into (id,pwd,scr)values("), .field id, .text (ascii ", "), .field pwd,
    .text (ascii ", "), .unclosed (scr ++ ascii ");")]

theorem secretQuery_eq (id pwd : Bytes) : secretQuery id pwd = render (secretStatement id pwd) := by
  have hfirst : ascii "select secret from Users where id='" =
    ascii "select secret from Users where id=" ++ [quote] := by decide
  have hsecond : ascii "' && pwd='" = quote :: ascii " && pwd=" ++ [quote] := by decide
  have hlast : ascii "';" = quote :: ascii ";" := by decide
  simp [secretQuery, render, secretStatement, Piece.render, hfirst, hsecond, hlast]

theorem idQuery_eq (secret : Bytes) : idQuery secret = render (idStatement secret) := by
  have hfirst : ascii "select uid from Users where scr='" =
    ascii "select uid from Users where scr=" ++ [quote] := by decide
  have hlast : ascii "';" = quote :: ascii ";" := by decide
  simp [idQuery, render, idStatement, Piece.render, hfirst, hlast]

theorem insertQuery_eq (id pwd scr : Bytes) :
    insertQuery id pwd scr = render (unclosedStatement id pwd scr) := by
  have hfirst : ascii "insert into (id,pwd,scr)values('" =
    ascii "insert into (id,pwd,scr)values(" ++ [quote] := by decide
  have hsecond : ascii "', '" = quote :: ascii ", " ++ [quote] := by decide
  simp [insertQuery, render, unclosedStatement, Piece.render, hfirst, hsecond]

theorem mem_toString {time : Int} {b : Byte} (h : b ∈ toString time) :
    IsDigit b ∨ b = chr '-' := by
  unfold toString at h
  split_ifs at h
  · rcases List.mem_cons.mp h with heq | hmem
    · exact Or.inr heq
    · exact Or.inl (isDigit_of_mem_decimal hmem)
  · exact Or.inl (isDigit_of_mem_decimal h)

/-- What stands behind the last quote needs no escapes. -/
theorem plain_unclosed (time : Int) : Plain (toString time ++ ascii ");") := by
  refine isPlain_append (plain_of_notMem (fun h => ?_) fun h => ?_) (by decide)
  · rcases mem_toString h with hdigit | heq
    · exact absurd hdigit (by decide)
    · cases heq
  · rcases mem_toString h with hdigit | heq
    · exact absurd hdigit (by decide)
    · cases heq

theorem secretStatement_readable (id pwd : Bytes) : Readable (secretStatement id pwd) := by
  refine ⟨?_, fun _ hv => absurd hv List.not_mem_nil⟩
  simp only [secretStatement, WellSeparated]
  decide

theorem idStatement_readable (secret : Bytes) : Readable (idStatement secret) := by
  refine ⟨?_, fun _ hv => absurd hv List.not_mem_nil⟩
  simp only [idStatement, WellSeparated]
  decide

theorem unclosedStatement_readable (id pwd : Bytes) (time : Int) :
    Readable (unclosedStatement id pwd (toString time)) := by
  refine ⟨?_, fun v hv => ?_⟩
  · simp only [unclosedStatement, WellSeparated]
    decide
  · cases List.mem_singleton.mp hv
    exact plain_unclosed time

theorem secret_carries_iff {id pwd id' pwd' : Bytes} (hid : Plain id') (hpwd : Plain pwd') :
    Carries (secretQuery id pwd) [id, pwd] (secretQuery id' pwd') ↔ Plain id ∧ Plain pwd := by
  rw [secretQuery_eq, secretQuery_eq]
  refine (carries_iff (secretStatement_readable id pwd) (secretStatement_readable id' pwd') ?_
    rfl).trans ?_
  · simp [secretStatement, fields, hid, hpwd]
  · simp [secretStatement, fields]

theorem id_carries_iff {secret secret' : Bytes} (hsecret : Plain secret') :
    Carries (idQuery secret) [secret] (idQuery secret') ↔ Plain secret := by
  rw [idQuery_eq, idQuery_eq]
  refine (carries_iff (idStatement_readable secret) (idStatement_readable secret') ?_ rfl).trans ?_
  · simp [idStatement, fields, hsecret]
  · simp [idStatement, fields]

theorem insert_carries_iff {id pwd id' pwd' : Bytes} (time : Int) (hid : Plain id')
    (hpwd : Plain pwd') : Carries (insertQuery id pwd (toString time)) [id, pwd]
      (insertQuery id' pwd' (toString time)) ↔ Plain id ∧ Plain pwd := by
  rw [insertQuery_eq, insertQuery_eq]
  refine (carries_iff (unclosedStatement_readable id pwd time)
    (unclosedStatement_readable id' pwd' time) ?_ rfl).trans ?_
  · simp [unclosedStatement, fields, hid, hpwd]
  · simp [unclosedStatement, fields]

/-- Closing the last literal would have taken one byte more. -/
theorem insert_not_meant (id pwd scr : Bytes) :
    tokenize (insertQuery id pwd scr) ≠ meant (insertStatement id pwd scr) := by
  intro heq
  have hle := size_tokens_le none (insertQuery id pwd scr)
  rw [← tokenize, heq, size_meant, toRead_none] at hle
  have hlength : (render (insertStatement id pwd scr)).length =
      (insertQuery id pwd scr).length + 1 := by
    have hlast : (ascii ");").length = 2 := by decide
    rw [insertQuery_eq]
    simp [render, insertStatement, unclosedStatement, Piece.render]
    omega
  omega

/-- The statements of `get_secret` and `get_id` carry what the client sent, with everything else as
for other plain values, if and only if it is plain; so do the two literals of the client in the
statement of `insert_new_user`, whose last literal is never the secret. -/
theorem statements_carry_iff (id pwd secret : Bytes) (time : Int) :
    (∀ id' pwd', Plain id' → Plain pwd' →
      (Carries (secretQuery id pwd) [id, pwd] (secretQuery id' pwd') ↔ Plain id ∧ Plain pwd)) ∧
    (∀ secret', Plain secret' →
      (Carries (idQuery secret) [secret] (idQuery secret') ↔ Plain secret)) ∧
    (∀ id' pwd', Plain id' → Plain pwd' →
      (Carries (insertQuery id pwd (toString time)) [id, pwd]
        (insertQuery id' pwd' (toString time)) ↔ Plain id ∧ Plain pwd)) ∧
    tokenize (insertQuery id pwd (toString time)) ≠
      meant (insertStatement id pwd (toString time)) :=
  ⟨fun _ _ hid hpwd => secret_carries_iff hid hpwd,
    fun _ hsecret => id_carries_iff hsecret,
    fun _ _ hid hpwd => insert_carries_iff time hid hpwd,
    insert_not_meant id pwd (toString time)⟩

/-- Plain values, against other ones. -/
theorem statements_carry_iff_plain :
    Carries (secretQuery (ascii "kim") (ascii "pw")) [ascii "kim", ascii "pw"]
      (secretQuery (ascii "eve") (ascii "key")) ∧
    Carries (idQuery (ascii "100")) [ascii "100"] (idQuery (ascii "2")) ∧
    Carries (insertQuery (ascii "kim") (ascii "pw") (toString 100)) [ascii "kim", ascii "pw"]
      (insertQuery (ascii "eve") (ascii "key") (toString 100)) := by
  obtain ⟨hsecret, hid, hinsert, -⟩ :=
    statements_carry_iff (ascii "kim") (ascii "pw") (ascii "100") 100
  refine ⟨(hsecret _ _ ?_ ?_).mpr ?_, (hid _ ?_).mpr ?_, (hinsert _ _ ?_ ?_).mpr ?_⟩ <;> decide

/-- A password that turns the condition into one that always holds. -/
def alwaysTrue : Bytes := ascii "' || '1'='1"

theorem alwaysTrue_not_carried :
    ¬ Carries (secretQuery (ascii "kim") alwaysTrue) [ascii "kim", alwaysTrue]
      (secretQuery (ascii "kim") (ascii "pw")) := by
  rw [secret_carries_iff (by decide) (by decide)]
  decide

end AsioTest.Action
