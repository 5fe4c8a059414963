import AsioTest.ByteStrings

/-!
The action server's `request_handler`. The database is behind `sql::Connection`, which is a
parameter: each call of it may throw, and changes a state of its own. A reply whose `status` has
not been assigned has none.
-/

namespace AsioTest.Action

open ByteStrings

/-- `request::method_type` -/
inductive MethodType where
  | logIn
  | logOut
  | signIn
  | getUserGps
  | getItemGps
  | sendUserGps
  deriving DecidableEq

/-- The enumerator with a number, for any number the field may hold. -/
def MethodType.ofNumber (v : UInt32) : Option MethodType :=
  match v.toNat with
  | 0 => some .logIn
  | 1 => some .logOut
  | 2 => some .signIn
  | 3 => some .getUserGps
  | 4 => some .getItemGps
  | 5 => some .sendUserGps
  | _ => none

/-- What the request handler reads of a request. -/
structure Request where
  method : UInt32
  id : Bytes
  pwd : Bytes
  secret : Bytes
  deriving DecidableEq

/-- `reply::status_type` -/
inductive StatusType where
  | ok
  | created
  | badRequest
  | notFound
  | serviceUnavailable
  deriving DecidableEq

structure Reply where
  status : Option StatusType := none
  secret : Bytes := []
  deriving DecidableEq

/-! ### The database -/

/-- `sql::ResultSet`, as far as it is read; `none` is an exception. -/
structure ResultSet where
  getString : Bytes → Option Bytes
  getInt : Bytes → Option Int

/-- `sql::Connection` and its statements; `none` is an exception. -/
structure Connection (σ : Type) where
  setSchema : Bytes → σ → Option σ
  executeQuery : Bytes → σ → Option (ResultSet × σ)

variable {σ : Type} (conn : Connection σ)

/-- `db_conn::setQuery` -/
def setQuery (schema query : Bytes) (s : σ) : Option (ResultSet × σ) :=
  (conn.setSchema schema s).bind fun s => conn.executeQuery query s

/-- `std::to_string` of an integer. -/
def toString (v : Int) : Bytes :=
  if v < 0 then chr '-' :: decimal v.natAbs else decimal v.natAbs

def secretQuery (id pwd : Bytes) : Bytes :=
  ascii "select secret from Users where id='" ++ id ++ ascii "' && pwd='" ++ pwd ++ ascii "';"

def idQuery (secret : Bytes) : Bytes :=
  ascii "select uid from Users where scr='" ++ secret ++ ascii "';"

/-- The literal of `scr` is not closed. -/
def insertQuery (id pwd scr : Bytes) : Bytes :=
  ascii "insert into (id,pwd,scr)values('" ++ id ++ ascii "', '" ++ pwd ++ ascii "', '" ++ scr ++
    ascii ");"

def getSecret (id pwd : Bytes) (s : σ) : Option (Bytes × σ) := do
  let (rs, s) ← setQuery conn (ascii "action") (secretQuery id pwd) s
  let secret ← rs.getString (ascii "scr")
  return (secret, s)

def getId (secret : Bytes) (s : σ) : Option (Bytes × σ) := do
  let (rs, s) ← setQuery conn (ascii "action") (idQuery secret) s
  let uid ← rs.getInt (ascii "uid")
  return (toString uid, s)

/-- `time` is what `std::time` returns. -/
def insertNewUser (time : Int) (id pwd : Bytes) (s : σ) : Option σ :=
  (setQuery conn (ascii "action") (insertQuery id pwd (toString time)) s).map Prod.snd

/-! ### The handler -/

/-- The branch of `log_in`, `get_user_gps` and `get_item_gps`. -/
def answerBySecret (req : Request) (rep : Reply) (s : σ) : Option (Reply × σ) := do
  let (secret, s) ← getSecret conn req.id req.pwd s
  let status := if req.secret.isEmpty then StatusType.badRequest else .ok
  return ({ rep with secret := secret, status := some status }, s)

/-- The branch of `log_out` and `send_user_gps`. -/
def answerById (req : Request) (rep : Reply) (s : σ) : Option (Reply × σ) := do
  let (uid, s) ← getId conn req.secret s
  let status := if uid.isEmpty then StatusType.badRequest else .ok
  return ({ rep with status := some status }, s)

/-- The branch of `sign_in`. -/
def answerSignIn (time : Int) (req : Request) (rep : Reply) (s : σ) : Option (Reply × σ) := do
  let (secret, s) ← getSecret conn req.id req.pwd s
  let s ← if req.secret.isEmpty then insertNewUser conn time req.id req.pwd s else some s
  let status := if req.secret.isEmpty then StatusType.created else .badRequest
  return ({ rep with secret := secret, status := some status }, s)

/-- A number that is no enumerator reaches no branch. -/
def handleRequest (time : Int) (req : Request) (rep : Reply) (s : σ) : Option (Reply × σ) :=
  match MethodType.ofNumber req.method with
  | some .logIn => answerBySecret conn req rep s
  | some .logOut => answerById conn req rep s
  | some .signIn => answerSignIn conn time req rep s
  | some .getUserGps => answerBySecret conn req rep s
  | some .getItemGps => answerBySecret conn req rep s
  | some .sendUserGps => answerById conn req rep s
  | none => some (rep, s)

/-! ### Authentication -/

/-- A row of `Users`. -/
structure UserRow where
  uid : Int
  id : Bytes
  pwd : Bytes
  scr : Bytes
  deriving DecidableEq

/-- Some user has this id and password. -/
def HasAccount (users : List UserRow) (id pwd : Bytes) : Prop :=
  ∃ row ∈ users, row.id = id ∧ row.pwd = pwd

instance (users : List UserRow) (id pwd : Bytes) : Decidable (HasAccount users id pwd) :=
  inferInstanceAs (Decidable (∃ row ∈ users, _))

/-- `get_secret` gives the secret stored with the id and the password, which is not empty, and the
empty string when there is none. -/
def AnswersFrom (users : List UserRow) (id pwd : Bytes) (s : σ) : Prop :=
  ∃ secret s', getSecret conn id pwd s = some (secret, s') ∧
    ((∃ row ∈ users, row.id = id ∧ row.pwd = pwd ∧ row.scr = secret ∧ secret ≠ []) ∨
      (¬ HasAccount users id pwd ∧ secret = []))

/-- The methods that are answered for users with an account only. -/
def NeedsAccount (req : Request) : Prop :=
  MethodType.ofNumber req.method = some .logIn ∨
    MethodType.ofNumber req.method = some .getUserGps ∨
    MethodType.ofNumber req.method = some .getItemGps

/-- The request is answered with `ok` for a user with an account, and with `bad_request` otherwise,
whatever secret it names. -/
def Authenticates (time : Int) (users : List UserRow) (req : Request) (rep : Reply) (s : σ) :
    Prop :=
  ∃ rep' s', handleRequest conn time req rep s = some (rep', s') ∧
    rep'.status = some (if HasAccount users req.id req.pwd then .ok else .badRequest)

variable {conn}

theorem handleRequest_needsAccount {req : Request} (h : NeedsAccount req) (time : Int)
    (rep : Reply) (s : σ) : handleRequest conn time req rep s = answerBySecret conn req rep s := by
  rw [handleRequest]
  rcases h with h | h | h <;> rw [h]

theorem answerBySecret_eq {req : Request} {s s' : σ} {secret : Bytes}
    (h : getSecret conn req.id req.pwd s = some (secret, s')) (rep : Reply) :
    answerBySecret conn req rep s = some ({ rep with
      secret := secret
      status := some (if req.secret.isEmpty then .badRequest else .ok) }, s') := by
  simp only [answerBySecret, h]
  rfl

theorem answerById_eq {req : Request} {s s' : σ} {uid : Bytes}
    (h : getId conn req.secret s = some (uid, s')) (rep : Reply) :
    answerById conn req rep s = some ({ rep with
      status := some (if uid.isEmpty then .badRequest else .ok) }, s') := by
  simp only [answerById, h]
  rfl

theorem answerSignIn_eq {time : Int} {req : Request} {s s' : σ} {secret : Bytes}
    (h : getSecret conn req.id req.pwd s = some (secret, s')) (rep : Reply) :
    answerSignIn conn time req rep s =
      if req.secret.isEmpty then (insertNewUser conn time req.id req.pwd s').map fun s'' =>
        ({ rep with secret := secret, status := some .created }, s'')
      else some ({ rep with secret := secret, status := some .badRequest }, s') := by
  simp only [answerSignIn, h]
  cases hnamed : req.secret.isEmpty with
  | true => cases hinsert : insertNewUser conn time req.id req.pwd s' <;> simp [hinsert]
  | false => rfl

/-- When `get_secret` answers from the table, a request that needs an account is answered by the
account if and only if the secret it names is not empty exactly for users with an account. -/
theorem authenticates_iff (time : Int) {users : List UserRow} {req : Request} (rep : Reply) {s : σ}
    (hmethod : NeedsAccount req) (hsecret : AnswersFrom conn users req.id req.pwd s) :
    Authenticates conn time users req rep s ↔
      (req.secret ≠ [] ↔ HasAccount users req.id req.pwd) := by
  obtain ⟨secret, s', hget, -⟩ := hsecret
  rw [Authenticates, handleRequest_needsAccount hmethod, answerBySecret_eq hget]
  by_cases haccount : HasAccount users req.id req.pwd
  · cases hnamed : req.secret <;> simp [haccount]
  · cases hnamed : req.secret <;> simp [haccount]

/-- A connection to a table of users that answers the query of `get_secret`. -/
def tableConnection : Connection (List UserRow) where
  setSchema _ users := some users
  executeQuery query users := some (⟨fun _ =>
    some (((users.find? fun row => secretQuery row.id row.pwd = query).map UserRow.scr).getD []),
    fun _ => none⟩, users)

def kim : UserRow := ⟨1, ascii "kim", ascii "pw", ascii "1700000000"⟩

/-- A log-in that names some secret, with a password that is not the user's. -/
def guessed : Request := ⟨0, ascii "kim", ascii "guess", ascii "x"⟩

theorem authenticates_iff_rightPassword :
    Authenticates tableConnection 0 [kim] ⟨0, kim.id, kim.pwd, ascii "x"⟩ {} [kim] := by
  refine (authenticates_iff 0 {} (Or.inl rfl) ?_).mpr (by decide)
  exact ⟨kim.scr, [kim], by decide, Or.inl ⟨kim, by decide⟩⟩

theorem guessed_not_authenticated :
    AnswersFrom tableConnection [kim] guessed.id guessed.pwd [kim] ∧
      NeedsAccount guessed ∧ ¬ Authenticates tableConnection 0 [kim] guessed {} [kim] := by
  refine ⟨⟨[], [kim], by decide, Or.inr (by decide)⟩, Or.inl rfl, ?_⟩
  rintro ⟨rep, s, hrep, hstatus⟩
  have hanswer : handleRequest tableConnection 0 guessed {} [kim] =
      some (⟨some .ok, []⟩, [kim]) := by decide
  cases hrep.symm.trans hanswer
  revert hstatus
  decide

end AsioTest.Action
