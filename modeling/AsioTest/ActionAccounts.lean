import AsioTest.ActionRequestHandler
import AsioTest.TransitionRuns

/-!
What `handle_request` makes of an answer of the database. `sign_in` asks for the account but goes
by the secret that the request names, when it inserts a row and when it answers; `log_out` and
`send_user_gps` take a uid for missing when its numeral is empty, which no numeral is.
-/

namespace AsioTest.Action

open ByteStrings TransitionRuns

/-- A connection to a table of users that answers the queries of `get_secret` and `get_id`, and
takes the statement that inserts `row` for what it was meant to be. -/
def usersConnection (row : UserRow) : Connection (List UserRow) where
  setSchema _ table := some table
  executeQuery query table :=
    if query = insertQuery row.id row.pwd row.scr then
      some (⟨fun _ => none, fun _ => none⟩, table ++ [row])
    else
      some (⟨fun _ => some (((table.find? fun row => secretQuery row.id row.pwd = query).map
          UserRow.scr).getD []),
        fun _ => some (((table.find? fun row => idQuery row.scr = query).map
          UserRow.uid).getD 0)⟩, table)

/-! ### Signing in -/

variable {σ : Type} (conn : Connection σ)

/-- A `sign_in` with the reply it is given and the time it is handled at. -/
structure SignIn where
  time : Int
  id : Bytes
  pwd : Bytes
  secret : Bytes
  rep : Reply := {}

def SignIn.request (e : SignIn) : Request := ⟨2, e.id, e.pwd, e.secret⟩

def signIn (s : σ) (e : SignIn) : Option σ :=
  (handleRequest conn e.time e.request e.rep s).map Prod.snd

/-- A row with this id and password, and some secret, has been added. -/
def Adds (users users' : List UserRow) (id pwd : Bytes) : Prop :=
  ∃ row : UserRow, row.id = id ∧ row.pwd = pwd ∧ row.scr ≠ [] ∧ users' = users ++ [row]

variable (users : σ → List UserRow)

/-- In this state the database serves the sign-in as the handler expects: `get_secret` answers from
the table and leaves it alone, and `insert_new_user` would then add one row. -/
structure Serves (s : σ) (e : SignIn) : Prop where
  answers : AnswersFrom conn (users s) e.id e.pwd s
  selects : ∀ secret s', getSecret conn e.id e.pwd s = some (secret, s') → users s' = users s
  inserts : ∀ secret s', getSecret conn e.id e.pwd s = some (secret, s') →
    ∃ s'', insertNewUser conn e.time e.id e.pwd s' = some s'' ∧
      Adds (users s') (users s'') e.id e.pwd

/-- The sign-in inserts a row and is answered with `created` when there is no account, and else
inserts nothing and is answered with `bad_request`. -/
def Truthful (s : σ) (e : SignIn) : Prop :=
  ∃ rep' s', handleRequest conn e.time e.request e.rep s = some (rep', s') ∧
    if HasAccount (users s) e.id e.pwd then
      users s' = users s ∧ rep'.status = some .badRequest
    else Adds (users s) (users s') e.id e.pwd ∧ rep'.status = some .created

/-- The sign-in names no secret exactly when it is for a new account. -/
def NamesNewAccount (s : σ) (e : SignIn) : Prop :=
  e.secret = [] ↔ ¬ HasAccount (users s) e.id e.pwd

instance (s : σ) (e : SignIn) : Decidable (NamesNewAccount users s e) :=
  inferInstanceAs (Decidable (_ ↔ _))

def accounts (table : List UserRow) (id pwd : Bytes) : Nat :=
  table.countP fun row => row.id = id ∧ row.pwd = pwd

/-- Every sign-in of the sequence is truthful, and no account is inserted that was there before or
has been inserted already. -/
structure SignsInTruthfully (s : σ) (es : List SignIn) : Prop where
  truthful : Throughout (signIn conn) (Truthful conn users) s es
  once : ∀ id pwd, Always (signIn conn)
    (fun t => accounts (users t) id pwd ≤ max 1 (accounts (users s) id pwd)) s es

variable {conn users} {s s' : σ} {e : SignIn}

theorem serves_of_getSecret {secret : Bytes} {s'' : σ}
    (hget : getSecret conn e.id e.pwd s = some (secret, s')) (hsame : users s' = users s)
    (hanswer : (∃ row ∈ users s, row.id = e.id ∧ row.pwd = e.pwd ∧ row.scr = secret ∧
      secret ≠ []) ∨ (¬ HasAccount (users s) e.id e.pwd ∧ secret = []))
    (hinsert : insertNewUser conn e.time e.id e.pwd s' = some s'')
    (hadds : Adds (users s') (users s'') e.id e.pwd) : Serves conn users s e := by
  refine ⟨⟨secret, s', hget, hanswer⟩, fun answer t heq => ?_, fun answer t heq => ?_⟩
  · cases hget.symm.trans heq
    exact hsame
  · cases hget.symm.trans heq
    exact ⟨s'', hinsert, hadds⟩

/-- The secret that the request names decides. -/
theorem signIn_handled (h : Serves conn users s e) :
    ∃ rep' s', handleRequest conn e.time e.request e.rep s = some (rep', s') ∧
      if e.secret = [] then Adds (users s) (users s') e.id e.pwd ∧ rep'.status = some .created
      else users s' = users s ∧ rep'.status = some .badRequest := by
  obtain ⟨secret, s', hget, -⟩ := h.answers
  have hlookup : getSecret conn e.request.id e.request.pwd s = some (secret, s') := hget
  have hanswer : handleRequest conn e.time e.request e.rep s = _ := answerSignIn_eq hlookup e.rep
  have hsame := h.selects secret s' hget
  by_cases hnamed : e.secret = []
  · obtain ⟨s'', hinsert, hadds⟩ := h.inserts secret s' hget
    have hempty : e.request.secret.isEmpty = true := List.isEmpty_iff.mpr hnamed
    have hinsert' : insertNewUser conn e.time e.request.id e.request.pwd s' = some s'' := hinsert
    rw [if_pos hempty, hinsert'] at hanswer
    rw [hsame] at hadds
    refine ⟨_, s'', hanswer, ?_⟩
    rw [if_pos hnamed]
    exact ⟨hadds, rfl⟩
  · have hempty : ¬ e.request.secret.isEmpty = true := fun h => hnamed (List.isEmpty_iff.mp h)
    rw [if_neg hempty] at hanswer
    refine ⟨_, s', hanswer, ?_⟩
    rw [if_neg hnamed]
    exact ⟨hsame, rfl⟩

theorem truthful_iff (h : Serves conn users s e) :
    Truthful conn users s e ↔ NamesNewAccount users s e := by
  obtain ⟨rep', s', hanswer, heffect⟩ := signIn_handled h
  rw [Truthful, NamesNewAccount]
  constructor
  · rintro ⟨rep, t, heq, htruthful⟩
    obtain ⟨rfl, rfl⟩ := Prod.mk.inj (Option.some.inj (hanswer.symm.trans heq))
    by_cases hnamed : e.secret = []
    · rw [if_pos hnamed] at heffect
      refine iff_of_true hnamed fun haccount => ?_
      rw [if_pos haccount] at htruthful
      exact absurd (heffect.2.symm.trans htruthful.2) (by decide)
    · rw [if_neg hnamed] at heffect
      refine iff_of_false hnamed fun haccount => ?_
      rw [if_neg haccount] at htruthful
      exact absurd (heffect.2.symm.trans htruthful.2) (by decide)
  · intro hnew
    refine ⟨rep', s', hanswer, ?_⟩
    by_cases haccount : HasAccount (users s) e.id e.pwd
    · rw [if_neg fun hnamed => hnew.mp hnamed haccount] at heffect
      rwa [if_pos haccount]
    · rw [if_pos (hnew.mpr haccount)] at heffect
      rwa [if_neg haccount]

theorem accounts_eq_zero {table : List UserRow} {id pwd : Bytes}
    (h : ¬ HasAccount table id pwd) : accounts table id pwd = 0 := by
  refine List.countP_eq_zero.mpr fun row hrow hsame => h ?_
  exact ⟨row, hrow, of_decide_eq_true hsame⟩

/-- A truthful sign-in makes no second row for any account. -/
theorem Truthful.accounts_le (h : Truthful conn users s e) (hstep : signIn conn s e = some s')
    (id pwd : Bytes) :
    accounts (users s') id pwd ≤ max 1 (accounts (users s) id pwd) := by
  obtain ⟨rep', t, hanswer, heffect⟩ := h
  have hnext : signIn conn s e = some t := by rw [signIn, hanswer]; rfl
  obtain rfl := Option.some.inj (hnext.symm.trans hstep)
  split_ifs at heffect with haccount
  · rw [heffect.1]
    exact Nat.le_max_right _ _
  · obtain ⟨⟨row, hid, hpwd, -, htable⟩, -⟩ := heffect
    have hcount : accounts (users t) id pwd =
        accounts (users s) id pwd + accounts [row] id pwd := by
      rw [htable, accounts, List.countP_append]
      rfl
    have hone : accounts [row] id pwd ≤ 1 := List.countP_le_length
    by_cases hsame : e.id = id ∧ e.pwd = pwd
    · have hzero := accounts_eq_zero haccount
      rw [hsame.1, hsame.2] at hzero
      omega
    · have hother : accounts [row] id pwd = 0 := by
        rw [accounts, List.countP_singleton, if_neg (by rwa [hid, hpwd, decide_eq_true_eq])]
      omega

/-- As long as the database serves the handler, a sequence of sign-ins is handled truthfully if and
only if each of them names no secret exactly when it is for a new account. -/
theorem signsInTruthfully_iff {es : List SignIn}
    (hserves : Throughout (signIn conn) (Serves conn users) s es) :
    SignsInTruthfully conn users s es ↔
      Throughout (signIn conn) (NamesNewAccount users) s es := by
  constructor
  · rintro ⟨htruthful, -⟩
    intro pre e t hpre ht
    exact (truthful_iff (hserves pre e t hpre ht)).mp (htruthful pre e t hpre ht)
  · intro hnew
    have htruthful : Throughout (signIn conn) (Truthful conn users) s es := fun pre e t hpre ht =>
      (truthful_iff (hserves pre e t hpre ht)).mpr (hnew pre e t hpre ht)
    refine ⟨htruthful, fun id pwd => ?_⟩
    refine always_of_throughout
      (I := fun t => accounts (users t) id pwd ≤ max 1 (accounts (users s) id pwd))
      (fun t e t' ht he hstep => ?_) (fun _ ht => ht) (Nat.le_max_right _ _) htruthful
    calc accounts (users t') id pwd
        ≤ max 1 (accounts (users t) id pwd) := he.accounts_le hstep id pwd
      _ ≤ max 1 (accounts (users s) id pwd) := max_le (Nat.le_max_left _ _) ht

def kimSignIn (secret : Bytes) : SignIn where
  time := 1700000000
  id := kim.id
  pwd := kim.pwd
  secret := secret

theorem serves_kimSignIn {table : List UserRow} (h : table = [] ∨ table = [kim])
    (secret : Bytes) : Serves (usersConnection kim) id table (kimSignIn secret) := by
  have hnone : ¬ HasAccount [] kim.id kim.pwd := by decide
  rcases h with rfl | rfl
  · have hget : getSecret (usersConnection kim) kim.id kim.pwd [] = some ([], []) := by decide
    have hinsert : insertNewUser (usersConnection kim) 1700000000 kim.id kim.pwd [] =
        some [kim] := by decide
    exact serves_of_getSecret hget rfl (Or.inr ⟨hnone, rfl⟩) hinsert
      ⟨kim, rfl, rfl, by decide, rfl⟩
  · have hget : getSecret (usersConnection kim) kim.id kim.pwd [kim] = some (kim.scr, [kim]) := by
      decide
    have hinsert : insertNewUser (usersConnection kim) 1700000000 kim.id kim.pwd [kim] =
        some [kim, kim] := by decide
    exact serves_of_getSecret hget rfl
      (Or.inl ⟨kim, List.mem_cons_self, rfl, rfl, rfl, by decide⟩) hinsert
      ⟨kim, rfl, rfl, by decide, rfl⟩

theorem signIn_kim_new :
    signIn (usersConnection kim) [] (kimSignIn []) = some [kim] := by
  decide

/-- A new account, and then a sign-in for it that names a secret. -/
theorem signsInTruthfully_iff_kim :
    SignsInTruthfully (usersConnection kim) id [] [kimSignIn [], kimSignIn (ascii "x")] := by
  refine (signsInTruthfully_iff ?_).mpr ?_
  · refine throughout_cons.mpr ⟨serves_kimSignIn (Or.inl rfl) [], fun s' hs' => ?_⟩
    cases signIn_kim_new.symm.trans hs'
    exact throughout_cons.mpr ⟨serves_kimSignIn (Or.inr rfl) (ascii "x"), fun _ _ => throughout_nil⟩
  · refine throughout_cons.mpr ⟨by decide, fun s' hs' => ?_⟩
    cases signIn_kim_new.symm.trans hs'
    exact throughout_cons.mpr ⟨by decide, fun _ _ => throughout_nil⟩

/-- A sign-in for an account that is there inserts a second row when it names no secret. -/
theorem signIn_kim_twice :
    Throughout (signIn (usersConnection kim)) (Serves (usersConnection kim) id) [kim]
        [kimSignIn []] ∧
      run (signIn (usersConnection kim)) [kim] [kimSignIn []] = some [kim, kim] ∧
      ¬ SignsInTruthfully (usersConnection kim) id [kim] [kimSignIn []] := by
  have hrun : run (signIn (usersConnection kim)) [kim] [kimSignIn []] = some [kim, kim] := by
    decide
  refine ⟨throughout_cons.mpr ⟨serves_kimSignIn (Or.inr rfl) [], fun _ _ => throughout_nil⟩, hrun,
    fun h => ?_⟩
  have honce := h.once kim.id kim.pwd [kimSignIn []] [kim, kim] List.prefix_rfl hrun
  revert honce
  decide

/-! ### Checking a secret -/

def HasSecret (table : List UserRow) (secret : Bytes) : Prop := ∃ row ∈ table, row.scr = secret

instance (table : List UserRow) (secret : Bytes) : Decidable (HasSecret table secret) :=
  inferInstanceAs (Decidable (∃ row ∈ table, _))

variable (conn) in
/-- The result set of the query of `get_id` gives the uid of a row with the secret, and 0 when
there is none. -/
def FindsUid (table : List UserRow) (secret : Bytes) (s : σ) : Prop :=
  ∃ rs s', setQuery conn (ascii "action") (idQuery secret) s = some (rs, s') ∧
    ((∃ row ∈ table, row.scr = secret ∧ rs.getInt (ascii "uid") = some row.uid) ∨
      (¬ HasSecret table secret ∧ rs.getInt (ascii "uid") = some 0))

/-- The methods that name a user by the secret. -/
def NamesSecret (req : Request) : Prop :=
  MethodType.ofNumber req.method = some .logOut ∨
    MethodType.ofNumber req.method = some .sendUserGps

variable (conn) in
/-- The request is answered with `ok` when some user has its secret, and with `bad_request`
otherwise. -/
def ChecksSecret (time : Int) (table : List UserRow) (req : Request) (rep : Reply) (s : σ) :
    Prop :=
  ∃ rep' s', handleRequest conn time req rep s = some (rep', s') ∧
    rep'.status = some (if HasSecret table req.secret then .ok else .badRequest)

theorem handleRequest_namesSecret {req : Request} (h : NamesSecret req) (time : Int)
    (rep : Reply) (s : σ) : handleRequest conn time req rep s = answerById conn req rep s := by
  rw [handleRequest]
  rcases h with h | h <;> rw [h]

/-- No integer has an empty numeral. -/
theorem toString_ne_nil (v : Int) : Action.toString v ≠ [] := by
  unfold Action.toString
  split_ifs
  · exact List.cons_ne_nil _ _
  · exact decimal_ne_nil _

theorem FindsUid.getId {table : List UserRow} {secret : Bytes} (h : FindsUid conn table secret s) :
    ∃ v s', getId conn secret s = some (Action.toString v, s') := by
  obtain ⟨rs, s', hquery, huid⟩ := h
  have hread : ∀ {v : Int}, rs.getInt (ascii "uid") = some v →
      Action.getId conn secret s = some (Action.toString v, s') := by
    intro v hv
    simp [Action.getId, hquery, hv]
  rcases huid with ⟨row, -, -, hv⟩ | ⟨-, hv⟩
  · exact ⟨_, s', hread hv⟩
  · exact ⟨_, s', hread hv⟩

/-- When the result set tells a uid from 0, a request is answered by its secret if and only if some
user has that secret: 0 is written as `0`, which is not empty. -/
theorem checksSecret_iff (time : Int) {table : List UserRow} {req : Request} (rep : Reply)
    (hmethod : NamesSecret req) (huid : FindsUid conn table req.secret s) :
    ChecksSecret conn time table req rep s ↔ HasSecret table req.secret := by
  obtain ⟨v, s', hget⟩ := huid.getId
  have hempty : ¬ (Action.toString v).isEmpty = true := fun h =>
    toString_ne_nil v (List.isEmpty_iff.mp h)
  rw [ChecksSecret, handleRequest_namesSecret hmethod, answerById_eq hget, if_neg hempty]
  by_cases hsecret : HasSecret table req.secret
  · simp [hsecret]
  · simp [hsecret]

/-- A `log_out` with the secret of a user. -/
theorem checksSecret_iff_kim :
    ChecksSecret (usersConnection kim) 0 [kim] ⟨1, [], [], kim.scr⟩ {} [kim] := by
  refine (checksSecret_iff 0 {} (Or.inl rfl) ?_).mpr ⟨kim, by decide⟩
  exact ⟨_, [kim], rfl, Or.inl ⟨kim, by decide⟩⟩

/-- A `log_out` with a secret that nobody has is answered with `ok`. -/
theorem unknownSecret_not_checked :
    NamesSecret ⟨1, [], [], ascii "x"⟩ ∧ FindsUid (usersConnection kim) [kim] (ascii "x") [kim] ∧
      ¬ ChecksSecret (usersConnection kim) 0 [kim] ⟨1, [], [], ascii "x"⟩ {} [kim] := by
  refine ⟨Or.inl rfl, ⟨_, [kim], rfl, Or.inr (by decide)⟩, ?_⟩
  rintro ⟨rep, s, hrep, hstatus⟩
  have hanswer : handleRequest (usersConnection kim) 0 ⟨1, [], [], ascii "x"⟩ {} [kim] =
      some (⟨some .ok, []⟩, [kim]) := by decide
  cases hrep.symm.trans hanswer
  revert hstatus
  decide

end AsioTest.Action
