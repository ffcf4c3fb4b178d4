import SqlGateway.Proofs.Http.Recovery
import SqlGateway.Proofs.Http.Verification

/-!
# Who is given a token

A token is handed out by a login, to an `Admissible` user, and by a renewal, to a `Renewable` one.  Only the
first asks whether the account is active (`token_history_iff`), so a deactivated user keeps access for as long
as its token for renewal lasts.
-/

namespace SqlGateway.Http

open Account Store List Value Option Route

variable {user members : Document} {c : Connection} {session : Session} {made : List Call} {a : Accounts}
  {r : Request} {outcome : Except Fault Response} {reply : Option Reply} {subject : Value}

/-! ### Users that are given a token -/

/-- A user has a member that can be written. -/
def HasWritable (user : Document) (name : String) : Prop :=
  ∃ v, user.get? name = some v ∧ v.unwritable? = none

/-- What a renewal asks of a user. -/
structure Renewable (user : Document) : Prop where
  identity : (user.get? "_id").isSome
  kept : (user.get? "password").isSome
  role : HasWritable user "role"
  permissions : HasWritable user "permissions"

/-- What a login with a password asks of a user. -/
structure Admissible (a : Accounts) (password : String) (user : Document) : Prop extends Renewable user where
  fits : ∃ kept, user.get? "password" = some kept ∧ a.passwords.fits password kept = .ok true
  active : ∀ active, user.get? "is_active" = some active → active.isPresent
  username : HasWritable user "username"
  email : HasWritable user "email"

/-- The token in a response that opens the gateway. -/
def Response.accessToken? (response : Response) : Option Token :=
  response.tokens.lookup "access_token"

theorem Renewable.of_get? {user' : Document} (h : Renewable user)
    (hget : ∀ name, name ≠ "is_active" → user'.get? name = user.get? name) : Renewable user' where
  identity := by
    rw [hget _ (by decide)]
    exact h.identity
  kept := by
    rw [hget _ (by decide)]
    exact h.kept
  role := by
    rw [HasWritable, hget _ (by decide)]
    exact h.role
  permissions := by
    rw [HasWritable, hget _ (by decide)]
    exact h.permissions

theorem renewable_set_active (user : Document) (active : Value) :
    Renewable (user.set "is_active" active) ↔ Renewable user := by
  have hget (name : String) (hname : name ≠ "is_active") :
      (user.set "is_active" active).get? name = user.get? name := by
    rw [Document.get?_set, if_neg hname]
  exact ⟨fun h => h.of_get? fun name hname => (hget name hname).symm, fun h => h.of_get? hget⟩

/-! ### What is handed out -/

theorem write_eq_ok_iff {v w : Value} : v.write = .ok w ↔ v.unwritable? = none ∧ w = v.written := by
  rw [write]
  cases v.unwritable? with
  | none => exact ⟨fun h => ⟨rfl, (Except.ok.inj h).symm⟩, fun h => h.2 ▸ rfl⟩
  | some kind => exact ⟨nofun, fun h => nomatch h.1⟩

theorem unwritableMember?_eq_none_iff :
    unwritableMember? members = none ↔ ∀ m ∈ members, m.2.unwritable? = none := by
  induction members with
  | nil => exact ⟨fun _ => nofun, fun _ => rfl⟩
  | cons m members ih =>
    obtain ⟨name, v⟩ := m
    rw [unwritableMember?, forall_mem_cons, ← ih]
    cases v.unwritable? with
    | none => exact ⟨fun h => ⟨rfl, h⟩, fun h => h.2⟩
    | some kind =>
      refine ⟨fun h => ?_, fun h => nomatch h.1⟩
      revert h
      cases unwritableMember? members with
      | none => exact nofun
      | some found =>
        show (if _ then _ else _) = none → _
        split <;> exact nofun

theorem unwritable?_doc_eq_none_iff :
    (doc members).unwritable? = none ↔ ∀ m ∈ members, m.2.unwritable? = none := by
  rw [unwritable?, map_eq_none_iff, unwritableMember?_eq_none_iff]

theorem accessToken_eq_ok_iff (subject : Value) : (∃ token, accessToken subject (.doc user) = .ok token) ↔
      HasWritable user "role" ∧ HasWritable user "permissions" := by
  simp only [accessToken, bind_eq_ok_iff, need_doc_eq_ok_iff, write_eq_ok_iff]
  constructor
  · rintro ⟨_, role, hrole, _, ⟨hwrite, -⟩, permissions, hpermissions, _, ⟨hwrite', -⟩, -⟩
    exact ⟨⟨role, hrole, hwrite⟩, permissions, hpermissions, hwrite'⟩
  · rintro ⟨⟨role, hrole, hwrite⟩, permissions, hpermissions, hwrite'⟩
    exact ⟨_, role, hrole, _, ⟨hwrite, rfl⟩, permissions, hpermissions, _, ⟨hwrite', rfl⟩, rfl⟩

theorem hasWritable_shownMembers {name : String} (hid : name ≠ "_id") (hpassword : name ≠ "password")
    (user : Document) (key : Value) : HasWritable (shownMembers user key) name ↔ HasWritable user name := by
  rw [HasWritable, HasWritable, get?_shownMembers hid hpassword]

/-- **A renewable user is one that is found and given a token.** -/
theorem renewable_iff (subject : Value) : Renewable user ↔
      ∃ shown token, visible (.doc user) = .ok shown ∧ accessToken subject shown = .ok token := by
  constructor
  · rintro ⟨hkey, hkept, hrole, hpermissions⟩
    obtain ⟨key, hkey⟩ := isSome_iff_exists.mp hkey
    obtain ⟨token, htoken⟩ := (accessToken_eq_ok_iff subject).mpr
      ⟨(hasWritable_shownMembers (by decide) (by decide) user key).mpr hrole,
        (hasWritable_shownMembers (by decide) (by decide) user key).mpr hpermissions⟩
    exact ⟨_, token, visible_eq_ok_iff.mpr ⟨user, key, rfl, hkey, hkept, rfl⟩, htoken⟩
  · rintro ⟨shown, token, hvisible, htoken⟩
    obtain ⟨user, key, ⟨⟩, hkey, hkept, rfl⟩ := visible_eq_ok_iff.mp hvisible
    obtain ⟨hrole, hpermissions⟩ := (accessToken_eq_ok_iff _).mp ⟨token, htoken⟩
    exact ⟨by rw [hkey]; rfl, hkept, (hasWritable_shownMembers (by decide) (by decide) user key).mp hrole,
      (hasWritable_shownMembers (by decide) (by decide) user key).mp hpermissions⟩

/-! ### Answers -/

def answered : Except Fault Response → Response
  | .ok response => response
  | .error fault => internalError fault

theorem runs_answered {handler : Connected Response} (h : Connected.Runs handler c session outcome made) :
    Connected.Runs (catching internalError handler) c session (.ok (answered outcome)) made := by
  cases outcome with
  | ok response => exact runs_catching h
  | error fault => exact runs_catching_error h

theorem accessToken?_answered : (answered outcome).accessToken?.isSome ↔
      ∃ response, outcome = .ok response ∧ response.accessToken?.isSome := by
  cases outcome with
  | ok response =>
    refine ⟨fun h => ⟨response, rfl, h⟩, ?_⟩
    rintro ⟨_, ⟨⟩, h⟩
    exact h
  | error fault => exact ⟨nofun, by rintro ⟨_, ⟨⟩, -⟩⟩

/-! ### Renewals -/

def renewal (subject user : Value) : Except Fault Response :=
  if user.isPresent then
    (accessToken subject user).map fun token => ⟨200, .doc [], [("access_token", token)]⟩
  else .ok userNotFound

theorem runs_refresh {claims : Claims} (hcredential : r.credential = .token claims)
    (hkind : claims.kind = .refresh) {user : Value}
    (huser : Access.Runs (byIdentity a claims.subject) session (.ok user) made) :
    Connected.Runs (refresh a r) c session (.ok (answered (renewal claims.subject user))) made := by
  rw [refresh, withToken, hcredential]
  show Connected.Runs (if claims.kind = .refresh then _ else _) _ _ _ _
  rw [if_pos hkind]
  refine runs_answered ((Connected.Runs.access huser).bind_reading ?_)
  rw [renewal]
  split
  · cases accessToken claims.subject user <;> rfl
  · rfl

theorem accessToken?_renewal {user : Value} : (answered (renewal subject user)).accessToken?.isSome ↔
      user.isPresent ∧ ∃ token, accessToken subject user = .ok token := by
  rw [renewal]
  split
  case isTrue hpresent =>
    cases accessToken subject user with
    | ok token => exact ⟨fun _ => ⟨hpresent, token, rfl⟩, fun _ => rfl⟩
    | error fault => exact ⟨nofun, by rintro ⟨-, token, ⟨⟩⟩⟩
  case isFalse hpresent => exact ⟨nofun, fun h => absurd h.1 hpresent⟩

theorem accessToken?_renewal_userOf :
    (answered (renewal subject (userOf found reply))).accessToken?.isSome ↔
      ∃ user, reply = some (.value (.doc user)) ∧ Renewable user := by
  rw [accessToken?_renewal]
  constructor
  · rintro ⟨hpresent, token, htoken⟩
    obtain ⟨v, hreply, hfound⟩ := (userOf_eq_iff found_null hpresent).mp rfl
    have hvisible := (found_eq_ok_iff hpresent).mp hfound
    obtain ⟨user, _, rfl, -⟩ := visible_eq_ok_iff.mp hvisible
    exact ⟨user, hreply, (renewable_iff subject).mpr ⟨_, token, hvisible, htoken⟩⟩
  · rintro ⟨user, hreply, hrenewable⟩
    obtain ⟨shown, token, hvisible, htoken⟩ := (renewable_iff subject).mp hrenewable
    have hpresent := (isPresent_of_visible hvisible).2
    rw [(userOf_eq_iff found_null hpresent).mpr ⟨_, hreply, (found_eq_ok_iff hpresent).mpr hvisible⟩]
    exact ⟨hpresent, token, htoken⟩

/-- A request with a token for renewal reads the user that holds it, who is renewable. -/
def RenewsFor (a : Accounts) (r : Request) (session : Session) (made : List Call) : Prop :=
  ∃ claims key user, r.credential = .token claims ∧ claims.kind = .refresh ∧
    readIdentity claims.subject = .ok key ∧ made = [.findOne a.users [("_id", .id key)]] ∧
    session.server session.calls (.findOne a.users [("_id", .id key)]) = some (.value (.doc user)) ∧
    Renewable user

/-- **A renewal carries a token exactly if the user that it reads is renewable.** -/
theorem token_refresh (a : Accounts) (r : Request) (c : Connection) (session : Session) :
    ∃ response made, Connected.Runs (refresh a r) c session (.ok response) made ∧
      (response.accessToken?.isSome ↔ RenewsFor a r session made) := by
  by_cases htoken : ∃ claims, r.credential = .token claims ∧ claims.kind = .refresh
  · obtain ⟨claims, hcredential, hkind⟩ := htoken
    cases hkey : readIdentity claims.subject with
    | ok key =>
      refine ⟨_, _, runs_refresh hcredential hkind (runs_byIdentity hkey), ?_⟩
      rw [accessToken?_renewal_userOf]
      constructor
      · rintro ⟨user, hreply, hrenewable⟩
        exact ⟨claims, key, user, hcredential, hkind, hkey, rfl, hreply, hrenewable⟩
      · rintro ⟨claims', key', user, hcredential', -, hkey', hmade, hreply, hrenewable⟩
        obtain rfl := Credential.token.inj (hcredential.symm.trans hcredential')
        obtain rfl := Except.ok.inj (hkey.symm.trans hkey')
        exact ⟨user, hreply, hrenewable⟩
    | error fault =>
      refine ⟨_, _, runs_refresh hcredential hkind (runs_byIdentity_error hkey), ?_⟩
      refine ⟨fun h => (by cases h), ?_⟩
      rintro ⟨claims', key, user, hcredential', -, hkey', -⟩
      obtain rfl := Credential.token.inj (hcredential.symm.trans hcredential')
      rw [hkey] at hkey'
      cases hkey'
  · obtain ⟨text, hrun⟩ : ∃ text, refresh a r = pure (.error 401 text) := by
      rw [refresh, withToken]
      split
      · exact ⟨_, rfl⟩
      · exact ⟨_, rfl⟩
      case _ claims hcredential => exact ⟨_, if_neg fun hkind => htoken ⟨claims, hcredential, hkind⟩⟩
    refine ⟨.error 401 text, [], hrun ▸ Connected.Runs.pure _, fun h => (by cases h), ?_⟩
    rintro ⟨claims, _, _, hcredential, hkind, -⟩
    exact absurd ⟨claims, hcredential, hkind⟩ htoken

/-! ### Logins -/

def admission (user : Value) : Except Fault Response :=
  if user.isPresent then loggedIn user else .ok (.error 401 "Credenciales inválidas")

def welcome (key username email role permissions : Value) : Value :=
  .doc [("message", .text "Inicio de sesión exitoso"),
    ("user", .doc [("id", key), ("username", username), ("email", email), ("role", role),
      ("permissions", permissions)])]

theorem unwritable?_welcome_eq_none_iff {key username email role permissions : Value} :
    (welcome key username email role permissions).unwritable? = none ↔ key.unwritable? = none ∧
      username.unwritable? = none ∧ email.unwritable? = none ∧ role.unwritable? = none ∧
      permissions.unwritable? = none := by
  have htext : (text "Inicio de sesión exitoso").unwritable? = none := rfl
  simp only [welcome, unwritable?_doc_eq_none_iff, forall_mem_cons, not_mem_nil, htext, true_and,
    false_implies, implies_true, and_true]

theorem loggedIn_eq_ok_iff {user : Value} {response : Response} :
    loggedIn user = .ok response ↔ ∃ role permissions key access username email,
      user.need "role" = .ok role ∧ user.need "permissions" = .ok permissions ∧ user.need "_id" = .ok key ∧
      accessToken key user = .ok access ∧ user.need "username" = .ok username ∧
      user.need "email" = .ok email ∧ (welcome key username email role permissions).unwritable? = none ∧
      response = ⟨200, (welcome key username email role permissions).written,
        [("access_token", access), ("refresh_token", refreshToken key)]⟩ := by
  simp only [loggedIn, bind_eq_ok_iff, write_eq_ok_iff]
  constructor
  · rintro ⟨role, hrole, permissions, hpermissions, key, hkey, access, haccess, username, husername, email,
      hemail, _, ⟨hwritable, rfl⟩, h⟩
    exact ⟨role, permissions, key, access, username, email, hrole, hpermissions, hkey, haccess, husername,
      hemail, hwritable, (Except.ok.inj h).symm⟩
  · rintro ⟨role, permissions, key, access, username, email, hrole, hpermissions, hkey, haccess, husername,
      hemail, hwritable, rfl⟩
    exact ⟨role, hrole, permissions, hpermissions, key, hkey, access, haccess, username, husername, email,
      hemail, _, ⟨hwritable, rfl⟩, rfl⟩

theorem exists_loggedIn_iff {key : String} (hkey : user.get? "_id" = some (.text key)) :
    (∃ response, loggedIn (.doc user) = .ok response) ↔ HasWritable user "role" ∧
      HasWritable user "permissions" ∧ HasWritable user "username" ∧ HasWritable user "email" := by
  simp only [loggedIn_eq_ok_iff, need_doc_eq_ok_iff, unwritable?_welcome_eq_none_iff]
  constructor
  · rintro ⟨_, role, permissions, _, access, username, email, hrole, hpermissions, -, -, husername, hemail,
      ⟨-, hwrite₁, hwrite₂, hwrite₃, hwrite₄⟩, -⟩
    exact ⟨⟨role, hrole, hwrite₃⟩, ⟨permissions, hpermissions, hwrite₄⟩, ⟨username, husername, hwrite₁⟩,
      email, hemail, hwrite₂⟩
  · rintro ⟨hrole, hpermissions, ⟨username, husername, hwrite₁⟩, email, hemail, hwrite₂⟩
    obtain ⟨access, haccess⟩ := (accessToken_eq_ok_iff (.text key)).mpr ⟨hrole, hpermissions⟩
    obtain ⟨role, hrole, hwrite₃⟩ := hrole
    obtain ⟨permissions, hpermissions, hwrite₄⟩ := hpermissions
    exact ⟨_, role, permissions, _, access, username, email, hrole, hpermissions, hkey, haccess, husername,
      hemail, ⟨rfl, hwrite₁, hwrite₂, hwrite₃, hwrite₄⟩, rfl⟩

/-- **An admissible user is one that is accepted and welcomed.** -/
theorem admissible_iff {password : String} :
    Admissible a password user ↔ ∃ shown response, shown.isPresent ∧
      accept a (.text password) (.doc user) = .ok shown ∧ loggedIn shown = .ok response := by
  constructor
  · rintro ⟨⟨hkey, hkept, hrole, hpermissions⟩, ⟨kept, hkept', hfits⟩, hactive, husername, hemail⟩
    obtain ⟨key, hkey⟩ := isSome_iff_exists.mp hkey
    have hvisible := visible_eq_ok_iff.mpr ⟨user, key, rfl, hkey, hkept, rfl⟩
    have hpresent := (isPresent_of_visible hvisible).2
    have hshown {name : String} (hid : name ≠ "_id") (hpassword : name ≠ "password") :=
      hasWritable_shownMembers hid hpassword user key
    obtain ⟨response, hresponse⟩ := (exists_loggedIn_iff (get?_id_shownMembers user key)).mpr
      ⟨(hshown (by decide) (by decide)).mpr hrole, (hshown (by decide) (by decide)).mpr hpermissions,
        (hshown (by decide) (by decide)).mpr husername, (hshown (by decide) (by decide)).mpr hemail⟩
    exact ⟨_, response, hpresent, (accept_eq_ok_iff hpresent).mpr
      ⟨hvisible, password, user, kept, rfl, rfl, hkept', hfits, hactive⟩, hresponse⟩
  · rintro ⟨shown, response, hpresent, haccept, hresponse⟩
    obtain ⟨hvisible, _, _, kept, ⟨⟩, ⟨⟩, hkept, hfits, hactive⟩ := (accept_eq_ok_iff hpresent).mp haccept
    obtain ⟨_, key, ⟨⟩, hkey, hkept', rfl⟩ := visible_eq_ok_iff.mp hvisible
    have hshown {name : String} (hid : name ≠ "_id") (hpassword : name ≠ "password") :=
      hasWritable_shownMembers hid hpassword user key
    obtain ⟨hrole, hpermissions, husername, hemail⟩ :=
      (exists_loggedIn_iff (get?_id_shownMembers user key)).mp ⟨response, hresponse⟩
    exact ⟨⟨by rw [hkey]; rfl, hkept', (hshown (by decide) (by decide)).mp hrole,
      (hshown (by decide) (by decide)).mp hpermissions⟩, ⟨kept, hkept, hfits⟩, hactive,
      (hshown (by decide) (by decide)).mp husername, (hshown (by decide) (by decide)).mp hemail⟩

theorem accessToken?_admission {user : Value} : (answered (admission user)).accessToken?.isSome ↔
      user.isPresent ∧ ∃ response, loggedIn user = .ok response := by
  rw [accessToken?_answered, admission]
  split
  case isTrue hpresent =>
    constructor
    · rintro ⟨response, hresponse, -⟩
      exact ⟨hpresent, response, hresponse⟩
    · rintro ⟨-, response, hresponse⟩
      obtain ⟨_, _, _, _, _, _, -, -, -, -, -, -, -, rfl⟩ := loggedIn_eq_ok_iff.mp hresponse
      exact ⟨_, hresponse, rfl⟩
  case isFalse hpresent =>
    refine ⟨?_, fun h => absurd h.1 hpresent⟩
    rintro ⟨_, ⟨⟩, ⟨⟩⟩

theorem accessToken?_admission_userOf {password : Value} :
    (answered (admission (userOf (accept a password) reply))).accessToken?.isSome ↔
      ∃ secret user, password = .text secret ∧ reply = some (.value (.doc user)) ∧ Admissible a secret user := by
  rw [accessToken?_admission]
  constructor
  · rintro ⟨hpresent, response, hresponse⟩
    obtain ⟨v, hreply, haccept⟩ := (userOf_eq_iff (accept_null a password) hpresent).mp rfl
    obtain ⟨-, secret, user, kept, rfl, rfl, -⟩ := (accept_eq_ok_iff hpresent).mp haccept
    exact ⟨secret, user, rfl, hreply, admissible_iff.mpr ⟨_, response, hpresent, haccept, hresponse⟩⟩
  · rintro ⟨secret, user, rfl, hreply, hadmissible⟩
    obtain ⟨shown, response, hpresent, haccept, hresponse⟩ := admissible_iff.mp hadmissible
    rw [(userOf_eq_iff (accept_null a _) hpresent).mpr ⟨_, hreply, haccept⟩]
    exact ⟨hpresent, response, hresponse⟩

/-- Who logs in with a document, by name or else by mail address. -/
def loginName (data : Document) : Value :=
  if (data.get "username").isPresent then data.get "username" else data.get "email"

theorem readLogin_doc (data : Document) :
    readLogin (.doc data) = .ok (loginName data, data.get "password") := by
  have hread : readLogin (.doc data) = if (data.get "username").isPresent
      then .ok (data.get "username", data.get "password")
      else .ok (data.get "email", data.get "password") := rfl
  rw [hread, loginName]
  split <;> rfl

theorem runs_login {data : Document} (hbody : r.body = some (.doc data))
    (hname : (loginName data).isPresent) (hpassword : (data.get "password").isPresent)
    {user : Value}
    (huser : Access.Runs (authenticate a (loginName data) (data.get "password")) session (.ok user) made) :
    Connected.Runs (login a r) c session (.ok (answered (admission user))) made := by
  have hguard : ¬ (!(loginName data).isPresent || !(data.get "password").isPresent) := by
    rw [hname, hpassword]
    exact Bool.false_ne_true
  refine runs_answered (.lift_bind (document_eq_ok_iff.mpr hbody) (.lift_bind (readLogin_doc data) ?_))
  show Connected.Runs (if _ then _ else _) _ _ _ _
  rw [if_neg hguard]
  refine (Connected.Runs.access huser).bind_reading ?_
  rw [admission]
  split <;> rfl

/-- The request logs in with a name or mail address and a password. -/
def LogsIn (r : Request) (name : Value) (password : String) : Prop :=
  ∃ data : Document, r.body = some (.doc data) ∧ loginName data = name ∧ name.isPresent ∧
    data.get "password" = .text password ∧ (text password).isPresent

theorem runs_login_incomplete (c : Connection) (session : Session)
    (h : ¬ ∃ data : Document, r.body = some (.doc data) ∧ (loginName data).isPresent ∧
      (data.get "password").isPresent) :
    ∃ response, Connected.Runs (login a r) c session (.ok response) [] ∧ response.accessToken? = none := by
  cases hbody : r.body with
  | none =>
    have hdocument : r.document = .error .noBody := by rw [Request.document, hbody]
    exact ⟨_, runs_catching_error (.error_bind hdocument _), rfl⟩
  | some v =>
    have hdocument := document_eq_ok_iff.mpr hbody
    cases v with
    | doc data =>
      have hmissing : (!(loginName data).isPresent || !(Document.get data "password").isPresent) := by
        rw [← Bool.not_and, Bool.not_eq_true', Bool.eq_false_iff]
        intro hboth
        exact h ⟨data, hbody, Bool.and_eq_true_iff.mp hboth⟩
      refine ⟨.error 400 "Usuario/Email y contraseña son requeridos", runs_catching
        (.lift_bind hdocument (.lift_bind (readLogin_doc data) ?_)), rfl⟩
      show Connected.Runs (if _ then _ else _) _ _ _ _
      rw [if_pos hmissing]
      exact .pure _
    | _ => exact ⟨_, runs_catching_error (.lift_bind hdocument (.error_bind rfl _)), rfl⟩

/-- A request logs in and reads a user, who is admissible. -/
def AdmitsTo (a : Accounts) (r : Request) (session : Session) (made : List Call) : Prop :=
  ∃ name password user, LogsIn r name password ∧ made = [.findOne a.users (loginFilter name)] ∧
    session.server session.calls (.findOne a.users (loginFilter name)) = some (.value (.doc user)) ∧
    Admissible a password user

/-- **A login carries a token exactly if the user that it reads is admissible.** -/
theorem token_login (a : Accounts) (r : Request) (c : Connection) (session : Session) :
    ∃ response made, Connected.Runs (login a r) c session (.ok response) made ∧
      (response.accessToken?.isSome ↔ AdmitsTo a r session made) := by
  by_cases hcomplete : ∃ data : Document, r.body = some (.doc data) ∧ (loginName data).isPresent ∧
      (data.get "password").isPresent
  · obtain ⟨data, hbody, hname, hpassword⟩ := hcomplete
    refine ⟨_, _, runs_login hbody hname hpassword (runs_authenticate a session _ _), ?_⟩
    rw [accessToken?_admission_userOf]
    constructor
    · rintro ⟨password, user, htext, hreply, hadmissible⟩
      exact ⟨loginName data, password, user, ⟨data, hbody, rfl, hname, htext, htext ▸ hpassword⟩, rfl,
        hreply, hadmissible⟩
    · rintro ⟨_, password, user, ⟨data', hbody', rfl, -, htext, -⟩, -, hreply, hadmissible⟩
      obtain rfl := doc.inj (some.inj (hbody.symm.trans hbody'))
      exact ⟨password, user, htext, hreply, hadmissible⟩
  · obtain ⟨response, hrun, htoken⟩ := runs_login_incomplete c session hcomplete
    refine ⟨response, [], hrun, by rw [htoken]; exact nofun, ?_⟩
    rintro ⟨_, password, user, ⟨data, hbody, rfl, hname, htext, hpassword⟩, -⟩
    exact absurd ⟨data, hbody, hname, htext ▸ hpassword⟩ hcomplete

/-! ### Histories -/

/-- What holds of every request along a history of requests that leave the connection alone. -/
theorem exists_answer_of_history {requests : List Request} {P : Request → Session → Response → List Call → Prop}
    (h : ∀ r ∈ requests, ∀ session, ∃ response made,
      Connected.Runs (respond a r) c session (.ok response) made ∧ P r session response made)
    {before after : List Exchange} {e : Exchange}
    (hsplit : history a c session requests = before ++ e :: after) : ∃ response, e.answer = .ok response ∧
      P e.request (session.after (before.flatMap Exchange.calls)) response e.calls := by
  -- The calls of the exchanges before lead to the session that a request starts from.
  induction requests generalizing session before with
  | nil => exact absurd hsplit (by simp [history])
  | cons r requests ih =>
    obtain ⟨response, made, hrun, hresponse⟩ := h r mem_cons_self session
    rw [history_cons_of_runs hrun] at hsplit
    cases before with
    | nil =>
      obtain ⟨rfl, -⟩ := cons.inj hsplit
      rw [flatMap_nil, Session.after_nil]
      exact ⟨response, rfl, hresponse⟩
    | cons x before =>
      obtain ⟨rfl, hrest⟩ := cons.inj hsplit
      rw [flatMap_cons, ← Session.after_after]
      exact ih (fun r hr => h r (.tail _ hr)) hrest

def TokenGranted (a : Accounts) (r : Request) (session : Session) (made : List Call) : Route → Prop
  | .login => AdmitsTo a r session made
  | .refresh => RenewsFor a r session made
  | _ => False

theorem token_respond {route : Route} (hpath : ofPath? r.path = some route)
    (hroute : route = .login ∨ route = .refresh) (c : Connection) (session : Session) :
    ∃ response made, Connected.Runs (respond a r) c session (.ok response) made ∧
      (response.accessToken?.isSome ↔ r.method = .post ∧ TokenGranted a r session made route) := by
  have hpost : route.method = .post := by rcases hroute with rfl | rfl <;> rfl
  by_cases hmethod : r.method = .post
  · rw [respond_of_route hpath (hmethod.trans hpost.symm)]
    simp only [hmethod, true_and]
    rcases hroute with rfl | rfl
    · exact token_login a r c session
    · exact token_refresh a r c session
  · obtain ⟨status, hempty⟩ := respond_of_method_ne hpath (by simp [hpost]) (hpost ▸ hmethod)
    rw [hempty]
    exact ⟨.empty status, [], .pure _, nofun, fun h => absurd h.1 hmethod⟩

/-- **Only logins ask whether an account is active**: the response to a login carries a token exactly if the
user is admissible, and the response to a renewal exactly if it is renewable. -/
theorem token_history_iff (a : Accounts) (c : Connection) (session : Session) (requests : List Request)
    (hroutes : ∀ r ∈ requests, Route.ofPath? r.path = some .login ∨ Route.ofPath? r.path = some .refresh)
    (before after : List Exchange) (e : Exchange)
    (hsplit : history a c session requests = before ++ e :: after) : (∃ response, e.answer = .ok response ∧
      (Route.ofPath? e.request.path = some .login → (response.accessToken?.isSome = true ↔
        e.request.method = .post ∧
          AdmitsTo a e.request (session.after (before.flatMap Exchange.calls)) e.calls)) ∧
      (Route.ofPath? e.request.path = some .refresh → (response.accessToken?.isSome = true ↔
        e.request.method = .post ∧
          RenewsFor a e.request (session.after (before.flatMap Exchange.calls)) e.calls))) ∧
    ∀ user active, Renewable (user.set "is_active" active) ↔ Renewable user := by
  refine ⟨?_, renewable_set_active⟩
  have hstep : ∀ r ∈ requests, ∀ session, ∃ response made,
      Connected.Runs (respond a r) c session (.ok response) made ∧
        ∃ route, ofPath? r.path = some route ∧ (response.accessToken?.isSome ↔
          r.method = .post ∧ TokenGranted a r session made route) := by
    intro r hr session
    obtain ⟨route, hpath, hroute⟩ : ∃ route, ofPath? r.path = some route ∧
        (route = .login ∨ route = .refresh) :=
      (hroutes r hr).elim (fun h => ⟨_, h, .inl rfl⟩) fun h => ⟨_, h, .inr rfl⟩
    obtain ⟨response, made, hrun, htoken⟩ := token_respond hpath hroute c session
    exact ⟨response, made, hrun, route, hpath, htoken⟩
  obtain ⟨response, hanswer, route, hpath, htoken⟩ := exists_answer_of_history hstep hsplit
  refine ⟨response, hanswer, fun hlogin => ?_, fun hrefresh => ?_⟩
  · obtain rfl := some.inj (hpath.symm.trans hlogin)
    exact htoken
  · obtain rfl := some.inj (hpath.symm.trans hrefresh)
    exact htoken

/-- A digest of the password of the user. -/
def sampleDigest (salt : UInt8) : Value :=
  .bytes (salt :: "secret".toList.map Char.toUInt8)

/-- A user whose account is active or not. -/
def sampleUser (salt : UInt8) (active : Bool) : Document :=
  [("_id", .id (identity 1)), ("username", .text "ana"), ("email", .text "a@b.c"), ("password", sampleDigest salt),
    ("role", .text "user"), ("permissions", .doc []), ("is_active", .bool active)]

/-- A store in which the user is deactivated after the first call. -/
def deactivating : Server := fun before _ =>
  some (.value (.doc (sampleUser 0 before.isEmpty)))

def sampleLogin : Request :=
  ⟨.post, "/api/auth/login", some (.doc [("username", .text "ana"), ("password", .text "secret")]), .missing,
    default⟩

/-- The user asks for another token. -/
def sampleRenewal : Request :=
  ⟨.post, "/api/auth/refresh", none, .token ⟨.refresh, .text (identity 1).hex, none, none⟩, default⟩

/-- The user is given another token after it was deactivated. -/
theorem token_history_deactivated : ∃ e₁ e₂ response, (∀ r ∈ [sampleLogin, sampleRenewal],
      Route.ofPath? r.path = some .login ∨ Route.ofPath? r.path = some .refresh) ∧
    history sampleAccounts (.fresh .null) (.start deactivating) [sampleLogin, sampleRenewal] = [e₁] ++ e₂ :: [] ∧
    e₂.calls.map (deactivating e₁.calls) = [some (.value (.doc (sampleUser 0 false)))] ∧
    e₂.answer = .ok response ∧ response.accessToken?.isSome = true := by
  have hlogin : ofPath? sampleLogin.path = some .login := by decide
  have hrefresh : ofPath? sampleRenewal.path = some .refresh := by decide
  have hroutes : ∀ r ∈ [sampleLogin, sampleRenewal],
      ofPath? r.path = some .login ∨ ofPath? r.path = some .refresh :=
    forall_mem_cons.mpr ⟨.inl hlogin, forall_mem_singleton.mpr (.inr hrefresh)⟩
  have hkey : readIdentity (.text (identity 1).hex) = .ok (identity 1) := by
    have hlower : (identity 1).hex.map Char.toLower = (identity 1).hex := by decide +kernel
    rw [readIdentity, if_pos (by decide), hlower]
  have hrun₁ : ∃ answer, Connected.Runs (respond sampleAccounts sampleLogin) (.fresh .null)
      (.start deactivating) (.ok answer) [.findOne ⟨"accounts", "users"⟩ (loginFilter (.text "ana"))] := by
    exact ⟨_, runs_login rfl (by decide) (by decide) (runs_authenticate _ _ _ _)⟩
  obtain ⟨answer₁, hrun₁⟩ := hrun₁
  have hrun₂ : ∃ answer, Connected.Runs (respond sampleAccounts sampleRenewal) (.fresh .null)
      ((Session.start deactivating).after [.findOne ⟨"accounts", "users"⟩ (loginFilter (.text "ana"))])
      (.ok answer) [.findOne ⟨"accounts", "users"⟩ [("_id", .id (identity 1))]] := by
    rw [respond_of_route hrefresh rfl]
    exact ⟨_, runs_refresh rfl rfl (runs_byIdentity hkey)⟩
  obtain ⟨answer₂, hrun₂⟩ := hrun₂
  have hhistory := history_cons_of_runs hrun₁ [sampleRenewal]
  rw [history_cons_of_runs hrun₂] at hhistory
  obtain ⟨⟨response, hanswer, -, hrenewal⟩, -⟩ := token_history_iff _ _ _ _ hroutes [_] [] _ hhistory
  refine ⟨_, _, response, hroutes, hhistory, rfl, hanswer, (hrenewal hrefresh).mpr ⟨rfl, ?_⟩⟩
  exact ⟨_, _, sampleUser 0 false, rfl, rfl, hkey, rfl, rfl, rfl, rfl, ⟨.text "user", rfl, rfl⟩, .doc [], rfl, rfl⟩

end SqlGateway.Http
