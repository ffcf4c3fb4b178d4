import SqlGateway.Proofs.Account.Secrecy
import SqlGateway.Proofs.Http.Renewal

/-!
# Secrecy of passwords

A handler `Conceals` passwords if it gives the same clean response, whichever of two servers it asks.  **Two
servers that differ in passwords only cannot be told apart** (`history_eq_of_sameButPasswords`), unless a
login gets another verdict.
-/

namespace SqlGateway.Http

open Account Store Document Value List

variable {response : Response} {r : Request} {a : Accounts} {V : Value → Value → Prop} {body : Document}
  {route : Route} {user : Value} {status : Nat} {text : String}

/-! ### Users in responses -/

def itemsOf : Option Value → List Value
  | some (.list items) => items
  | _ => []

def Response.users (response : Response) : List Value :=
  match response.body with
  | .doc body => (get? body "user").toList ++ itemsOf (get? body "users")
  | _ => []

/-- No user in the response has a password. -/
def Clean (response : Response) : Prop :=
  ∀ user ∈ response.users, Hidden user

theorem clean_of_users (h : response.users = []) : Clean response := by
  rw [Clean, h]
  exact nofun

theorem clean_error : Clean (.error status text) :=
  clean_of_users rfl

theorem clean_message : Clean (.message status text) :=
  clean_of_users rfl

theorem clean_verdict {success : Bool} : Clean (.verdict status success text) :=
  clean_of_users rfl

theorem clean_empty : Clean (.empty status) :=
  clean_of_users rfl

theorem get?_writtenMembers (d : Document) (name : String) :
    get? (writtenMembers d) name = (get? d name).map written := by
  induction d with
  | nil => rfl
  | cons m d ih =>
    obtain ⟨key, v⟩ := m
    rw [writtenMembers, get?_cons, get?_cons, ih]
    split <;> rfl

theorem hidden_written {v : Value} (h : Hidden v) : Hidden v.written := by
  cases v with
  | doc d =>
    show get? (writtenMembers d) "password" = none
    rw [get?_writtenMembers, show get? d "password" = none from h]
    rfl
  | time t => rw [written]; trivial
  | list items => rw [written]; trivial
  | _ => exact h

theorem hidden_itemsOf_written {v : Option Value} (h : ∀ w ∈ itemsOf v, Hidden w) :
    ∀ w ∈ itemsOf (v.map written), Hidden w := by
  have hlist {items : List Value} (h : ∀ w ∈ items, Hidden w) : ∀ w ∈ writtenItems items, Hidden w := by
    induction items with
    | nil => exact nofun
    | cons v items ih =>
      rw [forall_mem_cons] at h
      rw [writtenItems, forall_mem_cons]
      exact ⟨hidden_written h.1, ih h.2⟩
  cases v with
  | none => exact nofun
  | some v =>
    rw [Option.map_some]
    cases v with
    | list items =>
      exact hlist h
    | doc d => rw [written]; exact nofun
    | time t => rw [written]; exact nofun
    | _ => exact nofun

theorem clean_written (tokens : List (String × Token)) (huser : ∀ user ∈ get? body "user", Hidden user)
    (husers : ∀ user ∈ itemsOf (get? body "users"), Hidden user) :
    Clean ⟨status, (doc body).written, tokens⟩ := by
  intro user hmem
  change user ∈ (get? (writtenMembers body) "user").toList ++
    itemsOf (get? (writtenMembers body) "users") at hmem
  rw [get?_writtenMembers, get?_writtenMembers] at hmem
  rcases mem_append.mp hmem with hone | hmany
  · obtain ⟨v, hv, rfl⟩ := Option.map_eq_some_iff.mp (Option.mem_toList.mp hone)
    exact hidden_written (huser v hv)
  · exact hidden_itemsOf_written husers user hmany

theorem clean_json (h : Response.json status (.doc body) = .ok response)
    (huser : ∀ user ∈ get? body "user", Hidden user)
    (husers : ∀ user ∈ itemsOf (get? body "users"), Hidden user) : Clean response := by
  obtain ⟨written, hwrite, h⟩ := bind_eq_ok_iff.mp h
  obtain ⟨-, rfl⟩ := write_eq_ok_iff.mp hwrite
  obtain rfl := Except.ok.inj h
  exact clean_written [] huser husers

theorem clean_showUser (huser : Hidden user) (h : showUser user = .ok response) : Clean response := by
  rw [showUser] at h
  split at h
  · refine clean_json h ?_ nofun
    rintro _ ⟨⟩
    exact huser
  · rw [← Except.ok.inj h]
    exact clean_error

theorem clean_loggedIn (h : loggedIn user = .ok response) : Clean response := by
  obtain ⟨_, _, _, _, _, _, -, -, -, -, -, -, -, rfl⟩ := loggedIn_eq_ok_iff.mp h
  refine clean_written _ ?_ nofun
  rintro _ ⟨⟩
  rfl

/-! ### Handlers -/

theorem logsIn_of_read {data name : Value} {password : String} (hdocument : r.document = .ok data)
    (hread : readLogin data = .ok (name, .text password))
    (hpresent : ¬ (!name.isPresent || !(Value.text password).isPresent)) : LogsIn r name password := by
  rw [← Bool.not_and, Bool.not_eq_true', Bool.not_eq_false, Bool.and_eq_true] at hpresent
  cases data with
  | doc d =>
    obtain ⟨hname, hpassword⟩ := Prod.mk.inj (Except.ok.inj ((readLogin_doc d).symm.trans hread))
    exact ⟨d, document_eq_ok_iff.mp hdocument, hname, hpresent.1, hpassword, hpresent.2⟩
  | _ => cases hread

section

open Connected

variable (r) {handler : Claims → Connected Response} (key : String)

/-- The handler gives the same response to both sessions, and the response is clean. -/
abbrev Conceals (a : Accounts) (V : Value → Value → Prop) (handler : Connected Response) : Prop :=
  Pairs (Veils a V) (Both (Shared Clean)) handler handler

theorem conceals_pure (h : Clean response) : Conceals a V (pure response) :=
  .pure (.ok ⟨rfl, h⟩)

theorem pairs_answer (h : Clean response) :
    Pairs (Veils a V) (Alike (Shared Clean)) (pure response) (pure response) :=
  .pure (.ok ⟨rfl, h⟩)

theorem conceals_catching {answer : Fault → Response} {handler : Connected Response}
    (hhandler : Pairs (Veils a V) (Alike (Shared Clean)) handler handler)
    (hanswer : ∀ fault, Clean (answer fault)) : Conceals a V (catching answer handler) :=
  hhandler.handled fun fault => .pure (.ok ⟨rfl, hanswer fault⟩)

theorem conceals_withToken {kind : TokenKind}
    (hhandler : ∀ claims, Conceals a V (handler claims)) : Conceals a V (withToken kind r handler) := by
  rw [withToken]
  split
  · exact conceals_pure clean_error
  · exact conceals_pure clean_error
  · split
    · exact hhandler _
    · exact conceals_pure clean_error

theorem conceals_withAdmin
    (hhandler : ∀ claims, Conceals a V (handler claims)) : Conceals a V (withAdmin r handler) := by
  rw [withAdmin, withAccess]
  split
  case h_1 claims _ =>
    refine conceals_catching ?_ fun _ => clean_error
    split
    · refine (hhandler claims).mono fun outcome outcome' h => ?_
      cases h with
      | ok h => exact .ok h
    · exact pairs_answer clean_error
  case h_2 => exact conceals_pure clean_error

theorem conceals_register : Conceals a V (register a r) := by
  refine conceals_catching ?_ fun _ => clean_error
  refine .reading_bind fun data => .reading_bind fun missing => ?_
  split
  · exact pairs_answer clean_error
  refine .reading_bind fun password => .reading_bind fun length => ?_
  split
  · exact pairs_answer clean_error
  refine .reading_bind fun username => .reading_bind fun email => ?_
  refine (Pairs.access (pairs_createUser _ _ _ _ _)).bind ?_
  rintro created _ ⟨rfl, hcreated⟩
  cases created with
  | error error => exact pairs_answer clean_error
  | ok user =>
    refine .lift (.shared fun response h => clean_json h ?_ nofun)
    rintro _ ⟨⟩
    exact hcreated user rfl

theorem conceals_login (hverdict : ∀ name password, LogsIn r name password → ∀ kept kept', V kept kept' →
      a.passwords.fits password kept = a.passwords.fits password kept') : Conceals a V (login a r) := by
  refine conceals_catching ?_ fun _ => clean_error
  refine (Pairs.lift (.shared fun _ h => h)).bind ?_
  rintro data _ ⟨rfl, hdocument⟩
  refine (Pairs.lift (.shared fun _ h => h)).bind ?_
  rintro ⟨name, password⟩ _ ⟨rfl, hread⟩
  dsimp only
  split
  case isTrue => exact pairs_answer clean_error
  case isFalse hpresent =>
    have hverdict' : ∀ secret, password = .text secret → ∀ kept kept', V kept kept' →
        a.passwords.fits secret kept = a.passwords.fits secret kept' := by
      rintro secret rfl
      exact hverdict name secret (logsIn_of_read hdocument hread hpresent)
    refine (Pairs.access (pairs_authenticate name hverdict')).bind ?_
    rintro user _ ⟨rfl, -⟩
    split
    · exact .lift (.shared fun _ => clean_loggedIn)
    · exact pairs_answer clean_error

theorem conceals_refresh : Conceals a V (refresh a r) := by
  refine conceals_withToken r fun claims => conceals_catching ?_ fun _ => clean_error
  refine (Pairs.access (pairs_byIdentity _)).bind ?_
  rintro user _ ⟨rfl, -⟩
  split
  · exact .reading_bind fun _ => pairs_answer (clean_of_users rfl)
  · exact pairs_answer clean_error

theorem conceals_profile : Conceals a V (profile a r) := by
  refine conceals_withToken r fun claims => conceals_catching ?_ fun _ => clean_error
  refine (Pairs.access (pairs_byIdentity _)).bind ?_
  rintro user _ ⟨rfl, huser⟩
  exact .lift (.shared fun _ => clean_showUser huser)

theorem conceals_forgotPassword : Conceals a V (forgotPassword a r) := by
  refine conceals_catching ?_ fun _ => clean_verdict
  refine .reading_bind fun data => .reading_bind fun email => ?_
  split
  · exact pairs_answer clean_verdict
  refine (Pairs.access (pairs_byEmail _)).bind ?_
  rintro user _ ⟨rfl, -⟩
  split
  · exact pairs_answer clean_verdict
  refine (Pairs.access (pairs_requestReset _ _)).bind_eq fun code => ?_
  split
  · exact pairs_answer (clean_of_users rfl)
  · exact pairs_answer clean_verdict

theorem conceals_verifyResetCode : Conceals a V (verifyResetCode a r) := by
  refine conceals_catching ?_ fun _ => clean_verdict
  refine .reading_bind fun data => .reading_bind fun email =>
    .reading_bind fun code => ?_
  split
  · exact pairs_answer clean_verdict
  refine (Pairs.access (pairs_failedAttempts _)).bind_eq fun attempts =>
    .reading_bind fun reached => ?_
  split
  · exact pairs_answer clean_verdict
  refine (Pairs.access (pairs_verifyCode _ _ _)).bind_eq fun verified => ?_
  split
  · exact pairs_answer clean_verdict
  · exact pairs_answer clean_verdict

theorem conceals_resetPassword : Conceals a V (resetPassword a r) := by
  refine conceals_catching ?_ fun _ => clean_verdict
  refine .reading_bind fun data => .reading_bind fun email =>
    .reading_bind fun password => ?_
  split
  · exact pairs_answer clean_verdict
  refine .reading_bind fun length => ?_
  split
  · exact pairs_answer clean_verdict
  refine (Pairs.access (pairs_setPassword _ _)).bind_eq fun changed => ?_
  split
  · exact pairs_answer clean_verdict
  refine (Pairs.access (pairs_removeRequests _)).bind_eq fun _ => ?_
  refine (Pairs.access (pairs_byEmail _)).bind ?_
  rintro user _ ⟨rfl, -⟩
  exact .reading_bind fun _ => pairs_answer clean_verdict

/-! ### Handlers for administrators -/

theorem conceals_listUsers : Conceals a V (listUsers a r) := by
  refine conceals_withAdmin r fun claims => conceals_catching ?_ fun _ => clean_error
  refine (Pairs.access pairs_allUsers).bind ?_
  rintro users _ ⟨rfl, husers⟩
  exact .lift (.shared fun response h => clean_json h nofun husers)

theorem conceals_userDetails : Conceals a V (userDetails a r key) := by
  refine conceals_withAdmin r fun claims => conceals_catching ?_ fun _ => clean_error
  refine (Pairs.access (pairs_byIdentity _)).bind ?_
  rintro user _ ⟨rfl, huser⟩
  exact .lift (.shared fun _ => clean_showUser huser)

theorem conceals_changePermissions : Conceals a V (changePermissions a r key) := by
  refine conceals_withAdmin r fun claims => conceals_catching ?_ fun _ => clean_error
  refine .reading_bind fun data => .reading_bind fun carried => ?_
  split
  · exact pairs_answer clean_error
  refine .reading_bind fun permissions => ?_
  split
  · split
    · exact pairs_answer clean_error
    refine (Pairs.access (pairs_changeUser (.pure (.ok rfl)) _)).bind_eq fun changed => ?_
    split
    · exact pairs_answer clean_message
    · exact pairs_answer clean_error
  · exact pairs_answer clean_error

theorem conceals_changeStatus : Conceals a V (changeStatus a r key) := by
  refine conceals_withAdmin r fun claims => conceals_catching ?_ fun _ => clean_error
  refine .reading_bind fun data => .reading_bind fun carried => ?_
  split
  · exact pairs_answer clean_error
  refine .reading_bind fun active => ?_
  split
  · split
    · exact pairs_answer clean_error
    refine (Pairs.access (pairs_changeUser (.pure (.ok rfl)) _)).bind_eq fun changed => ?_
    split
    · exact pairs_answer clean_message
    · exact pairs_answer clean_error
  · exact pairs_answer clean_error

theorem conceals_availablePermissions : Conceals a V (availablePermissions r) :=
  conceals_withAdmin r fun _ => conceals_catching
    (.lift (.shared fun _ h => clean_json h nofun nofun)) fun _ => clean_error

theorem conceals_showStatistics : Conceals a V (showStatistics a r) := by
  refine conceals_withAdmin r fun claims => conceals_catching ?_ fun _ => clean_error
  refine (Pairs.access pairs_allUsers).bind ?_
  rintro users _ ⟨rfl, -⟩
  exact .reading_bind fun stats => .lift (.shared fun response h => clean_json h nofun nofun)

end

/-! ### Histories -/

/-- The routes about accounts, those for administrators included. -/
def Route.isAboutAccounts : Route → Bool
  | .health | .databases | .collections _ | .connect | .runStatement | .showCommand => false
  | .testConnection | .supportedSql => false
  | _ => true

/-- The verdict on two passwords is the same for every login among some requests. -/
def Agree (a : Accounts) (requests : List Request) (kept kept' : Value) : Prop :=
  ∀ r ∈ requests, Route.ofPath? r.path = some .login → ∀ name password, LogsIn r name password →
    a.passwords.fits password kept = a.passwords.fits password kept'

theorem conceals_handle (hroute : route.isAboutAccounts)
    (hverdict : route = .login → ∀ name password, LogsIn r name password → ∀ kept kept', V kept kept' →
      a.passwords.fits password kept = a.passwords.fits password kept') : Conceals a V (route.handle a r) := by
  cases route with
  | register => exact conceals_register r
  | login => exact conceals_login r (hverdict rfl)
  | refresh => exact conceals_refresh r
  | profile => exact conceals_profile r
  | forgotPassword => exact conceals_forgotPassword r
  | verifyResetCode => exact conceals_verifyResetCode r
  | resetPassword => exact conceals_resetPassword r
  | users => exact conceals_listUsers r
  | user key => exact conceals_userDetails r key
  | userPermissions key => exact conceals_changePermissions r key
  | userStatus key => exact conceals_changeStatus r key
  | permissions => exact conceals_availablePermissions r
  | statistics => exact conceals_showStatistics r
  | _ => cases hroute

theorem conceals_respond (hpath : Route.ofPath? r.path = some route) (h : Conceals a V (route.handle a r)) :
    Conceals a V (respond a r) := by
  rw [respond, hpath]
  show Conceals a V (if r.method = route.method then _ else _)
  split
  · exact h
  split
  · exact conceals_pure clean_empty
  split
  · refine h.bind_both ?_
    rintro response _ ⟨rfl, -⟩
    exact conceals_pure clean_empty
  · exact conceals_pure clean_empty

/-- Both sessions get the same clean response, and what follows starts from the same. -/
theorem Conceals.exists_response {x : Connected Response} (h : Conceals a V x) {s s' : Session}
    (hs : Paired (Veils a V) s s') (c : Connection) :
    ∃ response later after after', Clean response ∧ Paired (Veils a V) after after' ∧
      x.run c s = ((.ok response, later), after) ∧ x.run c s' = ((.ok response, later), after') := by
  obtain ⟨houtcome, hconnection, hlater⟩ := h c s s' hs
  generalize x.run c s = done, x.run c s' = done' at houtcome hconnection hlater ⊢
  obtain ⟨⟨outcome, later⟩, after⟩ := done
  obtain ⟨⟨outcome', later'⟩, after'⟩ := done'
  obtain rfl : later = later' := hconnection
  have houtcome : Both (Shared Clean) outcome outcome' := houtcome
  cases houtcome with
  | ok h => exact ⟨_, later, after, after', h.2, hlater, rfl, by rw [h.1]⟩

theorem history_of_conceals {requests : List Request} (h : ∀ r ∈ requests, Conceals a V (respond a r))
    {s s' : Session} (hs : Paired (Veils a V) s s') (c : Connection) :
    history a c s requests = history a c s' requests ∧
      ∀ e ∈ history a c s requests, ∃ response, e.answer = .ok response ∧ Clean response := by
  -- The sessions stay paired from request to request, and the connections stay the same.
  induction requests generalizing c s s' with
  | nil => exact ⟨rfl, fun e he => by cases he⟩
  | cons r requests ih =>
    rw [forall_mem_cons] at h
    obtain ⟨response, later, after, after', hclean, hlater, hrun, hrun'⟩ := h.1.exists_response hs c
    obtain ⟨hrest, hclean'⟩ := ih h.2 hlater later
    rw [history, history, hrun, hrun', hs.calls, hlater.calls, hrest, forall_mem_cons]
    exact ⟨rfl, ⟨response, rfl, hclean⟩, hrest ▸ hclean'⟩

/-- **Passwords do not show in responses about accounts**: two servers that differ in passwords only cannot be
told apart, if every login gets the same verdict. -/
theorem history_eq_of_sameButPasswords (a : Accounts) (c : Connection) (s s' : Session)
    (requests : List Request)
    (hroutes : ∀ r ∈ requests, ∃ route, Route.ofPath? r.path = some route ∧ route.isAboutAccounts = true)
    (hsame : Paired (SameButPasswords a (Agree a requests)) s s')
    (hprojection : ∀ before call, LeavesPasswordsOut a call (s.server before call)) :
    history a c s requests = history a c s' requests ∧
      ∀ e ∈ history a c s requests, ∃ response, e.answer = .ok response ∧
        ∀ user ∈ response.users, Hidden user := by
  have hpaired : Paired (Veils a (Agree a requests)) s s' :=
    ⟨hsame.calls, hsame.issued, fun before call => ⟨hsame.replies before call, hprojection before call⟩⟩
  refine history_of_conceals (fun r hr => ?_) hpaired c
  obtain ⟨route, hpath, hroute⟩ := hroutes r hr
  refine conceals_respond hpath (conceals_handle hroute ?_)
  rintro rfl name password hlogin kept kept' hagree
  exact hagree r hr hpath name password hlogin

/-- A store in which every user is the same one. -/
def keeping (a : Accounts) (salt : UInt8) : Server := fun _ call =>
  match call with
  | .findOne place _ => if place = a.users then some (.value (.doc (sampleUser salt true))) else none
  | _ => none

/-- The user looks at the own account. -/
def sampleProfile : Request :=
  ⟨.get, "/api/auth/profile", none, .token ⟨.access, .text (identity 1).hex, none, none⟩, default⟩

theorem paired_keeping (a : Accounts) {salt salt' : UInt8} (h : V (sampleDigest salt) (sampleDigest salt')) :
    Paired (SameButPasswords a V) (.start (keeping a salt)) (.start (keeping a salt')) := by
  refine ⟨rfl, rfl, fun before call => ?_⟩
  cases call with
  | findOne place filter =>
    show SameButPasswords a V _ (if place = a.users then _ else _) (if place = a.users then _ else _)
    split
    case isTrue hplace =>
      rw [hplace]
      exact .user filter (.value (.doc (.cons (.same _ _) (.cons (.same _ _) (.cons (.same _ _)
        (.cons (.password h) (forall₂_same.mpr fun _ _ => .same _ _)))))))
    case isFalse => exact .same _ _
  | _ => exact .same _ _

/-- A login, which succeeds, and a look at the own account do not tell two digests of the password apart. -/
theorem history_keeping : sampleDigest 0 ≠ sampleDigest 1 ∧
    (∀ salt, sampleAccounts.passwords.fits "secret" (sampleDigest salt) = .ok true) ∧
    history sampleAccounts (.fresh .null) (.start (keeping sampleAccounts 0)) [sampleLogin, sampleProfile] =
      history sampleAccounts (.fresh .null) (.start (keeping sampleAccounts 1)) [sampleLogin, sampleProfile] ∧
    (∀ e ∈ history sampleAccounts (.fresh .null) (.start (keeping sampleAccounts 0)) [sampleLogin, sampleProfile],
      ∃ response, e.answer = .ok response ∧ ∀ user ∈ response.users, Hidden user) ∧
    (history sampleAccounts (.fresh .null) (.start (keeping sampleAccounts 0)) [sampleLogin, sampleProfile]).map
      (fun e => e.answer.toOption.map fun response => (response.status, response.accessToken?.isSome)) =
        [some (200, true), some (200, false)] := by
  have hroutes : ∀ r ∈ [sampleLogin, sampleProfile], ∃ route, Route.ofPath? r.path = some route ∧
      route.isAboutAccounts :=
    forall_mem_cons.mpr ⟨⟨.login, by decide, rfl⟩,
      forall_mem_singleton.mpr ⟨.profile, by decide, rfl⟩⟩
  have hagree : Agree sampleAccounts [sampleLogin, sampleProfile] (sampleDigest 0) (sampleDigest 1) :=
    fun _ _ _ _ _ _ => rfl
  obtain ⟨hhistory, hhidden⟩ := history_eq_of_sameButPasswords sampleAccounts (.fresh .null) _ _ _ hroutes
    (paired_keeping sampleAccounts hagree) (by rintro before _ filter items rfl ⟨⟩)
  exact ⟨by decide, fun _ => congrArg Except.ok (beq_self_eq_true _), hhistory, hhidden, by decide +kernel⟩

end SqlGateway.Http
