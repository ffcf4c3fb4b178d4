import SqlGateway.Proofs.Http.Renewal
import SqlGateway.Proofs.Http.Standing

/-!
# Administration of accounts

A handler that changes an account answers without a call, or makes one update.  So **permissions are written
as names with true or false only** (`permissions_history`), and **an own account is spared only under the
spelling of its identity that the token has** (`status_of_own`).
-/

namespace SqlGateway.Http

open Account Store Connected List Value Route

variable {a : Accounts} {r : Request} {c : Connection} {session : Session} {key : String}

/-! ### Updates of one account -/

/-- The update of the account with an identity. -/
def accountUpdate (a : Accounts) (id : ObjectId) (members : Document) : Call :=
  .updateOne a.users [("_id", .id id)] [("$set", .doc members)]

theorem runs_changeUser (a : Accounts) (session : Session) (key : Value) (members : Document) :
    ∃ changed, Access.Runs (changeUser a (identityFilter key) (return members)) session (.ok changed)
      ((readIdentity key).toOption.map fun id => accountUpdate a id members).toList := by
  rw [changeUser, identityFilter, pure_bind]
  cases readIdentity key with
  | error fault => exact ⟨false, (Access.Runs.error_bind rfl _).caught (.pure _)⟩
  | ok id =>
    have hupdate : Access.Runs (updateOne a.users [("_id", .id id)] [("$set", .doc members)] >>=
        fun done => liftM (Except.ok (isPositive done.modified) : Except Fault Bool)) session _
          [accountUpdate a id members] :=
      ((Access.Runs.replied _ _).bind_lift readUpdated).bind_lift fun done => .ok (isPositive done.modified)
    generalize Access.replied nothingUpdated _ >>= readUpdated >>= _ = outcome at hupdate
    cases outcome with
    | ok changed => exact ⟨changed, hupdate.tryCatch _⟩
    | error fault => exact ⟨false, hupdate.caught (.pure _)⟩

theorem withAdmin_of_role {claims : Claims} (hclaims : r.accessClaims? = some claims)
    (hrole : claims.role = some (.text "admin")) (handler : Claims → Connected Response) :
    withAdmin r handler = catching (fun _ => accessRequired) (handler claims) := by
  rw [withAdmin, withAccess, hclaims]
  exact congrArg (catching _) (if_pos hrole)

/-- **The own account is spared under the spelling of its identity that the token has, and only under this
one.** -/
theorem status_of_own (a : Accounts) (r : Request) (c : Connection) (session : Session) (claims : Claims)
    (u key : String) (id : ObjectId) (data : Document) (hmethod : r.method = .put)
    (hpath : Route.ofPath? r.path = some (.userStatus key)) (hclaims : r.accessClaims? = some claims)
    (hrole : claims.role = some (.text "admin")) (hsubject : claims.subject = .text u)
    (hid : readIdentity (.text u) = .ok id) (hsame : readIdentity (.text key) = readIdentity (.text u))
    (hbody : r.body = some (.doc data)) (hactive : data.get? "is_active" = some (.bool false)) :
    (key = u → Runs (respond a r) c session (.ok (.error 400 "No puedes desactivarte a ti mismo")) []) ∧
    (key ≠ u → ∃ answer, Runs (respond a r) c session (.ok answer)
      [accountUpdate a id [("is_active", .bool false), ("updated_at", .time r.instant)]]) := by
  have hcarries : carries (.doc data) "is_active" = .ok true := by
    have hne : data ≠ [] := by
      rintro rfl
      cases hactive
    have hpresent : (doc data).isPresent := by simpa [isPresent] using hne
    rw [carries, if_pos hpresent, mentions, Document.has, hactive]
    rfl
  have hdata : r.document = .ok (.doc data) := document_eq_ok_iff.mpr hbody
  have hneed : (doc data).need "is_active" = .ok (.bool false) := need_doc_eq_ok_iff.mpr hactive
  rw [respond_of_route hpath hmethod, handle, changeStatus, withAdmin_of_role hclaims hrole, hsubject]
  constructor
  · rintro rfl
    refine runs_catching (runs_catching (.lift_bind hdata (.lift_bind hcarries (.lift_bind hneed ?_))))
    show Runs (if (decide (text key = .text key) && !false) then _ else _) _ _ _ _
    rw [if_pos (by simp)]
    exact .pure _
  · intro hne
    obtain ⟨changed, hchanged⟩ := runs_changeUser a session (.text key)
      [("is_active", .bool false), ("updated_at", .time r.instant)]
    rw [hsame, hid] at hchanged
    refine ⟨if changed then .message 200 "Usuario desactivado correctamente"
      else .error 400 "No se pudo actualizar el estado del usuario",
      runs_catching (runs_catching (.lift_bind hdata (.lift_bind hcarries (.lift_bind hneed ?_))))⟩
    show Runs (if (decide (text u = .text key) && !false) then _ else _) _ _ _ _
    rw [if_neg (by simpa using hne.symm)]
    refine (Runs.access hchanged).bind_pure ?_
    cases changed <;> rfl

/-- A request of an administrator to deactivate the own account, whose identity is spelled in another way. -/
def ownDeactivation : Request :=
  ⟨.put, "/admin/users/00000000000000000000000A/status", some (.doc [("is_active", .bool false)]),
    .token ⟨.access, .text "00000000000000000000000a", some (.text "admin"), none⟩, default⟩

theorem status_of_own_spelled : ∃ answer, Runs (respond sampleAccounts ownDeactivation) (.fresh .null)
    (.start fun _ _ => none) (.ok answer) [accountUpdate sampleAccounts ⟨"00000000000000000000000a"⟩
      [("is_active", .bool false), ("updated_at", .time default)]] := by
  have hlower : "00000000000000000000000A".map Char.toLower = "00000000000000000000000a" ∧
      "00000000000000000000000a".map Char.toLower = "00000000000000000000000a" := by decide +kernel
  have hid : readIdentity (.text "00000000000000000000000a") = .ok ⟨"00000000000000000000000a"⟩ := by
    rw [readIdentity, if_pos (by decide), hlower.2]
  have hsame : readIdentity (.text "00000000000000000000000A") = .ok ⟨"00000000000000000000000a"⟩ := by
    rw [readIdentity, if_pos (by decide), hlower.1]
  exact (status_of_own sampleAccounts ownDeactivation _ _ _ _ _ _ _ rfl (by decide +kernel) rfl rfl rfl hid
    (hsame.trans hid.symm) rfl rfl).2 (by decide)

/-! ### Permissions -/

/-- Names of permissions, each with true or false. -/
def arePermissions : Value → Bool
  | .doc d => d.all fun m => Permission.isName m.1 && isBool m.2
  | _ => false

theorem permissionProblem?_eq_none_iff {d : Document} :
    permissionProblem? d = none ↔ arePermissions (.doc d) := by
  induction d with
  | nil => simp [permissionProblem?, arePermissions]
  | cons m d ih =>
    obtain ⟨name, v⟩ := m
    rw [arePermissions] at ih ⊢
    rw [all_cons, Bool.and_eq_true, Bool.and_eq_true, ← ih, permissionProblem?]
    cases Permission.isName name <;> cases isBool v <;> simp

theorem arePermissions_defaults (role : Value) : arePermissions (.doc (Permission.defaults role)) := by
  have hname : ∀ p : Permission, Permission.isName p.name := by
    rintro ⟨⟩ <;> decide
  simp [arePermissions, Permission.defaults, isBool, hname]

/-- Whether an update sets members only, the permissions as a whole and to such. -/
def setsPermissions : Document → Bool
  | [(operator, .doc members)] => operator == "$set" &&
      members.all fun m => pathRoot m.1 != "permissions" || (m.1 == "permissions" && arePermissions m.2)
  | _ => false

/-- Whether the permissions that a call writes to the users are names with true or false. -/
def keepsPermissions (a : Accounts) : Call → Bool
  | .insertOne place (.doc d) => place != a.users || arePermissions (Document.get d "permissions")
  | .updateOne place _ update => place != a.users || setsPermissions update
  | .insertOne place _ | .insertMany place _ | .updateMany place _ _ => place != a.users
  | _ => true

abbrev Proper (a : Accounts) (call : Call) : Prop := keepsPermissions a call

theorem proper_newUser (now : Timestamp) (username email role : Value) (digest : List UInt8) :
    Proper a (.insertOne a.users (.doc (newUser now username email role digest))) :=
  Bool.or_eq_true_iff.mpr (.inr (arePermissions_defaults role))

theorem admits_proper (a : Accounts) : Admits a (Proper a) where
  findOne _ _ := rfl
  random _ := rfl
  newUser _ _ _ := proper_newUser _ _ _ _
  insertReset document := by cases document <;> simp [Proper, keepsPermissions, users_ne_resets a]
  updateReset _ _ := by simp [Proper, keepsPermissions, users_ne_resets a]
  deleteReset _ := rfl

theorem proper_update {members : Document} (filter : Document)
    (h : ∀ m ∈ members, pathRoot m.1 = "permissions" → m.1 = "permissions" ∧ arePermissions m.2) :
    Proper a (.updateOne a.users filter [("$set", .doc members)]) := by
  refine Bool.or_eq_true_iff.mpr (.inr (Bool.and_eq_true_iff.mpr ⟨rfl, all_eq_true.mpr fun m hm => ?_⟩))
  simpa [imp_iff_not_or] using h m hm

theorem proper_other {members : Document} (filter : Document) (names : List String)
    (hnames : members.names = names) (h : ∀ name ∈ names, pathRoot name ≠ "permissions") :
    Proper a (.updateOne a.users filter [("$set", .doc members)]) :=
  proper_update filter fun m hm hroot =>
    absurd hroot (h m.1 (hnames ▸ mem_map_of_mem (f := Prod.fst) hm))

/-- The calls of a permissions request with an answer: none, or one update that the answer tells of. -/
def Fitting (a : Accounts) (answer : Response) (made : List Call) : Prop :=
  made = [] ∨ (answer.status = 200 ∨ answer = .error 400 "No se pudieron actualizar los permisos") ∧
    ∃ id permissions now, arePermissions permissions ∧
      made = [accountUpdate a id [("permissions", permissions), ("updated_at", .time now)]]

/-- The program runs, and its answer fits its calls. -/
def RunsFitting (a : Accounts) (c : Connection) (session : Session) (x : Connected Response) : Prop :=
  ∃ outcome made, Runs x c session outcome made ∧ Fitting a (answered outcome) made

theorem runsFitting_pure (answer : Response) : RunsFitting a c session (pure answer) :=
  ⟨.ok answer, [], .pure answer, .inl rfl⟩

theorem runsFitting_lift_bind {α : Type} {x : Except Fault α} {f : α → Connected Response}
    (hf : ∀ v, RunsFitting a c session (f v)) : RunsFitting a c session (liftM x >>= f) := by
  cases x with
  | error fault => exact ⟨_, [], .error_bind rfl f, .inl rfl⟩
  | ok v =>
    obtain ⟨outcome, made, hruns, hfitting⟩ := hf v
    exact ⟨outcome, made, .lift_bind rfl hruns, hfitting⟩

theorem runsFitting_changePermissions (a : Accounts) (r : Request) (c : Connection) (session : Session)
    (key : String) : RunsFitting a c session (changePermissions a r key) := by
  cases hclaims : r.accessClaims? with
  | none =>
    rw [changePermissions, withAdmin, withAccess, hclaims]
    exact runsFitting_pure _
  | some claims =>
    by_cases hrole : claims.role = some (.text "admin")
    case neg =>
      rw [changePermissions, withAdmin, withAccess, hclaims]
      show RunsFitting a c session (catching _ (if claims.role = some (.text "admin") then _ else _))
      rw [if_neg hrole]
      exact ⟨_, [], runs_catching (.pure _), .inl rfl⟩
    suffices h : RunsFitting a c session _ by
      obtain ⟨outcome, made, hruns, hfitting⟩ := h
      rw [changePermissions, withAdmin_of_role hclaims hrole]
      exact ⟨.ok (answered outcome), made, runs_catching (runs_answered hruns), hfitting⟩
    refine runsFitting_lift_bind fun data => runsFitting_lift_bind fun carried => ?_
    split
    · exact runsFitting_pure _
    refine runsFitting_lift_bind fun permissions => ?_
    split
    case h_2 => exact runsFitting_pure _
    case h_1 permissions =>
      split
      case h_1 => exact runsFitting_pure _
      case h_2 hproblem =>
        obtain ⟨changed, hchanged⟩ := runs_changeUser a session (.text key)
          [("permissions", .doc permissions), ("updated_at", .time r.instant)]
        refine ⟨.ok (if changed then .message 200 "Permisos actualizados correctamente"
          else .error 400 "No se pudieron actualizar los permisos"), _,
          (Runs.access hchanged).bind_pure (by cases changed <;> rfl), ?_⟩
        cases readIdentity (.text key) with
        | error => exact .inl rfl
        | ok id =>
          refine .inr ⟨?_, id, .doc permissions, r.instant, permissionProblem?_eq_none_iff.mp hproblem, rfl⟩
          cases changed
          · exact .inr rfl
          · exact .inl rfl

/-! ### Requests -/

/-- Whether requests on the route are about accounts. -/
def Route.isAccount : Route → Bool
  | .users | .user _ | .userPermissions _ | .userStatus _ | .permissions | .statistics => true
  | route => accountRoutes.contains route

theorem proper_of_fitting {answer : Response} {made : List Call} (h : Fitting a answer made) :
    ∀ call ∈ made, Proper a call := by
  rcases h with rfl | ⟨-, id, permissions, now, hpermissions, rfl⟩
  · exact forall_mem_nil _
  have hroot : pathRoot "updated_at" ≠ "permissions" := by decide
  exact forall_mem_singleton.mpr (proper_update _ (forall_mem_cons.mpr
    ⟨fun _ => ⟨rfl, hpermissions⟩, forall_mem_singleton.mpr fun h => absurd h hroot⟩))

theorem makes_setActive (a : Accounts) (now : Timestamp) (key : Value) (active : Bool) :
    Access.Makes (Proper a) (setActive a now key (.bool active)) := by
  refine .tryCatch ?_ fun _ => .pure _
  rw [pure_bind]
  refine (Access.Passes.lift _).bind fun filter => ?_
  exact ((Access.Passes.ask (proper_other filter ["is_active", "updated_at"] rfl (by decide)) _).bind
    fun _ => .lift _).bind fun _ => .pure _

theorem keeps_isAccount {I : Connection → Prop} {route : Route} (h : route.isAccount) :
    Keeps I (Proper a) (route.handle a r) := by
  have hadmits := admits_proper a
  have hadmin : ∀ {handler : Claims → Connected Response},
      (∀ claims, Keeps I (Proper a) (handler claims)) → Keeps I (Proper a) (withAdmin r handler) := fun h =>
    keeps_withAccess fun claims _ => by
      split
      · exact h claims
      · exact .pure _
  have husers : Access.Makes (Proper a) (allUsers a) :=
    .tryCatch ((Access.Passes.ask (by rfl) _).bind fun _ => .lift _) fun _ => .pure _
  cases route with
  | register => exact keeps_register hadmits r
  | login => exact keeps_login hadmits r
  | refresh => exact keeps_refresh hadmits r
  | profile => exact keeps_profile hadmits r
  | forgotPassword => exact keeps_forgotPassword hadmits r
  | verifyResetCode => exact keeps_verifyResetCode hadmits r
  | resetPassword => exact keeps_resetPassword hadmits fun _ _ => proper_other _ ["password"] rfl (by decide)
  | users => exact hadmin fun _ => keeps_catching ((Passes.access husers).bind fun _ => .lift _)
  | user key =>
    exact hadmin fun _ => keeps_catching ((Passes.access (makes_byIdentity hadmits _)).bind fun _ => .lift _)
  | userPermissions key =>
    intro c session hc
    obtain ⟨outcome, made, hruns, hfitting⟩ := runsFitting_changePermissions a r c session key
    rw [handle, hruns]
    exact ⟨hc, made, rfl, proper_of_fitting hfitting⟩
  | userStatus key =>
    refine hadmin fun _ => keeps_catching (.reading_bind fun _ => .reading_bind fun _ => ?_)
    split
    · exact .pure _
    refine .reading_bind fun v => ?_
    split
    · split
      · exact .pure _
      refine (Passes.access (makes_setActive a _ _ _)).bind fun _ => ?_
      split <;> exact .pure _
    · exact .pure _
  | permissions => exact hadmin fun _ => keeps_catching (.lift _)
  | statistics =>
    exact hadmin fun _ => keeps_catching ((Passes.access husers).bind fun _ => .reading_bind fun _ => .lift _)
  | _ => cases h

theorem makes_startUp (a : Accounts) (now : Timestamp) : Access.Makes (Proper a) (do
    createIndexes a
    ensureAdmin a now) := by
  have hindexes : Access.Makes (Proper a) (createIndexes a) :=
    (Access.Passes.ask (by rfl) _).bind fun _ => (Access.Passes.ask (by rfl) _).bind fun _ => .pure _
  refine hindexes.bind fun _ => (makes_findOne (admits_proper a) _ _).bind fun _ => ?_
  split
  · exact (makes_createUser (admits_proper a) now (proper_newUser · · · _) _ _ _).bind fun _ => .pure _
  · exact .pure _

/-- **Permissions are written as names with true or false only.** -/
theorem permissions_history (a : Accounts) : (∀ (now : Timestamp) (session : Session), ∃ made,
      ((do createIndexes a; ensureAdmin a now : Access Unit).run.run session).2.calls = session.calls ++ made ∧
        ∀ call ∈ made, keepsPermissions a call = true) ∧
    ∀ c session requests, ∀ e ∈ history a c session requests, ∀ route,
      Route.ofPath? e.request.path = some route → route.isAccount = true →
        (∀ call ∈ e.calls, keepsPermissions a call = true) ∧
        ∀ key answer, route = .userPermissions key → e.answer = .ok answer →
          (answer.status = 401 ∨ answer.status = 403 ∨ answer.status = 400 ∧
            answer ≠ .error 400 "No se pudieron actualizar los permisos") → e.calls = [] := by
  refine ⟨makes_startUp a, fun c session requests e he route hpath haccount => ?_⟩
  obtain ⟨c, session, hanswer, hcalls⟩ := exists_of_mem_history he
  have hkeeps : Keeps (fun _ => True) (Proper a) (respond a e.request) := keeps_respond fun other hother _ => by
    obtain rfl := Option.some.inj (hpath.symm.trans hother)
    exact keeps_isAccount haccount
  constructor
  · obtain ⟨-, made, hmade, hproper⟩ := hkeeps c session trivial
    rw [hcalls, hmade, drop_left]
    exact hproper
  · rintro key answer rfl hok hrefused
    by_cases hmethod : e.request.method = .put
    · obtain ⟨outcome, made, hruns, hfitting⟩ := runsFitting_changePermissions a e.request c session key
      rw [respond_of_route hpath hmethod, handle, hruns] at hanswer hcalls
      obtain rfl : outcome = .ok answer := hanswer.symm.trans hok
      rw [hcalls, Session.calls_after, drop_left]
      rcases hfitting with rfl | ⟨hstatus | hfailed, -⟩
      · rfl
      · have hstatus : answer.status = 200 := hstatus
        omega
      · have hfailed : answer = .error 400 "No se pudieron actualizar los permisos" := hfailed
        simp [hfailed, Response.error] at hrefused
    · obtain ⟨status, hempty⟩ := respond_of_method_ne hpath (by simp [method]) hmethod
      rw [hcalls, hempty]
      exact drop_length

/-- A request of an administrator to set the permission to select. -/
def permissionChange (value : Value) : Request :=
  ⟨.put, "/admin/users/00000000000000000000000a/permissions",
    some (.doc [("permissions", .doc [("select", value)])]),
    .token ⟨.access, .text "u", some (.text "admin"), none⟩, default⟩

def permissionChanges : List Exchange :=
  history sampleAccounts (.fresh .null) (.start fun _ _ => none)
    [permissionChange (.bool true), permissionChange (.int 1)]

/-- Of two changes the one to `true` is written, and the one to a number is refused without a call. -/
theorem permissions_history_changes : ∃ e₁ e₂, permissionChanges = [e₁, e₂] ∧
    e₁.calls = [accountUpdate sampleAccounts ⟨"00000000000000000000000a"⟩
      [("permissions", .doc [("select", .bool true)]), ("updated_at", .time default)]] ∧
    (∀ call ∈ e₁.calls, keepsPermissions sampleAccounts call) ∧
    e₂.answer = .ok (.error 400 "El valor del permiso select debe ser booleano") ∧ e₂.calls = [] := by
  have hproper := (permissions_history sampleAccounts).2 (.fresh .null) (.start fun _ _ => none)
    [permissionChange (.bool true), permissionChange (.int 1)]
  have hroute : ofPath? "/admin/users/00000000000000000000000a/permissions" =
      some (.userPermissions "00000000000000000000000a") := by decide +kernel
  have hanswer : permissionChanges.getLast?.map Exchange.answer =
      some (.ok (.error 400 "El valor del permiso select debe ser booleano")) := by decide +kernel
  have hcalls : permissionChanges.head?.map Exchange.calls =
      some [accountUpdate sampleAccounts ⟨"00000000000000000000000a"⟩
        [("permissions", .doc [("select", .bool true)]), ("updated_at", .time default)]] := by decide +kernel
  exact ⟨_, _, rfl, Option.some.inj hcalls, (hproper _ mem_cons_self _ hroute rfl).1,
    Option.some.inj hanswer, (hproper _ (mem_cons_of_mem _ mem_cons_self) _ hroute rfl).2 _ _ rfl
      (Option.some.inj hanswer) (.inr (.inr ⟨rfl, by decide⟩))⟩

end SqlGateway.Http
