import SqlGateway.Proofs.Http.Recovery
import SqlGateway.Proofs.Plan.Select
import SqlGateway.Proofs.Plan.Semicolon

/-!
# Who manages users

The standing of a user is the role, the permissions and whether the account is active.  The requests spare it
unless the token is an administrator's (`keeps_handle`), but a statement writes to the database that is
selected: **without an administrator's token only a statement manages users** (`manages_history`).
-/

namespace SqlGateway.Http

open Account Store Connected List Route Plan Request

variable {a : Accounts} {call : Call} {claims : Claims} {r : Request}

/-! ### Calls that manage users -/

/-- The members of a user that make up the standing. -/
def standingMembers : List String :=
  ["role", "permissions", "is_active"]

/-- The member into which a path leads. -/
def pathRoot (path : String) : String :=
  String.ofList (path.toList.takeWhile (· != '.'))

/-- Whether an update only sets members that are no part of the standing. -/
def sparesStanding : Value → Bool
  | .doc [(operator, .doc members)] =>
    operator == "$set" && members.all fun m => !(standingMembers.contains (pathRoot m.1))
  | _ => false

def isPlainUser : Value → Bool
  | .doc d => Document.get d "role" == .text "user" &&
      Document.get d "permissions" == .doc (Permission.defaults (.text "user"))
  | _ => false

def arePlainUsers : Value → Bool
  | .list items => items.all isPlainUser
  | _ => false

/-- Whether a call changes the standing of users, or adds users with another standing than new ones. -/
def manages (a : Accounts) : Call → Bool
  | .updateOne place _ update => place == a.users && !sparesStanding (.doc update)
  | .updateMany place _ update => place == a.users && !sparesStanding update
  | .insertOne place document => place == a.users && !isPlainUser document
  | .insertMany place documents => place == a.users && !arePlainUsers documents
  | _ => false

theorem place_of_manages (h : manages a call) : call.place? = some a.users ∧ ¬ Neutral call := by
  have hplace : ∀ {place : Place} {b : Bool}, (place == a.users && b) → place = a.users :=
    fun h => beq_iff_eq.mp (Bool.and_eq_true_iff.mp h).1
  cases call with
  | updateOne place => exact ⟨congrArg some (hplace h), by simp [Neutral, Call.kind, CallKind.permission?]⟩
  | updateMany place => exact ⟨congrArg some (hplace h), by simp [Neutral, Call.kind, CallKind.permission?]⟩
  | insertOne place => exact ⟨congrArg some (hplace h), by simp [Neutral, Call.kind, CallKind.permission?]⟩
  | insertMany place => exact ⟨congrArg some (hplace h), by simp [Neutral, Call.kind, CallKind.permission?]⟩
  | _ => cases h

def Spares (a : Accounts) (call : Call) : Prop :=
  manages a call = false

theorem spares_of_neutral (call : Call) (h : Neutral call) : Spares a call :=
  eq_false_of_ne_true fun hmanages => (place_of_manages hmanages).2 h

theorem spares_of_place (h : call.place? = some a.resets) : Spares a call :=
  eq_false_of_ne_true fun hmanages =>
    users_ne_resets a (Option.some.inj (h.symm.trans (place_of_manages hmanages).1))

theorem admits_spares (a : Accounts) : Admits a (Spares a) where
  findOne _ _ := rfl
  random _ := rfl
  newUser _ _ _ _ := Bool.and_false _
  insertReset _ := spares_of_place rfl
  updateReset _ _ := spares_of_place rfl
  deleteReset _ := spares_of_place rfl

theorem spares_passwordCall (a : Accounts) (email : Value) (digest : List UInt8) :
    Spares a (passwordCall a email digest) := by
  have hroot : standingMembers.contains (pathRoot "password") = false := by decide
  have hupdate : sparesStanding (.doc [("$set", .doc [("password", .bytes digest)])]) := by
    simp only [sparesStanding, all_cons, all_nil, hroot, Bool.not_false, Bool.and_true, beq_self_eq_true]
  rw [Spares, passwordCall, manages, hupdate]
  exact Bool.and_false _

/-! ### Handlers -/

section

variable {I : Connection → Prop} {P : Call → Prop} {r : Request}

/-- Whether a request carries an administrator's token. -/
def Request.isAdmin (r : Request) : Bool :=
  match r.credential with
  | .token claims => claims.role == some (.text "admin")
  | _ => false

theorem keeps_withAdmin (h : r.isAdmin = false) (handler : Claims → Connected Response) :
    Keeps I P (withAdmin r handler) := by
  refine keeps_withAccess fun claims hclaims => ?_
  have hrole : claims.role ≠ some (.text "admin") := by
    rw [accessClaims?] at hclaims
    split at hclaims
    case h_1 token hcredential =>
      split at hclaims
      · obtain rfl := Option.some.inj hclaims
        rw [isAdmin, hcredential] at h
        exact beq_eq_false_iff_ne.mp h
      · cases hclaims
    case h_2 => cases hclaims
  rw [if_neg hrole]
  exact .pure _

theorem makes_setPassword_of (hpassword : ∀ email digest, P (passwordCall a email digest))
    (email password : Value) : Access.Makes P (setPassword a email password) := by
  refine .tryCatch ?_ fun _ => .pure _
  simp only [bind_assoc, pure_bind]
  refine (makes_digested a password).bind fun digest => ?_
  show Access.Makes P (updateOne a.users [("email", email)] _ >>= fun _ => pure _)
  exact ((Access.Passes.ask (hpassword email digest) _).bind fun _ => .lift _).bind fun _ => .pure _

theorem keeps_resetPassword (h : Admits a P) (hpassword : ∀ email digest, P (passwordCall a email digest)) :
    Keeps I P (resetPassword a r) := by
  refine keeps_catching (.reading_bind fun data => .reading_bind fun email =>
    .reading_bind fun password => ?_)
  split
  · exact .pure _
  refine .reading_bind fun length => ?_
  split
  · exact .pure _
  exact (Passes.access (makes_setPassword_of hpassword email password)).bind fun changed =>
    keeps_afterPassword h email changed

end

section

variable {D : String → Prop} {r : Request}

theorem keeps_isAlive {I : Connection → Prop} : Keeps I Neutral isAlive :=
  .orElse ((Passes.access (.tell (by rfl))).bind fun _ => .pure _) (.pure _)

theorem keeps_availableDatabases : Keeps (Knows D) Neutral availableDatabases := by
  have hlist : Access.Makes Neutral listDatabases :=
    (Access.Passes.ask (by rfl) _).bind fun _ => (Access.Passes.lift _).bind fun _ => .pure _
  have hseen : ∀ (names : List Value) (c : Connection), Knows D c →
      Knows D { c with available := names } := fun names c hc => ⟨hc.database, hc.name⟩
  refine .orElse ((Passes.access hlist).bind fun names => (Passes.change (hseen names)).bind fun _ => .pure _) ?_
  exact keeps_reconnect_neutral.bind fun _ => .orElse (.access hlist) (.pure _)

theorem keeps_collections (name : Value) : Keeps (Knows D) Neutral (collections name) :=
  passes_collections (fun _ => by rfl) keeps_reconnect_neutral name

theorem keeps_connectTo (hname : ∀ name, r.database? = some name → D name) :
    Keeps (Knows D) Neutral (connectTo r) := by
  refine keeps_withAccess fun _ _ => keeps_catching (.lift_bind fun data hdata =>
    .reading_bind fun carried => ?_)
  split
  · exact .pure _
  · exact .lift_bind fun database hneed => (keeps_select (database_of_need hname hdata hneed)
      fun _ => by rfl).bind fun _ => .lift _

end

/-! ### Requests -/

def choosingRoutes : List Route :=
  [.connect, .runStatement, .showCommand]

def Request.chosen? (r : Request) : Option String :=
  if (ofPath? r.path).any choosingRoutes.contains then r.database? else none

theorem Request.chosen?_of_route {route : Route} (hpath : ofPath? r.path = some route)
    (hroute : route ∈ choosingRoutes) : r.chosen? = r.database? := by
  rw [chosen?, hpath, Option.any_some, if_pos (contains_iff_mem.mpr hroute)]

section

variable {D : String → Prop} {r : Request} {route : Route}

/-- **Every route but that of statements spares the users**, if the token is not an administrator's. -/
theorem keeps_handle (hadmin : r.isAdmin = false) (hname : ∀ name, r.chosen? = some name → D name)
    (hpath : ofPath? r.path = some route) (hroute : route ≠ .runStatement) :
    Keeps (Knows D) (Spares a) (route.handle a r) := by
  have hadmits := admits_spares a
  have hchosen : route ∈ choosingRoutes → ∀ name, r.database? = some name → D name := fun hmem name h =>
    hname name ((chosen?_of_route hpath hmem).trans h)
  have hneutral : ∀ {x : Connected Response}, Keeps (Knows D) Neutral x → Keeps (Knows D) (Spares a) x :=
    fun h => h.mono spares_of_neutral
  cases route with
  | health => exact hneutral (keeps_isAlive.bind fun _ => .pure _)
  | databases =>
    exact hneutral (keeps_withAccess fun _ _ => keeps_catching (keeps_availableDatabases.bind fun _ => .lift _))
  | collections database =>
    exact hneutral (keeps_withAccess fun _ _ => keeps_catching ((keeps_collections _).bind fun _ =>
      .reading_bind fun _ => .lift _))
  | connect => exact hneutral (keeps_connectTo (hchosen (by decide)))
  | runStatement => exact absurd rfl hroute
  | showCommand => exact hneutral (keeps_showCommand (hchosen (by decide)))
  | testConnection =>
    exact hneutral (keeps_withAccess fun _ _ => keeps_catching (keeps_isAlive.bind fun _ =>
      keeps_availableDatabases.bind fun _ => .connection_bind fun _ _ => .lift _))
  | supportedSql => exact keeps_withAccess fun _ _ => .pure _
  | register => exact keeps_register hadmits r
  | login => exact keeps_login hadmits r
  | refresh => exact keeps_refresh hadmits r
  | profile => exact keeps_profile hadmits r
  | forgotPassword => exact keeps_forgotPassword hadmits r
  | verifyResetCode => exact keeps_verifyResetCode hadmits r
  | resetPassword => exact keeps_resetPassword hadmits (spares_passwordCall a)
  | users => exact keeps_withAdmin hadmin _
  | user key => exact keeps_withAdmin hadmin _
  | userPermissions key => exact keeps_withAdmin hadmin _
  | userStatus key => exact keeps_withAdmin hadmin _
  | permissions => exact keeps_withAdmin hadmin _
  | statistics => exact keeps_withAdmin hadmin _

/-- A request to run a statement that its token permits to make the call. -/
def RunsPermitted (r : Request) (call : Call) : Prop :=
  (r.method = .post ∧ ofPath? r.path = some .runStatement) ∧
    ∃ claims p, r.accessClaims? = some claims ∧ call.kind.permission? = some p ∧ claims.Grants p

/-- One request: it manages users only by a statement, in a database that is known by then. -/
theorem keeps_respond_manages (hadmin : r.isAdmin = false) (hname : ∀ name, r.chosen? = some name → D name) :
    Keeps (Knows D) (fun call => manages a call → RunsPermitted r call ∧ D a.database)
      (respond a r) := by
  refine keeps_respond fun route hpath hmethod => ?_
  by_cases hroute : route = .runStatement
  · subst hroute
    have hpost : r.method = .post := hmethod.resolve_right (by decide)
    have hchosen : ∀ name, r.database? = some name → D name := fun name h =>
      hname name ((chosen?_of_route hpath (by decide)).trans h)
    refine (keeps_runStatement hchosen).mono fun call hcall hmanages => ?_
    obtain ⟨hplace, hkind⟩ := place_of_manages hmanages
    obtain ⟨p, hp⟩ := Option.ne_none_iff_exists'.mp hkind
    obtain ⟨claims, hclaims, hgrants⟩ := hcall.1 p hp
    exact ⟨⟨⟨hpost, hpath⟩, claims, p, hclaims, hp, hgrants⟩, (hcall.2.resolve_left hkind) _ hplace⟩
  · refine (keeps_handle hadmin hname hpath hroute).mono fun call hspares hmanages => ?_
    exact absurd hmanages (Bool.eq_false_iff.mp hspares)

end

/-! ### Statements that are run -/

theorem prepare_update {text table : String} {values : Document}
    (hkind : Sql.statementKind? text.toList = some "UPDATE") (hpermits : permits claims .update = .ok true)
    (htable : Sql.tableOfKind? (some "UPDATE") text.toList = some table) (hne : table ≠ "")
    (hfilter : Sql.Where.filter text.toList = [])
    (hvalues : Document.get? (Sql.Change.describeUpdate text.toList) "values" = some (.doc values)) :
    prepare claims (.text text) = .ok (.ok ⟨.text table, .doc [("operation", .text "update"),
      ("collection", .text table), ("query", .doc [("query", .doc []),
        ("update", .doc [("$set", .doc values)])])]⟩) := by
  have hplan : ((ofStatement (.ofText text.toList)).run.run []).1 = .ok (.doc
      [("operation", .text "update"), ("collection", .text table), ("query", .doc [("query", .doc []),
        ("update", .doc [("$set", .doc values)])])]) := by
    rw [ofStatement_ofText, hkind]
    rw [update_eq (table_of_kind hkind), htable, hfilter, hvalues]
    rfl
  have hread : readStatement (.text text) = .ok (.ofText text.toList) := rfl
  have hstatement : Statement.kind (.ofText text.toList) = .ok (.text "UPDATE") :=
    congrArg (fun kind? => Except.ok (Value.ofText? kind?)) hkind
  have hneeds : Permission.forStatement? (.text "UPDATE") = some .update := rfl
  have hpresent : (Value.ofText? (some table)).isPresent := by
    simpa [Value.ofText?, Value.isPresent] using hne
  rw [prepare, hread]
  simp only [ok_bind, hstatement, hneeds, hpermits, table_of_kind hkind, htable, hpresent, hplan]
  rfl

theorem runStatement_of_prepare {data query : Value} {ready : Ready}
    (hclaims : r.accessClaims? = some claims) (hdata : r.document = .ok data)
    (hcarries : carries data "query" = .ok true) (hquery : data.need "query" = .ok query)
    (hprepare : prepare claims query = .ok (.ok ready)) :
    runStatement r = catching (fun _ => accessRequired) (catching statementError do
      if !(← chooseDatabase data) then return Denial.noDatabase.response
      Response.json 200 (← execute ready.collection ready.plan)) := by
  have hok : ∀ {α β : Type} (a : β) (f : β → Connected α),
      ((liftM (Except.ok a : Except Fault β) : Connected β) >>= f) = f a := fun _ _ => rfl
  rw [runStatement, withAccess, hclaims, hdata]
  simp only [hok, hcarries, hquery, hprepare]
  rfl

/-! ### Histories -/

/-- The exchanges of a history, for any databases that are known at the start. -/
theorem runsPermitted_of_history {D : String → Prop} {c : Connection} {session : Session}
    {requests : List Request} (hknows : Knows D c) (hadmin : ∀ r ∈ requests, r.isAdmin = false)
    {before after : List Exchange} {e : Exchange}
    (hsplit : history a c session requests = before ++ e :: after) (hcall : call ∈ e.calls)
    (hmanages : manages a call) : RunsPermitted e.request call ∧
      (D a.database ∨ ∃ e' ∈ before ++ [e], e'.request.chosen? = some a.database) := by
  -- the databases known grow by the one that each request chooses
  induction requests generalizing D c session before with
  | nil => cases before <;> cases hsplit
  | cons r requests ih =>
    obtain ⟨hr, hrequests⟩ := forall_mem_cons.mp hadmin
    have hD : Knows (fun d => D d ∨ r.chosen? = some d) c := hknows.mono fun _ => .inl
    obtain ⟨hlater, made, hmade, hcalls⟩ :=
      keeps_respond_manages hr (fun _ => .inr) c session hD
    rw [history, hmade, drop_left] at hsplit
    cases before with
    | nil =>
      obtain rfl := (cons.inj hsplit).1
      obtain ⟨hruns, hknown⟩ := hcalls call hcall hmanages
      exact ⟨hruns, hknown.imp_right fun h => ⟨_, mem_singleton_self _, h⟩⟩
    | cons first before =>
      obtain ⟨rfl, hrest⟩ := cons.inj hsplit
      obtain ⟨hruns, hknown⟩ := ih hlater hrequests hrest
      refine ⟨hruns, ?_⟩
      rcases hknown with (hknown | hchosen) | ⟨e', he', hchosen⟩
      · exact .inl hknown
      · exact .inr ⟨_, mem_cons_self, hchosen⟩
      · exact .inr ⟨e', mem_cons_of_mem _ he', hchosen⟩

/-- **Without an administrator's token only a statement manages users**, and only one that its token permits.
-/
theorem manages_history (a : Accounts) (c : Connection) (session : Session) (requests : List Request)
    (hadmin : ∀ r ∈ requests, r.isAdmin = false) (before : List Exchange) (e : Exchange)
    (after : List Exchange) (hsplit : history a c session requests = before ++ e :: after) (call : Call)
    (hcall : call ∈ e.calls) (hmanages : manages a call = true) :
    (e.request.method = .post ∧ Route.ofPath? e.request.path = some .runStatement) ∧
    (∃ claims p, e.request.accessClaims? = some claims ∧ call.kind.permission? = some p ∧ claims.Grants p) ∧
    (c.database = some a.database ∨ c.name.isPresent = true ∧ c.name.plain = a.database ∨
      ∃ e' ∈ before ++ [e], e'.request.chosen? = some a.database) := by
  have hknows : Knows (fun d => c.database = some d ∨ c.name.isPresent ∧ c.name.plain = d) c :=
    ⟨fun _ => .inl, fun hname => .inr ⟨hname, rfl⟩⟩
  obtain ⟨⟨hroute, hgrants⟩, hknown⟩ := runsPermitted_of_history hknows hadmin hsplit hcall hmanages
  exact ⟨hroute, hgrants, or_assoc.mp hknown⟩

/-- A statement that makes every user an administrator. -/
def promotionText : String :=
  "UPDATE users SET role = 'admin'"

def updaterClaims : Claims :=
  ⟨.access, .text "u", some (.text "user"), some (.doc [("update", .bool true)])⟩

/-- The promotion, asked for with the token of a user who may update. -/
def promotion : Request :=
  ⟨.post, "/translate", some (.doc [("database", .text "accounts"), ("query", .text promotionText)]),
    .token updaterClaims, default⟩

theorem prepare_promotion : prepare updaterClaims (.text promotionText) = .ok (.ok ⟨.text "users", .doc
    [("operation", .text "update"), ("collection", .text "users"), ("query", .doc [("query", .doc []),
      ("update", .doc [("$set", .doc [("role", .text "admin")])])])]⟩) := by
  have hwords : promotionText.toList = Text.unwords
      ("UPDATE" :: "users" :: ["SET", "role", "=", "'admin'"].map String.toList) := by decide
  have hkind : Sql.statementKind? promotionText.toList = some "UPDATE" := by
    rw [hwords]
    exact Sql.statementKind?_unwords (by decide) (by decide) (by decide) (.inl (by decide))
  exact prepare_update hkind rfl (by decide +kernel) (by decide) (by decide +kernel) (by decide +kernel)

theorem calls_promotion : ((respond sampleAccounts promotion).run (.fresh .null)
    (.start fun _ _ => none)).2.calls = [.collectionNames "accounts", .collectionNames "accounts",
      .updateMany ⟨"accounts", "users"⟩ (.doc []) (.doc [("$set", .doc [("role", .text "admin")])])] := by
  have hpath : ofPath? promotion.path = some .runStatement := by decide
  rw [respond_of_route hpath rfl, handle, runStatement_of_prepare rfl rfl rfl rfl prepare_promotion]
  decide +kernel

/-- The promotion changes the role of every user. -/
theorem manages_promotion : promotion.isAdmin = false ∧ ∃ e call,
    history sampleAccounts (.fresh .null) (.start fun _ _ => none) [promotion] = [] ++ e :: [] ∧
    call = .updateMany ⟨"accounts", "users"⟩ (.doc []) (.doc [("$set", .doc [("role", .text "admin")])]) ∧
    call ∈ e.calls ∧ manages sampleAccounts call = true ∧
    (∃ claims p, e.request.accessClaims? = some claims ∧ call.kind.permission? = some p ∧ claims.Grants p) ∧
    ∃ e' ∈ [e], e'.request.chosen? = some "accounts" := by
  have hadmin : promotion.isAdmin = false := by decide
  obtain ⟨answer, hhistory⟩ : ∃ answer,
      history sampleAccounts (.fresh .null) (.start fun _ _ => none) [promotion] = [] ++
        ⟨promotion, answer, ((respond sampleAccounts promotion).run (.fresh .null)
          (.start fun _ _ => none)).2.calls⟩ :: [] := ⟨_, rfl⟩
  rw [calls_promotion] at hhistory
  have hmanages : manages sampleAccounts (.updateMany ⟨"accounts", "users"⟩ (.doc [])
      (.doc [("$set", .doc [("role", .text "admin")])])) := by decide +kernel
  obtain ⟨-, hgrants, hchosen⟩ := manages_history sampleAccounts (.fresh .null) (.start fun _ _ => none)
    [promotion] (forall_mem_singleton.mpr hadmin) [] _ [] hhistory _ (by simp) hmanages
  refine ⟨hadmin, _, _, hhistory, rfl, by simp, hmanages, hgrants, ?_⟩
  rcases hchosen with hdatabase | ⟨hname, -⟩ | hchosen
  · cases hdatabase
  · cases hname
  · exact hchosen

end SqlGateway.Http
