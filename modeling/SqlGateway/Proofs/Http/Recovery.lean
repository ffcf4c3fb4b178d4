import SqlGateway.Proofs.Account.User
import SqlGateway.Proofs.Http.Account

/-!
# Who sets a password

A user who forgot the password asks for a code, verifies it and sets a new password.  The third request does
not ask for the second: **it sets exactly the password that it carries**, if a digest can be made of it
(`passwordCalls_history`).  All other handlers are `Silent`.
-/

namespace SqlGateway.Http

open Account Store Connected List Document Option Call

variable {a : Accounts} {r : Request} {session : Session} {password : String} {before made : List Call}
  {email : Value} {c : Connection} {route : Route} {call : Call} {α : Type}

/-! ### Histories -/

/-- A request with its answer and the calls that were made for it. -/
structure Exchange where
  request : Request
  answer : Except Fault Response
  calls : List Call

def history (a : Accounts) (c : Connection) (session : Session) : List Request → List Exchange
  | [] => []
  | r :: requests =>
    let result := (respond a r).run c session
    ⟨r, result.1.1, result.2.calls.drop session.calls.length⟩ :: history a result.1.2 result.2 requests

theorem history_cons_of_runs {answer : Response} (h : Connected.Runs (respond a r) c session (.ok answer) made)
    (requests : List Request) : history a c session (r :: requests) =
      ⟨r, .ok answer, made⟩ :: history a c (session.after made) requests := by
  rw [history, h, Session.calls_after, drop_left]

theorem exists_of_mem_history {requests : List Request} {e : Exchange}
    (h : e ∈ history a c session requests) : ∃ c session, e.answer = ((respond a e.request).run c session).1.1 ∧
      e.calls = ((respond a e.request).run c session).2.calls.drop session.calls.length := by
  induction requests generalizing c session with
  | nil => cases h
  | cons r requests ih =>
    rcases mem_cons.mp h with rfl | h
    · exact ⟨c, session, rfl, rfl⟩
    · exact ih h

/-- What the calls of every request are related to the calls before it by, along a history. -/
theorem leaves_history {requests : List Request} {L : Request → List Call → List Call → Prop}
    (h : ∀ r ∈ requests, Leaves (L r) (respond a r)) {before after : List Exchange} {e : Exchange}
    (hsplit : history a c session requests = before ++ e :: after) :
    L e.request (session.calls ++ before.flatMap Exchange.calls) e.calls := by
  induction requests generalizing c session before with
  | nil => cases before <;> cases hsplit
  | cons r requests ih =>
    obtain ⟨hr, hrequests⟩ := forall_mem_cons.mp h
    obtain ⟨made, hmade, hL⟩ := hr c session
    rw [history, hmade, drop_left] at hsplit
    cases before with
    | nil =>
      obtain ⟨rfl, -⟩ := cons.inj hsplit
      rw [flatMap_nil, append_nil]
      exact hL
    | cons x before =>
      obtain ⟨rfl, hrest⟩ := cons.inj hsplit
      rw [flatMap_cons, ← append_assoc, ← hmade]
      exact ih hrequests hrest

def accountRoutes : List Route :=
  [.register, .login, .refresh, .profile, .forgotPassword, .verifyResetCode, .resetPassword]

/-! ### Calls about passwords -/

def setsPassword (a : Accounts) : Call → Bool
  | .updateOne place _ update =>
    place == a.users && match get update "$set" with
      | .doc members => has members "password"
      | _ => false
  | _ => false

/-- The call that gives the user with a mail address a password with a digest. -/
def passwordCall (a : Accounts) (email : Value) (digest : List UInt8) : Call :=
  .updateOne a.users [("email", email)] [("$set", .doc [("password", .bytes digest)])]

/-- The password that a request carries for a mail address: it is long enough, and the address is not
empty. -/
def carriedPassword? (r : Request) : Option (Value × String) :=
  match r.body with
  | some (.doc data) =>
    match get data "new_password" with
    | .text password =>
      if (get data "email").isPresent && decide (Password.leastLength ≤ password.length) then
        some (get data "email", password)
      else none
    | _ => none
  | _ => none

/-- The call that sets a password after some calls, if a digest can be made of it. -/
def digestCall? (a : Accounts) (email : Value) (password : String) (before : List Call) : Option Call :=
  (a.passwords.digest before password).toOption.map (passwordCall a email)

/-- The call that a request makes to set a password, after some calls. -/
def passwordCall? (a : Accounts) (r : Request) (before : List Call) : Option Call :=
  if r.method = .post ∧ Route.ofPath? r.path = some .resetPassword then
    (carriedPassword? r).bind fun carried => digestCall? a carried.1 carried.2 before
  else none

/-- The call changes no user. -/
def Silent (a : Accounts) (call : Call) : Prop :=
  ∀ filter update, call ≠ .updateOne a.users filter update

theorem Silent.not_setsPassword (h : Silent a call) : setsPassword a call = false := by
  cases call with
  | updateOne place filter update =>
    have hplace : (place == a.users) = false := by
      rw [beq_eq_false_iff_ne]
      rintro rfl
      exact h filter update rfl
    rw [setsPassword, hplace, Bool.false_and]
  | _ => rfl

theorem silent_of_kind (h : call.kind ≠ .updateOne) : Silent a call := by
  rintro filter update rfl
  exact h rfl

theorem admits_silent (a : Accounts) : Admits a (Silent a) where
  findOne _ _ := silent_of_kind (by simp [kind])
  random _ := silent_of_kind (by simp [kind])
  newUser _ _ _ _ := silent_of_kind (by simp [kind])
  insertReset _ := silent_of_kind (by simp [kind])
  updateReset _ _ := fun _ _ h => users_ne_resets a (updateOne.inj h).1
  deleteReset _ := silent_of_kind (by simp [kind])

/-! ### The reset -/

/-- Of some calls, those that set a password are the given one, which depends on the calls before. -/
def Sent (a : Accounts) (sent? : List Call → Option Call) (before made : List Call) : Prop :=
  made.filter (setsPassword a) = (sent? before).toList

theorem filter_of_silent (h : ∀ call ∈ made, Silent a call) : made.filter (setsPassword a) = [] := by
  rw [filter_eq_nil_iff]
  intro call hcall
  simp [(h call hcall).not_setsPassword]

/-- The calls that are made are silent, whatever was called before. -/
def Hushed (a : Accounts) (_before made : List Call) : Prop :=
  ∀ call ∈ made, Silent a call

theorem hushed_nil (before : List Call) : Hushed a before [] :=
  forall_mem_nil _

theorem Sent.append {sent? : List Call → Option Call} (before made later : List Call)
    (h : Sent a sent? before made) (h' : Hushed a (before ++ made) later) :
    Sent a sent? before (made ++ later) := by
  rw [Sent, filter_append, h, filter_of_silent h', append_nil]

theorem leaves_of_keeps {x : Connected α} (h : Keeps (fun _ => True) (Silent a) x) :
    Leaves (Hushed a) x :=
  fun c session => (h c session trivial).2

theorem leaves_of_silent {x : Connected α} (h : Keeps (fun _ => True) (Silent a) x) :
    Leaves (Sent a fun _ => none) x := by
  intro c session
  obtain ⟨made, hmade, hsilent⟩ := leaves_of_keeps h c session
  exact ⟨made, hmade, filter_of_silent hsilent⟩

theorem setsPassword_passwordCall (a : Accounts) (email : Value) (digest : List UInt8) :
    setsPassword a (passwordCall a email digest) := by
  rw [passwordCall, setsPassword, beq_self_eq_true, Bool.true_and]
  rfl

theorem leaves_changePassword (a : Accounts) (email : Value) (digest : List UInt8) :
    Access.Leaves (Sent a fun _ => some (passwordCall a email digest))
      (changeUser a (.ok [("email", email)]) (return [("password", .bytes digest)])) := by
  have hlift : ∀ {α : Type} (x : Except Fault α), Access.Leaves (Hushed a) (liftM x) :=
    fun _ => Access.Passes.lift (R := .adds (Silent a)) _
  have hsent : ∀ before, Sent a (fun _ => some (passwordCall a email digest)) before
      [passwordCall a email digest] := fun _ => filter_cons_of_pos (setsPassword_passwordCall a email digest)
  have hask : Access.Leaves (Sent a fun _ => some (passwordCall a email digest))
      (Access.ask (passwordCall a email digest) nothingUpdated) :=
    .bind Sent.append hushed_nil (.ask? hsent) fun _ => hlift (.ok _)
  refine .tryCatch Sent.append hushed_nil ?_ fun _ => hlift (.ok _)
  show Access.Leaves _ (updateOne a.users [("email", email)] [("$set", .doc [("password", .bytes digest)])] >>=
    fun done => pure (isPositive done.modified))
  exact .bind Sent.append hushed_nil
    (.bind Sent.append hushed_nil hask fun _ => hlift _) fun _ => hlift (.ok _)

/-- A password is set with its digest, and without a digest no call is made. -/
theorem leaves_setPassword (a : Accounts) (email : Value) (password : String) :
    Access.Leaves (Sent a (digestCall? a email password)) (setPassword a email (.text password)) := by
  intro session
  have hrun : (setPassword a email (.text password)).run.run session = (changeUser a (.ok [("email", email)])
      (liftM (a.passwords.digest session.calls password) >>= fun digest =>
        return [("password", .bytes digest)])).run.run session := rfl
  dsimp only
  rw [hrun]
  cases hdigest : a.passwords.digest session.calls password with
  | error fault =>
    refine ⟨[], (append_nil _).symm, ?_⟩
    rw [Sent, digestCall?, hdigest]
    rfl
  | ok digest =>
    obtain ⟨made, hmade, hsent⟩ := leaves_changePassword a email digest session
    refine ⟨made, hmade, ?_⟩
    rw [Sent, digestCall?, hdigest]
    exact hsent

theorem silent_setPassword {password : Value} (h : ∀ s, password ≠ .text s) :
    Access.Makes (Silent a) (setPassword a email password) := by
  cases password with
  | text s => exact absurd rfl (h s)
  | _ => exact Access.Passes.pure false

theorem silent_resetPassword (h : carriedPassword? r = none) :
    Keeps (fun _ => True) (Silent a) (resetPassword a r) := by
  refine keeps_catching (.lift_bind fun data hdata => .lift_bind fun email hemail =>
    .lift_bind fun password hpassword => ?_)
  split
  · exact .pure _
  rename_i hpresent
  refine .lift_bind fun length hlength => ?_
  split
  · exact .pure _
  rename_i hlong
  refine (Passes.access (silent_setPassword ?_)).bind fun changed => ?_
  · -- a text would be carried
    rintro s rfl
    cases data with
    | doc data =>
      have hbody := document_eq_ok_iff.mp hdata
      have hs : get data "new_password" = .text s := Except.ok.inj hpassword
      obtain rfl : get data "email" = email := Except.ok.inj hemail
      obtain rfl : s.length = length := Except.ok.inj hlength
      have hemail' : (get data "email").isPresent := by
        simp only [Bool.or_eq_true, Bool.not_eq_true', not_or, Bool.not_eq_false] at hpresent
        exact hpresent.1
      simp only [carriedPassword?, hbody, hs, hemail', Bool.true_and, decide_eq_true_eq,
        Nat.not_lt.mp hlong, if_true] at h
      cases h
    | _ => cases hemail
  · exact keeps_afterPassword (admits_silent a) email changed

theorem exists_of_carriedPassword? (h : carriedPassword? r = some (email, password)) :
    ∃ data, r.body = some (.doc data) ∧ get data "new_password" = .text password ∧
      get data "email" = email ∧ email.isPresent ∧ Password.leastLength ≤ password.length := by
  rw [carriedPassword?] at h
  split at h
  case h_1 data hbody =>
    split at h
    case h_1 s hs =>
      split at h
      case isTrue hcarried =>
        obtain ⟨rfl, rfl⟩ := Prod.mk.inj (some.inj h)
        rw [Bool.and_eq_true, decide_eq_true_eq] at hcarried
        exact ⟨data, hbody, hs, rfl, hcarried⟩
      case isFalse => cases h
    case h_2 => cases h
  case h_2 => cases h

/-- **The reset sets the password that it carries**, without asking for a code. -/
theorem leaves_resetPassword (h : carriedPassword? r = some (email, password)) :
    Leaves (Sent a (digestCall? a email password)) (resetPassword a r) := by
  obtain ⟨data, hbody, hpassword, rfl, hemail, hlong⟩ := exists_of_carriedPassword? h
  have hpresent : (Value.text password).isPresent := by
    have hne : password ≠ "" := by
      rintro rfl
      exact absurd hlong (by decide)
    simpa [Value.isPresent] using hne
  refine .tryCatch Sent.append hushed_nil ?_ fun _ => leaves_of_keeps (.pure _)
  refine .lift_bind (document_eq_ok_iff.mpr hbody) (.lift_bind rfl (.lift_bind rfl ?_))
  rw [hpassword, hemail, hpresent]
  refine .lift_bind rfl ?_
  rw [if_neg (Nat.not_lt.mpr hlong)]
  exact .bind Sent.append hushed_nil (fun _ => leaves_setPassword a _ password)
    fun changed => leaves_of_keeps (keeps_afterPassword (admits_silent a) _ changed)

/-! ### Requests and histories -/

theorem leaves_handle (hroute : route ∈ accountRoutes)
    (hpath : Route.ofPath? r.path = some route) (hmethod : r.method = route.method) :
    Leaves (Sent a (passwordCall? a r)) (route.handle a r) := by
  by_cases hreset : route = .resetPassword
  · subst hreset
    have hcall : passwordCall? a r = fun before =>
        (carriedPassword? r).bind fun carried => digestCall? a carried.1 carried.2 before :=
      funext fun _ => if_pos ⟨hmethod, hpath⟩
    rw [hcall]
    cases hcarried : carriedPassword? r with
    | none => exact leaves_of_silent (silent_resetPassword hcarried)
    | some carried => exact leaves_resetPassword hcarried
  · have hnone : passwordCall? a r = fun _ => none := by
      refine funext fun _ => if_neg ?_
      rintro ⟨-, h⟩
      rw [hpath] at h
      exact hreset (some.inj h)
    rw [hnone]
    refine leaves_of_silent ?_
    simp only [accountRoutes, mem_cons, not_mem_nil, or_false] at hroute
    have hadmits := admits_silent a
    rcases hroute with rfl | rfl | rfl | rfl | rfl | rfl | rfl
    · exact keeps_register hadmits r
    · exact keeps_login hadmits r
    · exact keeps_refresh hadmits r
    · exact keeps_profile hadmits r
    · exact keeps_forgotPassword hadmits r
    · exact keeps_verifyResetCode hadmits r
    · exact absurd rfl hreset

/-- One request: the calls that it adds hold the password call that it carries, and no other. -/
theorem leaves_respond (hroute : route ∈ accountRoutes) (hpath : Route.ofPath? r.path = some route) :
    Leaves (Sent a (passwordCall? a r)) (respond a r) := by
  by_cases hmethod : r.method = route.method
  · rw [respond, hpath]
    show Leaves _ (if r.method = route.method then _ else _)
    rw [if_pos hmethod]
    exact leaves_handle hroute hpath hmethod
  · have hnone : passwordCall? a r = fun _ => none := by
      refine funext fun _ => if_neg ?_
      rintro ⟨hpost, h⟩
      rw [hpath] at h
      obtain rfl := some.inj h
      exact hmethod hpost
    rw [hnone]
    -- a request for the head alone is one for the profile, which changes nothing
    have hprofile : ∀ route ∈ accountRoutes, route.method = .get → route = .profile := by decide
    refine leaves_of_silent (keeps_respond fun other hother hor => ?_)
    obtain rfl : route = other := some.inj (hpath.symm.trans hother)
    rw [hprofile route hroute (hor.resolve_left hmethod)]
    exact keeps_profile (admits_silent a) r

/-- **Passwords are set without a code**: a request makes exactly the password call that it carries, if a digest
can be made then. -/
theorem passwordCalls_history (a : Accounts) (c : Connection) (session : Session) (requests : List Request)
    (hroutes : ∀ r ∈ requests, ∃ route ∈ accountRoutes, Route.ofPath? r.path = some route)
    (before after : List Exchange) (e : Exchange)
    (hsplit : history a c session requests = before ++ e :: after) : e.calls.filter (setsPassword a) =
      (passwordCall? a e.request (session.calls ++ before.flatMap Exchange.calls)).toList := by
  refine leaves_history (L := fun r => Sent a (passwordCall? a r)) (fun r hr => ?_) hsplit
  obtain ⟨route, hroute, hpath⟩ := hroutes r hr
  exact leaves_respond hroute hpath

/-- A request for a reset that nothing went before. -/
def suddenReset : Request :=
  ⟨.post, "/api/auth/reset-password",
    some (.doc [("email", .text "a@b.c"), ("new_password", .text "secret")]), .missing, default⟩

theorem passwordCalls_suddenReset : ∃ e,
    history sampleAccounts (.fresh .null) (.start fun _ _ => none) [suddenReset] = [] ++ e :: [] ∧
    Route.resetPassword ∈ accountRoutes ∧ Route.ofPath? e.request.path = some .resetPassword ∧
    e.calls.filter (setsPassword sampleAccounts) =
      [passwordCall sampleAccounts (.text "a@b.c") (0 :: "secret".toList.map Char.toUInt8)] := by
  have hpath : Route.ofPath? suddenReset.path = some .resetPassword := by decide +kernel
  have hcall : passwordCall? sampleAccounts suddenReset [] =
      some (passwordCall sampleAccounts (.text "a@b.c") (0 :: "secret".toList.map Char.toUInt8)) := by
    decide +kernel
  refine ⟨_, rfl, by decide, hpath, ?_⟩
  refine (passwordCalls_history sampleAccounts (.fresh .null) (.start fun _ _ => none) [suddenReset]
    (forall_mem_singleton.mpr ⟨_, by decide, hpath⟩) [] [] _ rfl).trans ?_
  exact congrArg toList hcall

end SqlGateway.Http
