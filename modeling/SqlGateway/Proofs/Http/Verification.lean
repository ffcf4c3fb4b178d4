import SqlGateway.Proofs.Http.Permission
import SqlGateway.Proofs.Store.Plain

/-!
# Which codes are accepted

The mail address and the code are put into a filter as they came, so a document of operators states a
condition there: **a code is accepted exactly if the filter selects a record**, and too few verifications
failed before (`verified_iff_selects`).
-/

namespace SqlGateway.Http

open Account Store SqlGateway.Filter List

def verified : Response :=
  .verdict 200 true "Código verificado correctamente"

def rejected : Response :=
  .verdict 400 false "Código inválido o expirado"

def blocked : Response :=
  .verdict 429 false "Demasiados intentos fallidos. Solicita un nuevo código"

theorem rejected_ne_verified : rejected ≠ verified := by decide

theorem blocked_ne_verified : blocked ≠ verified := by decide

theorem recoveryError_ne_verified (fault : Fault) : recoveryError fault ≠ verified := by
  show Response.verdict 500 false "Error interno del servidor" ≠ verified
  decide

/-! ### Handlers -/

section

variable {answer : Fault → Response} {handler : Connected Response} {c : Connection} {session : Session}
  {made : List Call}

theorem runs_catching {response : Response} (h : Connected.Runs handler c session (.ok response) made) :
    Connected.Runs (catching answer handler) c session (.ok response) made :=
  h.tryCatch _

theorem runs_catching_error {fault : Fault} (h : Connected.Runs handler c session (.error fault) made) :
    Connected.Runs (catching answer handler) c session (.ok (answer fault)) made := by
  rw [← append_nil made]
  exact h.caught (.pure _)

end

/-! ### Programs on a plain collection -/

section

variable {S : Semantics} {a : Accounts} {key : List Call → ObjectId} {session : Session}
  {records : List Record} {now : Timestamp}

/-- How many verifications failed, as the first open request tells. -/
def attemptsFound (S : Semantics) (email : Value) (records : List Record) : Value :=
  match first? S (openFilter email) records with
  | some record => (Document.get? record.document "attempts").getD (.int 0)
  | none => .int 0

theorem runs_findOne (h : Plain S a.resets key session records) (filter : Document) :
    Access.Runs (findOne a.resets filter) session (.ok (firstFound S filter records))
      [.findOne a.resets filter] := by
  have hreply := h.findOne [] filter
  rw [append_nil] at hreply
  exact .ask hreply _

theorem runs_updateOne (h : Plain S a.resets key session records) (filter update : Document) :
    ∃ updated, Access.Runs (updateOne a.resets filter update) session (.ok updated)
      [.updateOne a.resets filter update] := by
  obtain ⟨matched, modified, hreply⟩ := h.updateOne [] filter update
  rw [append_nil] at hreply
  exact ⟨⟨.int matched, .int modified, .null⟩, (Access.Runs.ask hreply _).bind (.lift rfl)⟩

theorem runs_failedAttempts (h : Plain S a.resets key session records) (email : Value) :
    Access.Runs (failedAttempts a email) session (.ok (attemptsFound S email records))
      [.findOne a.resets (openFilter email)] := by
  have hfind := runs_findOne h (openFilter email)
  refine Access.Runs.tryCatch ?_ _
  rw [attemptsFound]
  rw [firstFound] at hfind
  cases hfirst : first? S (openFilter email) records with
  | none =>
    rw [hfirst] at hfind
    exact hfind.bind (.pure _)
  | some record =>
    rw [hfirst] at hfind
    exact hfind.bind (.lift rfl)

/-- The calls that look for a request with a code and use it up, or count a failure. -/
def verifyCalls (a : Accounts) (now : Timestamp) (email code : Value) (found : Option Record) : List Call :=
  [.findOne a.resets (codeFilter now email code), match found with
    | some record => .updateOne a.resets [("_id", .id record.key)] [("$set", .doc [("used", .bool true)])]
    | none => .updateOne a.resets (openFilter email) [("$inc", .doc [("attempts", .int 1)])]]

theorem runs_verifyCode (now : Timestamp) (h : Plain S a.resets key session records) (email code : Value) :
    Access.Runs (verifyCode a now email code) session
      (.ok (first? S (codeFilter now email code) records).isSome)
      (verifyCalls a now email code (first? S (codeFilter now email code) records)) := by
  have hfind := runs_findOne h (codeFilter now email code)
  have hafter := h.after [.findOne a.resets (codeFilter now email code)]
  refine Access.Runs.tryCatch ?_ _
  rw [firstFound] at hfind
  cases hfirst : first? S (codeFilter now email code) records with
  | none =>
    rw [hfirst] at hfind
    obtain ⟨updated, hupdate⟩ := runs_updateOne hafter (openFilter email) [("$inc", .doc [("attempts", .int 1)])]
    exact hfind.bind (hupdate.bind (.pure _))
  | some record =>
    rw [hfirst] at hfind
    obtain ⟨updated, hupdate⟩ :=
      runs_updateOne hafter [("_id", .id record.key)] [("$set", .doc [("used", .bool true)])]
    exact hfind.bind (.lift_bind rfl (hupdate.bind (.pure _)))

def verdictOn (S : Semantics) (now : Timestamp) (email code : Value) (records : List Record) : Response :=
  match reaches attemptBound (attemptsFound S email records) with
  | .error fault => recoveryError fault
  | .ok true => blocked
  | .ok false => if (first? S (codeFilter now email code) records).isSome then verified else rejected

def callsOn (S : Semantics) (a : Accounts) (now : Timestamp) (email code : Value) (records : List Record) :
    List Call :=
  .findOne a.resets (openFilter email) :: match reaches attemptBound (attemptsFound S email records) with
    | .ok false => verifyCalls a now email code (first? S (codeFilter now email code) records)
    | _ => []

/-- **The run of a verification.** -/
theorem runs_verifyResetCode (h : Plain S a.resets key session records) {r : Request} {data : Document}
    (hbody : r.body = some (.doc data)) (hemail : (data.get "email").isPresent)
    (hcode : (data.get "code").isPresent) (c : Connection) :
    Connected.Runs (verifyResetCode a r) c session
      (.ok (verdictOn S r.instant (data.get "email") (data.get "code") records))
      (callsOn S a r.instant (data.get "email") (data.get "code") records) := by
  have hdocument := document_eq_ok_iff.mpr hbody
  have hattempts := runs_failedAttempts h (data.get "email")
  have hverify := runs_verifyCode r.instant (h.after [.findOne a.resets (openFilter (data.get "email"))])
    (data.get "email") (data.get "code")
  have hguard : ¬ (!(data.get "email").isPresent || !(data.get "code").isPresent) := by
    rw [hemail, hcode]
    exact Bool.false_ne_true
  rw [verifyResetCode, verdictOn, callsOn]
  cases hreaches : reaches attemptBound (attemptsFound S (data.get "email") records) with
  | error fault =>
    refine runs_catching_error (.lift_bind hdocument (.lift_bind rfl (.lift_bind rfl ?_)))
    rw [if_neg hguard]
    exact (Connected.Runs.access hattempts).bind (.error_bind hreaches _)
  | ok reached =>
    refine runs_catching (.lift_bind hdocument (.lift_bind rfl (.lift_bind rfl ?_)))
    rw [if_neg hguard]
    cases reached with
    | true => exact (Connected.Runs.access hattempts).bind (.lift_bind hreaches (.pure _))
    | false =>
      refine (Connected.Runs.access hattempts).bind (.lift_bind hreaches ?_)
      refine (Connected.Runs.access hverify).bind_pure ?_
      exact (apply_ite pure _ _ _).symm

theorem verdictOn_eq_verified_iff (email code : Value) : verdictOn S now email code records = verified ↔
      reaches attemptBound (attemptsFound S email records) = .ok false ∧
        ∃ record ∈ records, S.selects (codeFilter now email code) record.document := by
  have hsome : (first? S (codeFilter now email code) records).isSome ↔
      ∃ record ∈ records, S.selects (codeFilter now email code) record.document := find?_isSome
  rw [verdictOn, ← hsome]
  cases reaches attemptBound (attemptsFound S email records) with
  | error fault => exact ⟨fun h => absurd h (recoveryError_ne_verified fault), fun h => by cases h.1⟩
  | ok reached =>
    cases reached with
    | true => exact ⟨fun h => absurd h blocked_ne_verified, fun h => by cases h.1⟩
    | false =>
      show (if _ then verified else rejected) = verified ↔ _
      split
      case isTrue hfound => exact ⟨fun _ => ⟨rfl, hfound⟩, fun _ => rfl⟩
      case isFalse hfound => exact ⟨fun h => absurd h rejected_ne_verified, fun h => absurd h.2 hfound⟩

theorem not_verified_of_incomplete {r : Request} (c : Connection) (session : Session)
    (h : ¬ ∃ data : Document, r.body = some (.doc data) ∧ (data.get "email").isPresent ∧
      (data.get "code").isPresent) :
    ∃ response, Connected.Runs (verifyResetCode a r) c session (.ok response) [] ∧ response ≠ verified := by
  cases hbody : r.body with
  | none =>
    have hdocument : r.document = .error .noBody := by rw [Request.document, hbody]
    exact ⟨_, runs_catching_error (.error_bind hdocument _), recoveryError_ne_verified _⟩
  | some v =>
    have hdocument := document_eq_ok_iff.mpr hbody
    cases v with
    | doc data =>
      have hmissing : (!(Document.get data "email").isPresent || !(Document.get data "code").isPresent) := by
        rw [← Bool.not_and, Bool.not_eq_true', Bool.eq_false_iff]
        intro hboth
        exact h ⟨data, hbody, Bool.and_eq_true_iff.mp hboth⟩
      refine ⟨.verdict 400 false "Email y código son requeridos", runs_catching
        (.lift_bind hdocument (.lift_bind rfl (.lift_bind rfl ?_))), by decide⟩
      rw [if_pos hmissing]
      exact .pure _
    | _ => exact ⟨_, runs_catching_error (.lift_bind hdocument (.error_bind rfl _)), recoveryError_ne_verified _⟩

end

/-! ### Stored requests -/

/-- A stored request with its mail address, its code, whether it is used and when it expires. -/
structure IsRequest (d : Document) (email code : String) (used : Bool) (expiry : Timestamp) : Prop where
  email : d.get? "email" = some (.text email)
  code : d.get? "code" = some (.text code)
  used : d.get? "used" = some (.bool used)
  expiry : d.get? "expires_at" = some (.time expiry)

theorem isRequest_resetRequest (key : ObjectId) (now : Timestamp) (email code : String) :
    IsRequest (Record.document ⟨key, resetRequest now (.text email) code⟩) email code false
      (now.addMinutes codeMinutes) :=
  ⟨rfl, rfl, rfl, rfl⟩

section

variable {S : Semantics} {d : Document} {e k : String} {used : Bool} {expiry : Timestamp}

theorem selects_codeFilter (h : IsRequest d e k used expiry) (now : Timestamp) (email code : Value) :
    S.selects (codeFilter now email code) d = (S.satisfies (some (.text e)) email &&
      (S.satisfies (some (.text k)) code && (!used && now.isBefore expiry))) := by
  have hused : S.satisfies (some (.bool used)) (.bool false) = !used := by
    rw [Semantics.satisfies_of_plain rfl, S.same_bool]
    cases used <;> rfl
  have hexpiry : S.satisfies (some (.time expiry)) (.doc [("$gt", .time now)]) = now.isBefore expiry := by
    have hcondition : isCondition (.doc [("$gt", .time now)]) := rfl
    rw [Semantics.satisfies, if_pos hcondition, all_cons, all_nil, Bool.and_true, S.holds_gt]
  simp only [Semantics.selects, codeFilter, all_cons, all_nil, Bool.and_true, h.email, h.code, h.used,
    h.expiry, hused, hexpiry]

theorem satisfies_text {w : Value} (h : isCondition w = false) (s : String) :
    S.satisfies (some (.text s)) w ↔ w = .text s := by
  rw [Semantics.satisfies_of_plain h, S.same_text, beq_iff_eq]

theorem satisfies_ne (s other : String) :
    S.satisfies (some (.text s)) (.doc [("$ne", .text other)]) ↔ s ≠ other := by
  have hcondition : isCondition (.doc [("$ne", .text other)]) := rfl
  rw [Semantics.satisfies, if_pos hcondition, all_cons, all_nil, Bool.and_true, S.holds_ne, bne_iff_ne]
  exact ⟨fun h hs => h (congrArg Value.text hs.symm), fun h hs => h (Value.text.inj hs).symm⟩

end

/-- **A code is accepted exactly if the filter that it is put into selects a record**, and a code can be a
condition. -/
theorem verified_iff_selects (S : Semantics) (a : Accounts) (key : List Call → ObjectId)
    (session : Session) (records : List Record) (hplain : Plain S a.resets key session records)
    (r : Request) (hpath : Route.ofPath? r.path = some .verifyResetCode) (hmethod : r.method = .post)
    (c : Connection) :
    (((respond a r).run c session).1.1 = .ok verified ↔ ∃ data : Document, r.body = some (.doc data) ∧
      (data.get "email").isPresent = true ∧ (data.get "code").isPresent = true ∧
      reaches attemptBound (attemptsFound S (data.get "email") records) = .ok false ∧
      ∃ record ∈ records,
        S.selects (codeFilter r.instant (data.get "email") (data.get "code")) record.document = true) ∧
    ∀ (d : Document) (e k : String) (used : Bool) (expiry : Timestamp), IsRequest d e k used expiry →
      ∀ now email, isCondition email = false →
        (∀ code, isCondition code = false → (S.selects (codeFilter now email code) d = true ↔
          email = .text e ∧ code = .text k ∧ used = false ∧ now.isBefore expiry = true)) ∧
        ∀ other, (S.selects (codeFilter now email (.doc [("$ne", .text other)])) d = true ↔
          email = .text e ∧ k ≠ other ∧ used = false ∧ now.isBefore expiry = true) := by
  refine ⟨?_, ?_⟩
  · rw [respond_of_route hpath hmethod, Route.handle]
    by_cases hcomplete : ∃ data : Document, r.body = some (.doc data) ∧
        (data.get "email").isPresent ∧ (data.get "code").isPresent
    · obtain ⟨data, hbody, hemail, hcode⟩ := hcomplete
      rw [runs_verifyResetCode hplain hbody hemail hcode c, Except.ok.injEq, verdictOn_eq_verified_iff]
      refine ⟨fun h => ⟨data, hbody, hemail, hcode, h⟩, ?_⟩
      rintro ⟨data', hbody', -, -, h⟩
      obtain rfl := Value.doc.inj (Option.some.inj (hbody.symm.trans hbody'))
      exact h
    · obtain ⟨response, hrun, hne⟩ := not_verified_of_incomplete c session hcomplete
      rw [hrun, Except.ok.injEq]
      refine ⟨fun h => absurd h hne, ?_⟩
      rintro ⟨data, hbody, hemail, hcode, -⟩
      exact absurd ⟨data, hbody, hemail, hcode⟩ hcomplete
  · intro d e k used expiry hd now email hemail
    refine ⟨fun code hcode => ?_, fun other => ?_⟩
    · rw [selects_codeFilter hd, Bool.and_eq_true, Bool.and_eq_true, Bool.and_eq_true,
        satisfies_text hemail, satisfies_text hcode, Bool.not_eq_true']
    · rw [selects_codeFilter hd, Bool.and_eq_true, Bool.and_eq_true, Bool.and_eq_true,
        satisfies_text hemail, satisfies_ne, Bool.not_eq_true']

/-- A request that asks for a code that differs from the empty text. -/
def guess : Request :=
  ⟨.post, "/api/auth/verify-reset-code",
    some (.doc [("email", .text "a@b.c"), ("code", .doc [("$ne", .text "")])]), .missing, default⟩

/-- The guess is accepted without knowing the code. -/
theorem verified_guess : ∃ key session, Plain Semantics.plain sampleAccounts.resets key session
      [⟨nthKey 0, resetRequest default (.text "a@b.c") "123456"⟩] ∧
    Route.ofPath? guess.path = some .verifyResetCode ∧ guess.method = .post ∧
    ((respond sampleAccounts guess).run (.fresh .null) session).1.1 = .ok verified := by
  have hplain := plain_plainServer Semantics.plain sampleAccounts.resets (fun _ _ => none) 1
    [⟨nthKey 0, resetRequest default (.text "a@b.c") "123456"⟩] (forall_mem_singleton.mpr ⟨0, Nat.zero_lt_one, rfl⟩)
  have hpath : Route.ofPath? guess.path = some .verifyResetCode := by decide +kernel
  obtain ⟨haccepts, hselects⟩ := verified_iff_selects _ _ _ _ _ hplain guess hpath rfl (.fresh .null)
  refine ⟨_, _, hplain, hpath, rfl, haccepts.mpr ⟨_, rfl, by decide, by decide, rfl, _,
    mem_singleton_self _, ?_⟩⟩
  exact ((hselects _ _ _ _ _ (isRequest_resetRequest _ _ "a@b.c" "123456") _ (.text "a@b.c") rfl).2 "").mpr
    ⟨rfl, by decide, rfl, by decide⟩

end SqlGateway.Http
