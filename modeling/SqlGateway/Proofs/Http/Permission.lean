import SqlGateway.Http.Route
import SqlGateway.Proofs.Store.Permission
import SqlGateway.Proofs.Value.Document

/-!
# Requests keep to the permissions of their tokens

A statement is planned after the token was asked for the permission of its kind, and its operation makes only
calls that need this permission.  So **each call that touches data is covered by a permission of the token**
(`calls_covered`).
-/

namespace SqlGateway.Http

open Account Store Connected Document Value Route Except

variable {r : Request} {a : Accounts} {route : Route} {I : Connection → Prop} {P : Call → Prop}

/-- A permission that a token carries with a value that counts as present. -/
def Claims.Grants (claims : Claims) (p : Permission) : Prop :=
  ∃ permissions v, claims.permissions = some (.doc permissions) ∧
    get? permissions p.name = some v ∧ v.isPresent

/-- A call that needs a permission is covered by the token of the request. -/
def Covered (r : Request) (call : Call) : Prop :=
  ∀ p, call.kind.permission? = some p → ∃ claims, r.accessClaims? = some claims ∧ claims.Grants p

theorem document_eq_ok_iff {v : Value} : r.document = .ok v ↔ r.body = some v := by
  rw [Request.document]
  cases r.body with
  | none => constructor <;> intro h <;> cases h
  | some w => exact ⟨fun h => congrArg some (ok.inj h), fun h => congrArg ok (Option.some.inj h)⟩

/-! ### Planning for the holder of a token -/

theorem gives_permits (claims : Claims) (p : Permission) :
    Gives (fun permitted => permitted = true → claims.Grants p) (permits claims p) := by
  refine .bind fun v hv => .pure fun hpresent => ?_
  cases hclaims : claims.permissions with
  | none =>
    rw [hclaims] at hv
    obtain rfl : bool false = v := ok.inj hv
    exact absurd hpresent (by decide)
  | some permissions =>
    rw [hclaims] at hv
    cases permissions with
    | doc members =>
      have hv : (get? members p.name).getD (.bool false) = v := ok.inj hv
      cases hget : get? members p.name with
      | none =>
        rw [hget] at hv
        obtain rfl : bool false = v := hv
        exact absurd hpresent (by decide)
      | some w =>
        rw [hget] at hv
        obtain rfl : w = v := hv
        exact ⟨members, w, hclaims, hget, hpresent⟩
    | _ => cases hv

/-- What is ready to run was permitted, and its plan fits the permission. -/
def Permitted (claims : Claims) (ready : Ready) : Prop :=
  ∃ kind p, Permission.forStatement? (.text kind) = some p ∧ claims.Grants p ∧ Plan.Serves kind ready.plan

theorem gives_readStatement (query : Value) :
    Gives (fun s => ∃ text, s = .ofText text) (readStatement query) := by
  cases query with
  | text t => exact .pure ⟨t, rfl⟩
  | _ => rintro s ⟨⟩

theorem gives_prepare (claims : Claims) (query : Value) :
    Gives (fun prepared => ∀ ready, prepared = .ok ready → Permitted claims ready) (prepare claims query) := by
  have hdenied : ∀ denial : Denial, Gives
      (fun prepared : Except Denial Ready => ∀ ready, prepared = .ok ready → Permitted claims ready)
      (pure (.error denial)) := fun denial => .pure fun ready h => nomatch h
  refine .bind fun s hs => .bind fun kind hkind => ?_
  split
  case h_1 => exact hdenied _
  case h_2 p hp =>
    refine .bind fun permitted hpermitted => ?_
    split
    case isTrue => exact hdenied _
    case isFalse h =>
      have hgrants := gives_permits claims p permitted hpermitted (by simpa using h)
      refine .bind fun collection _ => ?_
      split
      case isTrue => exact hdenied _
      case isFalse =>
        refine .bind fun plan hplan => .pure ?_
        rintro ready ⟨⟩
        obtain ⟨text, rfl⟩ := gives_readStatement query s hs
        obtain rfl : ofText? (Sql.statementKind? text) = kind := ok.inj hkind
        cases hname : Sql.statementKind? text with
        | none =>
          rw [hname] at hp
          cases hp
        | some name =>
          rw [hname] at hp
          exact ⟨name, p, hp, hgrants, Plan.yields_ofStatement hname [] plan hplan⟩

/-! ### Handlers -/

def Request.database? (r : Request) : Option String :=
  match r.body with
  | some (.doc data) => (get? data "database").map plain
  | _ => none

/-- The call touches no data, or it goes to one of the databases. -/
def Stays (D : String → Prop) (call : Call) : Prop :=
  Neutral call ∨ ∀ place, call.place? = some place → D place.database

theorem covered_of_neutral (r : Request) (call : Call) (h : Neutral call) : Covered r call := by
  intro p hp
  rw [h] at hp
  cases hp

theorem covered_of_within {claims : Claims} (hclaims : r.accessClaims? = some claims) {p : Permission}
    (hp : claims.Grants p) {D : String → Prop} (call : Call) (h : Within p D call) :
    Covered r call ∧ Stays D call := by
  rcases h with h | ⟨h, hstays⟩
  · exact ⟨covered_of_neutral r call h, .inl h⟩
  · refine ⟨fun q hq => ?_, .inr hstays⟩
    obtain rfl : p = q := Option.some.inj (h.symm.trans hq)
    exact ⟨claims, hclaims, hp⟩

section

variable {D : String → Prop} {P : Call → Prop}

theorem keeps_withAccess {handler : Claims → Connected Response}
    (h : ∀ claims, r.accessClaims? = some claims → Keeps I P (handler claims)) :
    Keeps I P (withAccess r handler) := by
  rw [withAccess]
  split
  case h_1 claims hclaims => exact .tryCatch (h claims hclaims) fun _ => .pure _
  case h_2 => exact .pure _

variable (hname : ∀ name, r.database? = some name → D name)
include hname

theorem database_of_need {data database : Value} (hdata : r.document = .ok data)
    (hneed : data.need "database" = .ok database) : D database.plain := by
  obtain ⟨members, rfl, hget⟩ := need_eq_ok_iff.mp hneed
  refine hname _ ?_
  rw [Request.database?, document_eq_ok_iff.mp hdata]
  exact congrArg (Option.map plain) hget

theorem keeps_chooseDatabase {data : Value} (hdata : r.document = .ok data) :
    Keeps (Knows D) Neutral (chooseDatabase data) := by
  refine .reading_bind fun named => ?_
  split
  · exact .lift_bind fun name hneed => (keeps_select (database_of_need hname hdata hneed)
      fun _ => by rfl).bind fun _ => .pure _
  · exact .connection_bind fun _ _ => .pure _

theorem keeps_runStatement : Keeps (Knows D) (fun call => Covered r call ∧ Stays D call) (runStatement r) := by
  have hneutral : ∀ call, Neutral call → Covered r call ∧ Stays D call :=
    fun call h => ⟨covered_of_neutral r call h, .inl h⟩
  refine keeps_withAccess fun claims hclaims => .tryCatch ?_ fun _ => .pure _
  refine .lift_bind fun data hdata =>
    ((keeps_chooseDatabase hname hdata).mono hneutral).bind fun chosen => ?_
  split
  · exact .pure _
  refine .reading_bind fun carried => ?_
  split
  · exact .pure _
  refine .reading_bind fun query => .lift_bind fun prepared hprepared => ?_
  cases prepared with
  | error denial => exact .pure _
  | ok ready =>
    obtain ⟨kind, p, hp, hgrants, hserves⟩ := gives_prepare claims query _ hprepared ready rfl
    have hexecute := keeps_execute (D := D) hp hserves ready.collection
    exact (hexecute.mono (covered_of_within hclaims hgrants)).bind fun _ => .lift _

theorem keeps_showCommand : Keeps (Knows D) Neutral (showCommand r) := by
  refine keeps_withAccess fun claims _ => .tryCatch ?_ fun _ => .pure _
  refine .lift_bind fun data hdata => .reading_bind fun carried => ?_
  split
  · exact .pure _
  refine (keeps_chooseDatabase hname hdata).bind fun chosen => ?_
  split
  · exact .pure _
  refine .reading_bind fun query => .reading_bind fun prepared => ?_
  cases prepared with
  | error denial => exact .pure _
  | ok ready => exact .reading_bind fun _ => .lift _

end

theorem makes_runStatement (r : Request) : Makes (Covered r) (runStatement r) :=
  ((keeps_runStatement fun _ _ => trivial).mono fun _ h => h.1).makes Knows.all

theorem makes_showCommand (r : Request) : Makes Neutral (showCommand r) :=
  (keeps_showCommand fun _ _ => trivial).makes Knows.all

/-! ### Requests -/

theorem respond_of_route (hpath : ofPath? r.path = some route) (hmethod : r.method = route.method) :
    respond a r = route.handle a r := by
  rw [respond, hpath]
  exact if_pos hmethod

theorem respond_of_method_ne (hpath : ofPath? r.path = some route) (hget : route.method ≠ .get)
    (hmethod : r.method ≠ route.method) : ∃ status, respond a r = pure (.empty status) := by
  have hhead : ¬ (decide (r.method = .head) && decide (route.method = .get)) := by simp [hget]
  rw [respond, hpath]
  show ∃ status, (if r.method = route.method then _ else _) = _
  rw [if_neg hmethod, if_neg hhead]
  split
  · exact ⟨200, rfl⟩
  · exact ⟨405, rfl⟩

theorem keeps_respond
    (h : ∀ route, ofPath? r.path = some route → r.method = route.method ∨ route.method = .get →
      Keeps I P (route.handle a r)) : Keeps I P (respond a r) := by
  rw [respond]
  split
  · exact .pure _
  case h_2 route hpath =>
    split
    case isTrue hmethod => exact h route hpath (.inl hmethod)
    split
    · exact .pure _
    split
    case isTrue hhead =>
      rw [Bool.and_eq_true, decide_eq_true_eq, decide_eq_true_eq] at hhead
      exact (h route hpath (.inr hhead.2)).bind fun _ => .pure _
    case isFalse => exact .pure _

theorem makes_respond (hroute : ofPath? r.path = some route) (h : Makes P (route.handle a r)) :
    Makes P (respond a r) := by
  refine Keeps.makes (keeps_respond fun other hother _ c session _ => ?_) fun _ => trivial
  obtain rfl : route = other := Option.some.inj (hroute.symm.trans hother)
  exact ⟨trivial, h c session⟩

/-- **Calls are covered by the permissions of the token.** -/
theorem calls_covered (a : Accounts) (r : Request) (c : Connection) (session : Session) :
    (Route.ofPath? r.path = some .runStatement → ∃ made,
      ((respond a r).run c session).2.calls = session.calls ++ made ∧ ∀ call ∈ made, Covered r call) ∧
    (Route.ofPath? r.path = some .showCommand → ∃ made,
      ((respond a r).run c session).2.calls = session.calls ++ made ∧
        ∀ call ∈ made, call.kind.permission? = none) :=
  ⟨fun hroute => makes_respond hroute (makes_runStatement r) c session,
    fun hroute => makes_respond hroute (makes_showCommand r) c session⟩

/-- Passwords whose digests have a first byte that is another one each time. -/
def salted : Password.Scheme where
  digest before password := .ok (.ofNat before.length :: password.toList.map Char.toUInt8)
  fits password kept :=
    match kept with
    | .bytes (_ :: digest) => .ok (digest == password.toList.map Char.toUInt8)
    | _ => .error (.reported .type "no digest")

def sampleAccounts : Accounts :=
  ⟨"accounts", salted⟩

/-- A request to run or show a selection, with a token that grants selections. -/
def selectionRequest (path : String) : Request :=
  ⟨.post, path, some (.doc [("database", .text "d"), ("query", .text "SELECT a FROM t")]),
    .token ⟨.access, .text "u", none, some (.doc [("select", .int 1)])⟩, default⟩

/-- Running the selection searches the store, which its token covers; showing it does not. -/
theorem calls_covered_selectionRequest :
    Route.ofPath? (selectionRequest "/translate").path = some .runStatement ∧
    Route.ofPath? (selectionRequest "/generate-shell-query").path = some .showCommand ∧
    (∃ made, ((respond sampleAccounts (selectionRequest "/translate")).run (.fresh .null)
        (.start fun _ _ => none)).2.calls = made ∧
      made.map Call.kind = [.collectionNames, .collectionNames, .find] ∧
      ∀ call ∈ made, Covered (selectionRequest "/translate") call) ∧
    ∃ made, ((respond sampleAccounts (selectionRequest "/generate-shell-query")).run (.fresh .null)
        (.start fun _ _ => none)).2.calls = made ∧
      made.map Call.kind = [.collectionNames] ∧ ∀ call ∈ made, call.kind.permission? = none := by
  have hrun : ofPath? (selectionRequest "/translate").path = some .runStatement := by
    decide +kernel
  have hshow : ofPath? (selectionRequest "/generate-shell-query").path = some .showCommand := by
    decide +kernel
  obtain ⟨made, hmade, hcovered⟩ := (calls_covered sampleAccounts (selectionRequest "/translate")
    (.fresh .null) (.start fun _ _ => none)).1 hrun
  obtain ⟨shown, hshown, hneutral⟩ := (calls_covered sampleAccounts
    (selectionRequest "/generate-shell-query") (.fresh .null) (.start fun _ _ => none)).2 hshow
  have hstart (later : List Call) : (Session.start fun _ _ => none).calls ++ later = later :=
    List.nil_append later
  refine ⟨hrun, hshow, ⟨made, hmade.trans (hstart made), ?_, hcovered⟩, shown, hshown.trans (hstart shown), ?_,
    hneutral⟩
  · rw [← hmade.trans (hstart made)]
    decide +kernel
  · rw [← hshown.trans (hstart shown)]
    decide +kernel

end SqlGateway.Http
