import SqlGateway.Proofs.Http.Standing
import SqlGateway.Proofs.Store.Selection

/-!
# Which database a request selects

All requests share one connection.  Three routes select the database that a request names (`Route.selects?`),
and they do so before they look at the rest of it: **what a request selects does not depend on its answer**
(`selection_respond`).  A name that the connection refuses leaves the selection as it was.
-/

namespace SqlGateway.Http

open Account Store Connected Option Document Preserves Request

def namedDatabase? : Value → Option Value
  | .doc data => get? data "database"
  | _ => none

/-- The name of the database in a request with a token that opens the gateway. -/
def Request.named? (r : Request) : Option Value :=
  if r.accessClaims?.isSome then r.body.bind namedDatabase? else none

def Request.hasStatement (r : Request) : Bool :=
  match r.body with
  | some (.doc data) => has data "query"
  | _ => false

/-- The name by which a request selects a database on a route. -/
def Route.selects? (r : Request) : Route → Option Value
  | connect | runStatement => r.named?
  | showCommand => if r.hasStatement then r.named? else none
  | _ => none

/-! ### Choosing -/

/-- A connection that checks names, with a database in use and the name by which it was chosen. -/
structure Holds (check : Value → Except Fault Unit) (database : Option String) (name : Value)
    (c : Connection) : Prop where
  database : c.database = database
  name : c.name = name
  check : c.check = check

/-- The selected name, if it is not refused. -/
def taken? (check : Value → Except Fault Unit) (selected : Option Value) : Option Value :=
  selected.filter fun name => (check name).isOk

/-- A connection after a request that selects a database, or none. -/
def Selected (check : Value → Except Fault Unit) (selected : Option Value) (I : Connection → Prop) :
    Connection → Prop :=
  (taken? check selected).elim I fun name => Holds check (some name.plain) name

section

variable {check : Value → Except Fault Unit} {name : Value} {I : Connection → Prop}

theorem selected_of_refused {fault : Fault} (h : check name = .error fault) :
    Selected check (some name) I = I := by
  rw [Selected, taken?, filter_some, h]
  rfl

theorem selected_of_taken (h : check name = .ok ()) :
    Selected check (some name) I = Holds check (some name.plain) name := by
  rw [Selected, taken?, filter_some, h]
  rfl

end

/-- A name that a reconnection would take up is that of the database in use. -/
def Settled (c : Connection) : Prop :=
  c.name.isPresent → c.database = some c.name.plain

theorem preserves_execute_selected {c : Connection} (h : Settled c) (selected : Option Value)
    (collection plan : Value) :
    Preserves (Selected c.check selected (Holds c.check c.database c.name)) (execute collection plan) := by
  refine preserves_execute (fun later hlater hpresent => ?_) collection plan
  rw [Selected] at hlater ⊢
  generalize taken? c.check selected = taken at hlater ⊢
  cases taken with
  | none =>
    have hname : later.name = c.name := hlater.name
    rw [hname] at hpresent
    exact ⟨by rw [h hpresent, hname], hname, hlater.check⟩
  | some name => exact ⟨congrArg (fun name => some name.plain) hlater.name, hlater.name, hlater.check⟩

variable {data : Value}

theorem need_database_iff {name : Value} :
    data.need "database" = .ok name ↔ namedDatabase? data = some name := by
  rw [Value.need_eq_ok_iff]
  constructor
  · rintro ⟨d, rfl, h⟩
    exact h
  · intro h
    cases data with
    | doc d => exact ⟨d, rfl, h⟩
    | _ => cases h

theorem mentions_of_named {name : Value} (h : namedDatabase? data = some name) :
    data.mentions "database" = .ok true := by
  cases data with
  | doc data => exact congrArg (fun member? => Except.ok member?.isSome) h
  | _ => cases h

theorem carries_doc (data : Document) (member : String) :
    carries (.doc data) member = .ok (has data member) := by
  cases data <;> rfl

section

variable {check : Value → Except Fault Unit} {I : Connection → Prop} {data : Value} {selected : Option Value}
  (hI : ∀ c, I c → c.check = check)
include hI

theorem ends_need_select (h : namedDatabase? data = selected) {α : Type} {f : Value → Value → Connected α}
    (hf : ∀ J name reply, Preserves J (f name reply)) : Ends I (do
      let name ← data.need "database"
      let reply ← select name
      f name reply) fun _ c => Selected check selected I c := by
  cases selected with
  | none =>
    refine .lift_bind (fun name hneed => ?_) fun _ _ _ hc => hc
    rw [need_database_iff, h] at hneed
    cases hneed
  | some name =>
    refine .ok_bind (need_database_iff.mpr h) ?_
    refine Ends.bind (R := fun _ c => Selected check (some name) I c) ?_ (fun _ => hf _ _ _) fun _ _ hc => hc
    cases hcheck : check name with
    | error fault =>
      rw [selected_of_refused hcheck]
      exact ends_select (fun _ _ hc _ => hc) fun c _ hc hok => by
        rw [hI c hc, hcheck] at hok
        cases hok
    | ok =>
      rw [selected_of_taken hcheck]
      exact ends_select (fun c _ hc hfault => by rw [hI c hc, hcheck] at hfault; cases hfault)
        fun c _ hc _ => ⟨rfl, rfl, hI c hc⟩

theorem ends_chooseDatabase (h : namedDatabase? data = selected) :
    Ends I (chooseDatabase data) fun _ c => Selected check selected I c := by
  cases selected with
  | none =>
    refine bind (.lift _) fun mentioned => ?_
    split
    · exact ends_need_select hI h fun _ _ _ => .pure _
    · exact connection.bind fun _ => .pure _
  | some name =>
    refine .ok_bind (mentions_of_named h) ?_
    exact ends_need_select hI h fun _ _ _ => .pure _

end

/-! ### Handlers -/

section

variable {r : Request} {claims : Claims}

theorem named?_eq_none (h : r.accessClaims? = none) : r.named? = none := by
  rw [named?, h]
  rfl

theorem named?_eq (h : r.accessClaims? = some claims) (hdata : r.document = .ok data) :
    r.named? = namedDatabase? data := by
  rw [named?, h, document_eq_ok_iff.mp hdata]
  rfl

theorem named?_of_fault (h : r.accessClaims? = some claims) {fault : Fault}
    (hdata : r.document = .error fault) : r.named? = none := by
  have hbody : r.body = none := by
    by_contra hsome
    obtain ⟨v, hbody⟩ := ne_none_iff_exists'.mp hsome
    cases hdata.symm.trans (document_eq_ok_iff.mpr hbody)
  rw [named?, h, hbody]
  rfl

theorem hasStatement_eq {data : Document} (hdata : r.document = .ok (.doc data)) :
    r.hasStatement = has data "query" := by
  rw [hasStatement, document_eq_ok_iff.mp hdata]

end

section

variable {check : Value → Except Fault Unit} {I J : Connection → Prop} {r : Request} {answer : Fault → Response}

theorem ends_catching {handler : Connected Response}
    (h : Ends I handler fun _ c => J c) : Ends I (catching answer handler) fun _ c => J c :=
  h.tryCatch (pure) fun _ _ hc => hc

/-- A handler behind the guard always answers, and without a token or a document nothing is selected. -/
theorem ends_guarded {selected : Option Value}
    {handler : Claims → Value → Connected Response} (hnone : r.named? = none → selected = none)
    (h : ∀ claims data, r.document = .ok data → r.named? = namedDatabase? data →
      Ends I (handler claims data) fun _ c => Selected check selected I c) :
    Ends I (withAccess r fun claims => catching answer do handler claims (← r.document))
      fun outcome c => (∃ response, outcome = .ok response) ∧ Selected check selected I c := by
  have hkept : r.named? = none → ∀ c, I c → Selected check selected I c := by
    intro hnamed c hc
    rw [hnone hnamed]
    exact hc
  rw [withAccess]
  split
  case h_1 claims hclaims =>
    refine Ends.tryCatch (ends_catching (.lift_bind (fun data hdata => ?_) fun fault hfault => ?_))
      (fun _ => .pure fun _ hc => ⟨⟨_, rfl⟩, hc⟩) fun _ _ hc => ⟨⟨_, rfl⟩, hc⟩
    · exact h claims data hdata (named?_eq hclaims hdata)
    · exact hkept (named?_of_fault hclaims hfault)
  case h_2 hclaims => exact .pure fun c hc => ⟨⟨_, rfl⟩, hkept (named?_eq_none hclaims) c hc⟩

theorem ends_connectTo (hI : ∀ c, I c → c.check = check) : Ends I (connectTo r) fun outcome c =>
    (∃ response, outcome = .ok response) ∧ Selected check r.named? I c := by
  refine ends_guarded (fun h => h) fun _ data _ hnamed => ?_
  rw [hnamed]
  cases hname : namedDatabase? data with
  | none =>
    refine bind (.lift _) fun carried => ?_
    split
    · exact .pure _
    · exact ends_need_select hI hname fun _ _ _ => .lift _
  | some name =>
    have hcarries : carries data "database" = .ok true := by
      cases data with
      | doc data => exact (carries_doc data _).trans (mentions_of_named hname)
      | _ => cases hname
    refine .ok_bind hcarries ?_
    exact ends_need_select hI hname fun _ _ _ => .lift _

theorem selects?_showCommand (hdata : r.document = .ok data)
    (hnamed : r.named? = namedDatabase? data) {carried : Bool} (h : carries data "query" = .ok carried) :
    Route.showCommand.selects? r = if carried then namedDatabase? data else none := by
  rw [Route.selects?, hnamed]
  cases data with
  | doc data =>
    rw [carries_doc] at h
    rw [hasStatement_eq hdata, Except.ok.inj h]
  | _ => exact (ite_self _).trans (ite_self _).symm

theorem ends_showCommand (hI : ∀ c, I c → c.check = check) : Ends I (showCommand r) fun outcome c =>
    (∃ response, outcome = .ok response) ∧ Selected check (Route.showCommand.selects? r) I c := by
  refine ends_guarded (fun h => by rw [Route.selects?, h, ite_self]) fun claims data hdata hnamed => ?_
  refine .lift_bind (fun carried hcarried => ?_) fun fault hfault c hc => ?_
  · rw [selects?_showCommand hdata hnamed hcarried]
    cases carried with
    | false => exact pure _
    | true =>
      refine (ends_chooseDatabase hI rfl).bind (fun chosen => ?_) fun _ _ hc => hc
      split
      · exact pure _
      refine bind (.lift _) fun query => (lift _).bind fun prepared => ?_
      cases prepared with
      | error denial => exact .pure _
      | ok ready => exact (lift _).bind fun _ => .lift _
  · have hnone : r.named? = none := by
      cases data with
      | doc data =>
        rw [carries_doc] at hfault
        cases hfault
      | _ => exact hnamed
    rw [Route.selects?, hnone, ite_self]
    exact hc

variable {c : Connection}

/-- A connection after a request on `c` that selects a database, or none. -/
abbrev SelectedOn (c : Connection) (selected : Option Value) : Connection → Prop :=
  Selected c.check selected (Holds c.check c.database c.name)

theorem ends_runStatement (h : Settled c) :
    Ends (Holds c.check c.database c.name) (runStatement r) fun outcome later =>
      (∃ response, outcome = .ok response) ∧ SelectedOn c r.named? later := by
  refine ends_guarded (fun h => h) fun claims data _ hnamed => ?_
  refine (ends_chooseDatabase (fun _ hc => hc.check) hnamed.symm).bind (fun chosen => ?_) fun _ _ hc => hc
  split
  · exact pure _
  refine bind (.lift _) fun carried => ?_
  split
  · exact .pure _
  refine (lift _).bind fun query => (lift _).bind fun prepared => ?_
  cases prepared with
  | error denial => exact .pure _
  | ok ready => exact (preserves_execute_selected h _ _ _).bind fun _ => .lift _

theorem ends_handle_choosing {a : Accounts} {route : Route} (hroute : route ∈ choosingRoutes)
    (h : Settled c) : Ends (Holds c.check c.database c.name) (route.handle a r) fun outcome later =>
      (∃ response, outcome = .ok response) ∧ SelectedOn c (route.selects? r) later := by
  simp only [choosingRoutes, List.mem_cons, List.not_mem_nil, or_false] at hroute
  rcases hroute with rfl | rfl | rfl
  · exact ends_connectTo fun _ hc => hc.check
  · exact ends_runStatement h
  · exact ends_showCommand fun _ hc => hc.check

end

/-! ### Requests -/

def Request.selects? (r : Request) : Option Value :=
  if r.method = .post then (Route.ofPath? r.path).bind (Route.selects? r) else none

theorem ends_respond_choosing {a : Accounts} {r : Request} {route : Route} {c : Connection}
    (hpath : Route.ofPath? r.path = some route) (hroute : route ∈ choosingRoutes) (h : Settled c) :
    Ends (Holds c.check c.database c.name) (respond a r) fun outcome later =>
      (∃ response, outcome = .ok response) ∧ SelectedOn c r.selects? later := by
  have hpost : ∀ route ∈ choosingRoutes, route.method = .post := by decide
  by_cases hmethod : r.method = .post
  · have hselects : r.selects? = route.selects? r := by
      rw [selects?, if_pos hmethod, hpath]
      rfl
    rw [respond_of_route hpath (hmethod.trans (hpost route hroute).symm), hselects]
    exact ends_handle_choosing hroute h
  · have hselects : r.selects? = none := if_neg hmethod
    obtain ⟨status, hempty⟩ := respond_of_method_ne hpath (by simp [hpost route hroute])
      (hpost route hroute ▸ hmethod)
    rw [hselects, hempty]
    exact .pure fun _ hlater => ⟨⟨_, rfl⟩, hlater⟩

/-- **What a request selects does not depend on its answer**: it is in use afterwards, even if the answer is a
denial or an error, unless its name is refused. -/
theorem selection_respond (a : Accounts) (r : Request) (route : Route)
    (hpath : Route.ofPath? r.path = some route) (hroute : route ∈ choosingRoutes) (c : Connection)
    (hsettled : c.name.isPresent = true → c.database = some c.name.plain) (session : Session) :
    ∃ response later, ((respond a r).run c session).1 = (.ok response, later) ∧
      (∀ name, r.selects? = some name → c.check name = .ok () →
        later.database = some name.plain ∧ later.name = name) ∧
      ((∀ name, r.selects? = some name → c.check name ≠ .ok ()) →
        later.database = c.database ∧ later.name = c.name) ∧
      (400 ≤ response.status → (later.database = c.database ∧ later.name = c.name ↔
        ∀ name, r.selects? = some name → c.check name = .ok () →
          c.database = some name.plain ∧ c.name = name)) := by
  have hends := ends_respond_choosing (a := a) hpath hroute hsettled c session ⟨rfl, rfl, rfl⟩
  generalize ((respond a r).run c session).1 = done at hends ⊢
  obtain ⟨outcome, later⟩ := done
  obtain ⟨⟨response, rfl⟩, hlater⟩ := hends
  refine ⟨response, later, rfl, ?_⟩
  by_cases htaken : ∃ name, r.selects? = some name ∧ c.check name = .ok ()
  · obtain ⟨name, hselects, hcheck⟩ := htaken
    rw [hselects, SelectedOn, selected_of_taken hcheck] at hlater
    refine ⟨fun other h _ => ?_, fun h => absurd hcheck (h name hselects),
      fun _ => ⟨fun h other hother _ => ?_, fun h => ?_⟩⟩
    · obtain rfl := some.inj (hselects.symm.trans h)
      exact ⟨hlater.database, hlater.name⟩
    · obtain rfl := some.inj (hselects.symm.trans hother)
      exact ⟨h.1.symm.trans hlater.database, h.2.symm.trans hlater.name⟩
    · obtain ⟨hdatabase, hname⟩ := h name hselects hcheck
      exact ⟨hlater.database.trans hdatabase.symm, hlater.name.trans hname.symm⟩
  · have hkept : later.database = c.database ∧ later.name = c.name := by
      cases hselects : r.selects? with
      | none =>
        rw [hselects] at hlater
        exact ⟨hlater.database, hlater.name⟩
      | some name =>
        cases hcheck : c.check name with
        | ok => exact absurd ⟨name, hselects, hcheck⟩ htaken
        | error fault =>
          rw [hselects, SelectedOn, selected_of_refused hcheck] at hlater
          exact ⟨hlater.database, hlater.name⟩
    exact ⟨fun name h hcheck => absurd ⟨name, h, hcheck⟩ htaken, fun _ => hkept,
      fun _ => ⟨fun _ name h hcheck => absurd ⟨name, h, hcheck⟩ htaken, fun _ => hkept⟩⟩

/-- A request to run a statement that names a database, but carries no statement. -/
def emptyRequest (name : String) : Request :=
  ⟨.post, "/translate", some (.doc [("database", .text name)]), .token ⟨.access, .text "u", none, none⟩, default⟩

/-- A connection that refuses the empty name. -/
def shopConnection : Connection :=
  ⟨.null, some "shop", .text "shop", [], nonemptyCheck⟩

/-- A request is denied, and the database that it names is in use afterwards; the empty name is refused. -/
theorem selection_respond_denied : ∃ denied refused response,
    ((respond sampleAccounts (emptyRequest "stock")).run shopConnection (.start fun _ _ => none)).1 =
      (.ok Denial.statementRequired.response, denied) ∧
    400 ≤ Denial.statementRequired.response.status ∧
    denied.database = some "stock" ∧ denied.name = .text "stock" ∧
    ((respond sampleAccounts (emptyRequest "")).run shopConnection (.start fun _ _ => none)).1 =
      (.ok response, refused) ∧
    refused.database = some "shop" ∧ refused.name = .text "shop" := by
  have hpath : Route.ofPath? "/translate" = some .runStatement := by decide
  have hselects (name : String) : (emptyRequest name).selects? = some (.text name) := by
    have hpost : (emptyRequest name).method = .post := rfl
    rw [selects?, if_pos hpost]
    show (Route.ofPath? "/translate").bind _ = _
    rw [hpath]
    rfl
  have hrespond (name : String) := selection_respond sampleAccounts (emptyRequest name) .runStatement
    hpath (by decide) shopConnection (fun _ => rfl) (.start fun _ _ => none)
  obtain ⟨response, denied, hrun, htaken, -⟩ := hrespond "stock"
  obtain ⟨response', refused, hrun', -, hkept, -⟩ := hrespond ""
  have hresponse : ((respond sampleAccounts (emptyRequest "stock")).run shopConnection
      (.start fun _ _ => none)).1.1 = .ok Denial.statementRequired.response := by
    rfl
  rw [hrun] at hresponse
  obtain rfl := Except.ok.inj hresponse
  obtain ⟨hdatabase, hname⟩ := htaken _ (hselects "stock") rfl
  refine ⟨denied, refused, response', hrun, by decide, hdatabase, hname, hrun', hkept fun name h => ?_⟩
  obtain rfl := some.inj ((hselects "").symm.trans h)
  exact nofun

end SqlGateway.Http
