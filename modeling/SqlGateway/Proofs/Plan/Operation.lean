import SqlGateway.Plan

/-!
# Which operation a plan names

`Gives P x` and `Yields P x` say what every value of a reading, or of a step of planning, satisfies.  **A plan
names an operation of the kind of its statement** (`yields_ofStatement`), and the plan of a new table has no
sample document.
-/

namespace SqlGateway

/-! ### What a program gives -/

/-- Every value that a reading gives has the property. -/
def Gives {α : Type} (P : α → Prop) (x : Except Fault α) : Prop :=
  ∀ a, x = .ok a → P a

namespace Gives

variable {α β : Type} {P : α → Prop}

theorem pure {a : α} (h : P a) : Gives P (Pure.pure a) := by
  rintro _ ⟨⟩
  exact h

theorem bind {x : Except Fault β} {f : β → Except Fault α} (h : ∀ b, x = .ok b → Gives P (f b)) :
    Gives P (x >>= f) := by
  intro a ha
  cases x with
  | error fault => cases ha
  | ok b => exact h b rfl a ha

theorem check {c : Prop} [Decidable c] {fault : Fault} {rest : Unit → Except Fault α}
    (h : Gives P (rest ())) : Gives P (if c then MonadExcept.throw fault >>= rest else rest ()) := by
  split
  · exact .bind fun _ hthrow => nomatch hthrow
  · exact h

end Gives

namespace Planning

theorem run_bind {α β : Type} (x : Planning β) (f : β → Planning α) (warnings : List String) :
    (x >>= f).run.run warnings = match x.run.run warnings with
      | (.ok b, later) => (f b).run.run later
      | (.error fault, later) => (.error fault, later) := by
  simp only [ExceptT.run_bind, StateT.run_bind]
  rcases x.run.run warnings with ⟨_ | _, later⟩ <;> rfl

/-- Every value that a step of planning yields has the property. -/
def Yields {α : Type} (P : α → Prop) (x : Planning α) : Prop :=
  ∀ warnings, Gives P (x.run.run warnings).1

namespace Yields

variable {α β : Type} {P : α → Prop}

theorem pure {a : α} (h : P a) : Yields P (Pure.pure a) :=
  fun _ => Gives.pure h

theorem imp {Q : α → Prop} {x : Planning α} (h : Yields P x) (himp : ∀ a, P a → Q a) : Yields Q x :=
  fun warnings a ha => himp a (h warnings a ha)

theorem throw (fault : Fault) : Yields P (MonadExcept.throw fault) := by
  rintro _ _ ⟨⟩

theorem lift {x : Except Fault α} (h : Gives P x) : Yields P (liftM x) :=
  fun _ => h

variable {f : β → Planning α}

theorem bind {x : Planning β} (h : ∀ b, Yields P (f b)) : Yields P (x >>= f) := by
  intro warnings a ha
  rw [run_bind] at ha
  rcases hx : x.run.run warnings with ⟨fault | b, later⟩
  · rw [hx] at ha
    cases ha
  · rw [hx] at ha
    exact h b later a ha

theorem lift_bind {x : Except Fault β} (h : ∀ b, x = .ok b → Yields P (f b)) : Yields P (liftM x >>= f) := by
  intro warnings a ha
  cases x with
  | error fault => cases ha
  | ok b => exact h b rfl warnings a ha

end Yields

end Planning

/-! ### Operations by kind -/

namespace Plan

open Sql Statement Value

/-- The operations that carry out statements of a kind. -/
def operationsOf : String → List String
  | "SELECT" => ["find", "aggregate", "union"]
  | "INSERT" => ["insert", "INSERT_MANY"]
  | "UPDATE" => ["update"]
  | "DELETE" => ["delete"]
  | "CREATE" => ["create_collection_with_schema", "create_collection"]
  | "DROP" => ["drop_collection"]
  | _ => []

/-- The plan names an operation for statements of the kind.  A new collection gets no document. -/
def Serves (kind : String) (plan : Value) : Prop :=
  ∃ members operation, plan = .doc members ∧
    Document.get? members "operation" = some (.text operation) ∧ operation ∈ operationsOf kind ∧
      (operation = "create_collection_with_schema" → Document.get members "sample_document" = .null)

theorem serves_doc {kind operation : String} {members : Document} (h : operation ∈ operationsOf kind)
    (hother : operation ≠ "create_collection_with_schema") :
    Serves kind (.doc (("operation", .text operation) :: members)) :=
  ⟨_, operation, rfl, rfl, h, fun hcreate => absurd hcreate hother⟩

/-! ### Selections -/

section

open Planning

variable (s : Statement)

/-- How a selection is planned: as a union, as a search by its filter, as an aggregation, or as an
aggregation of its joins. -/
inductive Selects : Value → Prop
  | union (members : Document) : Selects (.doc (("operation", .text "union") :: members))
  | find {filter : Value} (members : Document) : s.filter = .ok filter →
      Selects (.doc (("operation", .text "find") :: ("query", orEmpty filter) :: members))
  | aggregate {stages : List Value} (table : Value) (members : Document) : pipeline s = .ok stages →
      Selects (.doc (("operation", .text "aggregate") :: ("collection", table) ::
        ("pipeline", .list stages) :: members))
  | joined {filter joins project order limit : Value} {items lookups sort : List Value} (table : Value)
      (members : Document) : s.filter = .ok filter → Join.pipeline items = .ok lookups →
      joinedProjection s joins = .ok project → s.order = .ok order → joinedSort order = .ok sort →
      s.limit = .ok limit →
      Selects (.doc (("operation", .text "aggregate") :: ("collection", table) :: ("pipeline",
        .list (stage? "$match" filter ++ lookups ++ [project] ++ sort ++ limitStage limit)) :: members))

theorem yields_aggregate : Yields (Selects s) (aggregate s) := by
  exact .bind fun table => .lift_bind fun stages hstages => .bind fun warnings =>
    .pure (.aggregate table _ hstages)

theorem yields_union : Yields (Selects s) (union s) := by
  refine .bind fun described => .bind fun failed => ?_
  extract_lets rest
  have hrest : ∀ r, Yields (Selects s) (rest r) := fun r =>
    .bind fun table => .bind fun all => .bind fun queries => .bind fun warnings => .pure (.union _)
  split
  · exact .bind fun _ => .bind hrest
  · exact hrest ()

theorem yields_find : Yields (Selects s) (find s) := by
  refine .bind fun table => .lift_bind fun filter hfilter => .bind fun fields => .bind fun projection => ?_
  cases projection with
  | none => exact yields_aggregate s
  | some projection =>
    refine .bind fun order => ?_
    extract_lets rest
    have hrest : ∀ sort, Yields (Selects s) (rest sort) := fun sort =>
      .bind fun limit => .bind fun warnings => .pure (.find _ hfilter)
    split
    · exact .bind hrest
    · exact .bind hrest

theorem yields_joined : Yields (Selects s) (joined s) := by
  refine .bind fun joins => .bind fun reader => ?_
  split
  · exact .bind fun table => .lift_bind fun filter hfilter => .bind fun items =>
      .lift_bind fun lookups hlookups => .lift_bind fun project hproject =>
      .lift_bind fun order horder => .lift_bind fun sort hsort => .lift_bind fun limit hlimit =>
      .bind fun count => .bind fun items => .bind fun types => .bind fun warnings =>
      .pure (.joined table _ hfilter hlookups hproject horder hsort hlimit)
  · exact .bind fun _ => yields_aggregate s

theorem yields_select : Yields (Selects s) (select s) := by
  refine .bind fun table => .bind fun fields => .bind fun filter => .bind fun functions =>
    .bind fun joins => .bind fun distinct => .bind fun having => .bind fun isUnion =>
    .bind fun subqueries => .bind fun order => ?_
  extract_lets rest
  have hrest : ∀ totals, Yields (Selects s) (rest totals) := by
    intro totals
    refine .bind fun grouping => .bind fun grouped => ?_
    split
    · exact .bind fun _ => yields_union s
    split
    · exact yields_joined s
    split
    · exact yields_aggregate s
    · exact yields_find s
  split
  · exact .bind fun _ => .bind fun _ => .bind hrest
  · exact .bind hrest

theorem Selects.serves {s : Statement} {plan : Value} (h : Selects s plan) : Serves "SELECT" plan := by
  cases h <;> exact serves_doc (by decide) (by decide)

end

/-! ### Changes -/

section

variable (s : Statement)

theorem gives_insert : Gives (Serves "INSERT") (insert s) := by
  refine .bind fun table _ => .bind fun insertion _ => .check (.bind fun operation _ => ?_)
  split
  · exact .bind fun documents _ => .check (.bind fun _ _ => .pure (serves_doc (by decide) (by decide)))
  · exact .bind fun document _ => .check (.pure (serves_doc (by decide) (by decide)))

theorem gives_update : Gives (Serves "UPDATE") (update s) := by
  refine .bind fun table _ => .bind fun change _ => .bind fun filter _ => .check ?_
  exact .bind fun values _ => .pure (serves_doc (by decide) (by decide))

theorem gives_delete : Gives (Serves "DELETE") (delete s) :=
  .bind fun table _ => .bind fun filter _ => .pure (serves_doc (by decide) (by decide))

theorem gives_drop : Gives (Serves "DROP") (drop s) :=
  .bind fun table _ => .pure (serves_doc (by decide) (by decide))

end

/-! ### New tables -/

/-- The columns of a new table have no defaults, and they may all be null. -/
theorem columns_describeCreation (table : Value) (text : List Char) : ∃ columns : List Column,
    (doc (describeCreation table text)).need "columns" =
      .ok (.list (columns.map fun c => .doc c.toDocument)) := by
  rw [describeCreation]
  split
  · exact ⟨_, rfl⟩
  · exact ⟨[], rfl⟩

theorem foldlM_addSample (columns : List Column) (sample : Document) :
    (columns.map fun c => doc c.toDocument).foldlM addSample sample = .ok sample := by
  induction columns with
  | nil => rfl
  | cons c columns ih =>
    exact ih

theorem gives_createFrom (table : Value) (text : List Char) : Gives (fun r => Serves "CREATE" (.doc r.1))
      (createFrom (.doc (describeCreation table text))) := by
  refine .bind fun name _ => .bind fun columns hcolumns => .bind fun constraints _ =>
    .bind fun schema _ => .bind fun count _ => ?_
  extract_lets options
  refine .bind fun primary _ => .bind fun items hitems => .bind fun unique _ =>
    .bind fun sample hsample => .bind fun required _ => .bind fun primaryKeys _ =>
    .bind fun foreignKeys _ => .bind fun warnings _ => ?_
  extract_lets plan
  obtain ⟨cs, hcs⟩ := columns_describeCreation table text
  obtain rfl := Except.ok.inj (hcolumns.symm.trans hcs)
  obtain rfl := Except.ok.inj hitems
  obtain rfl := Except.ok.inj (hsample.symm.trans (foldlM_addSample cs []))
  refine .pure ?_
  split
  · exact ⟨_, _, rfl, rfl, by decide, fun _ => rfl⟩
  · exact ⟨_, _, rfl, rfl, by decide, fun _ => rfl⟩

theorem gives_creation (text : List Char) :
    Gives (fun creation => ∃ table, creation = .doc (describeCreation table text))
      (creation (.ofText text)) :=
  .bind fun table _ => .pure ⟨table, rfl⟩

theorem yields_create (text : List Char) : Planning.Yields (Serves "CREATE") (create (.ofText text)) := by
  refine .lift_bind fun creation hcreation => ?_
  split
  · refine .lift_bind fun described hdescribed => ?_
    obtain ⟨table, rfl⟩ := gives_creation text creation hcreation
    exact .bind fun _ => .pure (gives_createFrom table text described hdescribed)
  · exact .bind fun table => .pure (serves_doc (by decide) (by decide))

/-! ### What is read of a text -/

section

variable (text : List Char)

theorem kind_ofText : kind (.ofText text) = .ok (.ofText? (statementKind? text)) := rfl

theorem filter_ofText : filter (.ofText text) = .ok (.doc (Where.filter text)) := rfl

theorem order_ofText : order (.ofText text) = .ok (.doc (OrderBy.read text)) := rfl

theorem limit_ofText : limit (.ofText text) = .ok (.ofOption ((Limit.read? text).map .int)) := rfl

theorem usesDistinct_ofText : usesDistinct (.ofText text) = .ok (.bool (Distinct.occurs text)) := rfl

theorem usesHaving_ofText : usesHaving (.ofText text) = .ok (.bool (Having.occurs text)) := rfl

theorem functions_eq_describe : functions (.ofText text) =
    (do return .list ((← Call.describe text).map .doc)) := rfl

end

/-! ### All statements -/

/-- **A text is planned by its kind alone**: all that is asked before can be answered. -/
theorem ofStatement_ofText (text : List Char) : ofStatement (.ofText text) =
    (match ofText? (statementKind? text) with
      | .text "SELECT" => select (.ofText text)
      | .text "INSERT" => liftM (insert (.ofText text))
      | .text "UPDATE" => liftM (update (.ofText text))
      | .text "DELETE" => liftM (delete (.ofText text))
      | .text "CREATE" => create (.ofText text)
      | .text "DROP" => liftM (drop (.ofText text))
      | _ => throw (.refused (.unsupportedStatement (ofText? (statementKind? text)).plain)) :
      Planning Value) := rfl

variable {text : List Char}

/-- **A plan names an operation of the kind of its statement.** -/
theorem yields_ofStatement {kind : String} (hkind : statementKind? text = some kind) :
    Planning.Yields (Serves kind) (ofStatement (.ofText text)) := by
  rw [ofStatement_ofText, hkind]
  split
  case h_1 h => obtain rfl := Value.text.inj h; exact (yields_select _).imp fun _ => Selects.serves
  case h_2 h => obtain rfl := Value.text.inj h; exact .lift (gives_insert _)
  case h_3 h => obtain rfl := Value.text.inj h; exact .lift (gives_update _)
  case h_4 h => obtain rfl := Value.text.inj h; exact .lift (gives_delete _)
  case h_5 h => obtain rfl := Value.text.inj h; exact yields_create text
  case h_6 h => obtain rfl := Value.text.inj h; exact .lift (gives_drop _)
  case h_7 => exact .throw _

theorem yields_selects_or : Planning.Yields (fun plan => Selects (.ofText text) plan ∨
    ∃ members operation, plan = .doc members ∧ Document.get? members "operation" = some (.text operation) ∧
      operation ≠ "find" ∧ operation ≠ "aggregate") (ofStatement (.ofText text)) := by
  intro warnings plan hplan
  cases hkind : statementKind? text with
  | none =>
    rw [ofStatement_ofText, hkind] at hplan
    cases hplan
  | some kind =>
    by_cases hselect : kind = "SELECT"
    · subst hselect
      rw [ofStatement_ofText, hkind] at hplan
      exact .inl (yields_select _ warnings plan hplan)
    · obtain ⟨members, operation, rfl, hoperation, hmem, -⟩ := yields_ofStatement hkind warnings plan hplan
      refine .inr ⟨members, operation, rfl, hoperation, ?_⟩
      constructor
      all_goals
        rintro rfl
        simp only [operationsOf] at hmem
        split at hmem
        · exact hselect rfl
        all_goals simp at hmem

end Plan

end SqlGateway
