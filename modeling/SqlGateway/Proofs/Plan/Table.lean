import SqlGateway.Proofs.Plan.Select
import SqlGateway.Proofs.Sql.Column

/-!
# The plan of a new table

The planner asks the description of a column whether it is `unique` or `nullable`, and no description has
these members.  So **a plan keeps the definitions iff none has a mark, and no name contains `INDEX` or `KEY`**
(`tableCreation_keeps_iff`).
-/

namespace SqlGateway.Plan

open Text Sql List Value Column

/-! ### Looking into plans -/

def at? : List String → Value → Option Value
  | [], v => some v
  | name :: path, .doc d => (Document.get? d name).bind (at? path)
  | _ :: _, _ => none

def columnName? (column : Value) : Option String :=
  match at? ["name"] column with
  | some (.text name) => some name
  | _ => none

def listedColumns (plan : Value) : List String :=
  match at? ["schema_info", "columns"] plan with
  | some (.list columns) => columns.filterMap columnName?
  | _ => []

/-! ### Plans of tables without constraints -/

theorem described_columns (columns : List Column) {items : List Value}
    (h : items = columns.map fun c => .doc c.toDocument) :
    items.mapM uniqueIndex = .ok (columns.map fun _ => []) ∧
      items.mapM requiredName = .ok (columns.map fun _ => []) ∧
      items.foldlM addSample [] = .ok [] ∧ anyCounting items = .ok false := by
  subst h
  refine ⟨mapM_map_eq_ok fun _ _ => rfl, mapM_map_eq_ok fun _ _ => rfl, ?_, ?_⟩
  · induction columns with
    | nil => rfl
    | cons c columns ih => exact ih
  · induction columns with
    | nil => rfl
    | cons c columns ih => exact ih

/-- The plan of a table without constraints: **no column is required, and there is no index**. -/
def flatPlan (table : Value) (columns : List Column) : Document :=
  [("operation", .text "create_collection_with_schema"), ("collection", table), ("options", .doc []),
    ("schema_info", .doc
      [("columns", .list (columns.map fun c => .doc c.toDocument)), ("constraints", .doc noConstraints),
        ("total_columns", .ofNat columns.length), ("required_fields", .list []), ("primary_keys", .list []),
        ("foreign_keys", .list [])]), ("indexes_to_create", .list []), ("sample_document", .null)]

theorem createFrom_flatCreation (table : Value) (columns : List Column) (definitions : List Char) :
    createFrom (.doc (flatCreation table columns definitions)) = .ok (flatPlan table columns, []) := by
  obtain ⟨items, hitems⟩ : ∃ items : List Value, items = columns.map fun c => .doc c.toDocument := ⟨_, rfl⟩
  obtain ⟨hunique, hrequired, hsample, hcounting⟩ := described_columns columns hitems
  have hwarnings : tableWarnings (.doc noConstraints) items = .ok [] := by
    rw [tableWarnings, hcounting]
    rfl
  have hlength : items.length = columns.length := by rw [hitems, length_map]
  have hnone : (columns.map fun _ => ([] : List Value)).flatten = [] := by simp
  obtain ⟨creation, hcreation⟩ : ∃ creation, creation = doc (flatCreation table columns definitions) :=
    ⟨_, rfl⟩
  have htable : creation.need "table_name" = .ok table := by rw [hcreation]; rfl
  have hcolumns : creation.need "columns" = .ok (.list items) := by rw [hcreation, hitems]; rfl
  have hconstraints : creation.need "constraints" = .ok (.doc noConstraints) := by rw [hcreation]; rfl
  have hschema : creation.member "schema" = .ok .null := by rw [hcreation]; rfl
  rw [← hcreation]
  simp only [createFrom, htable, hcolumns, hconstraints, hschema, ok_bind, Value.length, Value.items, hunique,
    hrequired, hsample, hwarnings, hnone, hlength, Value.isPresent, Bool.and_false]
  rw [hitems]
  rfl

theorem plan_creationText (t : Identifier) {definitions : List Char} (htrim : strip definitions = definitions)
    (hplain : ∀ c ∈ definitions, c ∉ ['(', ';']) (p : Planner) :
    ∃ table, (p.plan (creationText t.chars definitions)).1 =
      .ok (.doc (flatPlan table (readAll definitions))) := by
  have hflat : '(' ∉ definitions := fun h => hplain _ h (by simp)
  have hcalm : ';' ∉ definitions := fun h => hplain _ h (by simp)
  have hsemicolon : ';' ∉ t.chars ++ (" (" ++ (definitions ++ [')'])) := by
    simp [t.not_mem (c := ';') (by decide), hcalm]
  have hkind : statementKind? (creationText t.chars definitions) = some "CREATE" :=
    statementKind?_createTable hsemicolon
  have hcreation : ∃ table, Statement.creation (.ofText (creationText t.chars definitions)) =
      .ok (.doc (flatCreation table (readAll definitions) definitions)) := by
    refine ⟨.ofText? (tableOfKind? (some "CREATE") (creationText t.chars definitions)), ?_⟩
    rw [← describeCreation_creationText t htrim hflat]
    show (do return doc (Statement.describeCreation (← Statement.table (.ofText (creationText t.chars
      definitions))) (creationText t.chars definitions)) : Except Fault Value) = _
    rw [table_of_kind hkind]
    rfl
  obtain ⟨table, hcreation⟩ := hcreation
  refine ⟨table, ?_⟩
  rw [plan_of_kind (by simp [hkind]), ofStatement_ofText, hkind]
  have hpresent : (doc (flatCreation table (readAll definitions) definitions)).isPresent := rfl
  rw [create, hcreation, liftM_ok_bind, if_pos hpresent, createFrom_flatCreation]
  rfl

/-! ### Definitions of columns -/

def tableCreation (t : Identifier) (ds : List Column.Definition) : List Char :=
  creationText t.chars (commaList (ds.map Column.Definition.text))

/-- The names of the columns whose definitions have a mark. -/
def markedNames (mark : Column.Mark) (ds : List Column.Definition) : List String :=
  (ds.filter fun d => d.marks.contains mark).map fun d => d.name.name

/-- The plan lists the columns, requires those that must have a value, and has an index for each column whose
values must differ. -/
structure KeepsDefinitions (ds : List Column.Definition) (plan : Value) : Prop where
  columns : listedColumns plan = ds.map fun d => d.name.name
  required : at? ["schema_info", "required_fields"] plan = some (.texts (markedNames .notNull ds))
  indexes : ∀ name ∈ markedNames .unique ds ++ markedNames .primaryKey ds, ∃ indexes index,
    at? ["indexes_to_create"] plan = some (.list indexes) ∧ index ∈ indexes ∧
      at? ["key"] index = some (.doc [(name, .int 1)]) ∧ at? ["unique"] index = some (.bool true)

theorem looks_flatPlan (table : Value) (ds : List Column.Definition) :
    let plan := doc (flatPlan table ((ds.filter fun d => !d.isLost).map Column.Definition.column))
    listedColumns plan = ((ds.filter fun d => !d.isLost).map fun d => d.name.name) ∧
      at? ["schema_info", "required_fields"] plan = some (.list []) ∧
      at? ["indexes_to_create"] plan = some (.list []) := by
  refine ⟨?_, rfl, rfl⟩
  show filterMap columnName? (map (fun c : Column => doc c.toDocument) _) = _
  rw [map_map, filterMap_map, ← filterMap_eq_map]
  rfl

/-- The plan of a table with columns: those that are taken for constraints are missing, nothing is required, and
there are no indexes. -/
theorem plan_tableCreation (t : Identifier) {ds : List Column.Definition} (hne : ds ≠ []) (p : Planner) :
    ∃ table, (p.plan (tableCreation t ds)).1 =
      .ok (.doc (flatPlan table ((ds.filter fun d => !d.isLost).map Column.Definition.column))) := by
  have htexts : ∀ s ∈ ds.map Column.Definition.text, s ≠ [] ∧ strip s = s :=
    forall_mem_map.mpr fun d _ => d.strip_text
  have hplain : ∀ c ∈ commaList (ds.map Column.Definition.text), c ∉ ['(', ';'] :=
    forall_mem_commaList (by decide) (forall_mem_map.mpr fun d _ => d.avoids (by decide) (by decide))
  rw [← readAll_definitions hne]
  exact plan_creationText t (strip_commaList (by simpa using hne) htexts).2 hplain p

theorem markedNames_eq_nil_iff {mark : Column.Mark} {ds : List Column.Definition} :
    markedNames mark ds = [] ↔ ∀ d ∈ ds, mark ∉ d.marks := by
  simp [markedNames]

/-- **When a new table keeps its definitions**: iff no definition has a mark, and no name contains `INDEX` or
`KEY`. -/
theorem tableCreation_keeps_iff (t : Identifier) {ds : List Column.Definition} (hne : ds ≠ []) (p : Planner) :
    ∃ plan, (p.plan (tableCreation t ds)).1 = .ok plan ∧
      listedColumns plan = ((ds.filter fun d => !d.isLost).map fun d => d.name.name) ∧
      at? ["schema_info", "required_fields"] plan = some (.list []) ∧
      at? ["indexes_to_create"] plan = some (.list []) ∧
      (KeepsDefinitions ds plan ↔ ∀ d ∈ ds, d.marks = [] ∧ Column.isConstraint d.name.chars = false) := by
  obtain ⟨table, hplan⟩ := plan_tableCreation t hne p
  obtain ⟨hlisted, hrequired, hindexes⟩ := looks_flatPlan table ds
  refine ⟨_, hplan, hlisted, hrequired, hindexes, ?_⟩
  generalize doc (flatPlan table _) = plan at hlisted hrequired hindexes
  constructor
  · rintro ⟨hcolumns, hnames, hunique⟩ d hd
    have hlost : d.isLost = false := by
      rw [hlisted] at hcolumns
      have hlength := congrArg List.length hcolumns
      rw [length_map, length_map, length_filter_eq_length_iff] at hlength
      simpa using hlength d hd
    rw [hrequired] at hnames
    have hnotNull : markedNames .notNull ds = [] := by
      simpa [texts] using hnames
    have hnone : markedNames .unique ds ++ markedNames .primaryKey ds = [] := by
      refine eq_nil_iff_forall_not_mem.mpr fun name hname => ?_
      obtain ⟨indexes, index, hfound, hindex, -⟩ := hunique name hname
      rw [hindexes] at hfound
      cases hfound
      cases hindex
    obtain ⟨hunique, hprimary⟩ := append_eq_nil_iff.mp hnone
    refine ⟨eq_nil_iff_forall_not_mem.mpr fun mark => ?_, (Bool.or_eq_false_iff.mp hlost).1⟩
    cases mark with
    | notNull => exact markedNames_eq_nil_iff.mp hnotNull d hd
    | unique => exact markedNames_eq_nil_iff.mp hunique d hd
    | primaryKey => exact markedNames_eq_nil_iff.mp hprimary d hd
  · intro h
    have hnone : ∀ mark, markedNames mark ds = [] := by
      intro mark
      refine markedNames_eq_nil_iff.mpr fun d hd => ?_
      rw [(h d hd).1]
      exact not_mem_nil
    have hkept : (ds.filter fun d => !d.isLost) = ds := by
      rw [filter_eq_self]
      intro d hd
      rw [Column.Definition.isLost, (h d hd).1, (h d hd).2]
      rfl
    refine ⟨?_, ?_, ?_⟩
    · rw [hlisted, hkept]
    · rw [hrequired, hnone]
      rfl
    · rw [hnone, hnone]
      exact fun _ hname => by cases hname

/-- Of a key, a column with a mark and a plain one only the last two are listed, and nothing is required. -/
theorem tableCreation_marked : ∃ plan, (Planner.empty.plan
      "CREATE TABLE t (id INT PRIMARY KEY, mail TEXT NOT NULL UNIQUE, born DATE)".toList).1 = .ok plan ∧
    listedColumns plan = ["mail", "born"] ∧ at? ["schema_info", "required_fields"] plan = some (.list []) ∧
    at? ["indexes_to_create"] plan = some (.list []) := by
  let ds : List Column.Definition := [⟨⟨"id".toList, by decide, by decide⟩, "INT", [.primaryKey], by decide⟩,
    ⟨⟨"mail".toList, by decide, by decide⟩, "TEXT", [.notNull, .unique], by decide⟩,
    ⟨⟨"born".toList, by decide, by decide⟩, "DATE", [], by decide⟩]
  obtain ⟨plan, hplan, hlisted, hrequired, hindexes, -⟩ :=
    tableCreation_keeps_iff ⟨['t'], by decide, by decide⟩ (show ds ≠ [] by simp [ds]) Planner.empty
  exact ⟨plan, hplan, hlisted.trans (by decide), hrequired, hindexes⟩

end SqlGateway.Plan
