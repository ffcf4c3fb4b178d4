import SqlGateway.Proofs.Plan.Change
import SqlGateway.Proofs.Sql.TableName

/-!
# The plans of insertions

**The plan of an insertion carries all rows, in order and with their values** (`plan_insertion`), a single row
  as one document and several as a list.
-/

namespace SqlGateway.Plan

open Text Pattern Sql Insert

variable {text : List Char}

/-! ### Kind and table -/

section

variable {columns values : List Char}

theorem tableOfKind?_into (t : Identifier) (hlast : values.getLast? = some ')') :
    tableOfKind? (some "INSERT") (insertionText t.chars columns values) = some t.table := by
  refine tableOfKind?_laid rfl (by decide) (by simp) (by decide) (laid_self ["INSERT", "INTO"] (by decide))
    t.isName (by decide) (by rintro c ⟨⟩; rfl) ?_
  intro c hc
  simp only [List.getLast?_append, hlast, Option.some_or] at hc
  obtain rfl := Option.some.inj hc
  decide

theorem tableOfKind?_insertionText (t : SmallName) (hlast : values.getLast? = some ')') :
    tableOfKind? (some "INSERT") (insertionText t.chars columns values) = some t.name := by
  rw [tableOfKind?_into t.toIdentifier hlast, t.table_eq]

theorem statementKind?_insertionText (table : List Char) :
    (statementKind? (insertionText table columns values) = some "INSERT" ∨
      statementKind? (insertionText table columns values) = some "UNKNOWN") ∧
    (';' ∉ insertionText table columns values →
      statementKind? (insertionText table columns values) = some "INSERT") := by
  have htext : insertionText table columns values = "INSERT" ++ ' ' :: 'I' ::
      ("NTO " ++ (table ++ (" (" ++ (columns ++ (") VALUES " ++ values))))) := rfl
  refine ⟨?_, fun hcalm => ?_⟩
  · rw [htext]
    exact statementKind?_documentWord (by decide) _ (by decide) (by decide)
  · rw [htext] at hcalm ⊢
    exact statementKind?_eq_documentWord (by decide) _ (by decide) (by decide) (by decide)
      (Token.not_spans_zone_of_head (by decide) (by decide) _ _) (.inl hcalm)

end

/-! ### Plans -/

/-- The plan that inserts documents: a single one by itself, several as a list. -/
def insertionPlan (table : String) : List Document → Value
  | [d] => .doc [("operation", .text "insert"), ("collection", .text table), ("document", .doc d)]
  | ds => .doc [("operation", .text "INSERT_MANY"), ("collection", .text table),
      ("documents", .list (ds.map .doc))]

theorem table_of_kind {kind : String} (h : statementKind? text = some kind) :
    Statement.table (.ofText text) = .ok (.ofText? (tableOfKind? (some kind) text)) := by
  rw [Statement.table, kind_ofText, h]
  rfl

/-- The plan of an insertion, from the documents that are read of it. -/
def insertOutcome (table : Value) : Option (List Document) → Except Fault Value
  | none => .error (.refused .noInsertedValues)
  | some [] => .error (.refused .noDocuments)
  | some [d] =>
    if d.isEmpty then .error (.refused .noInsertedValues)
    else .ok (.doc [("operation", .text "insert"), ("collection", table), ("document", .doc d)])
  | some ds => .ok (.doc [("operation", .text "INSERT_MANY"), ("collection", table),
      ("documents", .list (ds.map .doc))])

theorem insert_eq (hkind : statementKind? text = some "INSERT") :
    insert (.ofText text) = insertOutcome (.ofText? (tableOfKind? (some "INSERT") text))
      ((read text).toOption.map Insertion.documents) := by
  have hinsertion : Statement.insertion (.ofText text) = .ok (.doc (describe text)) := rfl
  rw [insert, table_of_kind hkind, hinsertion, describe]
  cases read text with
  | error failure => rfl
  | ok i =>
    obtain ⟨name, documents⟩ := i
    cases documents with
    | nil => rfl
    | cons d ds =>
      cases ds with
      | nil => cases d <;> rfl
      | cons e ds => rfl

theorem plan_insert (hkind : statementKind? text = some "INSERT") (p : Planner) :
    (p.plan text).1 = insertOutcome (.ofText? (tableOfKind? (some "INSERT") text))
      ((read text).toOption.map Insertion.documents) := by
  rw [plan_of_kind (by simp [hkind]), ofStatement_ofText, hkind]
  exact insert_eq hkind

theorem plan_of_read {table name : String} {documents : List Document}
    (hkind : statementKind? text = some "INSERT") (htable : tableOfKind? (some "INSERT") text = some table)
    (hread : read text = .ok ⟨name, documents⟩) (hne : documents ≠ [])
    (hfull : ∀ d ∈ documents, d ≠ []) (p : Planner) :
    (p.plan text).1 = .ok (insertionPlan table documents) := by
  rw [plan_insert hkind, htable, hread]
  obtain ⟨d, ds, rfl⟩ := List.exists_cons_of_ne_nil hne
  cases ds with
  | nil => exact if_neg (by simpa using hfull d (by simp))
  | cons e ds => rfl

theorem plan_grid (t : Identifier) (grid : Grid) (p : Planner) :
    (p.plan (grid.text t)).1 = .ok (insertionPlan t.table grid.documents) :=
  plan_of_read ((statementKind?_insertionText t.chars).2 (grid.semicolon_not_mem_text t))
    (tableOfKind?_into t (ends_rowsText grid.rows_ne_nil).2) (grid.read_text t) grid.documents_ne_nil
    (fun _ hd => grid.document_ne_nil hd) p

/-- **The plan of an insertion carries all rows**, in order and with their values. -/
theorem plan_insertion (t : SmallName) (batch : Batch) (p : Planner) :
    (p.plan (batch.text t)).1 = .ok (insertionPlan t.name batch.documents) := by
  exact plan_of_read ((statementKind?_insertionText t.chars).2 (batch.semicolon_not_mem_text t))
    (tableOfKind?_insertionText t batch.ends_values.2) (batch.read_text t) batch.documents_ne_nil
    (fun _ hd => batch.document_ne_nil hd) p

end SqlGateway.Plan
