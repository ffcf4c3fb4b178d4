import SqlGateway.Proofs.Plan.Operation
import SqlGateway.Proofs.Sql.StatementKind
import SqlGateway.Proofs.Sql.Where.Parts
import SqlGateway.Proofs.Sql.Where.Simple

/-!
# The filters of updates and deletions

The filter of a deletion or an update is the one of its `WHERE` clause, without what cannot be read.  **It is
empty, and the change meets every document, iff no part of the condition can be read**
(`changeFilter_eq_nil_iff`).
-/

namespace SqlGateway.Plan

open Sql Where Document

variable {text : List Char}

/-- The filter of a deletion or an update. -/
def changeFilter? (plan : Value) : Option Value :=
  match plan with
  | .doc members =>
    match get members "operation", get? members "query" with
    | .text "delete", some filter => some filter
    | .text "update", some (.doc change) => get? change "query"
    | _, _ => none
  | _ => none

theorem orEmpty_doc (filter : Document) : orEmpty (.doc filter) = .doc filter := by
  cases filter <;> rfl

theorem gives_delete_filter (text : List Char) :
    Gives (fun plan => changeFilter? plan = some (.doc (Where.filter text))) (delete (.ofText text)) := by
  refine .bind fun table _ => .bind fun filter hfilter => .pure ?_
  obtain rfl : Value.doc (Where.filter text) = filter := Except.ok.inj hfilter
  simp [changeFilter?, Document.get, Document.get?, List.lookup_cons, Value.ofOption, orEmpty_doc]

theorem gives_update_filter (text : List Char) :
    Gives (fun plan => changeFilter? plan = some (.doc (Where.filter text))) (update (.ofText text)) := by
  refine .bind fun table _ => .bind fun change _ => .bind fun filter hfilter => .check ?_
  refine .bind fun values _ => .pure ?_
  obtain rfl : Value.doc (Where.filter text) = filter := Except.ok.inj hfilter
  simp [changeFilter?, Document.get, Document.get?, List.lookup_cons, Value.ofOption, orEmpty_doc]

theorem yields_changeFilter
    (hkind : statementKind? text = some "DELETE" ∨ statementKind? text = some "UPDATE") :
    Planning.Yields (fun plan => changeFilter? plan = some (.doc (filter text)))
      (ofStatement (.ofText text)) := by
  rw [ofStatement_ofText]
  rcases hkind with hkind | hkind
  · rw [hkind]
    exact .lift (gives_delete_filter text)
  · rw [hkind]
    exact .lift (gives_update_filter text)

theorem plan_of_kind (h : statementKind? text ≠ none) (p : Planner) :
    (p.plan text).1 = ((ofStatement (.ofText text)).run.run []).1 := by
  cases text with
  | nil => exact absurd rfl h
  | cons c text => rfl

theorem filter_of_clause? {clause : List Char} (hclause : clause? text = some clause)
    (hne : clause ≠ []) : filter text = addConditions clause [] := by
  rw [filter, hclause]
  simp [hne]

/-- **The filter of a change with a condition is empty iff no part of the condition can be read.** -/
theorem changeFilter_eq_nil_iff {text clause : List Char} {plan : Value} (p : Planner)
    (hkind : statementKind? text = some "DELETE" ∨ statementKind? text = some "UPDATE")
    (hclause : Where.clause? text = some clause) (hne : clause ≠ []) (hplan : (p.plan text).1 = .ok plan) :
    ∃ filter, changeFilter? plan = some (.doc filter) ∧
      (filter = [] ↔ ∀ part ∈ Where.parts clause, ¬ Where.Readable part) := by
  rw [plan_of_kind (by rcases hkind with h | h <;> simp [h])] at hplan
  refine ⟨filter text, yields_changeFilter hkind [] plan hplan, ?_⟩
  rw [filter_of_clause? hclause hne, addConditions_eq_nil_iff]
  exact forall₂_congr fun part _ => simple?_eq_none_iff

theorem exists_table (text : List Char) : ∃ table, Statement.table (.ofText text) = .ok table := by
  rw [Statement.table, kind_ofText]
  cases statementKind? text <;> exact ⟨_, rfl⟩

theorem exists_plan_of_deletion (hkind : statementKind? text = some "DELETE") (p : Planner) :
    ∃ plan, (p.plan text).1 = .ok plan := by
  obtain ⟨table, htable⟩ := exists_table text
  rw [plan_of_kind (by simp [hkind]), ofStatement_ofText, hkind]
  refine ⟨.doc [("operation", .text "delete"), ("collection", table),
    ("query", orEmpty (.doc (filter text)))], ?_⟩
  rw [delete, htable]
  rfl

/-- A deletion of what lies between two values, `BETWEEN` being cut at its `AND`. -/
def betweenDeletion : List Char :=
  "DELETE FROM t WHERE a BETWEEN 2 AND 3"

theorem changeFilter_betweenDeletion :
    (statementKind? betweenDeletion = some "DELETE" ∨ statementKind? betweenDeletion = some "UPDATE") ∧
    Where.clause? betweenDeletion = some "a BETWEEN 2 AND 3".toList ∧ "a BETWEEN 2 AND 3".toList ≠ [] ∧
    ∃ plan, (Planner.empty.plan betweenDeletion).1 = .ok plan ∧ changeFilter? plan = some (.doc []) := by
  have hkind : statementKind? betweenDeletion = some "DELETE" :=
    statementKind?_eq_documentWord (w := "DELETE") (by decide)
      ("ROM t WHERE a BETWEEN 2 AND 3".toList) (by decide) (by decide) (by decide)
      (Token.not_spans_zone_of_head (by decide) (by decide) _ _) (.inl (by decide))
  have hclause : clause? betweenDeletion = some "a BETWEEN 2 AND 3".toList := by
    decide +kernel
  have hparts : ∀ part ∈ parts "a BETWEEN 2 AND 3".toList, ¬ Where.Readable part := by
    decide +kernel
  obtain ⟨plan, hplan⟩ := exists_plan_of_deletion hkind Planner.empty
  obtain ⟨filter, hfilter, hempty⟩ :=
    changeFilter_eq_nil_iff Planner.empty (.inl hkind) hclause (by decide) hplan
  refine ⟨.inl hkind, hclause, by decide, plan, hplan, ?_⟩
  rw [hfilter, hempty.mpr hparts]

end SqlGateway.Plan
