import SqlGateway.Proofs.Plan.Semicolon
import SqlGateway.Proofs.Sql.Assignment
import SqlGateway.Proofs.Sql.Wording

/-!
# The plans of updates

An update in words is always planned: its table is the word behind `UPDATE`, its filter is that of the
statement, and its values are what `Change.assigned` leaves of the assignments (`plan_updateWords`).
-/

namespace SqlGateway.Plan

open Text Sql Change

def updatePlan (table : String) (filter values : Document) : Value :=
  .doc [("operation", .text "update"), ("collection", .text table),
    ("query", .doc [("query", .doc filter), ("update", .doc [("$set", .doc values)])])]

theorem updatePlan_inj {table table' : String} {filter filter' values values' : Document} :
    updatePlan table filter values = updatePlan table' filter' values' ↔
      table = table' ∧ filter = filter' ∧ values = values' := by
  simp only [updatePlan, Value.doc.injEq, List.cons.injEq, Prod.mk.injEq, Value.text.injEq, true_and, and_true]

/-- **The plan of an update in words.** -/
theorem plan_updateWords (t : Identifier) {a b : List (List Char)} (ha : ∀ w ∈ a, Where.IsTerm w)
    (hne : a ≠ []) (hcalm : ∀ w ∈ a.tail, opensWith "WHERE" w = false)
    (hb : ∀ w ∈ b, Where.IsTerm w) (hstop : ∀ w ∈ b.head?, opensWith "WHERE" w) (p : Planner) :
    (p.plan (unwords (updateWords t.chars a b))).1 = .ok (updatePlan t.table
      (Where.filter (unwords (updateWords t.chars a b)))
      (assignments (unwords (assigned t.chars a)))) := by
  have hterms := isTerm_updateWords t ha hb
  have hkind : statementKind? (unwords (updateWords t.chars a b)) = some "UPDATE" := by
    refine statementKind?_unwords (by decide) (List.forall_mem_cons.mp hterms).2 (t.avoids (by decide)) (.inr ?_)
    rintro w ⟨⟩
    decide
  have htable : tableOfKind? (some "UPDATE") (unwords (updateWords t.chars a b)) = some t.table := by
    have hfound := tableOfKind?_name (rfl : tablePatterns "UPDATE" = _ :: _) (by decide) hterms
      (List.forall_mem_nil _) (by decide)
    exact hfound
  rw [plan_of_kind (by simp [hkind]), ofStatement_ofText, hkind]
  rw [update_eq (table_of_kind hkind), htable, values_update t ha hne hcalm hstop hb, orEmpty_doc]
  rfl

end SqlGateway.Plan
