import SqlGateway.Proofs.Plan.Insert
import SqlGateway.Proofs.Sql.Feature

/-!
# Which operation does the work of a selection

**No built-in function draws one value from many rows** (`isTotal_of_describe`), so a text never asks for
  totals.  The operation is decided by joins, filters on groups, distinct rows and orders (`select_eq`).
-/

namespace SqlGateway.Plan

open Text Sql List Call Statement Value Except

variable {text s : List Char} {calls : List Document}

theorem ok_bind {α β : Type} (a : β) (f : β → Except Fault α) :
    ((ok a : Except Fault β) >>= f) = f a := rfl

theorem liftM_ok_bind {α β : Type} (a : β) (f : β → Planning α) :
    ((liftM (ok a : Except Fault β) : Planning β) >>= f) = f a := rfl

theorem plan_of_select (hkind : statementKind? text = some "SELECT") (p : Planner) :
    (p.plan text).1 = ((select (.ofText text)).run.run []).1 := by
  rw [plan_of_kind (by simp [hkind]), ofStatement_ofText, hkind]
  rfl

/-! ### Totals -/

theorem not_total_of_builtin : ∀ f ∈ Builtin.all,
    totals.contains (upperString (lowerString f.name)) = false := by
  decide +kernel

theorem function_of_mem_find {c : Call} (h : c ∈ Call.find s) : c.function ∈ Builtin.all := by
  have hfamily : ∀ {family : Family}, c ∈ Call.findFamily family s → c.function ∈ Builtin.ofFamily family := by
    intro family h
    obtain ⟨f, hf, h⟩ := mem_flatMap.mp h
    obtain ⟨m, -, rfl⟩ := mem_map.mp h
    exact hf
  rw [Builtin.all, mem_append, mem_append]
  rw [Call.find, mem_append, mem_append] at h
  exact h.imp (Or.imp hfamily hfamily) hfamily

/-- **No call that can be read applies a total.** -/
theorem isTotal_of_describe (h : Call.describe s = .ok calls) :
    ∀ call ∈ calls, isTotal (.doc call) = .ok false := by
  intro call hcall
  obtain ⟨c, hc, hdoc⟩ := exists_of_mem_mapM h call hcall
  rw [← not_total_of_builtin _ (function_of_mem_find hc)]
  cases hexpression : c.expression with
  | error e => simp [toDocument, hexpression, bind, Except.bind] at hdoc
  | ok v =>
    simp only [toDocument, hexpression, bind, Except.bind, pure, Except.pure, Except.ok.injEq] at hdoc
    subst hdoc
    rfl

theorem anyTotal_eq_false : ∀ {calls : List Document}, (∀ call ∈ calls, isTotal (.doc call) = .ok false) →
    anyTotal (calls.map .doc) = .ok false
  | [], _ => rfl
  | call :: calls, h => by
    rw [map_cons, anyTotal, h call (by simp)]
    exact anyTotal_eq_false (forall_mem_cons.mp h).2

theorem totalCalls_eq_nil (h : ∀ call ∈ calls, isTotal (.doc call) = .ok false) :
    totalCalls (.list (calls.map .doc)) = .ok [] := by
  have hmarked : (calls.map doc).mapM (fun call => do return (call, ← isTotal call)) =
      .ok (calls.map fun call => (doc call, false)) :=
    mapM_map_eq_ok fun call hcall => by rw [h call hcall]; rfl
  cases calls with
  | nil => rfl
  | cons call calls =>
    have hopen : totalCalls (.list ((call :: calls).map .doc)) =
        ((call :: calls).map doc).mapM (fun call => do return (call, ← isTotal call)) >>= fun marked =>
          .ok ((marked.filter Prod.snd).map Prod.fst) := rfl
    rw [hopen, hmarked]
    show ok _ = ok _
    simp [filter_map, Function.comp_def]

section

variable {text : List Char} {calls : List Document} (hcalls : describe text = .ok calls)
include hcalls

theorem functions_ofText : functions (.ofText text) = .ok (.list (calls.map .doc)) := by
  rw [functions_eq_describe, hcalls]
  rfl

/-- **A text asks for no totals.** -/
theorem groupStage_eq_null : groupStage (.ofText text) = .ok .null := by
  rw [groupStage, functions_ofText hcalls]
  show totalCalls (.list (calls.map .doc)) >>= _ = _
  rw [totalCalls_eq_nil (isTotal_of_describe hcalls)]
  rfl

theorem projectStage_eq_null : projectStage (.ofText text) = .ok .null := by
  rw [projectStage, functions_ofText hcalls]
  show totalCalls (.list (calls.map .doc)) >>= _ = _
  rw [totalCalls_eq_nil (isTotal_of_describe hcalls)]
  rfl

end

/-! ### The choice of the operation -/

/-- **What decides about the operation of a selection.** -/
theorem select_eq {table : Value} (htable : Statement.table (.ofText text) = .ok table)
    (hcalls : occurs text → ∃ calls, describe text = .ok calls)
    (hunion : Union.occurs text = false) : select (.ofText text) =
      if Join.occurs text then joined (.ofText text)
      else if Having.occurs text || Distinct.occurs text || !(OrderBy.read text).isEmpty then
        aggregate (.ofText text)
      else find (.ofText text) := by
  have hfields : fields (.ofText text) =
      .ok (.list ((SelectList.read text).map fun i => .doc i.toDocument)) := rfl
  have hfunctions : usesFunctions (.ofText text) = .ok (.bool (occurs text)) := rfl
  have hjoins : usesJoins (.ofText text) = .ok (.bool (Join.occurs text)) := rfl
  have hqueries : isUnion (.ofText text) = .ok (.bool (Union.occurs text)) := rfl
  have hnested : usesSubqueries (.ofText text) = .ok (.bool (Subquery.occurs text)) := rfl
  have hbool : ∀ b : Bool, (bool b).isPresent = b := fun _ => rfl
  have hdoc : ∀ d : Document, (doc d).isPresent = !d.isEmpty := fun _ => rfl
  have hgrouping : grouping (.ofText text) = .ok .null := rfl
  have hgrouped : isGrouped .null = .ok false := rfl
  simp only [select, htable, hfields, filter_ofText, hfunctions, hjoins, usesDistinct_ofText, usesHaving_ofText,
    hqueries, hnested, order_ofText, hgrouping, hgrouped, liftM_ok_bind, hunion, hbool, hdoc, Bool.false_eq_true, ↓reduceIte]
  cases hoccurs : occurs text with
  | false => simp only [Bool.false_eq_true, ↓reduceIte, pure_bind, Bool.false_or]
  | true =>
    -- the functions are read, and no total is among them
    obtain ⟨calls, hdescribe⟩ := hcalls hoccurs
    have hitems : items (.list (calls.map .doc)) = .ok (calls.map .doc) := rfl
    simp only [↓reduceIte, functions_ofText hdescribe, liftM_ok_bind, hitems,
      anyTotal_eq_false (isTotal_of_describe hdescribe), Bool.false_or]

theorem yields_select_of_unread {e : Fault} (hoccurs : occurs text)
    (hcalls : describe text = .error e) (P : Value → Prop) :
    Planning.Yields P (select (.ofText text)) := by
  have hfunctions : usesFunctions (.ofText text) = .ok (.bool true) := by
    rw [← hoccurs]
    rfl
  have hread : functions (.ofText text) = .error e := by
    rw [functions_eq_describe, hcalls]
    rfl
  rw [select, hfunctions, hread]
  refine .bind fun _ => .bind fun _ => .bind fun _ => ?_
  rintro _ _ ⟨⟩

end SqlGateway.Plan
