import Mathlib.Data.List.Basic
import SqlGateway.Proofs.Sql.Connective
import SqlGateway.Proofs.Value.Document
import SqlGateway.Sql.Where

/-!
# The simple conditions of a clause

A part of an `OR` split is not joined by `OR`, and a part of its `AND` split by neither.  So **the filter of a
clause** merges the `demands` of its `conjuncts`, and collects those of the `disjuncts` under `$or`
(`addConditions_eq`).
-/

namespace SqlGateway.Sql.Where

open Text List Document

/-- The conditions that a connective joins; a text that it does not join is one condition. -/
def joined (word s : List Char) : List (List Char) :=
  if joinedBy word s then splitAtConnective word s else [s]

def disjuncts (s : List Char) : List (List Char) :=
  joined ['O', 'R'] s

def conjuncts (s : List Char) : List (List Char) :=
  joined ['A', 'N', 'D'] s

def parts (clause : List Char) : List (List Char) :=
  (disjuncts (strip clause)).flatMap conjuncts

/-- What a conjunction asks of which field. -/
def demands (s : List Char) : Document :=
  (conjuncts s).filterMap simple?

/-- The filters of some disjuncts; one that asks nothing is left out. -/
def alternatives (conditions : List (List Char)) : List Document :=
  (conditions.map fun s => ofMembers (demands s)).filter fun d => !d.isEmpty

theorem joined_joinWith {word keyword : List Char} (hword : SolidWord word)
    (hkey : spells word keyword) (parts : List (List Char)) (hne : parts ≠ [])
    (hparts : ∀ part ∈ parts, Part word part) : joined word (joinWith keyword parts) = parts := by
  rw [joined, splitAtConnective_joinWith hword hkey parts hne hparts]
  match parts with
  | [] => exact absurd rfl hne
  | [part] => rw [joinWith_singleton, (hparts part (by simp)).not_joinedBy, if_neg (by simp)]
  | part :: next :: parts =>
    rw [joinedBy_joinWith hkey (hparts part (by simp)), if_pos rfl]

/-! ### Adding simple conditions -/

theorem simple?_strip (s : List Char) : simple? (strip s) = simple? s := by
  rw [simple?, simple?, strip_strip]

theorem addSimple_eq (s : List Char) (filter : Document) :
    addSimple s filter = filter.merge (simple? s).toList := by
  rw [addSimple]
  cases simple? s <;> rfl

theorem addSimple_nil (s : List Char) : addSimple s [] = (simple? s).toList := by
  rw [addSimple_eq]
  cases simple? s <;> rfl

theorem foldl_merge_addSimple (conditions : List (List Char)) (filter : Document) :
    conditions.foldl (fun filter s => filter.merge (addSimple s [])) filter =
      filter.merge (conditions.filterMap simple?) := by
  induction conditions generalizing filter with
  | nil => rfl
  | cons s conditions ih =>
    rw [foldl_cons, ih, addSimple_nil]
    cases hs : simple? s with
    | none => rw [filterMap_cons_none hs]; rfl
    | some m => rw [filterMap_cons_some hs]; rfl

/-! ### The two levels -/

variable {s : List Char}

theorem bare_of_mem_split {part : List Char} (hor : joinedBy ['O', 'R'] s = false)
    (h : part ∈ splitAtConnective ['A', 'N', 'D'] s) :
    joinedBy ['O', 'R'] (strip part) = false ∧ joinedBy ['A', 'N', 'D'] (strip part) = false := by
  rw [(trimmed_of_mem_splitAtConnective solidWord_and h).1]
  exact ⟨joinedBy_part_of_not_joinedBy solidWord_and hor h, joinedBy_of_mem_splitAtConnective solidWord_and h⟩

theorem addWithin_simple (hor : joinedBy ['O', 'R'] (strip s) = false)
    (hand : joinedBy ['A', 'N', 'D'] (strip s) = false) (depth : Nat) (filter : Document) :
    addWithin depth s filter = addSimple s filter := by
  cases depth with
  | zero => rfl
  | succ depth =>
    simp only [addWithin, hor, hand, Bool.false_eq_true, if_false]
    rw [addSimple_eq, addSimple_eq, simple?_strip]

theorem addWithin_conjunction (hor : joinedBy ['O', 'R'] (strip s) = false) (depth : Nat) (filter : Document) :
    addWithin (depth + 1) s filter = filter.merge (demands (strip s)) := by
  rw [demands, conjuncts, joined]
  split
  case isTrue hand =>
    simp only [addWithin, hor, hand, Bool.false_eq_true, if_false, if_true]
    rw [← foldl_merge_addSimple]
    refine foldl_ext _ _ _ fun d part hpart => ?_
    obtain ⟨hor, hand⟩ := bare_of_mem_split hor hpart
    rw [addWithin_simple hor hand]
  case isFalse hand =>
    have hand' : joinedBy ['A', 'N', 'D'] (strip s) = false := by simpa using hand
    rw [addWithin_simple hor hand', addSimple_eq, filterMap_cons, simple?_strip]
    cases simple? s <;> rfl

/-- **The filter of a clause.** -/
theorem addConditions_eq (s : List Char) (filter : Document) : addConditions s filter =
      if joinedBy ['O', 'R'] (strip s) then
        if (alternatives (disjuncts (strip s))).isEmpty then filter
        else filter.set "$or" (.list ((alternatives (disjuncts (strip s))).map .doc))
      else filter.merge (demands (strip s)) := by
  rw [addConditions]
  split
  case isTrue hor =>
    -- an empty text is not joined, so there is a second level to split at
    obtain ⟨n, hn⟩ : ∃ n, s.length = n + 1 := by
      cases s with
      | nil => exact absurd hor (by decide)
      | cons c s => exact ⟨s.length, rfl⟩
    have hpart : ∀ part ∈ splitAtConnective ['O', 'R'] (strip s),
        addWithin (n + 1) part [] = ofMembers (demands part) := by
      intro part hpart
      have htrim := (trimmed_of_mem_splitAtConnective solidWord_or hpart).1
      have hquiet := joinedBy_of_mem_splitAtConnective solidWord_or hpart
      rw [addWithin_conjunction (by rw [htrim]; exact hquiet), htrim, ofMembers]
    have hparts : alternatives (disjuncts (strip s)) = ((splitAtConnective ['O', 'R'] (strip s)).map fun part =>
          addWithin (n + 1) part []).filter fun d => !d.isEmpty := by
      rw [alternatives, disjuncts, joined, if_pos hor]
      exact congrArg _ (map_congr_left fun part hp => (hpart part hp).symm)
    rw [hn, hparts]
    simp only [addWithin, hor, if_true]
  case isFalse hor => exact addWithin_conjunction (by simpa using hor) _ filter

/-! ### Empty filters -/

theorem demands_eq_nil_iff : demands s = [] ↔ ∀ part ∈ conjuncts s, simple? part = none := by
  rw [demands, filterMap_eq_nil_iff]

theorem alternatives_eq_nil_iff {conditions : List (List Char)} : alternatives conditions = [] ↔
      ∀ s ∈ conditions, ∀ part ∈ conjuncts s, simple? part = none := by
  rw [alternatives, filter_eq_nil_iff]
  simp only [mem_map, Bool.not_eq_true', isEmpty_eq_false_iff, ne_eq, not_not,
    forall_exists_index, and_imp, forall_apply_eq_imp_iff₂]
  refine forall₂_congr fun s _ => ?_
  rw [ofMembers, merge_eq_nil_iff, demands_eq_nil_iff]
  simp

/-- **The filter of a clause is empty** iff none of its simple conditions can be read. -/
theorem addConditions_eq_nil_iff : addConditions s [] = [] ↔ ∀ part ∈ parts s, simple? part = none := by
  have hparts : (∀ part ∈ parts s, simple? part = none) ↔
      ∀ d ∈ disjuncts (strip s), ∀ part ∈ conjuncts d, simple? part = none := by
    simp only [parts, mem_flatMap]
    exact ⟨fun h d hd part hp => h part ⟨d, hd, hp⟩, fun h part ⟨d, hd, hp⟩ => h d hd part hp⟩
  rw [hparts, addConditions_eq]
  split
  case isTrue hor =>
    rw [← alternatives_eq_nil_iff]
    split
    case isTrue h => simpa using h
    case isFalse h =>
      refine ⟨fun h' => absurd h' (set_ne_nil _ _ _), fun h' => ?_⟩
      rw [h'] at h
      exact absurd rfl h
  case isFalse hor =>
    rw [merge_eq_nil_iff, demands_eq_nil_iff, disjuncts, joined, if_neg hor]
    simp

end SqlGateway.Sql.Where
