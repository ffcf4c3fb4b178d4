import SqlGateway.Proofs.Sql.Where.Parts

/-!
# How deep the reading of a clause goes

`Reads n s filter result` is the recursion of `addConditions` without its bound, with no more than `n`
readings nested. The bound is never felt (`Reads.eq_addConditions`), and **no more than three readings are
nested** (`reads_within_three`).
-/

namespace SqlGateway.Sql.Where

open Text List

variable {s : List Char}

/-! ### Parts of a joined text -/

theorem length_lt_of_mem_splitAtConnective {word : List Char} (hword : SolidWord word)
    {part : List Char} (hs : joinedBy word s) (h : part ∈ splitAtConnective word s) :
    part.length < s.length := by
  obtain ⟨x, y, hsplit, -⟩ := exists_of_mem_splitAtConnective hword h
  have hlength : s.length = x.length + part.length + y.length := by
    rw [hsplit, length_append, length_append]
  by_contra hlt
  -- nothing stands around the part, but the connective joins the text and not the part
  have hx : x = [] := eq_nil_of_length_eq_zero (by omega)
  have hy : y = [] := eq_nil_of_length_eq_zero (by omega)
  have heq : s = part := by rw [hsplit, hx, hy, nil_append, append_nil]
  rw [heq, joinedBy_of_mem_splitAtConnective hword h] at hs
  cases hs

/-! ### The equations of the recursion -/

/-- Adds the alternatives that ask something; without any the filter stays. -/
def addAlternatives (filter : Document) (parts : List Document) : Document :=
  let found := parts.filter fun part => !part.isEmpty
  if found.isEmpty then filter else filter.set "$or" (.list (found.map .doc))

theorem addConditions_either (hor : joinedBy ['O', 'R'] (strip s)) (filter : Document) :
    addConditions s filter = addAlternatives filter
        ((splitAtConnective ['O', 'R'] (strip s)).map fun part => addConditions part []) := by
  have hparts : ((splitAtConnective ['O', 'R'] (strip s)).map fun part => addConditions part []) =
      (disjuncts (strip s)).map fun part => Document.ofMembers (demands part) := by
    rw [disjuncts, joined, if_pos hor]
    refine map_congr_left fun part hpart => ?_
    rw [addConditions_eq, (trimmed_of_mem_splitAtConnective solidWord_or hpart).1,
      joinedBy_of_mem_splitAtConnective solidWord_or hpart, if_neg Bool.false_ne_true, Document.ofMembers]
  rw [addConditions_eq, if_pos hor, hparts]
  rfl

theorem addConditions_both (hor : joinedBy ['O', 'R'] (strip s) = false)
    (hand : joinedBy ['A', 'N', 'D'] (strip s)) (filter : Document) : addConditions s filter =
      (splitAtConnective ['A', 'N', 'D'] (strip s)).foldl
        (fun filter part => filter.merge (addConditions part [])) filter := by
  rw [addConditions_eq, if_neg (by simp [hor]), demands, conjuncts, joined, if_pos hand,
    ← foldl_merge_addSimple]
  refine foldl_ext _ _ _ fun d part hpart => ?_
  obtain ⟨hor, hand⟩ := bare_of_mem_split hor hpart
  rw [addConditions, addWithin_simple hor hand]

theorem addConditions_bare (hor : joinedBy ['O', 'R'] (strip s) = false)
    (hand : joinedBy ['A', 'N', 'D'] (strip s) = false) (filter : Document) :
    addConditions s filter = addSimple (strip s) filter := by
  rw [addConditions, addWithin_simple hor hand, addSimple_eq, addSimple_eq, simple?_strip]

/-! ### Nested readings -/

/-- Reading `s` into `filter` ends with `result`, and at most `n` readings are nested, this one
counted. -/
inductive Reads : (n : Nat) → (s : List Char) → (filter result : Document) → Prop
  | either {n : Nat} {s : List Char} {filter : Document} (read : List Char → Document)
      (hor : joinedBy ['O', 'R'] (strip s))
      (hparts : ∀ part ∈ splitAtConnective ['O', 'R'] (strip s), Reads n part [] (read part)) :
      Reads (n + 1) s filter (addAlternatives filter ((splitAtConnective ['O', 'R'] (strip s)).map read))
  | both {n : Nat} {s : List Char} {filter : Document} (read : List Char → Document)
      (hor : joinedBy ['O', 'R'] (strip s) = false)
      (hand : joinedBy ['A', 'N', 'D'] (strip s))
      (hparts : ∀ part ∈ splitAtConnective ['A', 'N', 'D'] (strip s), Reads n part [] (read part)) :
      Reads (n + 1) s filter ((splitAtConnective ['A', 'N', 'D'] (strip s)).foldl
          (fun filter part => filter.merge (read part)) filter)
  | bare {n : Nat} {s : List Char} {filter : Document}
      (hor : joinedBy ['O', 'R'] (strip s) = false)
      (hand : joinedBy ['A', 'N', 'D'] (strip s) = false) :
      Reads (n + 1) s filter (addSimple (strip s) filter)

/-- A reading has one result only. -/
theorem Reads.eq_addConditions {n : Nat} {filter result : Document} (h : Reads n s filter result) :
    result = addConditions s filter := by
  induction h with
  | either read hor _ ih =>
    rw [addConditions_either hor, map_congr_left ih]
  | both read hor hand _ ih =>
    rw [addConditions_both hor hand]
    exact foldl_ext _ _ _ fun d part hp => by rw [ih part hp]
  | bare hor hand => exact (addConditions_bare hor hand _).symm

theorem reads_bare (hor : joinedBy ['O', 'R'] (strip s) = false)
    (hand : joinedBy ['A', 'N', 'D'] (strip s) = false) (n : Nat) (filter : Document) :
    Reads (n + 1) s filter (addConditions s filter) := by
  rw [addConditions_bare hor hand]
  exact .bare hor hand

theorem reads_conjunction (hor : joinedBy ['O', 'R'] (strip s) = false) (n : Nat)
    (filter : Document) : Reads (n + 2) s filter (addConditions s filter) := by
  by_cases hand : joinedBy ['A', 'N', 'D'] (strip s)
  · rw [addConditions_both hor hand]
    refine .both (fun part => addConditions part []) hor hand fun part hpart => ?_
    obtain ⟨hor, hand⟩ := bare_of_mem_split hor hpart
    exact reads_bare hor hand n []
  · exact reads_bare hor (by simpa using hand) (n + 1) filter

theorem reads_clause (s : List Char) (n : Nat) (filter : Document) :
    Reads (n + 3) s filter (addConditions s filter) := by
  by_cases hor : joinedBy ['O', 'R'] (strip s)
  · rw [addConditions_either hor]
    refine .either (fun part => addConditions part []) hor fun part hpart => ?_
    apply reads_conjunction
    rw [(trimmed_of_mem_splitAtConnective solidWord_or hpart).1]
    exact joinedBy_of_mem_splitAtConnective solidWord_or hpart
  · exact reads_conjunction (by simpa using hor) (n + 1) filter

/-- **Reading a clause ends, with at most three nested readings**, whether or not the text is well formed. -/
theorem reads_within_three : (∀ word ∈ connectives, ∀ t, joinedBy word t = true →
      ∀ part ∈ splitAtConnective word t, part.length < t.length ∧ joinedBy word part = false) ∧
    (∀ t, joinedBy ['O', 'R'] t = false →
      ∀ part ∈ splitAtConnective ['A', 'N', 'D'] t, joinedBy ['O', 'R'] part = false) ∧
    ∀ (s : List Char) (filter : Document), Reads 3 s filter (addConditions s filter) ∧
      ∀ n result, Reads n s filter result → result = addConditions s filter := by
  refine ⟨?_, ?_, ?_⟩
  · intro word hword t ht part hpart
    have hsolid := solidWord_of_mem hword
    exact ⟨length_lt_of_mem_splitAtConnective hsolid ht hpart, joinedBy_of_mem_splitAtConnective hsolid hpart⟩
  · intro t hor part hpart
    exact joinedBy_part_of_not_joinedBy solidWord_and hor hpart
  · intro s filter
    exact ⟨reads_clause s 0 filter, fun n result h => h.eq_addConditions⟩

/-- A connective that is written twice, and a parenthesis that was never opened. -/
theorem reads_unbalanced :
    let s := "a = 1 OR or b = 2 AND c = 3 ) OR d = 4".toList
    joinedBy ['O', 'R'] s ∧ (∀ part ∈ splitAtConnective ['O', 'R'] s,
      part.length < s.length ∧ joinedBy ['O', 'R'] part = false) ∧
    (let last := "b = 2 AND c = 3 ) OR d = 4".toList
     joinedBy ['O', 'R'] last = false ∧
      ∀ part ∈ splitAtConnective ['A', 'N', 'D'] last, joinedBy ['O', 'R'] part = false) ∧
    Reads 3 s [] (addConditions s []) :=
  have hs : joinedBy ['O', 'R'] "a = 1 OR or b = 2 AND c = 3 ) OR d = 4".toList := by decide
  have hlast : joinedBy ['O', 'R'] "b = 2 AND c = 3 ) OR d = 4".toList = false := by decide
  ⟨hs, reads_within_three.1 _ (by decide) _ hs, ⟨hlast, reads_within_three.2.1 _ hlast⟩,
    (reads_within_three.2.2 _ []).1⟩

end SqlGateway.Sql.Where
