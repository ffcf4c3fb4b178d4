import SqlGateway.Proofs.Plan.Condition
import SqlGateway.Proofs.Plan.Table
import SqlGateway.Proofs.Plan.Update

/-!
# The spelling of a column

An insertion, an update, a condition and the creation of a table each read the name of a column in their own
way (`spellings_eq`).  `spelling_kept_iff` says **when they agree**: an update writes small letters, and a
table does not list a column whose name contains `INDEX` or `KEY`.
-/

namespace SqlGateway.Plan

open Text Sql Change List Where Column

def namesAt (path : List String) (plan : Value) : List String :=
  match at? path plan with
  | some (.doc d) => Document.names d
  | _ => []

/-! ### A table with one column -/

/-- A new table with a column of whole numbers. -/
def columnCreation (t c : Identifier) : List Char :=
  creationText t.chars (intDefinition c.chars)

theorem exists_plan_columnCreation (t c : Identifier) (p : Planner) :
    ∃ plan, (p.plan (columnCreation t c)).1 = .ok plan ∧
      listedColumns plan = if isConstraint c.chars then [] else [c.name] := by
  let d : Column.Definition := ⟨c, "INT", [], by decide⟩
  obtain ⟨table, hplan⟩ := plan_tableCreation t (cons_ne_nil d []) p
  obtain ⟨hlisted, -, -⟩ := looks_flatPlan table [d]
  have hlost : d.isLost = isConstraint c.chars := Bool.or_false _
  refine ⟨_, hplan, hlisted.trans ?_⟩
  rw [filter_cons, hlost]
  cases isConstraint c.chars <;> rfl

/-! ### The four places -/

/-- The names under which a column is stored, set, compared and listed. -/
structure Spellings where
  stored : List String
  set : List String
  compared : List String
  listed : List String

def columnInsertion (t c : Identifier) (k : Numeral) : List Char :=
  Insert.insertionText t.chars c.chars (Insert.rowText k.chars)

def columnUpdate (t c : Identifier) (k : Numeral) : List Char :=
  unwords (updateWords t.chars (assignmentWords c.chars k.chars) [])

def columnComparison (o : List Char) (c : Identifier) (k : Numeral) : List Char :=
  o ++ " WHERE " ++ comparisonText c.chars .equal k.chars

def spellings (p : Planner) (t c : Identifier) (k : Numeral) (o : List Char) : Except Fault Spellings := do
  let insertion ← (p.plan (columnInsertion t c k)).1
  let update ← (p.plan (columnUpdate t c k)).1
  let creation ← (p.plan (columnCreation t c)).1
  return ⟨namesAt ["document"] insertion, namesAt ["query", "update", "$set"] update,
    (filter (columnComparison o c k)).names, listedColumns creation⟩

def updatedNames (t c : Identifier) : List String :=
  if closesWith "SET" t.chars then
    if opensWith "WHERE" c.chars then [] else [String.ofList (lower ("SET " ++ c.chars))]
  else [String.ofList (lower c.chars)]

theorem plan_columnInsertion (t c : Identifier) (k : Numeral) (p : Planner) :
    (p.plan (columnInsertion t c k)).1 = .ok (insertionPlan t.table [[(c.name, literal k.chars)]]) := by
  exact plan_grid t ⟨[c], by simp, by simp, [[k.chars]], by simp, by simpa using Insert.isCell_numeral k,
    by simp⟩ p

theorem plan_columnUpdate (t c : Identifier) (k : Numeral) (p : Planner) :
    ∃ plan, (p.plan (columnUpdate t c k)).1 = .ok plan ∧
      namesAt ["query", "update", "$set"] plan = updatedNames t c := by
  have hfield := isOperand_identifier c
  have hvalue := isOperand_numeral k
  refine ⟨_, plan_updateWords t (isTerm_assignmentWords hfield hvalue) (by simp [assignmentWords])
    ?_ (by simp) (by simp) p, ?_⟩
  · simpa [assignmentWords] using ⟨by decide, opensWith_numeral (by decide) k⟩
  · rw [assignments_assigned t.chars hfield hvalue, updatedNames]
    split
    · split <;> rfl
    · rfl

theorem spellings_eq (t c : Identifier) (k : Numeral) {o : List Char} (ho : Where.Opening o) (p : Planner) :
    spellings p t c k o = .ok ⟨[c.name], updatedNames t c, [c.name],
      if isConstraint c.chars then [] else [c.name]⟩ := by
  obtain ⟨update, hupdate, hset⟩ := plan_columnUpdate t c k p
  obtain ⟨creation, hcreation, hlisted⟩ := exists_plan_columnCreation t c p
  have hfilter : filter (columnComparison o c k) = [(c.name, literal k.chars)] :=
    filter_comparison .equal c.word k.plainWord.toWord (continues_numeral k) ho
  rw [spellings, plan_columnInsertion, hupdate, hcreation, hfilter, ← hset, ← hlisted]
  rfl

/-- An update sets a column under its own name if this is in small letters, and the name of the table does
not end with `SET`. -/
theorem updatedNames_eq_iff (t c : Identifier) : updatedNames t c = [c.name] ↔
    lower c.chars = c.chars ∧ closesWith "SET" t.chars = false := by
  have hname : ∀ s, [String.ofList s] = [c.name] ↔ s = c.chars := by
    intro s
    rw [singleton_inj, Identifier.name, String.ofList_inj]
  rw [updatedNames]
  cases closesWith "SET" t.chars with
  | false => simp [hname]
  | true =>
    -- a name has no blank
    have hlonger : lower ("SET " ++ c.chars) ≠ c.chars := by
      intro h
      have hlength := congrArg length h
      rw [lower_of_ascii, length_map, length_append] at hlength
      · have : 0 < "SET ".toList.length := by decide
        omega
      · exact forall_mem_append.mpr ⟨by decide, fun _ => c.ascii⟩
    rw [if_pos rfl]
    split
    · simp
    · rw [hname]
      exact ⟨fun h => absurd h hlonger, fun h => by cases h.2⟩

/-- **When a column has one spelling.** -/
theorem spelling_kept_iff (t c : Identifier) (k : Numeral) {o : List Char} (ho : Where.Opening o)
    (p : Planner) : ∃ s, spellings p t c k o = .ok s ∧
      (s.stored = [c.name] ∧ s.compared = [c.name] ∧ s.set = updatedNames t c ∧
        s.listed = if Column.isConstraint c.chars then [] else [c.name]) ∧
      (s.set = s.stored ∧ s.listed = s.stored ↔ lower c.chars = c.chars ∧
        closesWith "SET".toList t.chars = false ∧ Column.isConstraint c.chars = false) := by
  refine ⟨_, spellings_eq t c k ho p, ⟨rfl, rfl, rfl, rfl⟩, ?_⟩
  rw [updatedNames_eq_iff, and_assoc]
  cases isConstraint c.chars <;> simp

/-- A column with a capital letter is stored under one name and set under another. -/
theorem spelling_kept_iff_capital : Where.Opening "SELECT * FROM t".toList ∧
    ∃ s, spellings Planner.empty ⟨['t'], by decide, by decide⟩ ⟨"Nombre".toList, by decide, by decide⟩
        ⟨.none, [1], by decide⟩ "SELECT * FROM t".toList = .ok s ∧
      s.stored = ["Nombre"] ∧ s.set = ["nombre"] ∧ s.compared = ["Nombre"] ∧ s.listed = ["Nombre"] := by
  have hselect : Where.Opening "SELECT * FROM t".toList :=
    opening_selectionHead ⟨['t'], by decide, by decide, by decide, by decide⟩
  obtain ⟨s, hs, ⟨hstored, hcompared, hset, hlisted⟩, -⟩ :=
    spelling_kept_iff ⟨['t'], by decide, by decide⟩ ⟨"Nombre".toList, by decide, by decide⟩
      ⟨.none, [1], by decide⟩ hselect Planner.empty
  exact ⟨hselect, s, hs, hstored, hset.trans rfl, hcompared, hlisted.trans rfl⟩

end SqlGateway.Plan
