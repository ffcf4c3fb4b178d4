import SqlGateway.Proofs.Plan.Joined

/-!
# Look-ups of joins

A join on an equality has one look-up, and the report on the joins has an issue for each of the others; so
**look-ups and issues together are as many as the joins** (`lookups_and_issues_account_for_joins`), and the
pipeline is `Scoped`.
-/

namespace SqlGateway.Plan

open Sql List Join

/-- The stages of a join: none for a complex condition, else a look-up and what its type asks for. -/
def joinStages (j : Join) : List Value :=
  match j.condition with
  | .complex _ => []
  | .equality _ leftField _ rightField =>
    lookupStage j.table leftField rightField j.byname :: afterLookup j.type j.byname

theorem stages_toDocument (j : Join) : stages (.doc j.toDocument) = .ok (joinStages j) := by
  obtain ⟨index, type, table, byname, condition, text⟩ := j
  cases condition with
  | equality leftTable leftField rightTable rightField => exact stages_equality ..
  | complex => rfl

/-- **The stages of the joins stand in the order of the joins.** -/
theorem pipeline_describeAll (text : List Char) :
    Join.pipeline (Join.describeAll text) = .ok ((Join.read text).flatMap joinStages) := by
  rw [Join.pipeline, Join.describeAll, mapM_map_eq_ok fun j _ => stages_toDocument j]
  rfl

/-- The types of joins. -/
def joinTypes : List String :=
  ["inner", "left", "right", "full", "cross"]

theorem typeOf_mem_joinTypes (s : List Char) : typeOf s ∈ joinTypes := by
  have hlisted : ∀ entry ∈ types, entry.2 ∈ joinTypes := by decide
  rw [typeOf]
  cases htype : types.lookup (String.ofList (Text.strip (Text.upper s))) with
  | none => decide
  | some type =>
    obtain ⟨before, after, htypes, -⟩ := lookup_eq_some_iff.mp htype
    exact hlisted (String.ofList (Text.strip (Text.upper s)), type) (by rw [htypes]; simp)

/-! ### Counts -/

def isLookup : Value → Bool
  | .doc members => Document.has members "$lookup"
  | _ => false

theorem countP_afterLookup (type byname : String) : (afterLookup type byname).countP isLookup = 0 := by
  unfold afterLookup
  split <;> rfl

theorem countP_joinStages (j : Join) : (joinStages j).countP isLookup + (issues j).length = 1 := by
  obtain ⟨index, type, table, byname, condition, text⟩ := j
  cases condition with
  | complex => rfl
  | equality leftTable leftField rightTable rightField =>
    show (lookupStage table leftField rightField byname :: afterLookup type byname).countP isLookup + 0 = 1
    rw [countP_cons, countP_afterLookup]
    rfl

theorem countP_flatMap_joinStages (joins : List Join) :
    (joins.flatMap joinStages).countP isLookup + (joins.flatMap issues).length = joins.length := by
  induction joins with
  | nil => rfl
  | cons j joins ih =>
    have hfirst := countP_joinStages j
    simp only [flatMap_cons, countP_append, length_append, length_cons]
    omega

/-! ### Names -/

/-- A stage puts what it looks up under a name. -/
def Introduces (s : Value) (name : String) : Prop :=
  ∃ d : Document, s = stage "$lookup" (.doc d) ∧ d.get? "as" = some (.text name)

/-- A stage filters by a name or takes its documents apart. -/
def Uses (s : Value) (name : String) : Prop :=
  (∃ d : Document, s = stage "$match" (.doc d) ∧ name ∈ d.map Prod.fst) ∨
    ∃ d : Document, s = stage "$unwind" (.doc d) ∧ d.get? "path" = some (.text ("$" ++ name))

/-- Every name that a stage uses is introduced by a stage before it. -/
def Scoped (stages : List Value) : Prop :=
  ∀ before s after, stages = before ++ s :: after → ∀ name, Uses s name → ∃ t ∈ before, Introduces t name

theorem Scoped.append {first second : List Value} (hfirst : Scoped first) (hsecond : Scoped second) :
    Scoped (first ++ second) := by
  intro before s after hsplit name huses
  rcases append_eq_append_iff.mp hsplit with ⟨more, rfl, hsecond'⟩ | ⟨more, rfl, hrest⟩
  · obtain ⟨t, ht, hintroduces⟩ := hsecond more s after hsecond' name huses
    exact ⟨t, mem_append_right _ ht, hintroduces⟩
  · cases more with
    | nil =>
      obtain ⟨t, ht, -⟩ := hsecond [] s after (by simpa using hrest.symm) name huses
      cases ht
    | cons s' more =>
      obtain ⟨rfl, rfl⟩ := cons.inj hrest
      exact hfirst before _ more rfl name huses

theorem uses_stage_iff {key name : String} {d : Document} : Uses (stage key (.doc d)) name ↔
    key = "$match" ∧ name ∈ d.map Prod.fst ∨ key = "$unwind" ∧ d.get? "path" = some (.text ("$" ++ name)) := by
  simp [Uses, stage_inj]

theorem scoped_nil : Scoped [] := by
  intro before s after hsplit
  simp at hsplit

theorem scoped_cons {t : Value} {stages : List Value} {name : String} (hfirst : ∀ name, ¬ Uses t name)
    (hname : Introduces t name) (huses : ∀ s ∈ stages, ∀ name', Uses s name' → name' = name) :
    Scoped (t :: stages) := by
  intro before s after hsplit name' huses'
  cases before with
  | nil =>
    obtain ⟨rfl, -⟩ := cons.inj hsplit
    exact absurd huses' (hfirst name')
  | cons t' before =>
    obtain ⟨rfl, rfl⟩ := cons.inj hsplit
    obtain rfl := huses s (by simp) name' huses'
    exact ⟨t, by simp, hname⟩

theorem eq_of_uses_afterLookup {type byname : String} {s : Value} (hs : s ∈ afterLookup type byname)
    {name : String} (huses : Uses s name) : name = byname ++ "_joined" := by
  have hunwind : ∀ keepEmpty, Uses (unwindStage byname keepEmpty) name → name = byname ++ "_joined" := by
    intro keepEmpty huses
    rcases uses_stage_iff.mp huses with ⟨hkey, -⟩ | ⟨-, hpath⟩
    · exact absurd hkey (by decide)
    · have htext : "$" ++ (byname ++ "_joined") = "$" ++ name := Value.text.inj (Option.some.inj hpath)
      exact (String.append_right_inj "$").mp htext.symm
  unfold afterLookup at hs
  split at hs
  · -- an inner join
    obtain rfl | rfl := mem_pair.mp hs
    · simpa using uses_stage_iff.mp huses
    · exact hunwind false huses
  · -- a left join
    obtain rfl := mem_singleton.mp hs
    exact hunwind true huses
  · -- a right join
    obtain rfl := mem_singleton.mp hs
    simpa using uses_stage_iff.mp huses
  · cases hs

theorem scoped_joinStages (j : Join) : Scoped (joinStages j) := by
  rw [joinStages]
  split
  · exact scoped_nil
  · refine scoped_cons ?_ ⟨_, rfl, rfl⟩ fun s hs name => eq_of_uses_afterLookup hs
    intro name huses
    simpa using uses_stage_iff.mp huses

theorem scoped_flatMap (joins : List Join) : Scoped (joins.flatMap joinStages) := by
  induction joins with
  | nil => exact scoped_nil
  | cons j joins ih =>
    rw [flatMap_cons]
    exact (scoped_joinStages j).append ih

/-- **Look-ups and issues account for the joins of a statement.** -/
theorem lookups_and_issues_account_for_joins (text : List Char) : ∃ stages : List Value,
    Join.pipeline (Join.describeAll text) = .ok stages ∧ stages = (Join.read text).flatMap joinStages ∧
      (∀ j ∈ Join.read text, j.type ∈ joinTypes) ∧ (∃ (issues : List Value) (count : Nat),
        (Join.validate text).get? "issues" = some (.list issues) ∧
          (Join.validate text).get? "join_count" = some (.ofNat count) ∧
          stages.countP isLookup + issues.length = count) ∧ Scoped stages := by
  refine ⟨_, pipeline_describeAll text, rfl, ?_, ⟨_, _, rfl, rfl, ?_⟩, scoped_flatMap _⟩
  · intro j hj
    obtain ⟨⟨m, index⟩, -, rfl⟩ := mem_map.mp hj
    simp only [ofMatch]
    exact typeOf_mem_joinTypes _
  · rw [length_map]
    exact countP_flatMap_joinStages (read text)

end SqlGateway.Plan
