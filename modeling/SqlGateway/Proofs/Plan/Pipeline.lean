import SqlGateway.Proofs.Plan.Select

/-!
# The shape of a pipeline

Every aggregation lays out steps that work on the rows (`IsStep`), then at most one stage that sorts, then at
most one that limits.  So **every pipeline that is planned is well shaped** (`pipeline_wellShaped`); in
particular none writes.
-/

namespace SqlGateway.Plan

open Sql Planning List Value

variable {name : String} {limit : Option Int} {given : List Char} {d : Document} {s v : Value}

/-- The stages that work on the rows. -/
def workNames : List String :=
  ["$match", "$group", "$project", "$lookup", "$unwind", "$addFields"]

/-- All stages that a pipeline may have; none of them writes. -/
def stageNames : List String :=
  workNames ++ ["$sort", "$limit"]

/-- A stage that works on the rows; a filter asks for something. -/
def IsStep (s : Value) : Prop :=
  ∃ name ∈ workNames, ∃ v, s = stage name v ∧ (name = "$match" → ∃ d : Document, d ≠ [] ∧ v = .doc d)

structure WellShaped (limit : Option Int) (stages : List Value) : Prop where
  /-- Every stage has one member, of a known name. -/
  named : ∀ s ∈ stages, ∃ name ∈ stageNames, ∃ v, s = stage name v
  /-- No filter and no order is empty. -/
  filled : ∀ name v, stage name v ∈ stages → name = "$match" ∨ name = "$sort" →
    ∃ d : Document, d ≠ [] ∧ v = .doc d
  /-- Only a limit follows a stage that sorts. -/
  sorted : ∀ front v back, stages = front ++ stage "$sort" v :: back → ∀ s ∈ back, ∃ n, s = stage "$limit" n
  /-- The limit stands last, and only there. -/
  limited : ∃ front, (∀ v, stage "$limit" v ∉ front) ∧
    stages = front ++ limit.toList.map fun n => stage "$limit" (.int n)

/-! ### Laying out stages -/

theorem stage_inj {name' : String} {v' : Value} : stage name v = stage name' v' ↔ name = name' ∧ v = v' := by
  simp [stage]

theorem IsStep.name_mem (h : IsStep (stage name v)) : name ∈ workNames := by
  obtain ⟨name', hname, v', heq, -⟩ := h
  obtain ⟨rfl, -⟩ := stage_inj.mp heq
  exact hname

theorem isStep_stage (h : name ∈ workNames) (hmatch : name ≠ "$match") (v : Value) : IsStep (stage name v) :=
  ⟨name, h, v, rfl, fun heq => absurd heq hmatch⟩

theorem mem_stage?_iff : s ∈ stage? name (.doc d) ↔ d ≠ [] ∧ s = stage name (.doc d) := by
  cases d with
  | nil => simp [stage?, isPresent]
  | cons m d => simp [stage?, isPresent]

theorem isStep_of_mem_match : ∀ s ∈ stage? "$match" (.doc d), IsStep s := by
  intro s hs
  obtain ⟨hd, rfl⟩ := mem_stage?_iff.mp hs
  exact ⟨"$match", by decide, _, rfl, fun _ => ⟨d, hd, rfl⟩⟩

theorem limitStage_ofOption (limit : Option Int) :
    limitStage (.ofOption (limit.map .int)) = limit.toList.map fun n => stage "$limit" (.int n) := by
  cases limit with
  | none => rfl
  | some n => simp [limitStage, ofOption]

theorem eq_of_mem_limit (h : s ∈ limit.toList.map fun n => stage "$limit" (.int n)) :
    ∃ n, s = stage "$limit" n := by
  obtain ⟨n, -, rfl⟩ := mem_map.mp h
  exact ⟨_, rfl⟩

/-- **Steps, then an order, then a limit.** -/
theorem wellShaped_of_parts {body : List Value} (hbody : ∀ s ∈ body, IsStep s) (order : Document)
    (limit : Option Int) :
    WellShaped limit (body ++ stage? "$sort" (.doc order) ++ limitStage (.ofOption (limit.map .int))) := by
  rw [limitStage_ofOption]
  have hsort_body : ∀ v, stage "$sort" v ∉ body := fun v hv =>
    absurd (hbody _ hv).name_mem (by decide)
  have hsort_limit : ∀ v, stage "$sort" v ∉ limit.toList.map fun n => stage "$limit" (.int n) := by
    intro v hv
    obtain ⟨n, hn⟩ := eq_of_mem_limit hv
    exact absurd (stage_inj.mp hn).1 (by decide)
  constructor
  · intro s hs
    rcases mem_append.mp hs with hs | hs
    · rcases mem_append.mp hs with hs | hs
      · obtain ⟨name, hname, v, rfl, -⟩ := hbody s hs
        exact ⟨name, mem_append_left _ hname, v, rfl⟩
      · exact ⟨"$sort", by decide, _, (mem_stage?_iff.mp hs).2⟩
    · obtain ⟨n, rfl⟩ := eq_of_mem_limit hs
      exact ⟨"$limit", by decide, n, rfl⟩
  · intro name v hs hname
    rcases mem_append.mp hs with hs | hs
    · rcases mem_append.mp hs with hs | hs
      · obtain ⟨name', -, v', heq, hfilled⟩ := hbody _ hs
        obtain ⟨rfl, rfl⟩ := stage_inj.mp heq
        rcases hname with rfl | rfl
        · exact hfilled rfl
        · exact absurd hs (hsort_body v)
      · obtain ⟨hd, heq⟩ := mem_stage?_iff.mp hs
        exact ⟨order, hd, (stage_inj.mp heq).2⟩
    · obtain ⟨n, hn⟩ := eq_of_mem_limit hs
      obtain ⟨rfl, -⟩ := stage_inj.mp hn
      exact absurd hname (by decide)
  · intro front v back heq
    have hmem : stage "$sort" v ∈ stage? "$sort" (.doc order) := by
      have hall : stage "$sort" v ∈ body ++ stage? "$sort" (.doc order) ++
          limit.toList.map fun n => stage "$limit" (.int n) := by
        rw [heq]
        simp
      rcases mem_append.mp hall with h | h
      · exact (mem_append.mp h).resolve_left (hsort_body v)
      · exact absurd h (hsort_limit v)
    -- the order is the one stage that sorts, so the steps end where `front` ends
    obtain ⟨horder, hv⟩ := mem_stage?_iff.mp hmem
    have hone : stage? "$sort" (.doc order) = [stage "$sort" v] := by
      rw [hv]
      exact if_pos (by simpa [isPresent] using horder)
    rw [hone, append_assoc, singleton_append] at heq
    rcases append_eq_append_iff.mp heq with ⟨r, rfl, hr⟩ | ⟨r, rfl, hr⟩
    · cases r with
      | nil =>
        obtain ⟨-, rfl⟩ := cons.inj hr
        exact fun s hs => eq_of_mem_limit hs
      | cons x r =>
        obtain ⟨-, hr⟩ := cons.inj hr
        refine absurd ?_ (hsort_limit v)
        rw [hr]
        simp
    · cases r with
      | nil =>
        obtain ⟨-, rfl⟩ := cons.inj hr
        exact fun s hs => eq_of_mem_limit hs
      | cons x r =>
        obtain ⟨rfl, -⟩ := cons.inj hr
        exact absurd (by simp) (hsort_body v)
  · refine ⟨body ++ stage? "$sort" (.doc order), fun v hv => ?_, rfl⟩
    rcases mem_append.mp hv with hv | hv
    · exact absurd (hbody _ hv).name_mem (by decide)
    · exact absurd (stage_inj.mp (mem_stage?_iff.mp hv).2).1 (by decide)

/-! ### Where steps come from -/

section

variable (text : List Char) {members : Document}

theorem isStep_distinct : ∀ s ∈ Distinct.pipeline [] text, IsStep s := by
  intro s hs
  rw [Distinct.pipeline] at hs
  split at hs
  · rw [nil_append, Distinct.stages] at hs
    simp only [mem_cons, not_mem_nil, or_false] at hs
    rcases hs with rfl | rfl
    · exact isStep_stage (by decide) (by decide) _
    · exact isStep_stage (by decide) (by decide) _
  · cases hs

def pipelineOf : List Value :=
  stage? "$match" (.doc (Where.filter text)) ++ (if Distinct.occurs text then Distinct.pipeline [] text else []) ++
    (if Having.occurs text then stage? "$match" (.doc (Having.filter text)) else []) ++
    stage? "$sort" (.doc (OrderBy.read text)) ++ limitStage (.ofOption ((Limit.read? text).map .int))

theorem distinctStage_ofText : distinctStage (.ofText text) =
    .ok (if Distinct.occurs text then Distinct.pipeline [] text else []) := by
  rw [distinctStage, usesDistinct_ofText]
  cases Distinct.occurs text <;> rfl

theorem pipeline_ofText {calls : List Document} (hcalls : Call.describe text = .ok calls) :
    pipeline (.ofText text) = .ok (pipelineOf text) := by
  have hhaving : havingStage (.ofText text) =
      .ok (if Having.occurs text then stage? "$match" (.doc (Having.filter text)) else []) := by
    rw [havingStage, usesHaving_ofText]
    cases Having.occurs text <;> rfl
  have hsort : sortStage (.ofText text) = .ok (stage? "$sort" (.doc (OrderBy.read text))) := by
    rw [sortStage, order_ofText]
    cases OrderBy.read text <;> rfl
  have hnone : present .null = [] := rfl
  simp only [pipeline, filter_ofText, distinctStage_ofText, groupStage_eq_null hcalls, hhaving,
    projectStage_eq_null hcalls, hsort, limit_ofText, ok_bind, hnone, append_nil]
  rfl

theorem gives_pipeline : Gives (· = pipelineOf text) (pipeline (.ofText text)) := by
  intro stages hstages
  cases hcalls : Call.describe text with
  | ok calls =>
    rw [pipeline_ofText text hcalls] at hstages
    exact (Except.ok.inj hstages).symm
  | error e =>
    rw [pipeline, distinctStage_ofText, groupStage, functions_eq_describe, hcalls] at hstages
    cases hstages

theorem gives_joinStages (join : Value) : Gives (fun stages => ∀ s ∈ stages, IsStep s) (Join.stages join) := by
  have hstep : ∀ (name : String) (v : Value), name ∈ workNames → name ≠ "$match" →
      IsStep (.doc [(name, v)]) := fun name v h hne => isStep_stage h hne v
  have hlookup : ∀ v, IsStep (.doc [("$lookup", v)]) := fun v => hstep _ v (by decide) (by decide)
  have hpair : ∀ (name : String) (v w : Value), name ∈ workNames → name ≠ "$match" →
      ∀ s ∈ [.doc [("$lookup", v)], .doc [(name, w)]], IsStep s := fun name v w h hne =>
    forall_mem_cons.mpr ⟨hlookup v, forall_mem_singleton.mpr (hstep name w h hne)⟩
  rw [Join.stages]
  refine .bind fun type _ => .bind fun condition _ => .bind fun kind _ => ?_
  split
  · exact .pure (by simp)
  refine .bind fun table _ => .bind fun left _ => .bind fun right _ => .bind fun byname _ =>
    .bind fun joined _ => ?_
  split
  · refine .pure (forall_mem_cons.mpr ⟨hlookup _, forall_mem_cons.mpr ⟨?_, ?_⟩⟩)
    · exact ⟨"$match", by decide, _, rfl, fun _ => ⟨_, by simp, rfl⟩⟩
    · exact forall_mem_singleton.mpr (hstep _ _ (by decide) (by decide))
  · exact .pure (hpair _ _ _ (by decide) (by decide))
  · exact .pure (hpair _ _ _ (by decide) (by decide))
  · exact .pure (forall_mem_singleton.mpr (hlookup _))

theorem gives_mapM {α β : Type} {P : β → Prop} {f : α → Except Fault β} (h : ∀ a, Gives P (f a))
    (xs : List α) : Gives (fun ys => ∀ y ∈ ys, P y) (xs.mapM f) := by
  induction xs with
  | nil => exact .pure (by simp)
  | cons x xs ih =>
    rw [mapM_cons]
    refine .bind fun y hy => .bind fun ys hys => .pure ?_
    exact forall_mem_cons.mpr ⟨h x y hy, ih ys hys⟩

theorem gives_joinPipeline (joins : List Value) : Gives (fun stages => ∀ s ∈ stages, IsStep s)
    (Join.pipeline joins) := by
  refine .bind fun parts hparts => .pure fun s hs => ?_
  obtain ⟨part, hpart, hs⟩ := mem_flatten.mp hs
  exact gives_mapM gives_joinStages joins parts hparts part hpart s hs

theorem gives_joinedProjection (s : Statement) (joins : Value) : Gives IsStep (joinedProjection s joins) := by
  have hproject : ∀ v, IsStep (stage "$project" v) := isStep_stage (by decide) (by decide)
  rw [joinedProjection]
  refine .bind fun fields _ => ?_
  extract_lets rest
  have hrest : ∀ items, Gives IsStep (rest items) := by
    intro items
    refine .bind fun everything _ => ?_
    split
    · exact .bind fun _ _ => .bind fun _ _ => .bind fun shown _ => .pure (hproject _)
    · exact .bind fun shown _ => .pure (hproject _)
  split
  · exact .bind fun items _ => hrest items
  · exact .bind fun items _ => hrest items

/-- A document is no list of sort keys: joined rows are sorted in no order that a text asks for. -/
theorem gives_joinedSort (order : Document) :
    Gives (fun stages => order = [] ∧ stages = []) (joinedSort (.doc order)) := by
  cases order with
  | nil => exact .pure ⟨rfl, rfl⟩
  | cons m order => rintro stages ⟨⟩

/-! ### Plans -/

/-- If the plan is an aggregation, its pipeline is well shaped. -/
def Piped (limit : Option Int) (plan : Value) : Prop :=
  ∀ members, plan = .doc members → Document.get? members "operation" = some (.text "aggregate") →
    ∃ stages, Document.get? members "pipeline" = some (.list stages) ∧ WellShaped limit stages

theorem piped_aggregate {table : Value} {stages : List Value}
    (h : WellShaped limit stages) : Piped limit (.doc (("operation", .text "aggregate") ::
      ("collection", table) :: ("pipeline", .list stages) :: members)) := by
  intro all hall _
  obtain rfl := doc.inj hall
  exact ⟨stages, rfl, h⟩

theorem piped_of_operation {operation : String} (h : operation ≠ "aggregate") :
    Piped limit (.doc (("operation", .text operation) :: members)) := by
  intro all hall haggregate
  obtain rfl := doc.inj hall
  exact absurd (text.inj (Option.some.inj haggregate)) h

theorem wellShaped_pipelineOf : WellShaped (Limit.read? text) (pipelineOf text) := by
  refine wellShaped_of_parts ?_ _ _
  intro s hs
  simp only [mem_append] at hs
  rcases hs with (hs | hs) | hs
  · exact isStep_of_mem_match s hs
  · split at hs
    · exact isStep_distinct text s hs
    · cases hs
  · split at hs
    · exact isStep_of_mem_match s hs
    · cases hs

theorem piped_of_selects {plan : Value} (h : Selects (.ofText text) plan) : Piped (Limit.read? text) plan := by
  cases h with
  | union | find => exact piped_of_operation (by decide)
  | aggregate table members hstages =>
    obtain rfl := gives_pipeline text _ hstages
    exact piped_aggregate (wellShaped_pipelineOf text)
  | joined table members hfilter hlookups hproject horder hsort hlimit =>
    cases hfilter
    cases horder
    cases hlimit
    obtain ⟨-, rfl⟩ := gives_joinedSort _ _ hsort
    refine piped_aggregate (wellShaped_of_parts ?_ [] _)
    intro s hs
    simp only [mem_append, mem_singleton] at hs
    rcases hs with (hs | hs) | rfl
    · exact isStep_of_mem_match s hs
    · exact gives_joinPipeline _ _ hlookups s hs
    · exact gives_joinedProjection _ _ _ hproject

theorem yields_ofStatement_piped : Yields (Piped (Limit.read? text)) (ofStatement (.ofText text)) := by
  refine yields_selects_or.imp ?_
  rintro plan (h | ⟨members, operation, rfl, hoperation, -, hother⟩)
  · exact piped_of_selects text h
  · intro all hall haggregate
    obtain rfl := doc.inj hall
    exact absurd (by simpa using hoperation.symm.trans haggregate) hother

end

theorem plan_eq_of_held {p : Planner} {s : Statement} (h : (p.plan given).2.statement = some s) :
    (p.plan given).1 = ((ofStatement s).run.run []).1 := by
  rw [Planner.plan] at h ⊢
  cases hstatement : (if given.isEmpty then p.statement else some (.ofText given)) with
  | some s' =>
    simp only [hstatement] at h ⊢
    obtain rfl := Option.some.inj h
    rfl
  | none =>
    -- then the planner held nothing and was given nothing
    simp only [hstatement] at h
    split at hstatement
    · rw [h] at hstatement
      cases hstatement
    · cases hstatement

theorem held_of_given (p : Planner) (h : given ≠ []) : (p.plan given).2.statement = some (.ofText given) := by
  have hgiven : given.isEmpty = false := by simpa using h
  rw [Planner.plan, hgiven]
  rfl

/-- **Every pipeline is well shaped**, with the limit that the statement names. -/
theorem pipeline_wellShaped (p : Planner) (given text : List Char) (members : Document)
    (hplan : (p.plan given).1 = .ok (.doc members)) (hheld : (p.plan given).2.statement = some (.ofText text))
    (hoperation : Document.get? members "operation" = some (.text "aggregate")) :
    ∃ stages, Document.get? members "pipeline" = some (.list stages) ∧
      WellShaped (Limit.read? text) stages := by
  rw [plan_eq_of_held hheld] at hplan
  exact yields_ofStatement_piped text [] _ hplan members rfl hoperation

/-- A selection with distinct rows, an order and a limit. -/
def orderedSelection : List Char :=
  "SELECT DISTINCT a FROM t ORDER BY a LIMIT 5"

def orderedPlan : Document :=
  [("operation", .text "aggregate"), ("collection", .text "t"), ("pipeline", .list
    [stage "$group" (.doc [("_id", .doc [("a", .text "$a")])]),
      stage "$project" (.doc [("a", .text "$_id.a"), ("_id", .int 0)]),
      stage "$sort" (.doc [("a", .int 1)]), stage "$limit" (.int 5)])]

theorem pipeline_orderedSelection : (Planner.empty.plan orderedSelection).1 = .ok (.doc orderedPlan) ∧
    (Planner.empty.plan orderedSelection).2.statement = some (.ofText orderedSelection) ∧
    Document.get? orderedPlan "operation" = some (.text "aggregate") ∧
    ∃ stages, Document.get? orderedPlan "pipeline" = some (.list stages) ∧
      WellShaped (Limit.read? orderedSelection) stages := by
  have hwords : orderedSelection = Text.unwords ("SELECT".toList :: "DISTINCT".toList ::
      ["a", "FROM", "t", "ORDER", "BY", "a", "LIMIT", "5"].map String.toList) := by decide
  have hkind : statementKind? orderedSelection = some "SELECT" := by
    rw [hwords]
    exact statementKind?_unwords (by decide) (by decide) (by decide) (.inl (by decide))
  have htable : Statement.table (.ofText orderedSelection) = .ok (.text "t") := by
    rw [table_of_kind hkind, show tableOfKind? (some "SELECT") orderedSelection = some "t" by decide +kernel]
    rfl
  have hcalls : Call.describe orderedSelection = .ok [] := by
    rw [Call.describe, call_find_of_flat (by decide)]
    rfl
  have hstages : (pipeline (.ofText orderedSelection)).toOption = some
      [stage "$group" (.doc [("_id", .doc [("a", .text "$a")])]),
        stage "$project" (.doc [("a", .text "$_id.a"), ("_id", .int 0)]),
        stage "$sort" (.doc [("a", .int 1)]), stage "$limit" (.int 5)] := by
    rw [pipeline, groupStage_eq_null hcalls, projectStage_eq_null hcalls]
    decide +kernel
  have hplan : (Planner.empty.plan orderedSelection).1 = .ok (.doc orderedPlan) := by
    rw [plan_of_select hkind, select_eq htable (fun _ => ⟨_, hcalls⟩) (by decide +kernel),
      show Join.occurs orderedSelection = false by decide +kernel,
      show Distinct.occurs orderedSelection by decide +kernel]
    cases hpipeline : pipeline (.ofText orderedSelection) with
    | error fault => rw [hpipeline] at hstages; cases hstages
    | ok stages =>
      rw [hpipeline] at hstages
      obtain rfl := Option.some.inj hstages
      simp only [Bool.false_eq_true, ↓reduceIte, Bool.or_true, Bool.true_or, aggregate, htable, hpipeline,
        liftM_ok_bind]
      rfl
  have hheld := held_of_given Planner.empty (show orderedSelection ≠ [] by decide)
  exact ⟨hplan, hheld, rfl, pipeline_wellShaped _ _ _ _ hplan hheld rfl⟩

end SqlGateway.Plan
