import SqlGateway.Proofs.Plan.Insert
import SqlGateway.Proofs.Sql.Change
import SqlGateway.Proofs.Sql.SemicolonKind

/-!
# Plans of statements with a semicolon

Statements that answer all questions alike (`Alike`) get the same plan.  Where the text is `Bounded` and `Complete`, **a
semicolon behind it does not change its plan** (`plan_semicolon`).
-/

namespace SqlGateway.Plan

open Sql Text Pattern List Value Where Change Token Node Except Option

/-! ### Statements that are read alike -/

/-- The statements give the same answers to what the plan of a selection asks.  Neither is a union. -/
structure Alike (s s' : Statement) : Prop where
  offers : ∀ reader, s.offers reader = s'.offers reader
  table : s.table = s'.table
  fields : s.fields = s'.fields
  filter : s.filter = s'.filter
  order : s.order = s'.order
  limit : s.limit = s'.limit
  grouping : s.grouping = s'.grouping
  usesFunctions : s.usesFunctions = s'.usesFunctions
  functions : s.functions = s'.functions
  usesDistinct : s.usesDistinct = s'.usesDistinct
  distinctStages : s.distinctStages = s'.distinctStages
  usesHaving : s.usesHaving = s'.usesHaving
  having : s.having = s'.having
  usesJoins : s.usesJoins = s'.usesJoins
  joins : s.joins = s'.joins
  single : s.isUnion = .ok (.bool false) ∧ s'.isUnion = .ok (.bool false)
  usesSubqueries : ∃ v v', s.usesSubqueries = .ok v ∧ s'.usesSubqueries = .ok v'

section

variable {s s' : Statement} (h : Alike s s')
include h

theorem Alike.aggregate : Plan.aggregate s = Plan.aggregate s' := by
  simp only [Plan.aggregate, pipeline, distinctStage, groupStage, havingStage, projectStage, sortStage,
    h.table, h.filter, h.usesDistinct, h.distinctStages, h.functions, h.usesHaving, h.having, h.order, h.limit]

theorem Alike.projection? (items : List Value) (shown : Document) :
    Plan.projection? s shown items = Plan.projection? s' shown items := by
  induction items generalizing shown with
  | nil => rfl
  | cons item items ih =>
    cases item with
    | doc d => simp only [Plan.projection?, callsFunction, h.offers, ih]
    | _ => exact ih shown

theorem Alike.find : Plan.find s = Plan.find s' := by
  simp only [Plan.find, projectionOf, h.projection?, h.table, h.filter, h.fields, h.order, h.limit, h.aggregate]

theorem Alike.joined : Plan.joined s = Plan.joined s' := by
  simp only [Plan.joined, joinedProjection, h.offers, h.table, h.filter, h.fields, h.order, h.limit,
    h.joins, h.aggregate]

theorem Alike.select : Plan.select s = Plan.select s' := by
  obtain ⟨v, v', hv, hv'⟩ := h.usesSubqueries
  have hbind : ∀ (v : Value) (next : Value → Planning Value),
      (liftM (ok v : Except Fault Value) >>= next) = next v := fun _ _ => rfl
  have habsent : (bool false).isPresent = false := rfl
  simp only [Plan.select, h.table, h.fields, h.filter, h.usesFunctions, h.usesJoins, h.usesDistinct,
    h.usesHaving, h.single.1, h.single.2, hv, hv', h.order, h.functions, h.grouping, h.joined, h.aggregate,
    h.find, hbind, habsent, Bool.false_eq_true, if_false]

end

/-! ### Insertions and updates -/

variable {text : List Char}

theorem update_eq {table : Value} (htable : Statement.table (.ofText text) = .ok table) :
    update (.ofText text) = (Document.get? (describeUpdate text) "values").elim
      (.error (.missing "values")) fun values => .ok (.doc
        [("operation", .text "update"), ("collection", table),
          ("query", .doc [("query", orEmpty (.doc (filter text))),
            ("update", .doc [("$set", values)])])]) := by
  have hupdate : Statement.update (.ofText text) = .ok (.doc (describeUpdate text)) := rfl
  have hpresent : (doc (describeUpdate text)).isPresent := by
    simp only [describeUpdate]
    split
    · rfl
    · split
      · rfl
      · rfl
  rw [update, htable, hupdate, filter_ofText]
  simp only [bind, Except.bind, hpresent, Bool.not_true, Bool.false_eq_true, if_false, need]
  cases Document.get? (describeUpdate text) "values" <;> rfl

theorem occursIn_padded {p : Pattern} (hfree : p.isFree)
    (h : p.occursIn (strip text)) : p.occursIn (padded text) := by
  obtain ⟨u, v, y, hsplit, hy⟩ := occursIn_iff.mp h
  obtain ⟨z, hz, htakes, -⟩ := exists_of_spans_free hfree hy
  obtain ⟨b, hspans⟩ := htakes (y.rest ++ [' ']) (' ' :: u).getLast?
  refine occursIn_iff.mpr ⟨' ' :: u, z ++ (y.rest ++ [' ']), _, ?_, hspans⟩
  have hv : v = z ++ y.rest := hz
  rw [padded, hsplit, hv]
  simp

section

variable {q : List Char} (hq : Unended q) {kind : String} (hkind : statementKind? q = some kind)
  (hkind' : statementKind? (q ++ [';']) = some kind)
include hq hkind hkind'

omit hq hkind' in
theorem ne_nil_of_kind : q ≠ [] := by
  rintro rfl
  cases hkind

theorem alike_semicolon (hunion : Union.occurs q = false)
    (htable : tableOfKind? (some kind) (q ++ [';']) = tableOfKind? (some kind) q) :
    Alike (.ofText (q ++ [';'])) (.ofText q) where
  offers _ := rfl
  table := by rw [table_of_kind hkind, table_of_kind hkind', htable]
  fields := congrArg (fun items : List SelectItem =>
    ok (list (items.map fun item : SelectItem => .doc item.toDocument))) (fields_semicolon hq)
  filter := congrArg (fun d => ok (doc d)) (filter_semicolon hq (ne_nil_of_kind hkind))
  order := congrArg (fun d => ok (doc d)) (order_semicolon hq (ne_nil_of_kind hkind))
  limit := congrArg (fun n : Option Int => ok (ofOption (n.map .int)))
    (limit_semicolon hq (ne_nil_of_kind hkind))
  grouping := rfl
  usesFunctions := congrArg (fun b => ok (bool b)) (calls_occur_semicolon q)
  functions := congrArg (fun calls : List Call => (calls.mapM Call.toDocument).bind fun documents =>
    ok (list (documents.map .doc))) (calls_semicolon q)
  usesDistinct := congrArg (fun b => ok (bool b)) (distinct_occurs_semicolon q)
  distinctStages := by
    have hstages : Distinct.pipeline [] (q ++ [';']) = Distinct.pipeline [] q := by
      rw [Distinct.pipeline, Distinct.pipeline, distinct_semicolon]
    exact congrArg ok hstages
  usesHaving := congrArg (fun b => ok (bool b)) (having_occurs_semicolon hq)
  having := congrArg (fun d => ok (doc d)) (having_semicolon hq)
  usesJoins := congrArg (fun b => ok (bool b)) (joins_occur_semicolon q)
  joins := congrArg (fun joins : List Join =>
    ok (list (joins.map fun j : Join => .doc j.toDocument))) (joins_semicolon hq)
  single := by
    have hunion' := union_occurs_semicolon q
    rw [hunion] at hunion'
    exact ⟨congrArg (fun b => ok (bool b)) hunion', congrArg (fun b => ok (bool b)) hunion⟩
  usesSubqueries := ⟨_, _, rfl, rfl⟩

theorem insert_semicolon (hinsert : kind = "INSERT") : insert (.ofText (q ++ [';'])) = insert (.ofText q) := by
  subst hinsert
  rw [insert_eq hkind', insert_eq hkind, Insert.documents_semicolon hq]
  cases hread : Insert.read q with
  | error failure => rfl
  | ok insertion => rw [Insert.table_insertion_semicolon hq (Insert.readable_of_read hread)]

theorem update_semicolon (hupdate : kind = "UPDATE")
    (hset : boundedAssignments.occursIn (strip q) ∨
      (lit "SET" ++ space).occursIn (strip q) = false) :
    update (.ofText (q ++ [';'])) = update (.ofText q) := by
  subst hupdate
  have hvalues := values_semicolon hq hset
  rw [update_eq (table_of_kind hkind), update_eq (table_of_kind hkind'), hvalues,
    filter_semicolon hq (ne_nil_of_kind hkind)]
  cases hfound : Document.get? (describeUpdate q) "values" with
  | none => rfl
  | some values =>
    have htable : tableOfKind? (some "UPDATE") (q ++ [';']) = tableOfKind? (some "UPDATE") q :=
      table_semicolon hq (by decide) (by decide) (by decide) rfl
        (occursIn_padded (by decide) (occursIn_of_values hfound))
    rw [htable]

end

/-! ### Texts without a table -/

section

variable {q s : List Char} {p : Pattern}

theorem occursIn_padded_semicolon (hq : Unended q) (hfree : p.isFree)
    (havoids : p.avoids ';') (hleast : 2 ≤ p.least)
    (h : p.occursIn (padded q) = false) : p.occursIn (padded (q ++ [';'])) = false := by
  rw [Bool.eq_false_iff] at h ⊢
  intro hfound
  obtain ⟨u, v, y, hsplit, hy⟩ := occursIn_iff.mp hfound
  rw [padded_semicolon hq] at hsplit
  obtain ⟨w, hw, rfl⟩ : ∃ w, ' ' :: strip q = u ++ w ∧ v = w ++ [';', ' '] := by
    rcases append_eq_append_iff.mp hsplit with ⟨w, hu, hv⟩ | ⟨w, hw, rfl⟩
    · obtain rfl : w = [] := by
        by_contra hne
        exact misses_of_least (by simpa using hleast) w v hv hne _ y hy
      exact ⟨[], by simpa using hu.symm, by simpa using hv.symm⟩
    · exact ⟨w, hw, rfl⟩
  obtain ⟨y', hy'⟩ := spans_of_semicolon hfree havoids hy
  obtain ⟨z, hz, htakes, -⟩ := exists_of_spans_free hfree hy'
  obtain ⟨b, hspans⟩ := htakes (y'.rest ++ [' ']) u.getLast?
  have hrest : w = z ++ y'.rest := hz
  refine h (occursIn_iff.mpr ⟨u, z ++ (y'.rest ++ [' ']), _, ?_, hspans⟩)
  rw [padded, hw, hrest]
  simp

theorem find?_of_missing (h : p.occursIn s = false) {e : Pattern}
    (he : ∀ x y, e.Spans x y → ∃ z, p.Spans x z) : e.find? s = none := by
  rw [← not_isSome_iff_eq_none]
  intro hfound
  obtain ⟨u, v, y, rfl, hy⟩ := occursIn_iff.mp hfound
  obtain ⟨z, hz⟩ := he _ y hy
  rw [occursIn_iff.mpr ⟨u, v, z, rfl, hz⟩] at h
  cases h

theorem tableOfKind?_of_missing {kind : String} {stops : List Char}
    (hkind : tablePatterns kind = [p ++ tableName stops, p ++ tableName [] ++ space])
    (h : p.occursIn (padded s) = false) : tableOfKind? (some kind) s =
      (if some kind == some "SELECT" then sourceBehindFrom? (ofText s) else none).map
        fun name => String.ofList (lower name) := by
  have hfirst : (p ++ tableName stops).find? (' ' :: strip s ++ [' ']) = none :=
    find?_of_missing h fun x y hy => ⟨hy.choose, hy.choose_spec.1⟩
  have hsecond : (p ++ tableName [] ++ space).find? (' ' :: strip s ++ [' ']) = none :=
    find?_of_missing h fun x y hy => ⟨hy.choose_spec.1.choose, hy.choose_spec.1.choose_spec.1⟩
  simp only [tableOfKind?, bind_some, hkind, findSome?_cons, findSome?_nil, hfirst, hsecond,
    map_none]
  rfl

theorem sourceBehindFrom?_eq_none : ∀ {ns : List Node}, (∀ n ∈ ns, n.isWord "FROM" = false) →
    sourceBehindFrom? ns = none
  | [], _ => rfl
  | n :: ns, h => by
    rw [sourceBehindFrom?, h n (by simp), if_neg (by decide)]
    exact sourceBehindFrom?_eq_none fun m hm => h m (by simp [hm])

theorem sourceBehindFrom?_ofText (h : ∀ t ∈ tokens s, t.isReserved "FROM" = false) :
    sourceBehindFrom? (ofText s) = none := by
  refine sourceBehindFrom?_eq_none fun n hn => ?_
  cases n with
  | group => rfl
  | token t =>
    obtain ⟨f, hf, houtline⟩ := exists_tame_outline (w := ⟨.dataKeyword, []⟩) (.inl rfl)
    rw [ofText, houtline] at hn
    obtain ⟨u, hu, hsame⟩ := mem_map.mp (hf.tokens hn)
    rw [token.inj hsame] at hu
    exact h t (mem_of_mem_firstStatement hu)

theorem isReserved_semicolon {word : String} (h : ∀ t ∈ tokens q, t.isReserved word = false) :
    ∀ t ∈ tokens (q ++ [';']), t.isReserved word = false := by
  have hkind : ∀ {t : Token}, t.kind ≠ .keyword → t.isReserved word = false := by
    intro t ht
    rw [isReserved, isOneOf, beq_eq_false_iff_ne.mpr ht]
    rfl
  generalize hts : tokens q = ts at h
  generalize hts' : tokens (q ++ [';']) = ts'
  have hended := tokens_semicolon q
  rw [hts, hts'] at hended
  cases hended with
  | sign => exact forall_mem_append.mpr ⟨h, forall_mem_singleton.mpr (hkind (by decide))⟩
  | comment us hline hline' =>
    exact forall_mem_append.mpr ⟨(forall_mem_append.mp h).1,
      forall_mem_singleton.mpr (hkind (by rw [hline']; decide))⟩

end

/-! ### All statements -/

/-- The statement has a kind whose clauses end where they end with a semicolon too. -/
inductive Bounded (q : List Char) : String → Prop
  | selection (single : Union.occurs q = false)
      (named : (lit "FROM" ++ space ++ tableName nameStops).occursIn (padded q)) : Bounded q "SELECT"
  | bareSelection (single : Union.occurs q = false)
      (unnamed : (lit "FROM" ++ space).occursIn (padded q) = false)
      (bare : ∀ t ∈ tokens q, t.isReserved "FROM" = false) : Bounded q "SELECT"
  | insertion : Bounded q "INSERT"
  /-- The values of an update end before its condition, or there are none. -/
  | update (ended : boundedAssignments.occursIn (strip q) ∨
      (lit "SET" ++ space).occursIn (strip q) = false) : Bounded q "UPDATE"
  | deletion (named : (phrase ["DELETE", "FROM"] ++ space ++ tableName nameStops).occursIn (padded q) ∨
      (phrase ["DELETE", "FROM"] ++ space).occursIn (padded q) = false) : Bounded q "DELETE"
  | dropping : Bounded q "DROP"

section

variable {q : List Char} (hq : Unended q)
include hq

theorem table_selection_semicolon
    (named : (lit "FROM" ++ space ++ tableName nameStops).occursIn (padded q)) :
    tableOfKind? (some "SELECT") (q ++ [';']) = tableOfKind? (some "SELECT") q :=
  table_semicolon hq (p := lit "FROM" ++ space) (by decide) (by decide) (by decide) rfl named

theorem table_bareSelection_semicolon (unnamed : (lit "FROM" ++ space).occursIn (padded q) = false)
    (bare : ∀ t ∈ tokens q, t.isReserved "FROM" = false) :
    tableOfKind? (some "SELECT") (q ++ [';']) = tableOfKind? (some "SELECT") q := by
  have unnamed' := occursIn_padded_semicolon hq (by decide) (by decide) (by decide)
    unnamed
  rw [tableOfKind?_of_missing rfl unnamed, tableOfKind?_of_missing rfl unnamed', sourceBehindFrom?_ofText bare,
    sourceBehindFrom?_ofText (isReserved_semicolon bare)]

theorem table_deletion_semicolon
    (named : (phrase ["DELETE", "FROM"] ++ space ++ tableName nameStops).occursIn (padded q) ∨
      (phrase ["DELETE", "FROM"] ++ space).occursIn (padded q) = false) :
    tableOfKind? (some "DELETE") (q ++ [';']) = tableOfKind? (some "DELETE") q := by
  rcases named with named | unnamed
  · exact table_semicolon hq (by decide) (by decide) (by decide) rfl named
  · have unnamed' := occursIn_padded_semicolon hq (by decide)
      (by decide) (by decide) unnamed
    have hkind : (some "DELETE" == some "SELECT") = false := by decide
    rw [tableOfKind?_of_missing rfl unnamed, tableOfKind?_of_missing rfl unnamed', hkind]
    simp only [Bool.false_eq_true, if_false]

theorem table_dropping_semicolon : tableOfKind? (some "DROP") (q ++ [';']) = tableOfKind? (some "DROP") q := by
  have htable : ∀ s, tableOfKind? (some "DROP") s = (((phrase ["DROP", "TABLE"] ++ space ++ tableName [';']).find?
      (padded s)).map (·.get "table")).map fun name => String.ofList (lower (bareName name)) := by
    intro s
    have hpatterns : tablePatterns "DROP" = [phrase ["DROP", "TABLE"] ++ space ++ tableName [';']] := rfl
    have hkind : (some "DROP" == some "SELECT") = false := by decide
    simp only [tableOfKind?, bind_some, hpatterns, findSome?_cons, findSome?_nil, hkind,
      Bool.false_eq_true, if_false, padded]
    cases (phrase ["DROP", "TABLE"] ++ space ++ tableName [';']).find? (' ' :: strip s ++ [' ']) <;> rfl
  rw [htable, htable, get_table_padded hq (by decide) (by decide) (by decide)]

/-- **A semicolon behind a statement does not change its plan.** -/
theorem plan_semicolon {kind : String} (hkind : statementKind? q = some kind) (hcomplete : Complete q)
    (hbounded : Bounded q kind) (p : Planner) : (p.plan (q ++ [';'])).1 = (p.plan q).1 := by
  have hkind' : statementKind? (q ++ [';']) = some kind :=
    (statementKind?_semicolon hq (ne_nil_of_kind hkind) hcomplete).trans hkind
  rw [plan_of_kind (by simp [hkind']), plan_of_kind (by simp [hkind]), ofStatement_ofText, ofStatement_ofText,
    hkind, hkind']
  cases hbounded with
  | selection single named =>
    have halike := alike_semicolon hq hkind hkind' single (table_selection_semicolon hq named)
    exact congrArg (fun plan : Planning Value => (plan.run.run []).1) halike.select
  | bareSelection single unnamed bare =>
    have halike := alike_semicolon hq hkind hkind' single (table_bareSelection_semicolon hq unnamed bare)
    exact congrArg (fun plan : Planning Value => (plan.run.run []).1) halike.select
  | insertion => exact insert_semicolon hq hkind hkind' rfl
  | update ended => exact update_semicolon hq hkind hkind' rfl ended
  | deletion named =>
    have hfilter : Statement.filter (.ofText (q ++ [';'])) = Statement.filter (.ofText q) :=
      congrArg (fun d => ok (doc d)) (filter_semicolon hq (ne_nil_of_kind hkind))
    show delete (.ofText (q ++ [';'])) = delete (.ofText q)
    rw [delete, delete, table_of_kind hkind, table_of_kind hkind', table_deletion_semicolon hq named, hfilter]
  | dropping =>
    show drop (.ofText (q ++ [';'])) = drop (.ofText q)
    rw [drop, drop, knownTable, knownTable, table_of_kind hkind, table_of_kind hkind', table_dropping_semicolon hq]

end

def plainDeletion : List Char :=
  "DELETE FROM t WHERE a IS NULL"

theorem plan_plainDeletion_semicolon : Unended plainDeletion ∧ statementKind? plainDeletion = some "DELETE" ∧
    Complete plainDeletion ∧ Bounded plainDeletion "DELETE" ∧
    (Planner.empty.plan (plainDeletion ++ [';'])).1 = (Planner.empty.plan plainDeletion).1 := by
  have hunended : Unended plainDeletion := by
    refine ⟨by decide, fun c hc => ?_⟩
    obtain rfl : 'L' = c := some.inj hc
    decide
  have hkind : statementKind? plainDeletion = some "DELETE" :=
    statementKind?_eq_documentWord (w := "DELETE") (by decide) ("ROM t WHERE a IS NULL".toList) (by decide)
      (by decide) (by decide) (not_spans_zone_of_head (by decide) (by decide) _ _)
      (.inl hunended.no_semicolon)
  have hcomplete : Complete plainDeletion := by
    refine ⟨by decide +kernel, fun t ht hassigns => ?_⟩
    obtain ⟨u, v, huv⟩ := exists_of_assignment_tokens ht hassigns
    exact absurd (show ':' ∈ plainDeletion by rw [huv]; simp) (by decide)
  have hbounded : Bounded plainDeletion "DELETE" := .deletion (.inl (by decide +kernel))
  exact ⟨hunended, hkind, hcomplete, hbounded, plan_semicolon hunended hkind hcomplete hbounded Planner.empty⟩

end SqlGateway.Plan
