import Mathlib.Data.List.Chain
import SqlGateway.Proofs.Plan.Find
import SqlGateway.Proofs.Plan.Pipeline
import SqlGateway.Proofs.Sql.OrderBy
import SqlGateway.Proofs.Sql.Renamed

/-!
# The columns that a selection shows

A search shows each column under its other name, as if that were a field, and an order makes the selection an
aggregation, which shows no columns.  So **the columns are kept iff nothing is sorted and each is shown under
its own name** (`columns_kept_iff`).
-/

namespace SqlGateway.Plan

open Text Sql SelectList Planning List Document Value

variable {P : List Char → Prop} {K : String}

/-! ### Keeping columns -/

/-- A member of a projection that refers to a column. -/
def RefersTo (column : String) (m : String × Value) : Prop :=
  m = (column, .int 1) ∨ m.2 = .text ("$" ++ column)

/-- A plan that keeps columns: a search shows each of them, and an aggregation has a stage that refers to
each of them and to no other column. -/
def KeepsColumns (columns : List String) (plan : Value) : Prop :=
  ∃ members, plan = .doc members ∧
    ((get? members "operation" = some (.text "find") ∧ ∃ projection : Document,
        get? members "projection" = some (.doc projection) ∧ ∀ c ∈ columns, c ∈ projection.names) ∨
      (get? members "operation" = some (.text "aggregate") ∧
        ∃ (stages : List Value) (projection : Document),
        get? members "pipeline" = some (.list stages) ∧ stage "$project" (.doc projection) ∈ stages ∧
          ∀ c, (∃ m ∈ projection, RefersTo c m) ↔ c ∈ columns))

theorem keepsColumns_searchPlan {columns : List String} {table : String} {filter projection : Document}
    {limit : Option Int} : KeepsColumns columns (searchPlan table filter projection limit) ↔
      ∀ c ∈ columns, c ∈ projection.names := by
  constructor
  · rintro ⟨members, hmembers, ⟨-, projection', hprojection, hall⟩ | ⟨hoperation, -⟩⟩
    · obtain rfl := doc.inj hmembers
      obtain rfl : projection = projection' := doc.inj (Option.some.inj hprojection)
      exact hall
    · obtain rfl := doc.inj hmembers
      exact absurd (text.inj (Option.some.inj hoperation)) (by decide)
  · exact fun hall => ⟨_, rfl, .inl ⟨rfl, projection, rfl, hall⟩⟩

/-! ### No aggregation shows columns -/

section

variable {text : List Char}

variable (hhaving : Having.occurs text = false) (hdistinct : Distinct.occurs text = false)
include hhaving hdistinct

/-- **No stage shows columns.** -/
theorem project_not_mem_pipelineOf (v : Value) : stage "$project" v ∉ pipelineOf text := by
  rw [pipelineOf, hhaving, hdistinct, limitStage_ofOption]
  intro hv
  simp only [Bool.false_eq_true, ↓reduceIte, append_nil, mem_append] at hv
  rcases hv with (hv | hv) | hv
  · exact absurd (stage_inj.mp (mem_stage?_iff.mp hv).2).1 (by decide)
  · exact absurd (stage_inj.mp (mem_stage?_iff.mp hv).2).1 (by decide)
  · obtain ⟨n, hn⟩ := eq_of_mem_limit hv
    exact absurd (stage_inj.mp hn).1 (by decide)

/-- **No aggregation without totals keeps columns.** -/
theorem yields_aggregate_unshown (columns : List String) :
    Yields (fun plan => ¬ KeepsColumns columns plan) (aggregate (.ofText text)) := by
  rw [aggregate]
  refine .bind fun table => .lift_bind fun stages hstages => .bind fun warnings => .pure ?_
  rintro ⟨members, hmembers, ⟨hoperation, -⟩ | ⟨-, stages', projection, hpipeline, hproject, -⟩⟩
  · obtain rfl := Value.doc.inj hmembers
    exact absurd (Value.text.inj (Option.some.inj hoperation)) (by decide)
  · obtain rfl := Value.doc.inj hmembers
    obtain rfl : stages = stages' := list.inj (Option.some.inj hpipeline)
    obtain rfl := gives_pipeline text stages hstages
    exact project_not_mem_pipelineOf hhaving hdistinct _ hproject

end

/-! ### Selections of columns -/

/-- The keywords that decide about the operation of a selection. -/
def operationWords : List String :=
  ["HAVING", "UNION", "JOIN", "DISTINCT", "ORDER"]

/-- A keyword and the words behind it, if there are any. -/
def clauseWords (K : String) (ws : List (List Char)) : List (List Char) :=
  if ws = [] then [] else K :: ws

theorem forall_clauseWords {ws : List (List Char)} (hK : P K) (h : ∀ w ∈ ws, P w) :
    ∀ w ∈ clauseWords K ws, P w := by
  rw [clauseWords]
  split
  · simp
  · exact forall_mem_cons.mpr ⟨hK, h⟩

theorem exists_columnWords_zone (c : SelectColumn) (cs : List SelectColumn) (b : List (List Char)) :
    ∃ v ws, columnWords (c :: cs) ++ "FROM".toList :: b = v :: ws ∧ (∀ x ∈ v, x ∉ ['.', ':', '\'']) ∧
      (spells "AT".toList v = false ∨ ∀ w ∈ ws.head?, opensWith ['T'] w = false) := by
  have hplain : ∀ x ∈ c.source.chars, x ∉ ['.', ':', '\''] := c.source.avoids (by decide)
  obtain ⟨source, byname⟩ := c
  have hnext : ∀ K ∈ ["AS", "FROM"], opensWith ['T'] K.toList = false := by decide
  cases byname with
  | some a =>
    cases cs with
    | nil => exact ⟨_, _, rfl, hplain, .inr fun w hw => by cases hw; exact hnext "AS" (by simp)⟩
    | cons d cs => exact ⟨_, _, rfl, hplain, .inr fun w hw => by cases hw; exact hnext "AS" (by simp)⟩
  | none =>
    cases cs with
    | nil => exact ⟨_, _, rfl, hplain, .inr fun w hw => by cases hw; exact hnext "FROM" (by simp)⟩
    | cons d cs =>
      refine ⟨_, _, rfl, ?_, .inl (spells_concat (by decide) (by decide) source.chars)⟩
      rw [forall_mem_append, forall_mem_singleton]
      exact ⟨hplain, by decide⟩

/-- Neighbours in the words of a list: the second is a keyword, unless the first is `AS` or ends with a
comma. -/
theorem isChain_columnWords {R : List Char → List Char → Prop} (has : ∀ w, R w "AS")
    (hfrom : ∀ w, R w "FROM") (hbyname : ∀ v, R "AS" v)
    (hcomma : ∀ (i : Identifier) v, R (i.chars ++ [',']) v) :
    ∀ cs : List SelectColumn, List.IsChain R (columnWords cs ++ ["FROM".toList])
  | [] => isChain_singleton _
  | [⟨source, byname⟩] => by
    cases byname with
    | none => exact isChain_pair.mpr (hfrom _)
    | some a => exact .cons_cons (has _) (.cons_cons (hbyname _) (isChain_pair.mpr (hfrom _)))
  | ⟨source, byname⟩ :: d :: cs => by
    obtain ⟨v, vs, hvs⟩ : ∃ v vs, columnWords (d :: cs) ++ ["FROM".toList] = v :: vs :=
      exists_cons_of_ne_nil (by simp)
    have hrest := isChain_columnWords has hfrom hbyname hcomma (d :: cs)
    rw [columnWords, append_assoc]
    rw [hvs] at hrest ⊢
    cases byname with
    | none => exact .cons_cons (hcomma _ _) hrest
    | some a => exact .cons_cons (has _) (.cons_cons (hbyname _) (.cons_cons (hcomma _ _) hrest))

/-- A selection of columns from one table. -/
structure Selection where
  columns : List SelectColumn
  columns_ne_nil : columns ≠ []
  table : Identifier
  condition : List (List Char)
  order : Option OrderBy.Order
  limit : List (List Char)
  free : ∀ i ∈ table :: columns.flatMap SelectColumn.names, ∀ K ∈ operationWords,
    spells K i.chars = false
  quiet : ∀ w ∈ condition ++ limit ++ order.elim [] OrderBy.Order.words, Where.IsTerm w ∧
    ∀ K ∈ operationWords, Mute K w

namespace Selection

variable (s : Selection)

def headWords : List (List Char) :=
  "SELECT".toList :: (columnWords s.columns ++
    "FROM".toList :: s.table.chars :: clauseWords "WHERE" s.condition)

def orderWords : List (List Char) :=
  s.order.elim [] fun o => "ORDER" :: "BY" :: o.words

def words : List (List Char) :=
  s.headWords ++ (s.orderWords ++ clauseWords "LIMIT" s.limit)

def text : List Char :=
  unwords s.words

def names : List Identifier :=
  s.table :: s.columns.flatMap SelectColumn.names

theorem forall_headWords (hkeyword : ∀ w ∈ ["SELECT", "AS", "FROM", "WHERE"], P w.toList)
    (hname : ∀ i ∈ s.names, P i.chars ∧ P (i.chars ++ [','])) (hcondition : ∀ w ∈ s.condition, P w) :
    ∀ w ∈ s.headWords, P w := by
  rw [headWords, forall_mem_cons, forall_mem_append, forall_mem_cons, forall_mem_cons]
  refine ⟨hkeyword "SELECT" (by simp), forall_columnWords (hkeyword "AS" (by simp)) fun c hc i hi => ?_,
    hkeyword "FROM" (by simp), (hname s.table (by simp [names])).1,
    forall_clauseWords (hkeyword "WHERE" (by simp)) hcondition⟩
  exact hname i (mem_cons_of_mem _ (mem_flatMap.mpr ⟨c, hc, hi⟩))

theorem forall_words (hkeyword : ∀ w ∈ ["SELECT", "AS", "FROM", "WHERE", "LIMIT"], P w)
    (hname : ∀ i ∈ s.names, P i.chars ∧ P (i.chars ++ [',']))
    (hgiven : ∀ w ∈ s.condition ++ s.limit ++ s.order.elim [] OrderBy.Order.words, P w)
    (horder : s.order ≠ none → P "ORDER".toList ∧ P "BY".toList) : ∀ w ∈ s.words, P w := by
  rw [forall_mem_append, forall_mem_append] at hgiven
  rw [words, forall_mem_append, forall_mem_append]
  refine ⟨s.forall_headWords (fun w hw => hkeyword w (by simp at hw ⊢; tauto)) hname hgiven.1.1, ?_,
    forall_clauseWords (hkeyword "LIMIT" (by simp)) hgiven.1.2⟩
  have horders := hgiven.2
  rw [orderWords]
  generalize s.order = order at horder horders ⊢
  cases order with
  | none => simp
  | some o =>
    rw [Option.elim_some, forall_mem_cons, forall_mem_cons]
    exact ⟨(horder (by simp)).1, (horder (by simp)).2, horders⟩

theorem isTerm_words : ∀ w ∈ s.words, Where.IsTerm w := by
  refine s.forall_words (by decide) (fun i _ => ?_) (fun w hw => (s.quiet w hw).1) fun _ => by decide
  exact ⟨Where.isTerm_of_word i.word, (Where.isTerm_of_word i.word).comma⟩

theorem mute_name (hK : K ∈ operationWords) {i : Identifier} (hi : i ∈ s.names) :
    Mute K i.chars ∧ Mute K (i.chars ++ [',']) :=
  ⟨mute_identifier (s.free i hi K hK),
    mute_concat ((by decide : ∀ K ∈ operationWords, IsKeyword K) K hK) (by decide)
      (featureless_comma i).solid⟩

theorem mute_words (hK : K ∈ operationWords) (horder : K ≠ "ORDER" ∨ s.order = none) :
    ∀ w ∈ s.words, Mute K w := by
  have hkeyword : ∀ K ∈ operationWords, (∀ w ∈ ["SELECT", "AS", "FROM", "WHERE", "LIMIT"], Mute K w) ∧
      (K ≠ "ORDER" → Mute K "ORDER" ∧ Mute K "BY") := by decide
  refine s.forall_words (hkeyword K hK).1 (fun i => s.mute_name hK) (fun w hw => (s.quiet w hw).2 K hK) ?_
  exact fun hsome => (hkeyword K hK).2 (horder.resolve_right hsome)

theorem mute_headWords : ∀ w ∈ s.headWords, Mute "ORDER" w :=
  s.forall_headWords (by decide) (fun i => s.mute_name (by decide)) fun w hw =>
    (s.quiet w (by simp [hw])).2 "ORDER" (by decide)

/-- **A selection sorts iff it has an order.** -/
theorem order_read_eq_nil_iff : OrderBy.read s.text = [] ↔ s.order = none := by
  constructor
  · intro hread
    have hterms := s.isTerm_words
    rw [text] at hread
    rw [words, orderWords] at hterms hread
    cases horder : s.order with
    | none => rfl
    | some o =>
      rw [horder] at hterms hread
      refine absurd hread (o.read_ne_nil hterms s.mute_headWords ?_)
      rw [clauseWords]
      split
      · simp
      · rintro w ⟨⟩
        decide
  · intro hnone
    exact Mute.order_read s.isTerm_words (by simp [words, headWords]) (s.mute_words (by decide) (.inr hnone))

theorem words_eq : s.words = "SELECT".toList :: (columnWords s.columns ++ "FROM".toList :: s.table.chars ::
    (clauseWords "WHERE" s.condition ++ (s.orderWords ++ clauseWords "LIMIT" s.limit))) := by
  simp [words, headWords]

theorem statementKind?_text : statementKind? s.text = some "SELECT" := by
  have hterms := s.isTerm_words
  obtain ⟨c, cs, hcolumns⟩ := exists_cons_of_ne_nil s.columns_ne_nil
  rw [words_eq, hcolumns] at hterms
  rw [text, words_eq, hcolumns]
  obtain ⟨v, ws, hwords, hplain, hzone⟩ := exists_columnWords_zone c cs (s.table.chars ::
    (clauseWords "WHERE" s.condition ++ (s.orderWords ++ clauseWords "LIMIT" s.limit)))
  rw [hwords] at hterms ⊢
  exact statementKind?_unwords (by decide) (forall_mem_cons.mp hterms).2 hplain hzone

theorem exists_table : ∃ table, table ≠ "" ∧ tableOfKind? (some "SELECT") s.text = some table := by
  have hterms := s.isTerm_words
  obtain ⟨b, hb⟩ : ∃ b, b = clauseWords "WHERE" s.condition ++ (s.orderWords ++ clauseWords "LIMIT" s.limit) :=
    ⟨_, rfl⟩
  have hwords : s.words =
      "SELECT".toList :: ((columnWords s.columns ++ ["FROM".toList]) ++ s.table.chars :: b) := by
    rw [words_eq, hb]
    simp
  have hname : ∀ v, v = s.table.chars ∨ v = "AS" ∨ v = "FROM" →
      (∀ c ∈ v, Pattern.solid nameStops c) ∧ String.ofList (lower (bareName v)) ≠ "" := by
    rintro v (rfl | rfl | rfl)
    · exact ⟨fun _ => s.table.unstopped, by rw [s.table.bareName_chars]; exact s.table.table_ne_empty⟩
    · decide
    · decide
  -- the first word that ends with `FROM`
  obtain ⟨w, hw⟩ : ∃ w, (columnWords s.columns ++ ["FROM".toList]).find? (closesWith "FROM".toList) = some w :=
    Option.isSome_iff_exists.mp (find?_isSome.mpr ⟨"FROM".toList, by simp, by decide⟩)
  obtain ⟨hcloses, ws, ws', hsplit, hno⟩ := find?_eq_some_iff_append.mp hw
  have hchain := isChain_columnWords
    (R := fun w v => closesWith "FROM" w → v = "AS" ∨ v = "FROM")
    (fun _ _ => .inl rfl) (fun _ _ => .inr rfl) (fun _ h => absurd h (by decide))
    (fun i _ h => by rw [closesWith_concat (by decide) (by decide)] at h; cases h) s.columns
  rw [hwords, hsplit] at hterms
  rw [hsplit] at hchain
  obtain ⟨v, vs, hv, hnext⟩ : ∃ v vs, ws' ++ s.table.chars :: b = v :: vs ∧
      (v = s.table.chars ∨ v = "AS" ∨ v = "FROM") := by
    cases ws' with
    | nil => exact ⟨_, _, rfl, .inl rfl⟩
    | cons v ws' =>
      have hpair := (isChain_cons_cons.mp hchain.right_of_append).1
      exact ⟨_, _, rfl, .inr (hpair hcloses)⟩
  have hlist : "SELECT".toList :: ((ws ++ w :: ws') ++ s.table.chars :: b) =
      ("SELECT".toList :: ws) ++ w :: v :: vs := by
    rw [← hv]
    simp
  rw [hlist] at hterms
  refine ⟨_, (hname v hnext).2, ?_⟩
  rw [text, hwords, hsplit, hlist]
  refine tableOfKind?_unwords (rfl : tablePatterns "SELECT" = _ :: _) (by decide) hterms ?_ hcloses
    (hname v hnext).1
  exact forall_mem_cons.mpr ⟨by decide, fun u hu => by simpa using hno u hu⟩

theorem read_text : read s.text = readList s.columns := by
  have hterms := s.isTerm_words
  rw [words_eq] at hterms
  rw [text, words_eq]
  refine read_columnWords s.columns_ne_nil fun w hw => hterms w ?_
  exact mem_cons_of_mem _ (mem_append_right _ (mem_cons_of_mem _ hw))

theorem plain_of_mem_readList {i : SelectItem} (hi : i ∈ readList s.columns) :
    Call.occurs i.field.toList = false ∧ i.field ≠ "*" := by
  rcases field_of_mem_readList hi with hfield | ⟨c, -, hfield⟩
  · rw [hfield]
    decide
  · rw [hfield, Identifier.name, String.toList_ofList]
    refine ⟨call_occurs_of_flat (fun _ => c.source.ascii) (c.source.not_mem (by decide)), fun hstar => ?_⟩
    have hchars : c.source.chars = ['*'] := String.ofList_injective (hstar.trans rfl)
    exact c.source.not_mem (by decide : Where.isNameChar '*' = false) (by rw [hchars]; simp)

section

variable (hcalls : Call.occurs s.text → ∃ calls, Call.describe s.text = .ok calls) (p : Planner)
include hcalls

theorem exists_plan_of_unordered (hnone : s.order = none) : ∃ table, (p.plan s.text).1 =
    .ok (searchPlan table (Where.filter s.text) (ofMembers (shownItems (readList s.columns)))
      (Limit.read? s.text)) := by
  obtain ⟨table, hname, htable⟩ := s.exists_table
  have hmute : ∀ {K : String}, K ∈ operationWords → ∀ w ∈ s.words, Mute K w := fun hK =>
    s.mute_words hK (.inr hnone)
  exact ⟨table, plan_search s.statementKind?_text htable hname hcalls (Mute.union_occurs (hmute (by decide)))
    (Mute.join_occurs (hmute (by decide))) (Mute.having_occurs (hmute (by decide)))
    (Mute.distinct_occurs (hmute (by decide))) (s.order_read_eq_nil_iff.mpr hnone) s.read_text
    (readList_ne_nil s.columns_ne_nil) (fun i => s.plain_of_mem_readList) p⟩

theorem not_keepsColumns_of_ordered (hsome : s.order ≠ none) {plan : Value}
    (hplan : (p.plan s.text).1 = .ok plan) (columns : List String) : ¬ KeepsColumns columns plan := by
  obtain ⟨table, -, htable⟩ := s.exists_table
  have hkind := s.statementKind?_text
  have htext : Statement.table (.ofText s.text) = .ok (.text table) := by
    rw [table_of_kind hkind, htable]
    rfl
  have hmute : ∀ {K : String}, K ∈ operationWords → K ≠ "ORDER" → ∀ w ∈ s.words, Mute K w := fun hK hother =>
    s.mute_words hK (.inl hother)
  have hhaving : Having.occurs s.text = false := Mute.having_occurs (hmute (by decide) (by decide))
  have hdistinct : Distinct.occurs s.text = false := Mute.distinct_occurs (hmute (by decide) (by decide))
  have hjoin : Join.occurs s.text = false := Mute.join_occurs (hmute (by decide) (by decide))
  have hunion : Union.occurs s.text = false := Mute.union_occurs (hmute (by decide) (by decide))
  have horder : (OrderBy.read s.text).isEmpty = false := by
    rw [← Bool.not_eq_true, List.isEmpty_iff, s.order_read_eq_nil_iff]
    exact hsome
  rw [plan_of_select hkind, select_eq htext hcalls hunion, hjoin, hhaving, hdistinct, horder] at hplan
  exact yields_aggregate_unshown hhaving hdistinct columns [] plan hplan

end

end Selection

/-- **When the columns of a selection are kept.** -/
theorem columns_kept_iff (s : Selection) (p : Planner) :
    (∃ plan, (p.plan s.text).1 = .ok plan ∧ KeepsColumns (s.columns.map fun c => c.source.name) plan) ↔
      s.order = none ∧ (∀ c ∈ s.columns, ∃ i ∈ readList s.columns, shownName i = c.source.name) ∧
        (Call.occurs s.text = true → ∃ calls, Call.describe s.text = .ok calls) := by
  have hsearch : ∀ table filter limit, KeepsColumns (s.columns.map fun c => c.source.name)
      (searchPlan table filter (ofMembers (shownItems (readList s.columns))) limit) ↔
        ∀ c ∈ s.columns, ∃ i ∈ readList s.columns, shownName i = c.source.name := by
    intro table filter limit
    rw [keepsColumns_searchPlan, forall_mem_map]
    exact forall₂_congr fun c _ => mem_names_shownItems
  constructor
  · rintro ⟨plan, hplan, hkeeps⟩
    have hcalls : Call.occurs s.text → ∃ calls, Call.describe s.text = .ok calls := by
      intro hoccurs
      cases hdescribe : Call.describe s.text with
      | ok calls => exact ⟨calls, rfl⟩
      | error e =>
        rw [plan_of_select s.statementKind?_text] at hplan
        exact (yields_select_of_unread hoccurs hdescribe (fun _ => False) [] plan hplan).elim
    have hnone : s.order = none := by
      by_contra hsome
      exact s.not_keepsColumns_of_ordered hcalls p hsome hplan _ hkeeps
    obtain ⟨table, hplan'⟩ := s.exists_plan_of_unordered hcalls p hnone
    rw [hplan', Except.ok.injEq] at hplan
    rw [← hplan, hsearch] at hkeeps
    exact ⟨hnone, hkeeps, hcalls⟩
  · rintro ⟨hnone, hshown, hcalls⟩
    obtain ⟨table, hplan⟩ := s.exists_plan_of_unordered hcalls p hnone
    exact ⟨_, hplan, (hsearch _ _ _).mpr hshown⟩

/-- Plain columns are kept, although a condition and a limit follow; another name or an order loses them. -/
theorem columns_kept_plain : ∃ plain renamed sorted : Selection,
    plain.text = "SELECT a, b FROM t WHERE c = 1 LIMIT 5".toList ∧
    renamed.text = "SELECT a AS b FROM t".toList ∧ sorted.text = "SELECT a FROM t ORDER BY a DESC".toList ∧
    (∃ plan, (Planner.empty.plan plain.text).1 = .ok plan ∧ KeepsColumns ["a", "b"] plan) ∧
    (¬ ∃ plan, (Planner.empty.plan renamed.text).1 = .ok plan ∧ KeepsColumns ["a"] plan) ∧
    ¬ ∃ plan, (Planner.empty.plan sorted.text).1 = .ok plan ∧ KeepsColumns ["a"] plan := by
  let a : Identifier := ⟨['a'], by decide, by decide⟩
  let b : Identifier := ⟨['b'], by decide, by decide⟩
  let t : Identifier := ⟨['t'], by decide, by decide⟩
  let plain : Selection :=
    ⟨[⟨a, none⟩, ⟨b, none⟩], by simp, t, [['c'], ['='], ['1']], none, [['5']], by decide, by decide⟩
  let renamed : Selection := ⟨[⟨a, some b⟩], by simp, t, [], none, [], by decide, by decide⟩
  let sorted : Selection :=
    ⟨[⟨a, none⟩], by simp, t, [], some ⟨['a'], some .downwards, [], by decide, by decide⟩, [], by decide,
      by decide⟩
  have hplain : plain.text = "SELECT a, b FROM t WHERE c = 1 LIMIT 5".toList := by decide
  refine ⟨plain, renamed, sorted, hplain, by decide, by decide, ?_, fun hrenamed => ?_, fun hsorted => ?_⟩
  · refine (columns_kept_iff plain Planner.empty).mpr ⟨rfl, by decide, fun hoccurs => ?_⟩
    rw [hplain, call_occurs_of_flat (by decide) (by decide)] at hoccurs
    cases hoccurs
  · exact absurd ((columns_kept_iff renamed Planner.empty).mp hrenamed).2.1 (by decide)
  · exact absurd ((columns_kept_iff sorted Planner.empty).mp hsorted).1 (by decide)

end SqlGateway.Plan
