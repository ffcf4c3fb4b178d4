import SqlGateway.Proofs.Plan.Pipeline
import SqlGateway.Proofs.Sql.Join

/-!
# Fields of joined tables

The projection of a join finds a field by the prefix that names its table (`showField_dotted`), but the filter
takes the field with its prefix for the name of a member.  So **a join is filtered by a path that is never the
place of the field** (`joined_match_precedes_lookup`).
-/

namespace SqlGateway.Plan

open Text Sql List Value Join Where

/-! ### The projection -/

/-- Where a field is found after a join: the documents that were joined are kept under their name. -/
def placeOf (byname : String) (table field : Identifier) : String :=
  if table.name = byname then byname ++ "_joined." ++ field.name else field.name

/-- The path from which a field is shown: one with a dot is looked for in the table before the dot. -/
def shownFrom (byname field : String) : String :=
  match cutAt? ['.'] field.toList with
  | none => "$" ++ field
  | some (table, rest) =>
    if String.ofList table = byname then "$" ++ byname ++ "_joined." ++ String.ofList rest
    else String.ofList ('$' :: rest)

/-- What is shown of a join: all that was joined, or the fields that are selected. -/
def shownBy (byname : String) (items : List SelectItem) : Document :=
  if items.isEmpty || items.any (·.field == "*") then
    Document.set [("_id", .int 1)] (byname ++ "_data") (.text ("$" ++ byname ++ "_joined"))
  else items.foldl (fun shown i => shown.set (i.byname.getD i.field) (.text (shownFrom byname i.field)))
    [("_id", .int 0)]

section

variable (join : Join)

theorem showField_item (shown : Document) (item : SelectItem) :
    showField (.list [.doc join.toDocument]) shown (.doc item.toDocument) =
      .ok (shown.set (item.byname.getD item.field) (.text (shownFrom join.byname item.field))) := by
  obtain ⟨field, byname⟩ := item
  have hfield : member (.doc (SelectItem.toDocument ⟨field, byname⟩)) "field" = .ok (.text field) := by
    cases byname <;> rfl
  have hname : memberOr (.doc (SelectItem.toDocument ⟨field, byname⟩)) "alias" (.text field) =
      .ok (.text (byname.getD field)) := by
    cases byname <;> rfl
  have hdot : mentions (.text field) "." = .ok (cutAt? ['.'] field.toList).isSome := rfl
  have htext : asText (.text field) "split" = .ok field := rfl
  have hasName : asName (.text (byname.getD field)) = .ok (byname.getD field) := rfl
  have hitems : items (.list [.doc join.toDocument]) = .ok [.doc join.toDocument] := rfl
  have hmember : member (.doc join.toDocument) "alias" = .ok (.text join.byname) := rfl
  have hequal : ∀ table, (text join.byname == .text table) = decide (table = join.byname) := by
    intro table
    rw [Bool.eq_iff_iff, beq_iff_eq, decide_eq_true_iff, text.injEq, eq_comm]
  simp only [showField, hfield, ok_bind, hname, hdot, htext, hasName, hitems, shownFrom]
  cases cutAt? ['.'] field.toList with
  | none => rfl
  | some cut =>
    simp only [Option.isSome_some, ↓reduceIte, locate, hmember, ok_bind, hequal, decide_eq_true_eq]
    split <;> rfl

/-- **A field behind the name of its table is shown from its place.** -/
theorem showField_dotted (table field : Identifier) : showField (.list [.doc join.toDocument]) []
        (.doc (SelectItem.toDocument ⟨String.ofList (dotted table field), none⟩)) =
      .ok [(String.ofList (dotted table field), .text ("$" ++ placeOf join.byname table field))] := by
  have hcut : cutAt? ['.'] (dotted table field) = some (table.chars, field.chars) :=
    cutAt?_of_not_mem field.chars (table.not_mem (by decide))
  have hplace : shownFrom join.byname (String.ofList (dotted table field)) =
      "$" ++ placeOf join.byname table field := by
    rw [shownFrom, String.toList_ofList, hcut, placeOf]
    show (if table.name = join.byname then _ else _) = _
    split
    · rw [String.append_assoc, String.append_assoc, String.append_assoc]
      rfl
    · exact String.toList_injective (by simp [Identifier.name])
  rw [showField_item, hplace]
  rfl

theorem anyEverything_items (items : List SelectItem) :
    anyEverything (items.map fun i => doc i.toDocument) = .ok (items.any (·.field == "*")) := by
  induction items with
  | nil => rfl
  | cons i items ih =>
    have hopen : anyEverything ((i :: items).map fun i => doc i.toDocument) =
        if text i.field == .text "*" then .ok true
        else anyEverything (items.map fun i => doc i.toDocument) := by
      obtain ⟨field, byname⟩ := i
      cases byname <;> rfl
    have hequal : (text i.field == .text "*") = (i.field == "*") := by
      rw [Bool.eq_iff_iff, beq_iff_eq, beq_iff_eq, text.injEq]
    rw [hopen, ih, hequal, any_cons]
    cases i.field == "*" <;> rfl

/-- **The projection of a join reads the name of its table** and the selected fields. -/
theorem joinedProjection_eq {text : List Char} {table : Value}
    (htable : Statement.table (.ofText text) = .ok table) :
    joinedProjection (.ofText text) (.list [.doc join.toDocument]) =
      .ok (stage "$project" (.doc (shownBy join.byname (SelectList.read text)))) := by
  have hfields : Statement.fields (.ofText text) =
      .ok (.list ((SelectList.read text).map fun i => .doc i.toDocument)) := rfl
  generalize SelectList.read text = items at hfields ⊢
  have hitems : ∀ vs : List Value, Value.items (.list vs) = .ok vs := fun _ => rfl
  have heverything : showJoined [.doc join.toDocument] = .ok (Document.set [("_id", .int 1)]
      (join.byname ++ "_data") (.text ("$" ++ join.byname ++ "_joined"))) := rfl
  have hpresent : isPresent (.list (items.map fun i => .doc i.toDocument)) = !items.isEmpty := by
    cases items <;> rfl
  have hshown : ∀ shown : Document, (items.map fun i => doc i.toDocument).foldlM
      (showField (.list [.doc join.toDocument])) shown = .ok (items.foldl (fun shown i =>
        shown.set (i.byname.getD i.field) (.text (shownFrom join.byname i.field))) shown) := by
    clear hfields hpresent
    induction items with
    | nil => exact fun shown => rfl
    | cons i items ih =>
      intro shown
      rw [map_cons, foldlM_cons, showField_item]
      exact ih _
  simp only [joinedProjection, hfields, ok_bind, hitems, hpresent, shownBy]
  cases items.isEmpty with
  | true =>
    simp only [Bool.not_true, Bool.false_eq_true, ↓reduceIte, pure_bind, htable, ok_bind, heverything,
      Bool.true_or]
    rfl
  | false =>
    simp only [Bool.not_false, ↓reduceIte, ok_bind, anyEverything_items, htable, heverything, hshown,
      Bool.false_or]
    cases items.any (·.field == "*") <;> rfl

end

/-! ### The stages -/

def lookupStage (table localField foreignField byname : String) : Value :=
  stage "$lookup" (.doc [("from", .text table), ("localField", .text localField),
    ("foreignField", .text foreignField), ("as", .text (byname ++ "_joined"))])

def unwindStage (byname : String) (keepEmpty : Bool) : Value :=
  stage "$unwind" (.doc [("path", .text ("$" ++ (byname ++ "_joined"))),
    ("preserveNullAndEmptyArrays", .bool keepEmpty)])

/-- The stages that a type of join asks for behind the look-up. -/
def afterLookup (type byname : String) : List Value :=
  match type with
  | "inner" =>
    [stage "$match" (.doc [(byname ++ "_joined", .doc [("$ne", .list [])])]), unwindStage byname false]
  | "left" => [unwindStage byname true]
  | "right" =>
    [stage "$addFields" (.doc
      [("_right_join_note", .text "RIGHT JOIN requires swapping collections in query")])]
  | _ => []

theorem lookup_not_mem_afterLookup (type byname : String) (v : Value) :
    stage "$lookup" v ∉ afterLookup type byname := by
  have hother : ∀ {name : String} {w : Value}, name ≠ "$lookup" → stage "$lookup" v ≠ stage name w :=
    fun hname heq => hname (stage_inj.mp heq).1.symm
  unfold afterLookup
  split <;> simp [hother, unwindStage]

/-- **The fields of an equality are looked up by their sides.** -/
theorem stages_equality (index : Nat)
    (type table byname leftTable leftField rightTable rightField text : String) :
    stages (.doc (toDocument ⟨index, type, table, byname,
      .equality leftTable leftField rightTable rightField, text⟩)) =
        .ok (lookupStage table leftField rightField byname :: afterLookup type byname) := by
  obtain ⟨join, hjoin⟩ : ∃ join, join = toDocument ⟨index, type, table, byname,
    .equality leftTable leftField rightTable rightField, text⟩ := ⟨_, rfl⟩
  obtain ⟨condition, hequality⟩ : ∃ condition, condition = doc (JoinCondition.toDocument
    (.equality leftTable leftField rightTable rightField)) := ⟨_, rfl⟩
  have htype : (doc join).need "type" = .ok (.text type) := by rw [hjoin]; rfl
  have hcondition : (doc join).need "condition" = .ok condition := by rw [hjoin, hequality]; rfl
  have htable : (doc join).need "table" = .ok (.text table) := by rw [hjoin]; rfl
  have hbyname : (doc join).need "alias" = .ok (.text byname) := by rw [hjoin]; rfl
  have hkind : condition.need "type" = .ok (.text "equality") := by rw [hequality]; rfl
  have hleft : condition.need "left_field" = .ok (.text leftField) := by rw [hequality]; rfl
  have hright : condition.need "right_field" = .ok (.text rightField) := by rw [hequality]; rfl
  have happended : appended (.text byname) "_joined" = .ok (byname ++ "_joined") := rfl
  rw [← hjoin, stages]
  simp only [htype, hcondition, hkind, htable, hleft, hright, hbyname, happended, ok_bind, bne_self_eq_false,
    Bool.false_eq_true, ↓reduceIte]
  split
  case h_1 heq =>
    obtain rfl := Value.text.inj heq
    rfl
  case h_2 heq =>
    obtain rfl := Value.text.inj heq
    rfl
  case h_3 heq =>
    obtain rfl := Value.text.inj heq
    rfl
  case h_4 hinner hleft hright =>
    rw [afterLookup]
    · rfl
    · exact fun heq => hinner (congrArg Value.text heq)
    · exact fun heq => hleft (congrArg Value.text heq)
    · exact fun heq => hright (congrArg Value.text heq)

/-- **A join on an equality looks its table up once**, before all else. -/
theorem exists_stages (index : Nat)
    (type table byname leftTable leftField rightTable rightField text : String) : ∃ more,
      stages (.doc (toDocument ⟨index, type, table, byname,
        .equality leftTable leftField rightTable rightField, text⟩)) =
          .ok (lookupStage table leftField rightField byname :: more) ∧ ∀ v, stage "$lookup" v ∉ more :=
  ⟨_, stages_equality .., lookup_not_mem_afterLookup type byname⟩

/-! ### The plan -/

/-- The aggregation of a table with one that is joined to it. -/
def joinPlan (table : Value) (stages : List Value) (type : String) : Value :=
  .doc [("operation", .text "aggregate"), ("collection", table), ("pipeline", .list stages),
    ("warnings", .texts []), ("join_info", .doc [("join_count", .ofNat 1), ("join_types", .list [.text type])])]

section

variable {text : List Char} (hkind : statementKind? text = some "SELECT")
  (hcalls : Call.occurs text → ∃ calls, Call.describe text = .ok calls)
  (hunion : Union.occurs text = false) (hjoin : occurs text) {join : Join}
  (hread : read text = [join]) {lookups : List Value}
  (hstages : stages (.doc join.toDocument) = .ok lookups) (horder : OrderBy.read text = [])
  (hlimit : Limit.read? text = none)
include hkind hcalls hunion hjoin hread hstages horder hlimit

/-- **The plan of a join** filters, looks up and shows. -/
theorem plan_of_join {table : Value} (htable : Statement.table (.ofText text) = .ok table) {shown : Document}
    (hproject : joinedProjection (.ofText text) (.list [.doc join.toDocument]) =
      .ok (stage "$project" (.doc shown))) (p : Planner) :
    (p.plan text).1 = .ok (joinPlan table (stage? "$match" (.doc (filter text)) ++ lookups ++
      [stage "$project" (.doc shown)]) join.type) := by
  have hjoins : Statement.joins (.ofText text) = .ok (.list [.doc join.toDocument]) := by
    have hopen : Statement.joins (.ofText text) =
        .ok (.list ((read text).map fun j => .doc j.toDocument)) := rfl
    rw [hopen, hread]
    rfl
  have hoffers : Statement.offers (.ofText text) .joinReader = .ok true := rfl
  have hsort : joinedSort (.doc []) = .ok [] := rfl
  have hunlimited : limitStage (.ofOption (Option.map .int none)) = [] := rfl
  have hitems : items (.list [.doc join.toDocument]) = .ok [.doc join.toDocument] := rfl
  have hpresent : isPresent (.list [.doc join.toDocument]) := rfl
  have hlookups : Join.pipeline [.doc join.toDocument] = .ok lookups := by
    rw [Join.pipeline, mapM_cons, hstages]
    show Except.ok (lookups ++ []) = _
    rw [append_nil]
  rw [plan_of_select hkind, select_eq htable hcalls hunion, hjoin]
  simp only [↓reduceIte, joined, hjoins, hoffers, liftM_ok_bind, hpresent, Bool.and_self, htable, filter_ofText,
    hitems, hlookups, hproject, order_ofText, horder, hsort, limit_ofText, hlimit, hunlimited, append_nil]
  rfl

theorem exists_plan_of_join (p : Planner) : ∃ table shown,
    (p.plan text).1 = .ok (joinPlan table (stage? "$match" (.doc (filter text)) ++ lookups ++
      [stage "$project" (.doc shown)]) join.type) := by
  obtain ⟨table, htable⟩ : ∃ table, Statement.table (.ofText text) = .ok table := ⟨_, table_of_kind hkind⟩
  exact ⟨table, _, plan_of_join hkind hcalls hunion hjoin hread hstages horder hlimit htable
    (joinedProjection_eq join htable) p⟩

end

/-! ### Joins in words -/

/-- The words that a join may have before `JOIN`. -/
inductive JoinKind where
  | plain
  | inner
  | left

def JoinKind.words : JoinKind → List (List Char)
  | plain => []
  | inner => ["INNER"]
  | left => ["LEFT"]

variable {P : List Char → Prop}

theorem JoinKind.forall_words (h : ∀ w ∈ ["INNER", "LEFT"], P w) (kind : JoinKind) :
    ∀ w ∈ kind.words, P w := by
  cases kind <;> simp_all [JoinKind.words]

/-- The words that no name of a join may be. -/
def joinKeywords : List String :=
  ["WHERE", "ON", "AS", "UNION", "ORDER", "LIMIT"]

theorem isTerm_of_word_or_equal {w : List Char} (h : Word w ∨ w = ['=']) : Where.IsTerm w := by
  rcases h with hword | rfl
  · exact isTerm_of_word hword
  · decide

theorem call_occurs_of_words {ws : List (List Char)} (h : ∀ w ∈ ws, Word w ∨ w = ['=']) :
    Call.occurs (unwords ws) = false := by
  have hplain : ∀ c ∈ unwords ws, c.toNat < 128 ∧ c ≠ '(' := by
    intro c hc
    rcases mem_unwords hc with rfl | ⟨w, hw, hc⟩
    · decide
    · rcases h w hw with hword | rfl
      · have hprintable := hword.plain c hc
        simp only [isWordChar, Bool.and_eq_true, decide_eq_true_eq] at hprintable
        refine ⟨by omega, ?_⟩
        rintro rfl
        exact hword.not_mem (by decide) hc
      · obtain rfl := mem_singleton.mp hc
        decide
  exact call_occurs_of_flat (fun c hc => (hplain c hc).1) fun hmem => (hplain _ hmem).2 rfl

/-- A selection from two tables that are joined on an equality, with a condition on one field. -/
structure JoinedSelection where
  mainTable : Identifier
  mainName : Identifier
  mainField : Identifier
  mainKey : Identifier
  kind : JoinKind
  joinedTable : Identifier
  joinedName : Identifier
  joinedField : Identifier
  joinedKey : Identifier
  qualifier : Identifier
  field : Identifier
  value : List Char
  free : ∀ i ∈ [mainTable, mainName, mainField, mainKey, joinedTable, joinedName, joinedField, joinedKey,
    field], ∀ K ∈ joinKeywords, spells K i.chars = false
  word : Word value
  continues : Where.Continues value
  mute : ∀ K ∈ ["UNION", "ORDER", "LIMIT"], Mute K value

namespace JoinedSelection

variable (s : JoinedSelection)

def names : List Identifier :=
  [s.mainTable, s.mainName, s.mainField, s.mainKey, s.joinedTable, s.joinedName, s.joinedField, s.joinedKey,
    s.field]

def openingWords : List (List Char) :=
  ["SELECT".toList, dotted s.mainName s.mainField ++ [','], dotted s.joinedName s.joinedField, "FROM".toList,
    s.mainTable.chars, s.mainName.chars] ++ s.kind.words

def conditionWords : List (List Char) :=
  [dotted s.qualifier s.field, ['='], s.value]

def beforeWords : List (List Char) :=
  s.openingWords ++ "JOIN".toList :: s.joinedTable.chars :: s.joinedName.chars :: "ON".toList ::
    equalityWords s.mainName s.mainKey s.joinedName s.joinedKey

def words : List (List Char) :=
  s.openingWords ++ "JOIN".toList :: s.joinedTable.chars :: s.joinedName.chars :: "ON".toList ::
    (equalityWords s.mainName s.mainKey s.joinedName s.joinedKey ++ "WHERE".toList :: s.conditionWords)

def text : List Char :=
  unwords s.words

/-- The name of the member by which a join is filtered. -/
def path : String :=
  String.ofList (dotted s.qualifier s.field)

def place : String :=
  placeOf s.joinedName.name s.qualifier s.field

/-- The join as it is written, with its type. -/
def join (type : String) : Join :=
  ⟨0, type, s.joinedTable.name, s.joinedName.name,
    .equality s.mainName.name s.mainKey.name s.joinedName.name s.joinedKey.name,
    String.ofList (unwords (equalityWords s.mainName s.mainKey s.joinedName s.joinedKey))⟩

def lookup : Value :=
  lookupStage s.joinedTable.name s.mainKey.name s.joinedKey.name s.joinedName.name

theorem words_eq : s.words = s.beforeWords ++ "WHERE".toList :: s.conditionWords := by
  simp [words, beforeWords]

theorem forall_openingWords
    (hkeyword : ∀ w ∈ ["SELECT", "FROM", "INNER", "LEFT"], P w.toList) (hname : ∀ i ∈ s.names, P i.chars)
    (hfield : ∀ a, ∀ x ∈ s.names, P (dotted a x)) (hlisted : ∀ a x : Identifier, P (dotted a x ++ [','])) :
    ∀ w ∈ s.openingWords, P w := by
  have hkind := s.kind.forall_words fun w hw => hkeyword w (by simp at hw ⊢; tauto)
  simp only [openingWords, forall_mem_append, forall_mem_cons, not_mem_nil, false_imp_iff,
    implies_true, and_true]
  exact ⟨⟨hkeyword _ (by simp), hlisted _ _, hfield _ _ (by simp [names]), hkeyword _ (by simp),
    hname _ (by simp [names]), hname _ (by simp [names])⟩, hkind⟩

theorem forall_beforeWords
    (hkeyword : ∀ w ∈ ["SELECT", "FROM", "INNER", "LEFT", "JOIN", "ON"], P w.toList) (hequal : P ['='])
    (hname : ∀ i ∈ s.names, P i.chars) (hfield : ∀ a, ∀ x ∈ s.names, P (dotted a x))
    (hlisted : ∀ a x : Identifier, P (dotted a x ++ [','])) : ∀ w ∈ s.beforeWords, P w := by
  simp only [beforeWords, equalityWords, forall_mem_append, forall_mem_cons, not_mem_nil,
    false_imp_iff, implies_true, and_true]
  exact ⟨s.forall_openingWords (fun w hw => hkeyword w (by simp at hw ⊢; tauto)) hname hfield hlisted,
    hkeyword _ (by simp), hname _ (by simp [names]), hname _ (by simp [names]), hkeyword _ (by simp),
    hfield _ _ (by simp [names]), hequal, hfield _ _ (by simp [names])⟩

theorem forall_words
    (hkeyword : ∀ w ∈ ["SELECT", "FROM", "INNER", "LEFT", "JOIN", "ON", "WHERE"], P w.toList) (hequal : P ['='])
    (hname : ∀ i ∈ s.names, P i.chars) (hfield : ∀ a, ∀ x ∈ s.names, P (dotted a x))
    (hlisted : ∀ a x : Identifier, P (dotted a x ++ [','])) (hvalue : P s.value) : ∀ w ∈ s.words, P w := by
  rw [words_eq, forall_mem_append, forall_mem_cons]
  refine ⟨s.forall_beforeWords (fun w hw => hkeyword w (by simp at hw ⊢; tauto)) hequal hname hfield hlisted,
    hkeyword _ (by simp), ?_⟩
  simpa [conditionWords] using ⟨hfield _ _ (by simp [names]), hequal, hvalue⟩

theorem word_listed (a x : Identifier) : Word (dotted a x ++ [',']) where
  ne_nil := by simp
  plain := forall_mem_append.mpr ⟨(word_dotted a x).plain, by decide⟩

theorem word_or_equal : ∀ w ∈ s.words, Word w ∨ w = ['='] := by
  have hkeyword : ∀ w ∈ ["SELECT", "FROM", "INNER", "LEFT", "JOIN", "ON", "WHERE"],
      w.toList ≠ [] ∧ ∀ c ∈ w.toList, isWordChar c := by decide
  exact s.forall_words (fun w hw => .inl ⟨(hkeyword w hw).1, (hkeyword w hw).2⟩) (.inr rfl)
    (fun i _ => .inl i.word) (fun a x _ => .inl (word_dotted a x)) (fun a x => .inl (word_listed a x))
    (.inl s.word)

theorem isTerm_words : ∀ w ∈ s.words, Where.IsTerm w :=
  fun w hw => isTerm_of_word_or_equal (s.word_or_equal w hw)

theorem mute_words {K : String} (hK : K ∈ ["UNION", "ORDER", "LIMIT"]) : ∀ w ∈ s.words, Mute K w := by
  have hkeyword : ∀ K ∈ ["UNION", "ORDER", "LIMIT"], IsKeyword K.toList ∧ K ∈ joinKeywords ∧
      (∀ w ∈ ["SELECT", "FROM", "INNER", "LEFT", "JOIN", "ON", "WHERE"], Mute K w.toList) ∧ Mute K ['='] := by
    decide
  obtain ⟨hword, hjoin, hmute, hequal⟩ := hkeyword K hK
  exact s.forall_words hmute hequal (fun i hi => mute_identifier (s.free i hi K hjoin))
    (fun a x hx => mute_dotted hword a (s.free x hx K hjoin))
    (fun a x => mute_concat hword (by decide) (word_listed a x).solid) (s.mute K hK)

theorem call_occurs_text : Call.occurs s.text = false :=
  call_occurs_of_words s.word_or_equal

theorem statementKind?_text : statementKind? s.text = some "SELECT" := by
  have hterms := s.isTerm_words
  rw [text]
  rw [words, openingWords] at hterms ⊢
  refine statementKind?_of_head (by decide) (forall_mem_cons.mp hterms).2 ?_ ?_ (.inl ?_)
  · -- there is a dot in the first field, but not at its beginning
    obtain ⟨c, cs, hchars⟩ := exists_cons_of_ne_nil s.mainName.ne_nil
    have hc : c ∈ s.mainName.chars := by simp [hchars]
    rw [dotted, hchars]
    rintro d ⟨⟩ hmark
    exact s.mainName.avoids (by decide) c hc hmark
  · have hquote : ∀ i : Identifier, '\'' ∉ i.chars := fun i => i.not_mem (by decide)
    simp [dotted, hquote]
  · exact spells_concat (by decide) (by decide) _

theorem opening_before : Where.Opening (unwords s.beforeWords) := by
  refine opening_unwords (by simp [beforeWords, openingWords]) ?_
  have hword : ∀ {w : List Char}, Word w → spells "WHERE".toList w = false →
      w ≠ [] ∧ Solid w ∧ (∀ c ∈ w, isParen c = false) ∧ spells "WHERE".toList w = false := fun h hother =>
    ⟨h.ne_nil, h.solid, fun c hc => isParen_of_isWordChar (h.plain c hc), hother⟩
  exact s.forall_beforeWords (by decide) (by decide)
    (fun i hi => hword i.word (s.free i hi "WHERE" (by decide)))
    (fun a x _ => hword (word_dotted a x) (spells_dotted (by decide) a x))
    (fun a x => hword (word_listed a x) (spells_concat (by decide) (by decide) _))

/-- **The filter of a join asks for the field with its prefix.** -/
theorem filter_text : filter s.text = [(s.path, literal s.value)] := by
  have htext : s.text = unwords s.beforeWords ++ " WHERE ".toList ++
      comparisonText (dotted s.qualifier s.field) .equal s.value := by
    rw [text, words_eq, unwords_append (by simp [beforeWords, openingWords]) (by simp), append_assoc]
    rfl
  rw [htext]
  exact filter_comparison .equal (word_dotted s.qualifier s.field) s.word s.continues s.opening_before

theorem exists_read_text : ∃ type, read s.text = [s.join type] := by
  have hname : ∀ i ∈ s.names, ∀ K ∈ ["ON", "AS"], spells K.toList i.chars = false := fun i hi K hK =>
    s.free i hi K ((by decide : ∀ K ∈ ["ON", "AS"], K ∈ joinKeywords) K hK)
  have hopening : ∀ w ∈ s.openingWords, spells "ON".toList w = false :=
    s.forall_openingWords (by decide) (fun i hi => hname i hi "ON" (by simp))
      (fun a x _ => spells_dotted (by decide) a x) (fun a x => spells_concat (by decide) (by decide) _)
  have hcondition : ∀ w ∈ ("WHERE".toList :: s.conditionWords).dropLast, spells "ON".toList w = false :=
    forall_mem_cons.mpr ⟨by decide, forall_mem_cons.mpr
      ⟨spells_dotted (by decide) _ _, forall_mem_singleton.mpr (by decide)⟩⟩
  obtain ⟨type, hread⟩ := exists_type hopening (by simp [openingWords])
  exact ⟨type, hread s.joinedTable s.joinedName s.mainName s.mainKey s.joinedName s.joinedKey _
    (.clause (by simp [conditionWords])) s.isTerm_words (hname _ (by simp [names])) (hname _ (by simp [names]))
    hcondition⟩

/-- **The path of the filter is never the place of the field.** -/
theorem path_ne_place : s.path ≠ s.place := by
  -- the two differ in length
  intro heq
  have hlength := congrArg (fun t : String => t.toList.length) heq
  rw [place, placeOf] at hlength
  split at hlength
  case isTrue hname =>
    rw [← hname] at hlength
    simp [path, dotted, Identifier.name] at hlength
  case isFalse =>
    simp [path, dotted, Identifier.name] at hlength
    omega

end JoinedSelection

/-- **A join is filtered by a path that is not the place of the field, and before the other table is looked
up.** -/
theorem joined_match_precedes_lookup (s : JoinedSelection) (p : Planner) : ∃ type table more shown,
    Join.read s.text = [s.join type] ∧
      showField (.list [.doc (s.join type).toDocument]) [] (.doc (SelectItem.toDocument ⟨s.path, none⟩)) =
        .ok [(s.path, .text ("$" ++ s.place))] ∧ s.path ≠ s.place ∧
      (p.plan s.text).1 = .ok (joinPlan table (stage "$match" (.doc [(s.path, literal s.value)]) :: s.lookup ::
        (more ++ [stage "$project" (.doc shown)])) type) ∧ ∀ v, stage "$lookup" v ∉ more := by
  obtain ⟨type, hread⟩ := s.exists_read_text
  obtain ⟨more, hstages, honce⟩ : ∃ more,
      stages (.doc (s.join type).toDocument) = .ok (s.lookup :: more) ∧ ∀ v, stage "$lookup" v ∉ more :=
    exists_stages ..
  have hjoin : occurs s.text :=
    occurs_unwords (by simp [JoinedSelection.openingWords]) (by simp)
  have hcalls : Call.occurs s.text → ∃ calls, Call.describe s.text = .ok calls := by
    intro hoccurs
    rw [s.call_occurs_text] at hoccurs
    cases hoccurs
  obtain ⟨table, shown, hplan⟩ := exists_plan_of_join s.statementKind?_text hcalls
    (Mute.union_occurs (s.mute_words (by decide))) hjoin hread hstages
    (Mute.order_read s.isTerm_words (by simp [JoinedSelection.words]) (s.mute_words (by decide)))
    (Mute.limit_read s.isTerm_words (by simp [JoinedSelection.words]) (s.mute_words (by decide))) p
  refine ⟨type, table, more, shown, hread, showField_dotted (s.join type) s.qualifier s.field,
    s.path_ne_place, ?_, honce⟩
  rw [hplan, s.filter_text]
  rfl

/-- A field of the main table and one of the joined table. -/
theorem joined_match_precedes_lookup_of_both : ∃ main joined : JoinedSelection,
    main.text = "SELECT a.f, b.g FROM t1 a INNER JOIN t2 b ON a.x = b.y WHERE a.h = 1".toList ∧
    joined.text = "SELECT a.f, b.g FROM t1 a LEFT JOIN t2 b ON a.x = b.y WHERE b.h = 'k'".toList ∧
    (main.path = "a.h" ∧ main.place = "h" ∧ joined.path = "b.h" ∧ joined.place = "b_joined.h") ∧
    (∃ table more type, (Planner.empty.plan main.text).1 = .ok (joinPlan table
      (stage "$match" (.doc [("a.h", .int 1)]) :: main.lookup :: more) type)) ∧
    ∃ table more type, (Planner.empty.plan joined.text).1 = .ok (joinPlan table
      (stage "$match" (.doc [("b.h", .text "k")]) :: joined.lookup :: more) type) := by
  let t₁ : Identifier := ⟨"t1".toList, by decide, by decide⟩
  let t₂ : Identifier := ⟨"t2".toList, by decide, by decide⟩
  let a : Identifier := ⟨['a'], by decide, by decide⟩
  let b : Identifier := ⟨['b'], by decide, by decide⟩
  let f : Identifier := ⟨['f'], by decide, by decide⟩
  let g : Identifier := ⟨['g'], by decide, by decide⟩
  let h : Identifier := ⟨['h'], by decide, by decide⟩
  let x : Identifier := ⟨['x'], by decide, by decide⟩
  let y : Identifier := ⟨['y'], by decide, by decide⟩
  let main : JoinedSelection :=
    ⟨t₁, a, f, x, .inner, t₂, b, g, y, a, h, ['1'], by decide, ⟨by decide, by decide⟩, by decide, by decide⟩
  let joined : JoinedSelection :=
    ⟨t₁, a, f, x, .left, t₂, b, g, y, b, h, "'k'".toList, by decide, ⟨by decide, by decide⟩, by decide,
      by decide⟩
  refine ⟨main, joined, by decide, by decide, by decide, ?_, ?_⟩
  · obtain ⟨type, table, more, shown, -, -, -, hplan, -⟩ := joined_match_precedes_lookup main Planner.empty
    exact ⟨table, _, type, hplan⟩
  · obtain ⟨type, table, more, shown, -, -, -, hplan, -⟩ := joined_match_precedes_lookup joined Planner.empty
    exact ⟨table, _, type, hplan⟩

end SqlGateway.Plan
