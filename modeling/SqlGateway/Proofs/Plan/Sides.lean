import SqlGateway.Proofs.Plan.Joined
import SqlGateway.Proofs.Sql.SelectList

/-!
# The sides of an equality

A look-up takes its two fields from the sides of the equality and not from the tables that they name
(`exists_plan_textOn`).  So **an equality that is turned round swaps the two fields**
(`turned_equality_swaps_fields`).
-/

namespace SqlGateway.Plan

open Text Sql List Join

/-- A word of a list of fields, which opens no clause of its own. -/
structure ListWord (w : List Char) : Prop where
  word : Word w
  not_on : spells "ON" w = false
  not_opens : opensWith "FROM" w = false
  not_closes : closesWith "FROM" w = false
  mute : ∀ K ∈ ["WHERE", "UNION", "ORDER", "LIMIT"], Mute K w

/-- Two tables that are joined by a field of each, and the words of what is selected from them. -/
structure JoinedTables where
  first : List Char
  others : List (List Char)
  mainTable : Identifier
  mainName : Identifier
  mainKey : Identifier
  kind : JoinKind
  joinedTable : Identifier
  joinedName : Identifier
  joinedKey : Identifier
  listed : ∀ w ∈ first :: others, ListWord w
  head : ∀ c ∈ first.head?, c ∉ ['.', ':']
  unquoted : '\'' ∉ first
  not_zone : spells "AT" first = false
  free : ∀ i ∈ [mainTable, mainName, mainKey, joinedTable, joinedName, joinedKey], ∀ K ∈ joinKeywords,
    spells K i.chars = false

namespace JoinedTables

variable (s : JoinedTables)

def names : List Identifier :=
  [s.mainTable, s.mainName, s.mainKey, s.joinedTable, s.joinedName, s.joinedKey]

def fromWords : List (List Char) :=
  "FROM" :: s.mainTable.chars :: s.mainName.chars :: s.kind.words

def openingWords : List (List Char) :=
  "SELECT" :: s.first :: (s.others ++ s.fromWords)

/-- The words of the statement, with an equality. -/
def wordsOn (a x b y : Identifier) : List (List Char) :=
  s.openingWords ++ "JOIN".toList :: s.joinedTable.chars :: s.joinedName.chars :: "ON".toList ::
    equalityWords a x b y

def textOn (a x b y : Identifier) : List Char :=
  unwords (s.wordsOn a x b y)

def text : List Char :=
  s.textOn s.mainName s.mainKey s.joinedName s.joinedKey

def turnedText : List Char :=
  s.textOn s.joinedName s.joinedKey s.mainName s.mainKey

/-- The plan that looks the joined table up by two fields. -/
def planBy (type : String) (shown : Document) (localField foreignField : Identifier) : Value :=
  joinPlan (.text s.mainTable.table)
    (lookupStage s.joinedTable.name localField.name foreignField.name s.joinedName.name ::
      (afterLookup type s.joinedName.name ++ [stage "$project" (.doc shown)])) type

theorem forall_openingWords {P : List Char → Prop}
    (hkeyword : ∀ w ∈ ["SELECT", "FROM", "INNER", "LEFT"], P w) (hlist : ∀ w, ListWord w → P w)
    (hname : ∀ i ∈ s.names, P i.chars) : ∀ w ∈ s.openingWords, P w := by
  have hkind := s.kind.forall_words fun w hw => hkeyword w (by simp at hw ⊢; tauto)
  simp only [openingWords, fromWords, forall_mem_append, forall_mem_cons]
  exact ⟨hkeyword _ (by simp), hlist _ (s.listed _ (by simp)), fun w hw => hlist w (s.listed w (by simp [hw])),
    hkeyword _ (by simp), hname _ (by simp [names]), hname _ (by simp [names]), hkind⟩

section

variable {x y : Identifier} (a b : Identifier)

theorem forall_wordsOn {P : List Char → Prop}
    (hkeyword : ∀ w ∈ ["SELECT", "FROM", "INNER", "LEFT", "JOIN", "ON"], P w.toList) (hequal : P ['='])
    (hlist : ∀ w, ListWord w → P w) (hname : ∀ i ∈ s.names, P i.chars) (hx : P (dotted a x))
    (hy : P (dotted b y)) : ∀ w ∈ s.wordsOn a x b y, P w := by
  simp only [wordsOn, equalityWords, forall_mem_append, forall_mem_cons, not_mem_nil,
    false_imp_iff, implies_true, and_true]
  exact ⟨s.forall_openingWords (fun w hw => hkeyword w (by simp at hw ⊢; tauto)) hlist hname,
    hkeyword _ (by simp), hname _ (by simp [names]), hname _ (by simp [names]), hkeyword _ (by simp), hx, hequal,
    hy⟩

theorem word_or_equal (x y : Identifier) : ∀ w ∈ s.wordsOn a x b y, Word w ∨ w = ['='] := by
  have hkeyword : ∀ w ∈ ["SELECT", "FROM", "INNER", "LEFT", "JOIN", "ON"],
      w.toList ≠ [] ∧ ∀ c ∈ w.toList, isWordChar c := by decide
  exact s.forall_wordsOn a b (fun w hw => .inl ⟨(hkeyword w hw).1, (hkeyword w hw).2⟩) (.inr rfl)
    (fun w hw => .inl hw.word) (fun i _ => .inl i.word) (.inl (word_dotted a x)) (.inl (word_dotted b y))

theorem isTerm_words (x y : Identifier) : ∀ w ∈ s.wordsOn a x b y, Where.IsTerm w :=
  fun w hw => isTerm_of_word_or_equal (s.word_or_equal a b x y w hw)

theorem wordsOn_ne_nil (x y : Identifier) : s.wordsOn a x b y ≠ [] := by
  simp [wordsOn]

theorem mute_words (hx : ∀ K ∈ joinKeywords, spells K.toList x.chars = false)
    (hy : ∀ K ∈ joinKeywords, spells K.toList y.chars = false) {K : String}
    (hK : K ∈ ["WHERE", "UNION", "ORDER", "LIMIT"]) : ∀ w ∈ s.wordsOn a x b y, Mute K w := by
  have hkeyword : ∀ K ∈ ["WHERE", "UNION", "ORDER", "LIMIT"], IsKeyword K.toList ∧ K ∈ joinKeywords ∧
      (∀ w ∈ ["SELECT", "FROM", "INNER", "LEFT", "JOIN", "ON"], Mute K w.toList) ∧ Mute K ['='] := by
    decide
  obtain ⟨hword, hjoin, hmute, hequal⟩ := hkeyword K hK
  exact s.forall_wordsOn a b hmute hequal (fun w hw => hw.mute K hK)
    (fun i hi => mute_identifier (s.free i hi K hjoin)) (mute_dotted hword a (hx K hjoin))
    (mute_dotted hword b (hy K hjoin))

theorem statementKind?_textOn (x y : Identifier) : statementKind? (s.textOn a x b y) = some "SELECT" := by
  have hterms := s.isTerm_words a b x y
  rw [textOn]
  exact statementKind?_of_head (by decide) (forall_mem_cons.mp hterms).2 s.head s.unquoted
    (.inl s.not_zone)

theorem table_textOn (x y : Identifier) :
    Statement.table (.ofText (s.textOn a x b y)) = .ok (.text s.mainTable.table) := by
  have hterms := s.isTerm_words a b x y
  have hbefore : ∀ w ∈ "SELECT".toList :: s.first :: s.others, closesWith "FROM".toList w = false :=
    forall_mem_cons.mpr ⟨by decide, fun w hw => (s.listed w hw).not_closes⟩
  have hwords : s.wordsOn a x b y = ("SELECT".toList :: s.first :: s.others) ++ "FROM".toList ::
      s.mainTable.chars :: (s.mainName.chars :: s.kind.words ++ "JOIN".toList :: s.joinedTable.chars ::
        s.joinedName.chars :: "ON".toList :: equalityWords a x b y) := by
    simp [wordsOn, openingWords, fromWords]
  rw [hwords] at hterms
  have hfound := tableOfKind?_name (rfl : tablePatterns "SELECT" = _ :: _) (by decide) hterms hbefore (by decide)
  rw [← hwords] at hfound
  rw [table_of_kind (s.statementKind?_textOn a b x y), textOn, hfound]
  rfl

theorem selectList_textOn (x y : Identifier) :
    SelectList.read (s.textOn a x b y) = SelectList.readItems (unwords (s.first :: s.others)) := by
  have hterms := s.isTerm_words a b x y
  have hwords : s.wordsOn a x b y = "SELECT".toList :: ((s.first :: s.others) ++ "FROM".toList ::
      (s.mainTable.chars :: s.mainName.chars :: s.kind.words ++ "JOIN".toList :: s.joinedTable.chars ::
        s.joinedName.chars :: "ON".toList :: equalityWords a x b y)) := by
    simp [wordsOn, openingWords, fromWords]
  rw [hwords] at hterms
  rw [textOn, hwords]
  exact SelectList.read_unwords (forall_mem_cons.mp hterms).2 (by simp)
    (fun w hw => (s.listed w (mem_cons_of_mem _ hw)).not_opens) (by decide)

end

def joinOn (type : String) (a x b y : Identifier) : Join :=
  ⟨0, type, s.joinedTable.name, s.joinedName.name, .equality a.name x.name b.name y.name,
    String.ofList (unwords (equalityWords a x b y))⟩

theorem exists_read_textOn : ∃ type, ∀ a x b y, read (s.textOn a x b y) = [s.joinOn type a x b y] := by
  have hname : ∀ i ∈ s.names, ∀ K ∈ ["ON", "AS"], spells K.toList i.chars = false := fun i hi K hK =>
    s.free i hi K ((by decide : ∀ K ∈ ["ON", "AS"], K ∈ joinKeywords) K hK)
  have hopening : ∀ w ∈ s.openingWords, spells "ON".toList w = false :=
    s.forall_openingWords (by decide) (fun w hw => hw.not_on) (fun i hi => hname i hi "ON" (by simp))
  obtain ⟨type, hread⟩ := exists_type hopening (by simp [openingWords])
  refine ⟨type, fun a x b y => ?_⟩
  have hjoin := hread s.joinedTable s.joinedName a x b y [] .nothing
  rw [append_nil] at hjoin
  exact hjoin (s.isTerm_words a b x y) (hname _ (by simp [names])) (hname _ (by simp [names])) (by simp)

/-- **The left field is the local one**, whatever tables the fields name. -/
theorem exists_plan_textOn : ∃ type shown, ∀ a x b y : Identifier,
    (∀ K ∈ joinKeywords, spells K.toList x.chars = false) →
    (∀ K ∈ joinKeywords, spells K.toList y.chars = false) →
    ∀ p : Planner, (p.plan (s.textOn a x b y)).1 = .ok (s.planBy type shown x y) := by
  obtain ⟨type, hread⟩ := s.exists_read_textOn
  refine ⟨type, shownBy s.joinedName.name (SelectList.readItems (unwords (s.first :: s.others))),
    fun a x b y hx hy p => ?_⟩
  have hmute : ∀ {K : String}, K ∈ ["WHERE", "UNION", "ORDER", "LIMIT"] → ∀ w ∈ s.wordsOn a x b y, Mute K w :=
    s.mute_words a b hx hy
  have hterms := s.isTerm_words a b x y
  have hne := s.wordsOn_ne_nil a b x y
  have hproject := joinedProjection_eq (s.joinOn type a x b y) (s.table_textOn a b x y)
  rw [selectList_textOn] at hproject
  have hcalls : Call.occurs (s.textOn a x b y) → ∃ calls, Call.describe (s.textOn a x b y) = .ok calls := by
    intro hoccurs
    rw [textOn, call_occurs_of_words (s.word_or_equal a b x y)] at hoccurs
    cases hoccurs
  have hplan := plan_of_join (s.statementKind?_textOn a b x y) hcalls (Mute.union_occurs (hmute (by decide)))
    (occurs_unwords (by simp [openingWords]) (by simp)) (hread a x b y)
    (stages_equality 0 type s.joinedTable.name s.joinedName.name a.name x.name b.name y.name _)
    (Mute.order_read hterms hne (hmute (by decide))) (Mute.limit_read hterms hne (hmute (by decide)))
    (s.table_textOn a b x y) hproject p
  rw [hplan, textOn, Mute.filter_eq_nil hterms hne (hmute (by decide))]
  rfl

theorem planBy_inj {type : String} {shown : Document} {x y x' y' : Identifier}
    (h : s.planBy type shown x y = s.planBy type shown x' y') : x.name = x'.name ∧ y.name = y'.name := by
  simpa [planBy, joinPlan, lookupStage, stage] using h

end JoinedTables

/-- **An equality that is turned round swaps the fields of the look-up**, and all else is the same. -/
theorem turned_equality_swaps_fields (s : JoinedTables) (p : Planner) : ∃ type shown,
    (p.plan s.text).1 = .ok (s.planBy type shown s.mainKey s.joinedKey) ∧
      (p.plan s.turnedText).1 = .ok (s.planBy type shown s.joinedKey s.mainKey) ∧
      ((p.plan s.text).1 = (p.plan s.turnedText).1 ↔ s.mainKey.name = s.joinedKey.name) := by
  obtain ⟨type, shown, hplan⟩ := s.exists_plan_textOn
  have hmain := s.free s.mainKey (by simp)
  have hjoined := s.free s.joinedKey (by simp)
  have htext := hplan s.mainName s.mainKey s.joinedName s.joinedKey hmain hjoined p
  have hturned := hplan s.joinedName s.joinedKey s.mainName s.mainKey hjoined hmain p
  refine ⟨type, shown, htext, hturned, ?_⟩
  rw [JoinedTables.text, JoinedTables.turnedText, htext, hturned]
  constructor
  · intro heq
    exact (s.planBy_inj (Except.ok.inj heq)).1
  · intro hname
    rw [JoinedTables.planBy, JoinedTables.planBy, hname]

/-- The two tables are looked up by `x` and `y`, and by `y` and `x`. -/
theorem turned_equality_swaps_fields_of_two : ∃ s : JoinedTables,
    s.text = "SELECT a.f, b.g FROM t1 a INNER JOIN t2 b ON a.x = b.y".toList ∧
    s.turnedText = "SELECT a.f, b.g FROM t1 a INNER JOIN t2 b ON b.y = a.x".toList ∧ (∃ type shown,
      (Planner.empty.plan s.text).1 = .ok (joinPlan (.text "t1") (lookupStage "t2" "x" "y" "b" ::
        (afterLookup type "b" ++ [stage "$project" (.doc shown)])) type) ∧
      (Planner.empty.plan s.turnedText).1 = .ok (joinPlan (.text "t1") (lookupStage "t2" "y" "x" "b" ::
        (afterLookup type "b" ++ [stage "$project" (.doc shown)])) type)) ∧
    (Planner.empty.plan s.text).1 ≠ (Planner.empty.plan s.turnedText).1 := by
  let t₁ : Identifier := ⟨"t1".toList, by decide, by decide⟩
  let t₂ : Identifier := ⟨"t2".toList, by decide, by decide⟩
  let a : Identifier := ⟨['a'], by decide, by decide⟩
  let b : Identifier := ⟨['b'], by decide, by decide⟩
  let x : Identifier := ⟨['x'], by decide, by decide⟩
  let y : Identifier := ⟨['y'], by decide, by decide⟩
  let s : JoinedTables := ⟨"a.f,".toList, ["b.g".toList], t₁, a, x, .inner, t₂, b, y,
    forall_mem_cons.mpr ⟨⟨⟨by decide, by decide⟩, by decide, by decide, by decide, by decide⟩,
      forall_mem_singleton.mpr ⟨⟨by decide, by decide⟩, by decide, by decide, by decide, by decide⟩⟩,
    by rintro c ⟨⟩; decide, by decide, by decide, by decide⟩
  obtain ⟨type, shown, htext, hturned, heq⟩ := turned_equality_swaps_fields s Planner.empty
  refine ⟨s, by decide, by decide, ⟨type, shown, htext, hturned⟩, ?_⟩
  rw [Ne, heq]
  decide

end SqlGateway.Plan
