import SqlGateway.Proofs.Plan.Find
import SqlGateway.Proofs.Plan.Update

/-!
# Keywords inside names

Keywords are also found inside longer words.  `names_kept_iff` says **in which names this goes wrong**: a
field behind the first that begins with `FROM`, a last field that ends with it, a second field of the
condition that begins with `HAVING`, `LIMIT` or `OFFSET`, and the table of an update that ends with `SET`.
-/

namespace SqlGateway.Plan

open Text Sql SelectList List Where Identifier Change

theorem literal_eq_int_iff (n : Numeral) : literal n.chars = .int n.value ↔ n.digits.length ≤ 4300 := by
  rw [literal_numeral]
  split <;> simp <;> omega

/-- The keywords that are not used as names. -/
def reservedWords : List String :=
  ["FROM", "WHERE", "AND", "OR", "GROUP"] ++ featureWords

/-- The names and numbers of a selection and an update. -/
structure Mention where
  table : Identifier
  fields : List Identifier
  fields_ne_nil : fields ≠ []
  distinct : (fields.map chars).Nodup
  first : Identifier
  firstValue : Numeral
  second : Identifier
  secondValue : Numeral
  differ : first.chars ≠ second.chars
  free : ∀ i ∈ table :: first :: second :: fields, ∀ K ∈ reservedWords, spells K i.chars = false

namespace Mention

variable (m : Mention) {P : List Char → Prop} {i : Identifier}

def names : List Identifier :=
  m.table :: m.first :: m.second :: m.fields

theorem plain_of_mem (hi : i ∈ m.names) :
    Featureless i.chars ∧ i.chars ≠ [] ∧ spells "WHERE" i.chars = false :=
  ⟨featureless_identifier i fun K hK => m.free i hi K (mem_append_right _ hK), i.ne_nil,
    m.free i hi "WHERE" (by decide)⟩

/-! ### The selection -/

def selectText : List Char :=
  "SELECT " ++ commaList (m.fields.map chars) ++ " FROM " ++ m.table.chars ++
    " WHERE " ++ comparisonText m.first.chars .equal m.firstValue.chars ++ " AND " ++
    comparisonText m.second.chars .equal m.secondValue.chars

def headWords : List (List Char) :=
  "SELECT".toList :: (listWords (m.fields.map chars) ++ ["FROM".toList, m.table.chars])

def clauseWords : List (List Char) :=
  conjunctionWords m.first.chars m.firstValue.chars m.second.chars m.secondValue.chars

def selectWords : List (List Char) :=
  m.headWords ++ "WHERE".toList :: m.clauseWords

theorem selectText_eq : m.selectText = unwords m.headWords ++ " WHERE ".toList ++ unwords m.clauseWords := by
  obtain ⟨i, fields, hfields⟩ := exists_cons_of_ne_nil m.fields_ne_nil
  obtain ⟨w, hw, -⟩ := exists_listWords_cons i.chars (fields.map chars)
  have hne : listWords (m.fields.map chars) ≠ [] := by
    rw [hfields, map_cons, hw]
    simp
  have hhead : unwords m.headWords = "SELECT".toList ++ ' ' :: (commaList (m.fields.map chars) ++
      ' ' :: ("FROM".toList ++ ' ' :: m.table.chars)) := by
    rw [headWords, unwords_cons (by simp), unwords_append hne (by simp), unwords_listWords]
    rfl
  have hclause : unwords m.clauseWords = comparisonText m.first.chars .equal m.firstValue.chars ++
      " AND ".toList ++ comparisonText m.second.chars .equal m.secondValue.chars := by
    simp [clauseWords, conjunctionWords, unwords, comparisonText, Where.Sign.chars]
  have htext : ∀ list table first second : List Char,
      "SELECT " ++ list ++ " FROM " ++ table ++ " WHERE " ++ first ++ " AND " ++
        second = "SELECT" ++ ' ' :: (list ++ ' ' :: ("FROM" ++ ' ' :: table)) ++
        " WHERE " ++ (first ++ " AND " ++ second) := by
    intro list table first second
    simp only [String.reduceToList, append_assoc, cons_append, nil_append]
  rw [hhead, hclause]
  exact htext _ _ _ _

theorem unwords_selectWords : unwords m.selectWords = m.selectText := by
  rw [selectText_eq, selectWords, unwords_append (by simp [headWords]) (by simp),
    unwords_cons (by simp [clauseWords, conjunctionWords])]
  simp

theorem forall_headWords (hselect : P "SELECT".toList) (hfrom : P "FROM".toList)
    (hname : ∀ i ∈ m.names, P i.chars ∧ P (i.chars ++ [','])) : ∀ w ∈ m.headWords, P w := by
  have hlist : ∀ w ∈ listWords (m.fields.map chars), P w := by
    intro w hw
    obtain ⟨f, hf, hw⟩ := mem_listWords hw
    obtain ⟨i, hi, rfl⟩ := mem_map.mp hf
    have hi := hname i (by simp [names, hi])
    rcases hw with rfl | rfl
    · exact hi.1
    · exact hi.2
  simpa [headWords, or_imp, forall_and] using ⟨hselect, hlist, hfrom, (hname m.table (by simp [names])).1⟩

theorem forall_selectWords (hkeyword : ∀ w ∈ ["SELECT", "FROM", "WHERE", "AND", "="], P w.toList)
    (hname : ∀ i ∈ m.names, P i.chars ∧ P (i.chars ++ [',']))
    (hnumber : ∀ n : Numeral, P n.chars) : ∀ w ∈ m.selectWords, P w := by
  have hclause : ∀ w ∈ m.clauseWords, P w := by
    simpa [clauseWords, conjunctionWords] using ⟨(hname m.first (by simp [names])).1, hkeyword "=" (by simp),
      hnumber m.firstValue, hkeyword "AND" (by simp), (hname m.second (by simp [names])).1, hkeyword "=" (by simp),
      hnumber m.secondValue⟩
  exact forall_mem_append.mpr ⟨m.forall_headWords (hkeyword "SELECT" (by simp)) (hkeyword "FROM" (by simp)) hname,
    forall_mem_cons.mpr ⟨hkeyword "WHERE" (by simp), hclause⟩⟩

theorem isTerm_selectWords : ∀ w ∈ m.selectWords, Where.IsTerm w := by
  refine m.forall_selectWords (by decide) (fun i _ => ?_) fun n => isTerm_of_word n.plainWord.toWord
  exact ⟨isTerm_of_word i.word, (isTerm_of_word i.word).comma⟩

theorem featureless_selectWords : ∀ w ∈ m.selectWords, Featureless w := by
  refine m.forall_selectWords (by decide) (fun i hi => ?_) featureless_numeral
  exact ⟨(m.plain_of_mem hi).1, featureless_comma i⟩

theorem selectWords_eq : m.selectWords = "SELECT".toList :: (listWords (m.fields.map chars) ++
    "FROM".toList :: m.table.chars :: "WHERE".toList :: m.clauseWords) := by
  rw [selectWords, headWords, cons_append, append_assoc]
  rfl

theorem statementKind?_select : statementKind? (unwords m.selectWords) = some "SELECT" := by
  have hterms := m.isTerm_selectWords
  have hplain : ∀ c ∈ ['.', ':', '\''], isNameChar c = false := by decide
  rw [selectWords_eq] at hterms ⊢
  obtain ⟨i, fields, hfields⟩ := exists_cons_of_ne_nil m.fields_ne_nil
  rw [hfields] at hterms ⊢
  cases fields with
  | nil =>
    refine statementKind?_unwords (by decide) (forall_mem_cons.mp hterms).2 (i.avoids hplain) (.inr ?_)
    rintro w ⟨⟩
    decide
  | cons f fields =>
    refine statementKind?_unwords (by decide) (forall_mem_cons.mp hterms).2 ?_
      (.inl (spells_concat (by decide) (by decide) i.chars))
    exact forall_mem_append.mpr ⟨i.avoids hplain, forall_mem_singleton.mpr (by decide)⟩

/-- The table that is read: `FROM` itself if the last field ends with it. -/
def readTable : String :=
  if m.fields.getLast?.any (fun f => closesWith "FROM" f.chars) then "from" else m.table.table

theorem tableOfKind?_select : tableOfKind? (some "SELECT") (unwords m.selectWords) = some m.readTable := by
  have hterms := m.isTerm_selectWords
  obtain ⟨fields, f, hfields⟩ := (eq_nil_or_concat m.fields).resolve_left m.fields_ne_nil
  rw [concat_eq_append] at hfields
  have hcommas : ∀ w ∈ "SELECT".toList :: (fields.map chars).map (· ++ [',']),
      closesWith "FROM".toList w = false := by
    refine forall_mem_cons.mpr ⟨by decide, fun w hw => ?_⟩
    obtain ⟨s, -, rfl⟩ := mem_map.mp hw
    exact closesWith_concat (by decide) (by decide) s
  rw [readTable, hfields, getLast?_concat, Option.any_some]
  have hwords : m.selectWords = ("SELECT".toList :: (fields.map chars).map (· ++ [','])) ++
      f.chars :: "FROM".toList :: m.table.chars :: "WHERE".toList :: m.clauseWords := by
    rw [selectWords_eq, hfields, map_append, listWords_append (by simp), append_assoc]
    rfl
  cases hcloses : closesWith "FROM".toList f.chars with
  | true =>
    rw [hwords] at hterms ⊢
    exact tableOfKind?_unwords (rfl : tablePatterns "SELECT" = _ :: _) (by decide) hterms hcommas hcloses
      (by decide)
  | false =>
    rw [hwords, append_cons] at hterms ⊢
    have hbefore : ∀ w ∈ ("SELECT".toList :: (fields.map chars).map (· ++ [','])) ++ [f.chars],
        closesWith "FROM".toList w = false := fun w hw => (mem_append.mp hw).elim (hcommas w) fun hw => by
      rw [mem_singleton.mp hw, hcloses]
    exact tableOfKind?_name (rfl : tablePatterns "SELECT" = _ :: _) (by decide) hterms hbefore (by decide)

theorem isField_of_mem : ∀ f ∈ m.fields.map chars, IsField f := by
  intro f hf
  obtain ⟨i, -, rfl⟩ := mem_map.mp hf
  exact isField_identifier i

theorem read_select : read (unwords m.selectWords) =
    (listed (m.fields.map chars)).map fun f => ⟨String.ofList f, none⟩ := by
  have hterms := m.isTerm_selectWords
  rw [selectWords_eq] at hterms ⊢
  refine read_listWords m.isField_of_mem (by simpa using m.fields_ne_nil) fun w hw => hterms w ?_
  exact mem_cons_of_mem _ (mem_append_right _ (mem_cons_of_mem _ hw))

theorem opening_headWords : Where.Opening (unwords m.headWords) := by
  refine Featureless.opening (fun w hw => m.featureless_selectWords w (mem_append_left _ hw))
    (by simp [headWords]) (m.forall_headWords (by decide) (by decide) fun i hi => ?_)
  exact ⟨(m.plain_of_mem hi).2, by simp, spells_concat (by decide) (by decide) i.chars⟩

/-- **The plan of the selection.** -/
theorem plan_select (p : Planner) : (p.plan m.selectText).1 = .ok (findPlan m.readTable
    (filter m.selectText) (shownFields (listed (m.fields.map chars)))) := by
  have hname : m.readTable ≠ "" := by
    rw [readTable]
    split
    · decide
    · exact m.table.table_ne_empty
  have hfields : ∀ f ∈ listed (m.fields.map chars), Featureless f ∧ f ≠ ['*'] := by
    intro f hf
    rcases mem_listed hf with rfl | hf
    · decide
    · obtain ⟨i, hi, rfl⟩ := mem_map.mp hf
      refine ⟨(m.plain_of_mem (by simp [names, hi])).1, fun hstar => ?_⟩
      exact (m.isField_of_mem _ hf).no_star (by simp [hstar])
  have hsome : listed (m.fields.map chars) ≠ [] := by
    obtain ⟨i, fields, hfields⟩ := exists_cons_of_ne_nil m.fields_ne_nil
    rw [hfields]
    simp [SelectList.listed]
  rw [← unwords_selectWords]
  exact plan_selection m.isTerm_selectWords (by simp [selectWords]) m.featureless_selectWords
    m.statementKind?_select m.tableOfKind?_select hname m.read_select hfields
    (nodup_listed m.isField_of_mem m.distinct) hsome p

theorem readTable_eq_iff : m.readTable = m.table.table ↔
    ∀ f ∈ m.fields.getLast?, closesWith "FROM" f.chars = false := by
  have hother : "from" ≠ m.table.table := by
    intro h
    have hlower : lower m.table.chars = "FROM".toList.map Char.toLower :=
      String.ofList_injective (h.symm.trans rfl)
    cases (m.free m.table (by simp) "FROM" (by decide)).symm.trans
      (spells_of_lower (by decide) (fun _ => m.table.ascii) hlower)
  obtain ⟨fields, f, hfields⟩ := (eq_nil_or_concat m.fields).resolve_left m.fields_ne_nil
  have hlast : (∀ g ∈ some f, closesWith "FROM" g.chars = false) ↔
      closesWith "FROM" f.chars = false := by simp
  rw [readTable, hfields, concat_eq_append, getLast?_concat, Option.any_some, hlast]
  cases closesWith "FROM" f.chars <;> simp [hother]

def selection : Value :=
  findPlan m.table.table [(m.first.name, .int m.firstValue.value), (m.second.name, .int m.secondValue.value)]
    (shownFields (m.fields.map chars))

/-! ### The update -/

def updateText : List Char :=
  "UPDATE " ++ m.table.chars ++ " SET " ++
    comparisonText m.first.chars .equal m.firstValue.chars ++ " WHERE " ++
    comparisonText m.second.chars .equal m.secondValue.chars

def change : Value :=
  updatePlan m.table.table [(m.second.name, .int m.secondValue.value)]
    [(String.ofList (lower m.first.chars), .int m.firstValue.value)]

def updateHead : List (List Char) :=
  ["UPDATE".toList, m.table.chars, "SET".toList] ++ assignmentWords m.first.chars m.firstValue.chars

def updateClause : List (List Char) :=
  ["WHERE", m.second.chars, ['='], m.secondValue.chars]

theorem unwords_update : unwords (m.updateHead ++ m.updateClause) = m.updateText := by
  have htext : ∀ table first second : List Char, "UPDATE".toList ++ ' ' :: (table ++ ' ' :: ("SET".toList ++
      ' ' :: (first ++ ' ' :: ("WHERE".toList ++ ' ' :: second)))) =
        "UPDATE ".toList ++ table ++ " SET ".toList ++ first ++ " WHERE ".toList ++ second := by
    intro table first second
    simp only [String.reduceToList, append_assoc, cons_append, nil_append]
  refine Eq.trans ?_ (htext m.table.chars _ _)
  simp [updateHead, updateClause, assignmentWords, unwords, comparisonText, Where.Sign.chars]

theorem filter_update : filter m.updateText = [(m.second.name, literal m.secondValue.chars)] := by
  have hkeyword : ∀ K ∈ ["UPDATE", "SET", "="], Featureless K.toList ∧ K.toList ≠ [] ∧
      spells "WHERE".toList K.toList = false := by decide
  have hhead : ∀ w ∈ m.updateHead, Featureless w ∧ w ≠ [] ∧ spells "WHERE".toList w = false := by
    simp only [updateHead, assignmentWords, cons_append, nil_append, forall_mem_cons]
    exact ⟨hkeyword "UPDATE" (by simp), m.plain_of_mem (by simp [names]), hkeyword "SET" (by simp),
      m.plain_of_mem (by simp [names]), hkeyword "=" (by simp), ⟨featureless_numeral m.firstValue,
        m.firstValue.plainWord.ne_nil, spells_numeral (by decide) m.firstValue fun _ => id⟩, by simp⟩
  have hopening : Where.Opening (unwords m.updateHead) :=
    Featureless.opening (fun w hw => (hhead w hw).1) (by simp [updateHead]) fun w hw => (hhead w hw).2
  have htext : m.updateText = unwords m.updateHead ++ " WHERE " ++
      comparisonText m.second.chars .equal m.secondValue.chars := by
    rw [← unwords_update, unwords_append (by simp [updateHead]) (by simp [updateClause])]
    simp [updateClause, unwords, comparisonText, Where.Sign.chars]
  rw [htext]
  exact filter_comparison .equal m.second.word m.secondValue.plainWord.toWord
    (continues_numeral m.secondValue) hopening

/-- The values that are read: another field is set if the table ends with `SET`. -/
def readValues : Document :=
  if closesWith "SET" m.table.chars then
    if opensWith "WHERE" m.first.chars then []
    else [(String.ofList (lower ("SET " ++ m.first.chars)), literal m.firstValue.chars)]
  else [(String.ofList (lower m.first.chars), literal m.firstValue.chars)]

/-- **The plan of the update.** -/
theorem plan_update (p : Planner) : (p.plan m.updateText).1 = .ok (updatePlan m.table.table
    [(m.second.name, literal m.secondValue.chars)] m.readValues) := by
  have hfield := isOperand_identifier m.first
  have hvalue := isOperand_numeral m.firstValue
  have hclause : ∀ w ∈ m.updateClause, Where.IsTerm w := by
    have hwhere : Where.IsTerm "WHERE" ∧ Where.IsTerm ['='] := by decide
    simpa [updateClause] using ⟨hwhere.1, isTerm_of_word m.second.word, hwhere.2,
      isTerm_of_word m.secondValue.plainWord.toWord⟩
  have hplan := plan_updateWords m.table (isTerm_assignmentWords hfield hvalue)
    (by simp [assignmentWords])
    (by simpa [assignmentWords] using ⟨by decide, opensWith_numeral (by decide) m.firstValue⟩)
    hclause (by rintro w ⟨⟩; decide) p
  have htext : unwords (updateWords m.table.chars
      (assignmentWords m.first.chars m.firstValue.chars) m.updateClause) = m.updateText :=
    m.unwords_update
  rw [htext, m.filter_update, assignments_assigned m.table.chars hfield hvalue] at hplan
  exact hplan

/-! ### When they are read as they are written -/

theorem plainWord_of_mem (hi : i ∈ m.names) : PlainWord i.chars where
  toWord := i.word
  not_or := m.free i hi "OR" (by decide)
  not_and := m.free i hi "AND" (by decide)

theorem filter_select_iff : filter m.selectText =
    [(m.first.name, .int m.firstValue.value), (m.second.name, .int m.secondValue.value)] ↔
    opensClause m.second.chars = false ∧ m.firstValue.digits.length ≤ 4300 ∧
      m.secondValue.digits.length ≤ 4300 := by
  have hsecond : m.second ∈ m.names := by simp [names]
  rw [selectText_eq, ← literal_eq_int_iff, ← literal_eq_int_iff]
  exact filter_conjunction_iff (m.plainWord_of_mem (by simp [names])) m.firstValue.plainWord
    (m.plainWord_of_mem hsecond) m.secondValue.plainWord m.differ (continues_numeral _)
    (continues_numeral _) (m.free m.second hsecond "GROUP" (by decide))
    (m.free m.second hsecond "ORDER" (by decide)) m.opening_headWords _ _

theorem fields_eq_iff : listed (m.fields.map chars) = m.fields.map chars ↔
    ∀ f ∈ m.fields.tail, opensWith "FROM" f.chars = false := by
  rw [listed_eq_iff m.isField_of_mem, ← map_tail, forall_mem_map]

theorem readValues_eq_iff : m.readValues = [(String.ofList (lower m.first.chars), .int m.firstValue.value)] ↔
      closesWith "SET" m.table.chars = false ∧ m.firstValue.digits.length ≤ 4300 := by
  have hlonger : lower ("SET " ++ m.first.chars) ≠ lower m.first.chars := by
    intro h
    have hlength := congrArg length h
    rw [length_lower fun _ => m.first.ascii, length_lower, length_append] at hlength
    · have : 0 < "SET ".toList.length := by decide
      omega
    · exact forall_mem_append.mpr ⟨by decide, fun _ => m.first.ascii⟩
  rw [readValues, ← literal_eq_int_iff]
  cases closesWith "SET" m.table.chars with
  | false => simp
  | true =>
    rw [if_pos rfl]
    split
    · simp
    · constructor
      · exact fun h => absurd (String.ofList_injective (Prod.mk.inj (cons.inj h).1).1) hlonger
      · rintro ⟨h, -⟩
        cases h

end Mention

/-- **Which names are kept whole.** -/
theorem names_kept_iff (m : Mention) (p : Planner) :
    (∃ plan, (p.plan m.selectText).1 = .ok plan ∧ (plan = m.selection ↔
      (∀ f ∈ m.fields.tail, opensWith "FROM".toList f.chars = false) ∧
      (∀ f ∈ m.fields.getLast?, closesWith "FROM".toList f.chars = false) ∧
      Where.opensClause m.second.chars = false ∧
      m.firstValue.digits.length ≤ 4300 ∧ m.secondValue.digits.length ≤ 4300)) ∧
    ∃ plan, (p.plan m.updateText).1 = .ok plan ∧ (plan = m.change ↔
      closesWith "SET".toList m.table.chars = false ∧
      m.firstValue.digits.length ≤ 4300 ∧ m.secondValue.digits.length ≤ 4300) := by
  refine ⟨⟨_, m.plan_select p, ?_⟩, _, m.plan_update p, ?_⟩
  · rw [Mention.selection, findPlan_inj, m.readTable_eq_iff, m.filter_select_iff, shownFields_inj,
      m.fields_eq_iff]
    tauto
  · have hname : ∀ v w : Value, [(m.second.name, v)] = [(m.second.name, w)] ↔ v = w := by simp
    rw [Mention.change, updatePlan_inj, m.readValues_eq_iff, hname, literal_eq_int_iff]
    tauto

/-- The names of a selection are kept, although keywords begin or end them; in an update the same table is
lost. -/
theorem names_kept_iff_dataset : ∃ m : Mention,
    m.selectText = "SELECT from_date, a_from_b FROM dataset WHERE limite = 1 AND whereabouts = 2".toList ∧
    m.updateText = "UPDATE dataset SET limite = 1 WHERE whereabouts = 2".toList ∧
    (Planner.empty.plan m.selectText).1 = .ok m.selection ∧
    (Planner.empty.plan m.updateText).1 ≠ .ok m.change := by
  let m : Mention := ⟨⟨"dataset".toList, by decide, by decide⟩,
    [⟨"from_date".toList, by decide, by decide⟩, ⟨"a_from_b".toList, by decide, by decide⟩], by decide,
    by decide, ⟨"limite".toList, by decide, by decide⟩, ⟨.none, [1], by decide⟩,
    ⟨"whereabouts".toList, by decide, by decide⟩, ⟨.none, [2], by decide⟩, by decide, by decide⟩
  obtain ⟨⟨plan, hplan, hselect⟩, plan', hplan', hupdate⟩ := names_kept_iff m Planner.empty
  refine ⟨m, by decide, by decide, ?_, ?_⟩
  · rw [hplan, hselect.mpr (by decide)]
  · rw [hplan']
    exact fun h => absurd (hupdate.mp (Except.ok.inj h)).1 (by decide)

end SqlGateway.Plan
