import SqlGateway.Proofs.Plan.Keyword

/-!
# Selections of totals

A total such as `COUNT(*)` is no built-in function.  **A selection of a total is planned as a search for a
field of that spelling** (`plan_tally`), whether rows are grouped or not.
-/

namespace SqlGateway.Plan

open Text Sql SelectList List

/-- The selection of a total, perhaps behind a column, and perhaps grouped by a column. -/
structure Tally where
  function : String
  isTotal : function ∈ SelectList.totals
  /-- The column that the total is taken of; without one it is taken of all. -/
  column : Option Identifier
  table : Identifier
  listed : Option Identifier
  group : Option Identifier
  free : ∀ i ∈ table :: (column.toList ++ listed.toList ++ group.toList), ∀ K ∈ reservedWords,
    spells K i.chars = false

namespace Tally

variable (t : Tally) {P : List Char → Prop} {K : String}

def argument : List Char :=
  t.column.elim ['*'] Identifier.chars

def call : List Char :=
  t.function.toList ++ '(' :: (t.argument ++ [')'])

def items : List (List Char) :=
  (t.listed.map Identifier.chars).toList ++ [t.call]

def text : List Char :=
  "SELECT ".toList ++ commaList t.items ++ " FROM ".toList ++ t.table.chars ++
    t.group.elim [] fun g => " GROUP BY ".toList ++ g.chars

def groupWords : List (List Char) :=
  t.group.elim [] fun g => ["GROUP", "BY", g.chars]

def words : List (List Char) :=
  "SELECT".toList :: (listWords t.items ++ "FROM".toList :: t.table.chars :: t.groupWords)

theorem listWords_items : listWords t.items = (t.listed.map fun i => i.chars ++ [',']).toList ++ [t.call] := by
  rw [items]
  cases t.listed <;> rfl

theorem unwords_words : unwords t.words = t.text := by
  have hlist : listWords t.items ≠ [] := by simp [listWords_items]
  have htext : ∀ list table group : List Char, "SELECT".toList ++ ' ' :: (list ++ ' ' :: ("FROM".toList ++
      ' ' :: (table ++ group))) = "SELECT ".toList ++ list ++ " FROM ".toList ++ table ++ group := by
    intro list table group
    simp only [String.reduceToList, append_assoc, cons_append, nil_append]
  have htail : unwords (t.table.chars :: t.groupWords) =
      t.table.chars ++ t.group.elim [] fun g => " GROUP BY ".toList ++ g.chars := by
    rw [groupWords]
    cases t.group with
    | none => simp
    | some g => rfl
  rw [words, unwords_cons (by simp), unwords_append hlist (by simp), unwords_listWords,
    unwords_cons (cons_ne_nil _ _), htail]
  exact htext _ _ _

/-! ### The words -/

theorem forall_call {P : Char → Prop} (hletter : ∀ c ∈ capitals, P c) (hsign : ∀ c ∈ ['(', ')', '*'], P c)
    (hname : ∀ i : Identifier, ∀ c ∈ i.chars, P c) : ∀ c ∈ t.call, P c := by
  have htotal : ∀ K ∈ SelectList.totals, ∀ c ∈ K.toList, c ∈ capitals := by decide
  intro c h
  rw [call, mem_append, mem_cons, mem_append, mem_singleton] at h
  rcases h with h | rfl | h | rfl
  · exact hletter c (htotal _ t.isTotal c h)
  · exact hsign _ (by simp)
  · rw [argument] at h
    cases hcolumn : t.column with
    | none =>
      rw [hcolumn] at h
      exact hsign c (by rw [mem_singleton.mp h]; simp)
    | some i =>
      rw [hcolumn] at h
      exact hname i c h
  · exact hsign _ (by simp)

theorem solid_call : Solid t.call :=
  t.forall_call (by decide) (by decide) fun i _ => i.solid

theorem isTerm_call : Where.IsTerm t.call where
  ne_nil := by simp [call]
  solid := t.solid_call
  no_semicolon := fun h => t.forall_call (P := (· ≠ ';')) (by decide) (by decide)
    (fun i c hc heq => i.not_mem (by decide) (heq ▸ hc)) _ h rfl

theorem paren_mem_call : '(' ∈ t.call := by
  simp [call]

theorem call_eq_concat : t.call = (t.function.toList ++ '(' :: t.argument) ++ [')'] := by
  simp [call]

theorem mute_call (hK : IsKeyword K) : Mute K t.call := by
  have hsolid := t.solid_call
  rw [call_eq_concat] at hsolid ⊢
  exact mute_concat hK (by decide) hsolid

theorem forall_items (hname : ∀ i : Identifier, P i.chars) (hcall : P t.call) : ∀ s ∈ t.items, P s := by
  rw [items, forall_mem_append]
  refine ⟨fun s hs => ?_, forall_mem_singleton.mpr hcall⟩
  obtain ⟨i, -, rfl⟩ := Option.map_eq_some_iff.mp (Option.mem_toList.mp hs)
  exact hname i

def names : List Identifier :=
  t.table :: (t.column.toList ++ t.listed.toList ++ t.group.toList)

theorem forall_words (hkeyword : ∀ w ∈ ["SELECT", "FROM", "GROUP", "BY"], P w.toList)
    (hname : ∀ i ∈ t.names, P i.chars ∧ P (i.chars ++ [','])) (hcall : P t.call) : ∀ w ∈ t.words, P w := by
  have hlist : ∀ w ∈ listWords t.items, P w := by
    rw [listWords_items, forall_mem_append]
    refine ⟨fun w hw => ?_, forall_mem_singleton.mpr hcall⟩
    obtain ⟨i, hi, rfl⟩ := Option.map_eq_some_iff.mp (Option.mem_toList.mp hw)
    exact (hname i (by simp [names, hi])).2
  have hgroup : ∀ w ∈ t.groupWords, P w := by
    rw [groupWords]
    cases hg : t.group with
    | none => simp
    | some g =>
      have hg := (hname g (by simp [names, hg])).1
      simpa using ⟨hkeyword "GROUP" (by simp), hkeyword "BY" (by simp), hg⟩
  simpa [words, or_imp, forall_and] using ⟨hkeyword "SELECT" (by simp), hlist, hkeyword "FROM" (by simp),
    (hname t.table (by simp [names])).1, hgroup⟩

theorem isTerm_words : ∀ w ∈ t.words, Where.IsTerm w := by
  refine t.forall_words (by decide) (fun i _ => ?_) t.isTerm_call
  exact ⟨Where.isTerm_of_word i.word, (Where.isTerm_of_word i.word).comma⟩

theorem mute_words (hK : K ∈ "WHERE" :: featureWords) : ∀ w ∈ t.words, Mute K w := by
  have hkeyword : ∀ K ∈ "WHERE" :: featureWords, IsKeyword K.toList ∧ K ∈ reservedWords ∧
      ∀ w ∈ ["SELECT", "FROM", "GROUP", "BY"], Mute K w.toList := by decide
  obtain ⟨hletters, hreserved, hwords⟩ := hkeyword K hK
  refine t.forall_words hwords (fun i hi => ⟨?_, ?_⟩) (t.mute_call hletters)
  · exact mute_identifier (t.free i hi K hreserved)
  · exact mute_concat hletters (by decide) (featureless_comma i).solid

/-! ### What is read -/

theorem statementKind?_words : statementKind? (unwords t.words) = some "SELECT" := by
  have hterms := t.isTerm_words
  have hplain : ∀ c ∈ ['.', ':', '\''], Where.isNameChar c = false := by decide
  rw [words, listWords_items] at hterms ⊢
  generalize t.listed = listed at hterms ⊢
  cases listed with
  | none =>
    refine statementKind?_unwords (by decide) (forall_mem_cons.mp hterms).2 ?_ (.inl ?_)
    · exact t.forall_call (by decide) (by decide) fun i => i.avoids hplain
    · rw [call_eq_concat]
      exact spells_concat (by decide) (by decide) _
  | some i =>
    exact statementKind?_unwords (by decide) (forall_mem_cons.mp hterms).2
      (forall_mem_append.mpr ⟨i.avoids hplain, forall_mem_singleton.mpr (by decide)⟩)
      (.inl (spells_concat (by decide) (by decide) i.chars))

theorem tableOfKind?_words : tableOfKind? (some "SELECT") (unwords t.words) = some t.table.table := by
  have hterms := t.isTerm_words
  have hbefore : ∀ w ∈ "SELECT".toList :: listWords t.items, closesWith "FROM".toList w = false := by
    refine forall_mem_cons.mpr ⟨by decide, ?_⟩
    rw [listWords_items, forall_mem_append, call_eq_concat]
    refine ⟨fun w hw => ?_, forall_mem_singleton.mpr (closesWith_concat (by decide) (by decide) _)⟩
    obtain ⟨i, -, rfl⟩ := Option.map_eq_some_iff.mp (Option.mem_toList.mp hw)
    exact closesWith_concat (by decide) (by decide) i.chars
  rw [words, ← cons_append] at hterms ⊢
  exact tableOfKind?_name (rfl : tablePatterns "SELECT" = _ :: _) (by decide) hterms hbefore (by decide)

theorem isItem_call : IsItem t.call where
  whole := by
    have hmarks : ∀ K ∈ SelectList.totals, ∀ c ∈ K.toList, c ∉ listMarks := by decide
    refine whole_applied (hmarks _ t.isTotal) ?_
    rw [argument]
    cases t.column with
    | none => decide
    | some i => exact i.avoids (by decide)
  trimmed := strip_eq_self_of_solid t.solid_call

theorem opensWith_call : opensWith "FROM".toList t.call = false := by
  have hhead : ∀ K ∈ SelectList.totals, K.toList ≠ [] ∧ K.toList.head?.any (sameLetter 'F') = false := by decide
  obtain ⟨hne, hother⟩ := hhead _ t.isTotal
  obtain ⟨c, r, hname⟩ := exists_cons_of_ne_nil hne
  rw [hname, head?_cons, Option.any_some] at hother
  rw [call, hname]
  simp [opensWith, spells, hother]

theorem read_words : read (unwords t.words) = t.items.map fun f => ⟨String.ofList f, none⟩ := by
  have hterms := t.isTerm_words
  have hitems : ∀ s ∈ t.items, IsItem s ∧ s ≠ [] ∧ Solid s :=
    t.forall_items (fun i => ⟨i.isItem, i.ne_nil, fun _ => i.solid⟩)
      ⟨t.isItem_call, t.isTerm_call.ne_nil, t.solid_call⟩
  have hne : t.items ≠ [] := by simp [items]
  rw [words, read_unwords (forall_mem_cons.mp hterms).2 (by simp [listWords_items]) ?_ (by decide),
    unwords_listWords]
  · refine readItems_map (fun hstar => ?_) (splitValues_commaList hne fun s hs => (hitems s hs).1)
      fun s hs => (hitems s hs).2.2
    have hmem : '(' ∈ commaList t.items := by
      rw [items]
      cases t.listed <;> simp [commaList, call]
    obtain ⟨-, htrimmed⟩ := strip_commaList hne fun s hs => ⟨(hitems s hs).2.1, (hitems s hs).1.trimmed⟩
    rw [htrimmed] at hstar
    rw [hstar] at hmem
    exact absurd hmem (by decide)
  · rw [listWords_items]
    cases t.listed with
    | none => simp
    | some i => simpa using t.opensWith_call

/-! ### What is called -/

theorem call_occurs {x y : List Char} (hx : ∀ c ∈ x.getLast?, isWord c = false)
    (hplain : ∀ c ∈ x ++ y, c.toNat < 128 ∧ c ≠ '(') : Call.occurs (x ++ t.call ++ y) = false := by
  have hname : ∀ K ∈ SelectList.totals, K.toList ≠ [] ∧ '(' ∉ K.toList ∧ (∀ c ∈ K.toList, isWord c) ∧
      ∀ f ∈ Builtin.all, f.name.toList ≠ upper K := by decide
  obtain ⟨hne, hflat, hword, hother⟩ := hname _ t.isTotal
  have hargument : '(' ∉ t.argument := by
    rw [argument]
    cases t.column with
    | none => decide
    | some i => exact i.not_mem (by decide)
  have hascii : ∀ c ∈ t.call, c.toNat < 128 := t.forall_call (by decide) (by decide) fun i _ => i.ascii
  have htext : x ++ t.call ++ y = x ++ t.function.toList ++ '(' :: (t.argument ++ ')' :: y) := by
    simp [call]
  rw [htext]
  refine call_occurs_of_word ?_ ?_ hx hne hword hother
  · simp only [mem_append, mem_cons] at hplain hascii ⊢
    rintro c ((hc | hc) | hc | rfl | hc)
    · exact (hplain c (.inl hc)).1
    · exact hascii c (by simp [call, hc])
    · exact hascii c (by simp [call, hc])
    · decide
    · exact (hplain c (.inr hc)).1
  · simp only [mem_append, mem_cons] at hplain ⊢
    rintro ((hc | hc) | hc | hc | hc)
    · exact (hplain _ (.inl hc)).2 rfl
    · exact hflat hc
    · exact hargument hc
    · exact absurd hc (by decide)
    · exact (hplain _ (.inr hc)).2 rfl

theorem call_occurs_text : Call.occurs t.text = false := by
  have hword : ∀ s ∈ ["SELECT ", ", ", " FROM ", " GROUP BY "], ∀ c ∈ s.toList, c.toNat < 128 ∧ c ≠ '(' := by
    decide
  have hname : ∀ (i : Identifier), ∀ c ∈ i.chars, c.toNat < 128 ∧ c ≠ '(' :=
    fun i c hc => ⟨i.ascii hc, fun heq => i.not_mem (by decide) (heq ▸ hc)⟩
  obtain ⟨x, hx, hlist, hlast⟩ : ∃ x, (∀ c ∈ x, c.toNat < 128 ∧ c ≠ '(') ∧
      "SELECT ".toList ++ commaList t.items = x ++ t.call ∧ ∀ c ∈ x.getLast?, isWord c = false := by
    rw [items]
    cases t.listed with
    | none =>
      refine ⟨"SELECT ".toList, hword _ (by simp), rfl, ?_⟩
      rintro c ⟨⟩
      decide
    | some i =>
      refine ⟨"SELECT ".toList ++ i.chars ++ ", ".toList, ?_, by simp [commaList], ?_⟩
      · simp only [forall_mem_append]
        exact ⟨⟨hword _ (by simp), hname i⟩, hword _ (by simp)⟩
      · rw [getLast?_append_of_ne_nil _ (by decide)]
        rintro c ⟨⟩
        decide
  have hgroup : ∀ c ∈ t.group.elim [] fun g => " GROUP BY ".toList ++ g.chars, c.toNat < 128 ∧ c ≠ '(' := by
    cases t.group with
    | none => simp
    | some g => exact forall_mem_append.mpr ⟨hword _ (by simp), hname g⟩
  have hassoc : ∀ a b c d : List Char, a ++ b ++ c ++ d = a ++ (b ++ (c ++ d)) := by simp
  have htext : t.text = x ++ t.call ++ (" FROM ".toList ++ (t.table.chars ++
      t.group.elim [] fun g => " GROUP BY ".toList ++ g.chars)) := by
    rw [← hlist]
    exact hassoc _ _ _ _
  rw [htext]
  refine t.call_occurs hlast ?_
  simp only [forall_mem_append]
  exact ⟨hx, hword _ (by simp), hname t.table, hgroup⟩

end Tally

/-- **A total is looked for as a field.** -/
theorem plan_tally (t : Tally) (p : Planner) :
    (p.plan t.text).1 = .ok (findPlan t.table.table [] (shownFields t.items)) := by
  have hterms := t.isTerm_words
  have hne : t.words ≠ [] := by simp [Tally.words]
  have hmute : ∀ {K : String}, K ∈ "WHERE" :: featureWords → ∀ w ∈ t.words, Mute K w := t.mute_words
  have hitems : ∀ i ∈ t.items.map (fun f => (⟨String.ofList f, none⟩ : SelectItem)),
      Call.occurs i.field.toList = false ∧ i.field ≠ "*" := by
    rw [forall_mem_map]
    have hstar : ∀ s : List Char, s ≠ ['*'] → String.ofList s ≠ "*" := fun s hne heq =>
      hne (String.ofList_injective (heq.trans rfl))
    refine t.forall_items (fun i => ⟨?_, hstar _ ?_⟩) ⟨?_, hstar _ ?_⟩
    · rw [String.toList_ofList]
      exact call_occurs_of_flat (fun _ => i.ascii) (i.not_mem (by decide))
    · exact fun heq => i.not_mem (by decide : Where.isNameChar '*' = false) (by rw [heq]; simp)
    · simpa using t.call_occurs (x := []) (y := []) (by simp) (by simp)
    · exact fun heq => absurd t.paren_mem_call (by rw [heq]; decide)
  have hshown : shownItems (t.items.map fun f => ⟨String.ofList f, none⟩) = shownFields t.items := by
    simp [shownItems, shownFields, shownName, Function.comp_def]
  have hnodup : t.items.Nodup := by
    rw [Tally.items]
    cases t.listed with
    | none => simp
    | some i => simpa using fun heq : i.chars = t.call =>
        i.not_mem (by decide) (heq ▸ t.paren_mem_call : '(' ∈ i.chars)
  have hplan := plan_search t.statementKind?_words t.tableOfKind?_words ?_ (fun hcall => ?_)
    (Mute.union_occurs (hmute (by decide))) (Mute.join_occurs (hmute (by decide)))
    (Mute.having_occurs (hmute (by decide))) (Mute.distinct_occurs (hmute (by decide)))
    (Mute.order_read hterms hne (hmute (by decide))) t.read_words (by simp [Tally.items]) hitems p
  · rw [Mute.limit_read hterms hne (hmute (by decide)), Mute.filter_eq_nil hterms hne (hmute (by decide)),
      hshown, Document.ofMembers, merge_shownFields hnodup, t.unwords_words] at hplan
    exact hplan
  · exact t.table.table_ne_empty
  · rw [t.unwords_words, t.call_occurs_text] at hcall
    cases hcall

/-- Counted rows in groups are planned as a search. -/
theorem plan_tally_counted : ∃ t : Tally, t.text = "SELECT g, COUNT(*) FROM t GROUP BY g".toList ∧
    (Planner.empty.plan t.text).1 = .ok (findPlan "t" [] [("g", .int 1), ("COUNT(*)", .int 1)]) := by
  let g : Identifier := ⟨['g'], by decide, by decide⟩
  let t : Tally := ⟨"COUNT", by decide, none, ⟨['t'], by decide, by decide⟩, some g, some g, by decide⟩
  have htable : t.table.table = "t" := by decide
  have hitems : t.items = ["g".toList, "COUNT(*)".toList] := by decide
  refine ⟨t, by decide, ?_⟩
  rw [plan_tally t Planner.empty, htable, hitems]
  simp only [shownFields, map_cons, map_nil, String.ofList_toList]

end SqlGateway.Plan
