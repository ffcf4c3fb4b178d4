import SqlGateway.Proofs.Sql.SelectList

/-!
# Lists of columns with other names

A column may be given another name behind `AS`.
`read_columnWords` says **which columns are read, and under which names**.
-/

namespace SqlGateway.Sql

open Text Pattern Where SelectList List

/-- A selected column, perhaps with another name. -/
structure SelectColumn where
  source : Identifier
  byname : Option Identifier

variable {c : SelectColumn} {cs : List SelectColumn} {i : SelectItem} {P : List Char → Prop}

namespace SelectColumn

def names (c : SelectColumn) : List Identifier :=
  c.source :: c.byname.toList

def words (c : SelectColumn) : List (List Char) :=
  c.source.chars :: c.byname.elim [] fun a => ["AS", a.chars]

def chars (c : SelectColumn) : List Char :=
  unwords c.words

def endedWords (c : SelectColumn) : List (List Char) :=
  c.byname.elim [c.source.chars ++ [',']] fun a => [c.source.chars, "AS", a.chars ++ [',']]

def item (c : SelectColumn) : SelectItem :=
  ⟨c.source.name, c.byname.map Identifier.name⟩

/-- No name of the column begins with `FROM`. -/
def Calm (c : SelectColumn) : Prop :=
  ∀ i ∈ c.names, opensWith "FROM" i.chars = false

theorem endedWords_ne_nil (c : SelectColumn) : c.endedWords ≠ [] := by
  rw [endedWords]
  cases c.byname <;> simp

theorem unwords_endedWords (c : SelectColumn) : unwords c.endedWords = c.chars ++ [','] := by
  obtain ⟨source, byname⟩ := c
  cases byname with
  | none => rfl
  | some a => simp [endedWords, chars, words, unwords]

end SelectColumn

/-! ### The words of a list -/

def columnWords : List SelectColumn → List (List Char)
  | [] => []
  | [c] => c.words
  | c :: d :: cs => c.endedWords ++ columnWords (d :: cs)

theorem columnWords_append (d : SelectColumn) (cs : List SelectColumn) : ∀ l : List SelectColumn,
    columnWords (l ++ d :: cs) = l.flatMap SelectColumn.endedWords ++ columnWords (d :: cs)
  | [] => rfl
  | [c] => by simp [columnWords]
  | c :: c' :: l => by
    rw [cons_append, cons_append, columnWords, ← cons_append, columnWords_append d cs (c' :: l)]
    simp

theorem unwords_ended {t : List (List Char)} (ht : t ≠ []) : ∀ l : List SelectColumn,
    unwords (l.flatMap SelectColumn.endedWords ++ t) = commaList (l.map SelectColumn.chars ++ [unwords t])
  | [] => rfl
  | c :: l => by
    obtain ⟨s, r, hr⟩ : ∃ s r, l.map SelectColumn.chars ++ [unwords t] = s :: r :=
      exists_cons_of_ne_nil (by simp)
    rw [flatMap_cons, append_assoc, unwords_append c.endedWords_ne_nil (by simp [ht]), c.unwords_endedWords,
      unwords_ended ht l, map_cons, cons_append, hr, commaList]
    simp

theorem unwords_ended_comma : ∀ {l : List SelectColumn}, l ≠ [] →
    unwords (l.flatMap SelectColumn.endedWords) = commaList (l.map SelectColumn.chars) ++ [',']
  | [], h => absurd rfl h
  | [c], _ => by simp [c.unwords_endedWords, commaList]
  | c :: d :: l, _ => by
    rw [flatMap_cons, unwords_append c.endedWords_ne_nil (by simp [d.endedWords_ne_nil]),
      c.unwords_endedWords, unwords_ended_comma (cons_ne_nil d l)]
    simp [commaList]

/-! ### Reading one column -/

theorem not_spans_of_solid {u v : List Char} (hu : Solid u) {u₁ u₂ : List Char} (hsplit : u = u₁ ++ u₂)
    (hne : u₂ ≠ []) {b : Option Char} {y : Cursor} : ¬ space.Spans ⟨b, u₂ ++ v⟩ y := by
  intro hspace
  obtain ⟨c, r, hcr, hc⟩ := head_of_spans_space hspace
  obtain ⟨d, u₂, rfl⟩ := exists_cons_of_ne_nil hne
  obtain ⟨rfl, -⟩ := cons.inj hcr
  have := hu d (by simp [hsplit])
  rw [hc] at this
  cases this

theorem inLine_of_mem (i : Identifier) : ∀ c ∈ i.chars, inLine c := by
  intro c hc
  rw [inLine, bne_iff_ne]
  rintro rfl
  exact i.not_mem (by decide) hc

theorem prefers_field (i : Identifier) {q : Pattern} {v : List Char} {k m : Kept}
    (h : (space ++ q).Prefers v (("field", ⟨i.chars ++ v, v⟩) :: k) [] m) :
    (keep "field" (few inLine) ++ (space ++ q)).Prefers (i.chars ++ v) k [] m := by
  refine prefers_few_first "field" (inLine_of_mem i) ?_ h
  rintro u₁ u₂ hsplit hne b y ⟨_, hspace, -⟩
  exact not_spans_of_solid (fun _ => i.solid) hsplit hne hspace

theorem prefers_byname {a v : List Char} (hne : a ≠ []) (hword : ∀ c ∈ a, isWord c)
    (hv : v = [' '] ++ (a ++ [])) (k : Kept) :
    (space ++ (keep "alias" (many1 isWord) ++ finish)).Prefers v k [] (("alias", ⟨a ++ [], []⟩) :: k) := by
  have hhead : ∀ c ∈ (a ++ []).head?, isBlank c = false := head_solid_append hne
    (fun c hc => isBlank_of_isWord (hword c hc)) []
  rw [hv]
  exact (prefers_many1 (by simp) (by simp) hhead k).append
    (((prefers_many1 hne hword (by simp) k).keep "alias").append (prefers_finish _))

theorem read_of_match {i : Identifier} {a s : List Char} {m : Match} (ha : strip a = a)
    (hm : (SelectItem.renamedPattern.find? s <|> SelectItem.followedPattern.find? s) = some m)
    (hfield : m.get "field" = i.chars) (hname : m.get "alias" = a) :
    SelectItem.read s = ⟨i.name, some (String.ofList a)⟩ := by
  rw [SelectItem.read, hm]
  show SelectItem.mk (String.ofList (strip (m.get "field"))) (some (String.ofList (strip (m.get "alias")))) = _
  rw [hfield, hname, i.trimmed, ha]
  rfl

/-- **A column and its other name are read.** -/
theorem read_renamed (i a : Identifier) :
    SelectItem.read (unwords [i.chars, "AS", a.chars]) = ⟨i.name, some a.name⟩ := by
  obtain ⟨w, hw⟩ : ∃ w, w = [' '] ++ (a.chars ++ []) := ⟨_, rfl⟩
  obtain ⟨v, hv⟩ : ∃ v, v = [' '] ++ ("AS" ++ w) := ⟨_, rfl⟩
  have htext : unwords [i.chars, "AS", a.chars] = i.chars ++ v := by
    rw [hv, hw]
    simp [unwords]
  have hprefers : SelectItem.renamedPattern.Prefers (i.chars ++ v) [] []
      [("alias", ⟨a.chars ++ [], []⟩), ("field", ⟨i.chars ++ v, v⟩)] := by
    rw [SelectItem.renamedPattern, prefers_assoc, prefers_assoc, prefers_assoc, prefers_assoc]
    refine prefers_field i ?_
    rw [hv]
    exact (prefers_many1 (by simp) (by simp) (by simp; decide) _).append
      ((prefers_lit (by decide) _ _).append (prefers_byname a.ne_nil (fun _ => a.isWord_of_mem) hw _))
  rw [htext]
  exact read_of_match a.trimmed (congrArg (· <|> _) hprefers.find?_here) (pieceBefore_append i.chars v)
    (pieceBefore_append a.chars [])

theorem read_cut (i : Identifier) : SelectItem.read (unwords [i.chars, "AS"]) = ⟨i.name, some "AS"⟩ := by
  obtain ⟨v, hv⟩ : ∃ v, v = [' '] ++ ("AS".toList ++ []) := ⟨_, rfl⟩
  have hsolid : ∀ w ∈ [i.chars, "AS"], Solid w := by
    simpa using ⟨fun _ => i.solid, (by decide : Solid "AS")⟩
  have htext : unwords [i.chars, "AS"] = i.chars ++ v := by
    rw [hv]
    simp [unwords]
  -- there is one blank only
  have hrenamed : SelectItem.renamedPattern.find? (unwords [i.chars, "AS"]) = none := by
    refine find?_eq_none ?_
    rintro u r b y hur ⟨_, ⟨_, ⟨z₁, ⟨z₂, ⟨z₃, hfield, hspace⟩, hlit⟩, hspace'⟩, -⟩, -⟩
    obtain ⟨g, hg, hblank, hrest⟩ := exists_of_spans_many1 hspace
    obtain ⟨c, g, rfl⟩ := exists_cons_of_ne_nil hg
    obtain ⟨d, r', hr', hd⟩ := head_of_spans_space hspace'
    obtain ⟨t, ht⟩ : z₃.rest <:+ r := suffix_of_spans hfield
    have hsplit : unwords [i.chars, "AS"] = (u ++ t) ++ c :: (g ++ z₂.rest) := by
      rw [hur, ← ht, hrest]
      simp
    obtain ⟨ws₁, ws₂, hws, hne₁, hne₂, -, hlast⟩ := exists_of_unwords_eq (hblank c (by simp)) hsolid hsplit
    obtain ⟨w, ws₁, rfl⟩ := exists_cons_of_ne_nil hne₁
    obtain rfl : ws₁ = [] := by
      cases ws₁ with
      | nil => rfl
      | cons x ws₁ => simp_all
    obtain rfl : ["AS".toList] = ws₂ := (cons.inj hws).2
    have hmem : d ∈ "AS".toList := by
      have hsuffix : z₁.rest <:+ g ++ z₂.rest := (suffix_of_spans hlit).trans (suffix_append g _)
      rw [hlast, hr'] at hsuffix
      exact hsuffix.subset (by simp)
    rw [(by decide : Solid "AS".toList) d hmem] at hd
    cases hd
  have hprefers : SelectItem.followedPattern.Prefers (i.chars ++ v) [] []
      [("alias", ⟨"AS".toList ++ [], []⟩), ("field", ⟨i.chars ++ v, v⟩)] := by
    exact prefers_field i (prefers_byname (by decide) (by decide) hv _)
  rw [htext] at hrenamed ⊢
  exact read_of_match (by decide) ((congrArg (· <|> _) hrenamed).trans hprefers.find?_here)
    (pieceBefore_append i.chars v) (pieceBefore_append "AS".toList [])

/-! ### Which columns are read -/

def SelectColumn.readThen (c : SelectColumn) (rest : List SelectItem) : List SelectItem :=
  if c.byname.any fun a => opensWith "FROM" a.chars then [⟨c.source.name, some "AS"⟩]
  else c.item :: rest

def readRest : List SelectColumn → List SelectItem
  | [] => []
  | c :: cs => if opensWith "FROM" c.source.chars then [⟨"", none⟩] else c.readThen (readRest cs)

def readList : List SelectColumn → List SelectItem
  | [] => []
  | c :: cs => c.readThen (readRest cs)

/-- A column is read as it is meant, unless its other name begins with `FROM`. -/
theorem SelectColumn.readThen_cases (c : SelectColumn) (rest : List SelectItem) :
    ((∀ a ∈ c.byname, opensWith "FROM" a.chars = false) ∧ c.readThen rest = c.item :: rest) ∨
    ∃ a, c.byname = some a ∧ opensWith "FROM" a.chars ∧
      c.readThen rest = [⟨c.source.name, some "AS"⟩] := by
  obtain ⟨source, byname⟩ := c
  cases byname with
  | none => exact .inl ⟨by simp, rfl⟩
  | some a =>
    cases hopens : opensWith "FROM" a.chars with
    | true => exact .inr ⟨a, rfl, hopens, by rw [readThen, Option.any_some, hopens]; rfl⟩
    | false => exact .inl ⟨by simpa using hopens, by rw [readThen, Option.any_some, hopens]; rfl⟩

theorem SelectColumn.calm_of (hsource : opensWith "FROM" c.source.chars = false)
    (hbyname : ∀ a ∈ c.byname, opensWith "FROM" a.chars = false) : c.Calm :=
  forall_mem_cons.mpr ⟨hsource, fun a ha => hbyname a (Option.mem_toList.mp ha)⟩

theorem readRest_cases (cs : List SelectColumn) :
    ((∀ c ∈ cs, c.Calm) ∧ readRest cs = cs.map SelectColumn.item) ∨
    (∃ (l : List SelectColumn) (d : SelectColumn) (l' : List SelectColumn), cs = l ++ d :: l' ∧
      (∀ c ∈ l, c.Calm) ∧ opensWith "FROM" d.source.chars ∧
      readRest cs = l.map SelectColumn.item ++ [⟨"", none⟩]) ∨
    ∃ (l : List SelectColumn) (d : SelectColumn) (a : Identifier) (l' : List SelectColumn), cs = l ++ d :: l' ∧
      (∀ c ∈ l, c.Calm) ∧ opensWith "FROM" d.source.chars = false ∧
      d.byname = some a ∧ opensWith "FROM" a.chars ∧
      readRest cs = l.map SelectColumn.item ++ [⟨d.source.name, some "AS"⟩] := by
  induction cs with
  | nil => exact .inl ⟨by simp, rfl⟩
  | cons c cs ih =>
    cases hsource : opensWith "FROM" c.source.chars with
    | true => exact .inr (.inl ⟨[], c, cs, rfl, by simp, hsource, by rw [readRest, hsource]; rfl⟩)
    | false =>
      have hread : readRest (c :: cs) = c.readThen (readRest cs) := by
        rw [readRest, hsource]
        rfl
      rcases c.readThen_cases (readRest cs) with ⟨hbyname, hthen⟩ | ⟨a, ha, hopens, hthen⟩
      · have hcalm : ∀ {l : List SelectColumn}, (∀ d ∈ l, d.Calm) → ∀ d ∈ c :: l, d.Calm := fun hl =>
          forall_mem_cons.mpr ⟨SelectColumn.calm_of hsource hbyname, hl⟩
        rw [hread, hthen]
        rcases ih with ⟨hall, hrest⟩ | ⟨l, d, l', rfl, hall, hd, hrest⟩ |
          ⟨l, d, a, l', rfl, hall, hd, ha, hopens, hrest⟩
        · exact .inl ⟨hcalm hall, by rw [hrest]; rfl⟩
        · exact .inr (.inl ⟨c :: l, d, l', rfl, hcalm hall, hd, by rw [hrest]; rfl⟩)
        · exact .inr (.inr ⟨c :: l, d, a, l', rfl, hcalm hall, hd, ha, hopens, by rw [hrest]; rfl⟩)
      · exact .inr (.inr ⟨[], c, a, cs, rfl, by simp, hsource, ha, hopens, by rw [hread, hthen]; rfl⟩)

theorem readList_ne_nil (hne : cs ≠ []) : readList cs ≠ [] := by
  obtain ⟨c, cs, rfl⟩ := exists_cons_of_ne_nil hne
  rcases c.readThen_cases (readRest cs) with ⟨-, hthen⟩ | ⟨-, -, -, hthen⟩
  · simp [readList, hthen]
  · simp [readList, hthen]

theorem SelectColumn.mem_readThen {rest : List SelectItem} (hi : i ∈ c.readThen rest) :
    i.field = c.source.name ∨ i ∈ rest := by
  rcases c.readThen_cases rest with ⟨-, hthen⟩ | ⟨-, -, -, hthen⟩
  · rw [hthen, mem_cons] at hi
    exact hi.imp_left (congrArg SelectItem.field)
  · rw [hthen, mem_singleton] at hi
    exact .inl (congrArg SelectItem.field hi)

theorem field_of_mem_readRest (hi : i ∈ readRest cs) : i.field = "" ∨ ∃ c ∈ cs, i.field = c.source.name := by
  induction cs with
  | nil => cases hi
  | cons c cs ih =>
    rw [readRest] at hi
    split at hi
    · exact .inl (congrArg SelectItem.field (mem_singleton.mp hi))
    · rcases c.mem_readThen hi with h | h
      · exact .inr ⟨c, by simp, h⟩
      · exact (ih h).imp_right fun ⟨d, hd, hfield⟩ => ⟨d, mem_cons_of_mem _ hd, hfield⟩

theorem field_of_mem_readList (hi : i ∈ readList cs) : i.field = "" ∨ ∃ c ∈ cs, i.field = c.source.name := by
  cases cs with
  | nil => cases hi
  | cons c cs =>
    rcases c.mem_readThen hi with h | h
    · exact .inr ⟨c, by simp, h⟩
    · exact (field_of_mem_readRest h).imp_right fun ⟨d, hd, hfield⟩ => ⟨d, mem_cons_of_mem _ hd, hfield⟩

/-! ### The items -/

theorem SelectColumn.forall_words (hname : ∀ i ∈ c.names, P i.chars ∧
    P (i.chars ++ [','])) (has : P "AS") : (∀ w ∈ c.words, P w) ∧ ∀ w ∈ c.endedWords, P w := by
  obtain ⟨source, byname⟩ := c
  cases byname with
  | none => simpa [words, endedWords, names] using hname
  | some a =>
    obtain ⟨⟨hsource, -⟩, ⟨ha, hcomma⟩, -⟩ := by
      simpa only [names, Option.toList_some, forall_mem_cons] using hname
    simpa [words, endedWords] using ⟨⟨hsource, has, ha⟩, hsource, has, hcomma⟩

theorem forall_columnWords (has : P "AS") : ∀ {cs : List SelectColumn},
    (∀ c ∈ cs, ∀ i ∈ c.names, P i.chars ∧ P (i.chars ++ [','])) → ∀ w ∈ columnWords cs, P w
  | [], _ => by simp [columnWords]
  | [c], h => (SelectColumn.forall_words (h c (by simp)) has).1
  | c :: d :: cs, h => by
    rw [columnWords, forall_mem_append]
    exact ⟨(SelectColumn.forall_words (h c (by simp)) has).2, forall_columnWords has (forall_mem_cons.mp h).2⟩

theorem isItem_unwords {ws : List (List Char)} (hne : ws ≠ [])
    (h : ∀ w ∈ ws, w = "AS" ∨ ∃ i : Identifier, w = i.chars) :
    IsItem (unwords ws) ∧ '*' ∉ unwords ws := by
  have hword : ∀ w ∈ ws, w ≠ [] ∧ Solid w ∧ ∀ c ∈ w, c ∉ '*' :: listMarks := by
    intro w hw
    rcases h w hw with rfl | ⟨i, rfl⟩
    · decide
    · exact ⟨i.ne_nil, fun _ => i.solid, i.avoids (by decide)⟩
  have hmarks : ∀ c ∈ unwords ws, c ∉ '*' :: listMarks := by
    intro c hc
    rcases mem_unwords hc with rfl | ⟨w, hw, hc⟩
    · decide
    · exact (hword w hw).2.2 c hc
  refine ⟨⟨whole_of_plain fun c hc hmark => hmarks c hc (mem_cons_of_mem _ hmark), ?_⟩,
    fun hstar => hmarks _ hstar (by simp)⟩
  exact (strip_unwords hne fun w hw => ⟨(hword w hw).1, (hword w hw).2.1⟩).2

theorem SelectColumn.read_chars (c : SelectColumn) : SelectItem.read c.chars = c.item := by
  obtain ⟨source, byname⟩ := c
  cases byname with
  | none => exact read_solid fun _ => source.solid
  | some a => exact read_renamed source a

theorem SelectColumn.isItem (c : SelectColumn) : IsItem c.chars ∧ '*' ∉ c.chars := by
  refine isItem_unwords (by simp [words]) ?_
  obtain ⟨source, byname⟩ := c
  cases byname <;> simp [words]

theorem strip_ne_star {s : List Char} (h : '*' ∉ s) : strip s ≠ ['*'] :=
  fun hstar => h (mem_of_mem_strip (by rw [hstar]; simp))

theorem map_read_chars (cs : List SelectColumn) :
    (cs.map SelectColumn.chars).map SelectItem.read = cs.map SelectColumn.item := by
  rw [map_map]
  exact map_congr_left fun c _ => c.read_chars

theorem readItems_columns {last : List (List Char)} (hne : cs.map SelectColumn.chars ++ last ≠ [])
    (hlast : ∀ s ∈ last, IsItem s ∧ '*' ∉ s) : readItems (commaList (cs.map SelectColumn.chars ++ last)) =
      cs.map SelectColumn.item ++ last.map SelectItem.read := by
  have hitems : ∀ s ∈ cs.map SelectColumn.chars ++ last, IsItem s ∧ '*' ∉ s := by
    rw [forall_mem_append, forall_mem_map]
    exact ⟨fun c _ => c.isItem, hlast⟩
  rw [readItems_split (strip_ne_star (not_mem_commaList (by decide) fun s hs => (hitems s hs).2))
    (splitValues_commaList hne fun s hs => (hitems s hs).1), map_append, map_read_chars]

theorem readItems_columns_comma (hne : cs ≠ []) :
    readItems (commaList (cs.map SelectColumn.chars) ++ [',']) = cs.map SelectColumn.item ++ [⟨"", none⟩] := by
  have hstar : '*' ∉ commaList (cs.map SelectColumn.chars) :=
    not_mem_commaList (by decide) (forall_mem_map.mpr fun c _ => c.isItem.2)
  rw [readItems_split (strip_ne_star (by simpa using hstar)) (splitValues_comma (by simpa using hne)
    (forall_mem_map.mpr fun c _ => c.isItem.1)), map_append, map_read_chars, map_singleton,
    read_solid solid_nil]

/-! ### The list -/

theorem opensWith_ended {w : List Char} {i : Identifier} (h : w = i.chars ∨ w = i.chars ++ [',']) :
    opensWith "FROM" w = opensWith "FROM" i.chars := by
  rcases h with rfl | rfl
  · rfl
  · exact opensWith_concat (by decide) (by decide) i.chars

theorem SelectColumn.Calm.opensWith (h : c.Calm) : (∀ w ∈ c.words, opensWith "FROM" w = false) ∧
      ∀ w ∈ c.endedWords, opensWith "FROM" w = false :=
  c.forall_words (fun i hi => ⟨h i hi, (opensWith_ended (.inr rfl)).trans (h i hi)⟩) (by decide)

theorem SelectColumn.opensWith_tail (h : ∀ a ∈ c.byname, opensWith "FROM" a.chars = false) :
    (∀ w ∈ c.words.tail, opensWith "FROM" w = false) ∧
      ∀ w ∈ c.endedWords.tail, opensWith "FROM" w = false := by
  obtain ⟨source, byname⟩ := c
  cases byname with
  | none => simp [words, endedWords]
  | some a =>
    have ha := h a rfl
    have hcomma := (opensWith_ended (.inr rfl)).trans ha
    have has : opensWith "FROM" "AS" = false := by decide
    exact ⟨by simpa [words] using ⟨has, ha⟩, by simpa [endedWords] using ⟨has, hcomma⟩⟩

theorem opensWith_columnWords (hbyname : ∀ a ∈ c.byname, opensWith "FROM" a.chars = false)
    (h : ∀ d ∈ cs, d.Calm) : ∀ w ∈ (columnWords (c :: cs)).tail, opensWith "FROM" w = false := by
  cases cs with
  | nil => exact (SelectColumn.opensWith_tail hbyname).1
  | cons d cs =>
    rw [columnWords, tail_append_of_ne_nil c.endedWords_ne_nil, forall_mem_append]
    refine ⟨(SelectColumn.opensWith_tail hbyname).2, forall_columnWords (by decide) fun e he i hi => ?_⟩
    exact ⟨h e he i hi, (opensWith_ended (.inr rfl)).trans (h e he i hi)⟩

theorem exists_columnWords_cons (c : SelectColumn) (cs : List SelectColumn) :
    ∃ w ws, columnWords (c :: cs) = w :: ws ∧ (w = c.source.chars ∨ w = c.source.chars ++ [',']) ∧
      ∀ a ∈ c.byname, ∃ v vs, ws = "AS".toList :: v :: vs ∧ w = c.source.chars ∧
        (v = a.chars ∨ v = a.chars ++ [',']) := by
  obtain ⟨source, byname⟩ := c
  cases byname <;> cases cs <;> simp [columnWords, SelectColumn.words, SelectColumn.endedWords]

section

variable {b : List (List Char)} {d : SelectColumn}

theorem read_byname {l l' : List SelectColumn} {a : Identifier}
    (hterms : ∀ w ∈ columnWords (l ++ d :: l') ++ b, IsTerm w) (ha : d.byname = some a)
    (hopens : opensWith "FROM" a.chars)
    (hcalm : ∀ w ∈ (l.flatMap SelectColumn.endedWords ++ [d.source.chars, "AS"]).tail,
      opensWith "FROM" w = false) :
    read (unwords ("SELECT" :: (columnWords (l ++ d :: l') ++ b))) =
      l.map SelectColumn.item ++ [⟨d.source.name, some "AS"⟩] := by
  obtain ⟨w, ws, hwords, -, hbyname⟩ := exists_columnWords_cons d l'
  obtain ⟨v, vs, rfl, rfl, hv⟩ := hbyname a ha
  have hsplit : columnWords (l ++ d :: l') ++ b =
      (l.flatMap SelectColumn.endedWords ++ [d.source.chars, "AS".toList]) ++ v :: (vs ++ b) := by
    rw [columnWords_append, hwords]
    simp
  have hlast : ∀ s ∈ [unwords [d.source.chars, "AS"]], IsItem s ∧ '*' ∉ s :=
    forall_mem_singleton.mpr (isItem_unwords (by simp) (by simp))
  rw [hsplit] at hterms ⊢
  rw [read_unwords hterms (by simp) hcalm (by rw [opensWith_ended hv, hopens]),
    unwords_ended (by simp), readItems_columns (by simp) hlast, map_singleton, read_cut]

theorem read_source {l l' : List SelectColumn} (hne : l ≠ [])
    (hterms : ∀ w ∈ columnWords (l ++ d :: l') ++ b, IsTerm w)
    (hopens : opensWith "FROM" d.source.chars)
    (hcalm : ∀ w ∈ (l.flatMap SelectColumn.endedWords).tail, opensWith "FROM" w = false) :
    read (unwords ("SELECT" :: (columnWords (l ++ d :: l') ++ b))) =
      l.map SelectColumn.item ++ [⟨"", none⟩] := by
  obtain ⟨w, ws, hwords, hw, -⟩ := exists_columnWords_cons d l'
  have hsplit : columnWords (l ++ d :: l') ++ b = l.flatMap SelectColumn.endedWords ++ w :: (ws ++ b) := by
    rw [columnWords_append, hwords]
    simp
  have hne' : l.flatMap SelectColumn.endedWords ≠ [] := by
    obtain ⟨c, l, rfl⟩ := exists_cons_of_ne_nil hne
    simp [c.endedWords_ne_nil]
  rw [hsplit] at hterms ⊢
  rw [read_unwords hterms hne' hcalm (by rw [opensWith_ended hw, hopens]), unwords_ended_comma hne,
    readItems_columns_comma hne]

theorem read_all (hne : cs ≠ []) (hterms : ∀ w ∈ columnWords cs ++ "FROM".toList :: b, IsTerm w)
    (hcalm : ∀ w ∈ (columnWords cs).tail, opensWith "FROM" w = false) :
    read (unwords ("SELECT".toList :: (columnWords cs ++ "FROM".toList :: b))) =
      cs.map SelectColumn.item := by
  obtain ⟨l, d, rfl⟩ := (eq_nil_or_concat cs).resolve_left hne
  rw [concat_eq_append] at hterms hcalm ⊢
  have hwords : columnWords (l ++ [d]) = l.flatMap SelectColumn.endedWords ++ d.words := columnWords_append d [] l
  have hd : d.words ≠ [] := by simp [SelectColumn.words]
  have hlast : ∀ s ∈ [d.chars], IsItem s ∧ '*' ∉ s := forall_mem_singleton.mpr d.isItem
  rw [hwords] at hterms hcalm ⊢
  rw [read_unwords hterms (by simp [hd]) hcalm (by decide), unwords_ended hd,
    show unwords d.words = d.chars from rfl, readItems_columns (by simp) hlast, map_append,
    map_singleton, map_singleton, d.read_chars]

end

/-- **The columns that are read, and their names.** -/
theorem read_columnWords (hne : cs ≠ []) {b : List (List Char)} (hb : ∀ w ∈ b, IsTerm w) :
    read (unwords ("SELECT".toList :: (columnWords cs ++ "FROM".toList :: b))) = readList cs := by
  have hterms : ∀ w ∈ columnWords cs ++ "FROM".toList :: b, IsTerm w := by
    rw [forall_mem_append, forall_mem_cons]
    refine ⟨forall_columnWords (by decide) fun c _ i _ => ?_, by decide, hb⟩
    exact ⟨isTerm_of_word i.word, (isTerm_of_word i.word).comma⟩
  obtain ⟨c, cs, rfl⟩ := exists_cons_of_ne_nil hne
  rw [readList]
  rcases c.readThen_cases (readRest cs) with ⟨hbyname, hthen⟩ | ⟨a, ha, hopens, hthen⟩
  · -- the words of the columns up to one that is cut
    have hended : ∀ {l : List SelectColumn}, (∀ d ∈ l, d.Calm) → ∀ {t : List (List Char)},
        (∀ w ∈ t, opensWith "FROM" w = false) →
        ∀ w ∈ ((c :: l).flatMap SelectColumn.endedWords ++ t).tail, opensWith "FROM" w = false := by
      intro l hl t ht
      rw [flatMap_cons, append_assoc, tail_append_of_ne_nil c.endedWords_ne_nil,
        forall_mem_append, forall_mem_append]
      refine ⟨(SelectColumn.opensWith_tail hbyname).2, fun w hw => ?_, ht⟩
      obtain ⟨d, hd, hw⟩ := mem_flatMap.mp hw
      exact (hl d hd).opensWith.2 w hw
    rw [hthen]
    rcases readRest_cases cs with ⟨hall, hrest⟩ | ⟨l, d, l', rfl, hall, hd, hrest⟩ |
      ⟨l, d, a, l', rfl, hall, hd, ha, hopens, hrest⟩
    · rw [hrest]
      exact read_all hne hterms (opensWith_columnWords hbyname hall)
    · have hcalm := hended hall (t := []) (by simp)
      rw [append_nil] at hcalm
      rw [hrest]
      exact read_source (l := c :: l) (by simp) hterms hd hcalm
    · rw [hrest]
      exact read_byname (l := c :: l) hterms ha hopens (hended hall (by simpa using ⟨hd, by decide⟩))
  · rw [hthen]
    have has : opensWith "FROM" "AS" = false := by decide
    exact read_byname (l := []) hterms ha hopens (by simpa using has)

end SqlGateway.Sql
