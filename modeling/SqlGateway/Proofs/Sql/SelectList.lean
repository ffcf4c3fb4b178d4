import SqlGateway.Proofs.Sql.Insert
import SqlGateway.Proofs.Sql.Where.Stop
import SqlGateway.Sql.SelectList

/-!
# Lists of selected fields

The list goes on to the first `FROM` behind a blank, and this may be the beginning of a name.  **The fields
that are read are the written ones up to the first, behind the first of all, that begins with `FROM`**
(`read_listWords`).
-/

namespace SqlGateway.Sql.SelectList

open Text Pattern Where List

variable {s w : List Char} {b items a : List (List Char)}

/-! ### The words of a list -/

def listWords : List (List Char) → List (List Char)
  | [] => []
  | [f] => [f]
  | f :: g :: fs => (f ++ [',']) :: listWords (g :: fs)

theorem exists_listWords_cons (f : List Char) (fs : List (List Char)) :
    ∃ w, listWords (f :: fs) = w :: listWords fs ∧ (w = f ∨ w = f ++ [',']) := by
  cases fs with
  | nil => exact ⟨f, rfl, .inl rfl⟩
  | cons g fs => exact ⟨f ++ [','], rfl, .inr rfl⟩

theorem listWords_append {fs : List (List Char)} (hne : fs ≠ []) : ∀ l : List (List Char),
    listWords (l ++ fs) = l.map (· ++ [',']) ++ listWords fs
  | [] => rfl
  | f :: l => by
    obtain ⟨g, rest, hrest⟩ := exists_cons_of_ne_nil (append_ne_nil_of_right_ne_nil l hne)
    rw [cons_append, hrest, listWords, ← hrest, listWords_append hne l]
    rfl

theorem mem_listWords : ∀ {fs : List (List Char)}, w ∈ listWords fs → ∃ f ∈ fs, w = f ∨ w = f ++ [',']
  | [], h => by cases h
  | f :: fs, h => by
    obtain ⟨v, hv, hf⟩ := exists_listWords_cons f fs
    rw [hv] at h
    rcases mem_cons.mp h with rfl | h
    · exact ⟨f, by simp, hf⟩
    · obtain ⟨g, hg, hw⟩ := mem_listWords h
      exact ⟨g, mem_cons_of_mem _ hg, hw⟩

theorem unwords_listWords : ∀ fs : List (List Char), unwords (listWords fs) = commaList fs
  | [] => rfl
  | [_] => rfl
  | f :: g :: fs => by
    obtain ⟨w, hw, -⟩ := exists_listWords_cons g fs
    rw [listWords, unwords_cons (by rw [hw]; simp), unwords_listWords (g :: fs), commaList]
    simp

theorem unwords_map_comma : ∀ {fs : List (List Char)}, fs ≠ [] →
    unwords (fs.map (· ++ [','])) = commaList fs ++ [',']
  | [], h => absurd rfl h
  | [_], _ => rfl
  | f :: g :: fs, _ => by
    rw [map_cons, unwords_cons (by simp), unwords_map_comma (cons_ne_nil g fs), commaList]
    simp

/-! ### Where the list is found -/

/-- **The list of words** is everything behind its head before the first word that begins with `FROM`, the
first word of the list apart. -/
theorem find?_items {p : Pattern} {h : List Char}
    (hp : ∀ s : List Char, (∀ c ∈ s.head?, isBlank c = false) → p.Prefers (h ++ s) [] s [])
    (ha : ∀ w ∈ a, IsTerm w) (hne : a ≠ []) (hcalm : ∀ w ∈ a.tail, opensWith "FROM" w = false)
    (hw : opensWith "FROM" w) :
    ∃ m, (p ++ keep "items" (few anyChar) ++ space ++ lit "FROM").find? (h ++ unwords (a ++ w :: b)) = some m ∧
      m.get "items" = unwords a := by
  obtain ⟨k, x, rfl, hk⟩ := opensWith_iff.mp hw
  obtain ⟨t, ht, -⟩ := exists_unwords_cons (k ++ x) b
  have hkeyword : IsKeyword "FROM" := by decide
  have hwords : ∀ w ∈ a, w ≠ [] ∧ Solid w := fun w hw => ⟨(ha w hw).ne_nil, (ha w hw).solid⟩
  -- the list ends here
  obtain ⟨r, hr⟩ : ∃ r, r = [' '] ++ (k ++ (x ++ t)) := ⟨_, rfl⟩
  have htext : unwords (a ++ (k ++ x) :: b) = unwords a ++ r := by
    rw [unwords_append hne (by simp), ht, hr]
    simp
  obtain ⟨hkne, hsolid, -⟩ := hkeyword.of_spells hk
  have hend : (space ++ lit "FROM").Prefers r [("items", ⟨unwords a ++ r, r⟩)] (x ++ t)
      [("items", ⟨unwords a ++ r, r⟩)] := by
    rw [hr]
    exact (prefers_many1 (by simp) (by simp) (head_solid_append hkne hsolid _) _).append (prefers_lit hk _ _)
  have hblank : ∀ c ∈ r.head?, isBlank c := by
    rw [hr]
    simp
  have hprefers : (p ++ keep "items" (few anyChar) ++ (space ++ lit "FROM")).Prefers (h ++ (unwords a ++ r)) []
      (x ++ t) [("items", ⟨unwords a ++ r, r⟩)] := by
    refine prefers_few "items" (hp _ (head_unwords hwords hne r)) (fun _ _ => rfl) ?_ hend
    exact fun u₁ u₂ hsplit hne₂ d y => not_spans_opening ha hkeyword hcalm hblank hsplit hne₂ d y
  rw [htext]
  exact ⟨_, (prefers_assoc.mpr hprefers).find?_here, pieceBefore_append (unwords a) r⟩

theorem read_unwords (hterms : ∀ v ∈ a ++ w :: b, IsTerm v) (hne : a ≠ [])
    (hcalm : ∀ w ∈ a.tail, opensWith "FROM" w = false) (hw : opensWith "FROM" w) :
    read (unwords ("SELECT" :: (a ++ w :: b))) = readItems (unwords a) := by
  have hselect : IsTerm "SELECT" := by decide
  have ha : ∀ w ∈ a, IsTerm w := fun v hv => hterms v (mem_append_left _ hv)
  obtain ⟨-, htrim⟩ := unwords_trimmed (forall_mem_cons.mpr ⟨hselect, hterms⟩) (by simp)
  obtain ⟨m, hfind, hget⟩ := find?_items (p := lit "SELECT" ++ space) (h := "SELECT" ++ [' '])
    (fun s hs => by
      rw [append_assoc]
      exact (prefers_lit (by decide) _ []).append (prefers_many1 (by simp) (by simp) hs [])) ha hne hcalm hw
  have htext : unwords ("SELECT" :: (a ++ w :: b)) = "SELECT" ++ [' '] ++ unwords (a ++ w :: b) := by
    rw [unwords_cons (by simp), append_cons]
  rw [read, htrim, htext, listPattern, hfind]
  simp only [hget, (unwords_trimmed ha hne).2]

/-! ### The items of the list -/

theorem read_solid (h : Solid s) : SelectItem.read s = ⟨String.ofList s, none⟩ := by
  have hnone : ∀ {z y : Cursor}, z.rest <:+ s → ¬ space.Spans z y := by
    intro z y hz hspace
    obtain ⟨c, r, hcr, hc⟩ := head_of_spans_space hspace
    have := h c (hz.subset (by rw [hcr]; simp))
    rw [hc] at this
    cases this
  have hrenamed : SelectItem.renamedPattern.find? s = none := by
    refine find?_eq_none ?_
    rintro u v b y huv ⟨_, ⟨_, ⟨_, ⟨_, ⟨z, hfield, hspace⟩, -⟩, -⟩, -⟩, -⟩
    exact hnone ((suffix_of_spans hfield).trans ⟨u, huv.symm⟩) hspace
  have hfollowed : SelectItem.followedPattern.find? s = none := by
    refine find?_eq_none ?_
    rintro u v b y huv ⟨_, ⟨_, ⟨z, hfield, hspace⟩, -⟩, -⟩
    exact hnone ((suffix_of_spans hfield).trans ⟨u, huv.symm⟩) hspace
  rw [SelectItem.read, hrenamed, hfollowed]
  rfl

theorem readItems_split (hstar : strip s ≠ ['*']) (hsplit : splitValues s = items) :
    readItems s = items.map .read := by
  rw [readItems, if_neg (by simpa using hstar), hsplit]

theorem readItems_map (hstar : strip s ≠ ['*']) (hsplit : splitValues s = items)
    (hsolid : ∀ i ∈ items, Solid i) : readItems s = items.map fun i => ⟨String.ofList i, none⟩ := by
  rw [readItems_split hstar hsplit]
  exact map_congr_left fun i hi => read_solid (hsolid i hi)

/-! ### The fields that are read -/

/-- The names up to the first that begins with `FROM`, for which an empty one is read. -/
def cutNames : List (List Char) → List (List Char)
  | [] => []
  | f :: fs => if opensWith "FROM" f then [[]] else f :: cutNames fs

/-- The names that are read from a list of names. -/
def listed : List (List Char) → List (List Char)
  | [] => []
  | f :: fs => f :: cutNames fs

theorem cutNames_cases : ∀ fs : List (List Char),
    ((∀ f ∈ fs, opensWith "FROM" f = false) ∧ cutNames fs = fs) ∨
      ∃ l f l', fs = l ++ f :: l' ∧ (∀ f ∈ l, opensWith "FROM" f = false) ∧
        opensWith "FROM" f ∧ cutNames fs = l ++ [[]]
  | [] => .inl ⟨by simp, rfl⟩
  | f :: fs => by
    cases hf : opensWith "FROM" f with
    | true => exact .inr ⟨[], f, fs, rfl, by simp, hf, by rw [cutNames, hf]; rfl⟩
    | false =>
      rw [cutNames, hf]
      rcases cutNames_cases fs with ⟨hall, hcut⟩ | ⟨l, g, l', rfl, hall, hg, hcut⟩
      · exact .inl ⟨forall_mem_cons.mpr ⟨hf, hall⟩, by rw [hcut]; rfl⟩
      · exact .inr ⟨f :: l, g, l', rfl, forall_mem_cons.mpr ⟨hf, hall⟩, hg, by rw [hcut]; rfl⟩

theorem mem_listed {f : List Char} : ∀ {fs : List (List Char)}, f ∈ listed fs → f = [] ∨ f ∈ fs
  | [], h => by cases h
  | i :: fs, h => by
    rcases mem_cons.mp h with rfl | h
    · exact .inr (by simp)
    · rcases cutNames_cases fs with ⟨-, hcut⟩ | ⟨l, g, l', rfl, -, -, hcut⟩ <;> rw [hcut] at h
      · exact .inr (mem_cons_of_mem _ h)
      · rcases mem_append.mp h with h | h
        · exact .inr (by simp [h])
        · exact .inl (mem_singleton.mp h)

/-- A name that can be selected. -/
structure IsField (f : List Char) : Prop extends IsTerm f, IsItem f where
  no_star : '*' ∉ f

theorem isField_identifier (i : Identifier) : IsField i.chars where
  toIsTerm := isTerm_of_word i.word
  toIsItem := i.isItem
  no_star := i.not_mem (by decide)

section

variable {fs : List (List Char)} (h : ∀ f ∈ fs, IsField f)
include h

theorem star_not_mem : '*' ∉ commaList fs :=
  not_mem_commaList (by decide) fun f hf => (h f hf).no_star

theorem readItems_commaList (hne : fs ≠ []) :
    readItems (commaList fs) = fs.map fun f => ⟨String.ofList f, none⟩ := by
  refine readItems_map (fun hstar => star_not_mem h (mem_of_mem_strip (by rw [hstar]; simp)))
    (splitValues_commaList hne fun f hf => (h f hf).toIsItem) fun f hf => (h f hf).solid

theorem readItems_comma (hne : fs ≠ []) :
    readItems (commaList fs ++ [',']) = (fs ++ [[]]).map fun f => ⟨String.ofList f, none⟩ := by
  refine readItems_map (fun hstar => ?_) (splitValues_comma hne fun f hf => (h f hf).toIsItem) ?_
  · have hmem : '*' ∈ commaList fs ++ [','] := mem_of_mem_strip (by rw [hstar]; simp)
    exact star_not_mem h (by simpa using hmem)
  · exact forall_mem_append.mpr ⟨fun f hf => (h f hf).solid, forall_mem_singleton.mpr solid_nil⟩

theorem isTerm_listWords : ∀ w ∈ listWords fs, IsTerm w := by
  intro w hw
  obtain ⟨f, hf, rfl | rfl⟩ := mem_listWords hw
  · exact (h w hf).toIsTerm
  · exact (h f hf).toIsTerm.comma

/-- **The fields that are read.** -/
theorem read_listWords (hne : fs ≠ []) (hb : ∀ w ∈ b, IsTerm w) :
    read (unwords ("SELECT".toList :: (listWords fs ++ "FROM".toList :: b))) =
      (listed fs).map fun f => ⟨String.ofList f, none⟩ := by
  have hfrom : IsTerm "FROM".toList ∧ opensWith "FROM".toList "FROM".toList := by decide
  have hterms : ∀ w ∈ listWords fs ++ "FROM".toList :: b, IsTerm w := by
    simpa [or_imp, forall_and] using ⟨isTerm_listWords h, hfrom.1, hb⟩
  -- a comma does not hide the beginning of a name
  have hopens : ∀ {f w : List Char}, w = f ∨ w = f ++ [','] →
      opensWith "FROM" w = opensWith "FROM" f := by
    rintro f w (rfl | rfl)
    · rfl
    · exact opensWith_concat (by decide) (by decide) f
  obtain ⟨i, fs, rfl⟩ := exists_cons_of_ne_nil hne
  rw [listed]
  rcases cutNames_cases fs with ⟨hall, hcut⟩ | ⟨l, f, l', rfl, hall, hf, hcut⟩
  · obtain ⟨w, hw, -⟩ := exists_listWords_cons i fs
    rw [read_unwords hterms (by rw [hw]; simp) ?_ hfrom.2, unwords_listWords, hcut, readItems_commaList h hne]
    rw [hw, tail_cons]
    intro v hv
    obtain ⟨f, hf, hv⟩ := mem_listWords hv
    rw [hopens hv, hall f hf]
  · obtain ⟨w, hw, hwf⟩ := exists_listWords_cons f l'
    have hwords : listWords (i :: (l ++ f :: l')) ++ "FROM".toList :: b =
        (i :: l).map (· ++ [',']) ++ w :: (listWords l' ++ "FROM".toList :: b) := by
      rw [← cons_append, listWords_append (by simp), hw]
      simp
    have hbefore : ∀ f ∈ i :: l, IsField f := fun f hf => h f (by
      exact mem_append_left _ hf)
    rw [hwords] at hterms ⊢
    rw [read_unwords hterms (by simp) ?_ (by rw [hopens hwf, hf]), unwords_map_comma (by simp), hcut,
      readItems_comma hbefore (by simp)]
    · rfl
    · simpa using fun f hf => (hopens (.inr rfl)).trans (hall f hf)

/-- The written fields are read iff no field behind the first begins with `FROM`. -/
theorem listed_eq_iff : listed fs = fs ↔ ∀ f ∈ fs.tail, opensWith "FROM" f = false := by
  cases fs with
  | nil => simp [listed]
  | cons i fs =>
    rw [listed, tail_cons]
    rcases cutNames_cases fs with ⟨hall, hcut⟩ | ⟨l, f, l', rfl, -, hf, hcut⟩
    · exact ⟨fun _ => hall, fun _ => by rw [hcut]⟩
    · constructor
      · intro heq
        rw [hcut] at heq
        have hmem : [] ∈ i :: (l ++ f :: l') := by
          rw [← heq]
          simp
        exact absurd rfl (h [] hmem).ne_nil
      · intro hall
        rw [hall f (by simp)] at hf
        cases hf

theorem nodup_listed (hnodup : fs.Nodup) : (listed fs).Nodup := by
  cases fs with
  | nil => exact nodup_nil
  | cons i fs =>
    rw [listed]
    rcases cutNames_cases fs with ⟨-, hcut⟩ | ⟨l, f, l', rfl, -, hf, hcut⟩
    · rw [hcut]
      exact hnodup
    · have hbefore : (i :: l).Nodup := hnodup.sublist (by simp)
      have hempty : [] ∉ i :: l := fun hmem =>
        absurd rfl (h [] (by rw [← cons_append]; exact mem_append_left _ hmem)).ne_nil
      rw [hcut, ← cons_append]
      refine nodup_append.mpr ⟨hbefore, by simp, ?_⟩
      rintro f hf _ hnil rfl
      rw [mem_singleton.mp hnil] at hf
      exact hempty hf

end

end SqlGateway.Sql.SelectList
