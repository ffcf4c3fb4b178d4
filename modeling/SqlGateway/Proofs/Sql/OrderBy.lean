import SqlGateway.Proofs.Sql.Feature

/-!
# Orders in words

The order goes on to the first word that begins with `LIMIT` (`read_unwords`); of its keys the first is
always read, and so **a statement with an order sorts** (`Order.read_ne_nil`), whatever keys follow and
wherever the order is cut.
-/

namespace SqlGateway.Sql.OrderBy

open Text Pattern Where List

/-! ### Where the order is found -/

def clauseEnd : Pattern :=
  oneOf [space ++ lit "LIMIT", gap ++ exactly ";", gap ++ finish]

theorem exists_clauseEnd {a b : List (List Char)} (hne : a ≠ [])
    (hstop : ∀ w ∈ b.head?, opensWith "LIMIT" w) :
    ∃ r, (∀ c ∈ r.head?, isBlank c) ∧ unwords (a ++ b ++ [[]]) = unwords a ++ r ∧
      ∀ k : Kept, ∃ t, clauseEnd.Prefers r k t k := by
  cases b with
  | nil =>
    refine ⟨[' '], by simp, ?_, fun k => ⟨[], ?_⟩⟩
    · rw [append_nil, unwords_append hne (by simp)]
      rfl
    · have hfinish : (gap ++ finish).Prefers ([' '] ++ []) k [] k :=
        (prefers_many (by simp) (by simp) k).append (prefers_finish k)
      refine (hfinish.right ?_).right ?_
      · rintro d y ⟨z, hgap, hsign⟩
        obtain ⟨g, -, hg⟩ := exists_of_spans_many hgap
        have hmem : ';' ∈ [' '] := by
          rw [show [' '] = g ++ z.rest from hg, exists_of_spans_exactly hsign]
          simp
        exact absurd hmem (by decide)
      · rintro d y ⟨z, hspace, hlit⟩
        obtain ⟨g, hg, -, hrest⟩ := exists_of_spans_many1 hspace
        obtain ⟨i, hi, hz⟩ := exists_of_spans_lit hlit
        have hlength := congrArg length (show [' '] = g ++ z.rest from hrest)
        have hpos := length_pos_iff.mpr hg
        rw [hz, length_append, length_append, spells_length hi] at hlength
        simp at hlength
        omega
  | cons w b =>
    obtain ⟨i, x, rfl, hi⟩ := opensWith_iff.mp (hstop w rfl)
    obtain ⟨t, ht, -⟩ := exists_unwords_cons (i ++ x) (b ++ [[]])
    obtain ⟨hine, hsolid, -⟩ := (by decide : IsKeyword "LIMIT").of_spells hi
    refine ⟨[' '] ++ (i ++ (x ++ t)), by simp, ?_, fun k => ⟨x ++ t, ?_⟩⟩
    · rw [append_assoc, unwords_append hne (by simp), cons_append, ht]
      simp
    · exact ((prefers_many1 (by simp) (by simp) (head_solid_append hine hsolid _) k).append
        (prefers_lit hi _ k)).left _

section

variable {l a b : List (List Char)}
  (hterms : ∀ w ∈ l ++ "ORDER".toList :: "BY".toList :: (a ++ b), IsTerm w)
include hterms

/-- **The order of words** is everything before the first word that begins with `LIMIT`, the first word of
the order apart. -/
theorem read_unwords (hmute : ∀ w ∈ l, Mute "ORDER" w) (hne : a ≠ [])
    (hcalm : ∀ w ∈ a.tail, opensWith "LIMIT".toList w = false)
    (hstop : ∀ w ∈ b.head?, opensWith "LIMIT".toList w) :
    read (unwords (l ++ "ORDER".toList :: "BY".toList :: (a ++ b))) = readKeys (unwords a) := by
  have ha : ∀ w ∈ a, IsTerm w := fun w hw => hterms w (by simp [hw])
  obtain ⟨r, hr, hwhole, hend⟩ := exists_clauseEnd hne hstop
  obtain ⟨hane, htrim⟩ := unwords_trimmed ha hne
  have hhead : ∀ c ∈ (unwords a ++ r).head?, isBlank c = false :=
    head_unwords (fun w hw => ⟨(ha w hw).ne_nil, (ha w hw).solid⟩) hne r
  have hphrase : (one isBlank ++ phrase ["ORDER", "BY"] ++ space).Prefers
      (' ' :: (unwords ["ORDER", "BY"] ++ ([' '] ++ (unwords a ++ r)))) [] (unwords a ++ r) [] :=
    ((prefers_one (by decide) _ []).append (prefers_phrase _ [] (by decide))).append
      (prefers_many1 (by simp) (by simp) hhead [])
  obtain ⟨t, ht⟩ := hend [("clause", ⟨unwords a ++ r, r⟩)]
  have hprefers : clausePattern.Prefers
      (' ' :: (unwords ["ORDER", "BY"] ++ ([' '] ++ (unwords a ++ r)))) [] t
      [("clause", ⟨unwords a ++ r, r⟩)] := by
    refine prefers_few "clause" hphrase (fun _ _ => rfl) ?_ ht
    rintro u₁ u₂ hsplit hne₂ d y (h | h)
    · exact not_spans_opening ha (by decide) hcalm hr hsplit hne₂ d y h
    · exact not_spans_end ha hsplit hne₂ d y h
  have htext : padded (unwords (l ++ "ORDER".toList :: "BY".toList :: (a ++ b))) = unwords ([] :: l) ++
      ' ' :: (unwords ["ORDER".toList, "BY".toList] ++ ([' '] ++ (unwords a ++ r))) := by
    have hwords : [] :: ((l ++ "ORDER".toList :: "BY".toList :: (a ++ b)) ++ [[]]) =
        ([] :: l) ++ (["ORDER".toList, "BY".toList] ++ (a ++ b ++ [[]])) := by simp
    rw [padded_unwords hterms (by simp), hwords, unwords_append (by simp) (by simp),
      unwords_append (cons_ne_nil _ _) (by simp), hwhole]
    rfl
  have hfind := hprefers.find? (by
    rintro u₁ u₂ hsplit hne₂ d y ⟨z₁, ⟨z₂, ⟨z₃, ⟨z₄, hblank, z₅, ⟨z₆, hlit, hspace⟩, -⟩, -⟩, -⟩, -⟩
    obtain ⟨c, s, hs, hc, rfl⟩ := hblank
    obtain ⟨w, hw, hspells⟩ := exists_whole_of_spans (by decide)
      (forall_mem_cons.mpr ⟨solid_nil, fun w hw => (hmute w hw).solid⟩)
      (fun w hw => (hterms w (mem_append_left _ hw)).ne_nil) hsplit hne₂ (by simp) (g := [c]) (by simp)
      (by simpa using hc) hs hlit (head_of_spans_space hspace)
    rw [(hmute w hw).other] at hspells
    cases hspells)
  rw [read, htext, hfind]
  show readKeys (strip (pieceBefore r (unwords a ++ r))) = _
  rw [pieceBefore_append, htrim]

end

/-! ### The first key -/

def Direction.word : Direction → List Char
  | upwards => "ASC"
  | downwards => "DESC"

/-- The order of a statement: its first key, and the words of the keys behind it. -/
structure Order where
  field : List Char
  direction : Option Direction
  others : List (List Char)
  term : IsTerm field
  /-- The comma stands behind the whole key. -/
  whole : ',' ∉ field

namespace Order

variable (o : Order)

def key : List (List Char) :=
  o.field :: o.direction.toList.map Direction.word

def endedKey : List (List Char) :=
  o.direction.elim [o.field ++ [',']] fun d => [o.field, d.word ++ [',']]

def words : List (List Char) :=
  if o.others = [] then o.key else o.endedKey ++ o.others

theorem unwords_endedKey : unwords o.endedKey = unwords o.key ++ [','] := by
  rw [endedKey, key]
  cases o.direction with
  | none => rfl
  | some d => simp [unwords]

theorem exists_cut {m : List (List Char)} (hm : ∀ w ∈ m.head?, opensWith "LIMIT" w) :
    ∃ a b t, o.words ++ m = a ++ b ∧ a ≠ [] ∧ (∀ w ∈ a.tail, opensWith "LIMIT" w = false) ∧
      (∀ w ∈ b.head?, opensWith "LIMIT" w) ∧ unwords a = unwords o.key ++ t ∧
      ∀ c ∈ t.head?, c = ',' := by
  have hdirection : ∀ d : Direction, opensWith "LIMIT" d.word = false ∧
      opensWith "LIMIT" (d.word ++ [',']) = false := by
    intro d
    cases d <;> decide
  by_cases hothers : o.others = []
  · refine ⟨o.key, m, [], by rw [words, if_pos hothers], by simp [key], ?_, hm, by simp, by simp⟩
    rw [key, tail_cons, forall_mem_map]
    exact fun d _ => (hdirection d).1
  · obtain ⟨n, hn⟩ : ∃ n, n = o.others ++ m := ⟨_, rfl⟩
    let calm : List Char → Bool := fun w => !opensWith "LIMIT" w
    have hne : o.endedKey ≠ [] := by
      rw [endedKey]
      cases o.direction <;> simp
    have htail : ∀ w ∈ o.endedKey.tail, opensWith "LIMIT" w = false := by
      rw [endedKey]
      cases o.direction with
      | none => simp
      | some d => simpa using (hdirection d).2
    obtain ⟨t, ht⟩ : ∃ t, unwords (o.endedKey ++ n.takeWhile calm) = unwords o.key ++ ',' :: t := by
      rcases eq_or_ne (n.takeWhile calm) [] with hnil | hsome
      · exact ⟨[], by rw [hnil, append_nil, unwords_endedKey]⟩
      · exact ⟨' ' :: unwords (n.takeWhile calm), by rw [unwords_append hne hsome, unwords_endedKey]; simp⟩
    refine ⟨o.endedKey ++ n.takeWhile calm, n.dropWhile calm, ',' :: t, ?_, by simp [hne], ?_, ?_, ht, by simp⟩
    · rw [words, if_neg hothers, append_assoc, append_assoc, takeWhile_append_dropWhile, hn]
    · rw [tail_append_of_ne_nil hne]
      exact forall_mem_append.mpr ⟨htail, fun w hw => by simpa [calm] using mem_takeWhile_imp hw⟩
    · intro w hw
      simpa [calm] using head?_dropWhile calm n w hw

theorem readKeys_ne_nil {a : List (List Char)} {t : List Char} (ha : ∀ w ∈ a, IsTerm w)
    (htext : unwords a = unwords o.key ++ t) (ht : ∀ c ∈ t.head?, c = ',') : readKeys (unwords a) ≠ [] := by
  have hkey : ∀ w ∈ o.key, w ≠ [] ∧ Solid w ∧ ',' ∉ w := by
    rw [key, forall_mem_cons, forall_mem_map]
    refine ⟨⟨o.term.ne_nil, o.term.solid, o.whole⟩, fun d _ => ?_⟩
    cases d <;> decide
  have hcomma : ',' ∉ unwords o.key := by
    intro h
    rcases mem_unwords h with h | ⟨w, hw, h⟩
    · exact absurd h (by decide)
    · exact (hkey w hw).2.2 h
  obtain ⟨r, hr⟩ : ∃ r, splitAtChar ',' t = [] :: r := by
    cases t with
    | nil => exact ⟨[], rfl⟩
    | cons c t =>
      obtain rfl := ht c rfl
      exact ⟨splitAtChar ',' t, rfl⟩
  have hfirst := splitAtChar_append hcomma hr
  rw [append_nil] at hfirst
  obtain ⟨k, hk⟩ : ∃ k, readKey? (unwords o.key) = some k := by
    rw [readKey?, words_unwords fun w hw => ⟨(hkey w hw).1, (hkey w hw).2.1⟩, key]
    cases o.direction with
    | none => exact ⟨_, rfl⟩
    | some d => exact ⟨_, rfl⟩
  rw [readKeys, dropSemicolon_unwords ha, htext, hfirst, filterMap_cons_some hk, Document.ofMembers, ne_eq,
    Document.merge_eq_nil_iff]
  simp

/-- **A statement with an order sorts**, whatever keys stand behind the first. -/
theorem read_ne_nil {l m : List (List Char)}
    (hterms : ∀ w ∈ l ++ "ORDER".toList :: "BY".toList :: (o.words ++ m), IsTerm w)
    (hmute : ∀ w ∈ l, Mute "ORDER" w) (hm : ∀ w ∈ m.head?, opensWith "LIMIT".toList w) :
    read (unwords (l ++ "ORDER".toList :: "BY".toList :: (o.words ++ m))) ≠ [] := by
  obtain ⟨a, b, t, hcut, hne, hcalm, hstop, htext, ht⟩ := o.exists_cut hm
  rw [hcut] at hterms ⊢
  rw [read_unwords hterms hmute hne hcalm hstop]
  exact o.readKeys_ne_nil (fun w hw => hterms w (by simp [hw])) htext ht

end Order

end SqlGateway.Sql.OrderBy
