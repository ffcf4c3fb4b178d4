import SqlGateway.Proofs.Sql.Wording

/-!
# Statements without features

Features are announced by keywords between edges or blanks, and functions by parentheses.  **A statement of
words in which none of these keywords is a word has none of these features** (`Featureless`, `Mute`).
-/

namespace SqlGateway.Sql

open Text Pattern List Where Call

variable {K : String} {s : List Char} {x y : Cursor} (i : Identifier)

def featureWords : List String :=
  ["HAVING", "UNION", "JOIN", "DISTINCT", "ORDER", "LIMIT"]

/-- A word that does not announce a feature: it is not the keyword, and no edge lies before the keyword
at its end. -/
@[mk_iff] structure Mute (K : String) (w : List Char) : Prop where
  solid : Solid w
  other : spells K w = false
  seam : seamless K w

instance (K : String) (w : List Char) : Decidable (Mute K w) := decidable_of_iff _ (mute_iff K w).symm

/-- A word that announces no feature.  If it ends with a keyword it is made of word characters, so that
no edge lies inside it. -/
@[mk_iff] structure Featureless (w : List Char) : Prop where
  solid : Solid w
  flat : ∀ c ∈ w, isParen c = false
  ascii : ∀ c ∈ w, c.toNat < 128
  neat : ∀ K ∈ featureWords, closesWith K w → ∀ c ∈ w, isWord c
  plain : ∀ K ∈ featureWords, spells K w = false

instance (w : List Char) : Decidable (Featureless w) := decidable_of_iff _ (featureless_iff w).symm

theorem isKeyword_featureWord (hK : K ∈ featureWords) : IsKeyword K :=
  (by decide : ∀ K ∈ featureWords, IsKeyword K) K hK

theorem Featureless.mute {w : List Char} (h : Featureless w) (hK : K ∈ featureWords) : Mute K w where
  solid := h.solid
  other := h.plain K hK
  seam := by
    by_cases hcloses : closesWith K w
    · exact seamless_of_word (h.neat K hK hcloses)
    · exact seamless_of_not_closesWith (Bool.not_eq_true _ ▸ hcloses)

theorem featureless_identifier (h : ∀ K ∈ featureWords, spells K i.chars = false) :
    Featureless i.chars where
  solid := fun _ => i.solid
  flat := fun c hc => isParen_of_isWordChar (i.word.plain c hc)
  ascii := fun _ => i.ascii
  neat := fun _ _ _ _ => i.isWord_of_mem
  plain := h

theorem featureless_comma : Featureless (i.chars ++ [',']) := by
  have hall : ∀ {P : Char → Prop}, (∀ c ∈ i.chars, P c) → P ',' → ∀ c ∈ i.chars ++ [','], P c :=
    fun hi hcomma => forall_mem_append.mpr ⟨hi, forall_mem_singleton.mpr hcomma⟩
  exact {
    solid := hall (fun _ => i.solid) (by decide)
    flat := hall (fun c hc => isParen_of_isWordChar (i.word.plain c hc)) (by decide)
    ascii := hall (fun _ => i.ascii) (by decide)
    neat := fun K hK h => by
      rw [closesWith_concat (isKeyword_featureWord hK) (by decide)] at h
      cases h
    plain := fun K hK => spells_concat (isKeyword_featureWord hK) (by decide) i.chars }

theorem featureless_numeral (n : Numeral) : Featureless n.chars where
  solid := n.plainWord.solid
  flat := fun c hc => isParen_of_isWordChar (n.plainWord.plain c hc)
  ascii := fun c hc =>
    (by decide : ∀ c ∈ Numeral.heads, c.toNat < 128) c (Numeral.mem_heads_of_mem hc)
  neat := fun K hK h => by
    rw [closesWith, spells_numeral (isKeyword_featureWord hK) n fun _ => mem_of_mem_drop] at h
    cases h
  plain := fun K hK => spells_numeral (isKeyword_featureWord hK) n fun _ => id

theorem mute_identifier {i : Identifier} (h : spells K i.chars = false) : Mute K i.chars :=
  ⟨fun _ => i.solid, h, seamless_of_word fun _ => i.isWord_of_mem⟩

theorem mute_concat (hK : IsKeyword K) {c : Char}
    (hc : ∀ l ∈ capitals, sameLetter l c = false) (h : Solid (s ++ [c])) : Mute K (s ++ [c]) :=
  ⟨h, spells_concat hK hc s, seamless_of_not_closesWith (closesWith_concat hK hc s)⟩

/-! ### What stands before a keyword -/

theorem before_of_edge (hK : IsKeyword K) (hedge : x.atEdge) (h : (lit K).Spans x y) :
    ∀ c ∈ x.before, isWord c = false := by
  obtain ⟨k, hk, hrest⟩ := exists_of_spans_lit h
  obtain ⟨hne, -, hword⟩ := hK.of_spells hk
  obtain ⟨d, k, rfl⟩ := exists_cons_of_ne_nil hne
  intro c hc
  rw [Cursor.atEdge, hrest, cons_append, head?_cons, Option.any_some, hword d (by simp),
    Option.mem_def.mp hc, Option.any_some] at hedge
  simpa using hedge

theorem before_of_blank {b : Option Char} (h : ∃ c, b = some c ∧ isBlank c) :
    ∀ c ∈ b, isWord c = false := by
  obtain ⟨c, rfl, hc⟩ := h
  rintro d ⟨⟩
  exact isWord_of_isBlank hc

theorem before_of_directions (h : (oneOf [Join.direction "LEFT", Join.direction "RIGHT", Join.direction "FULL",
      lit "CROSS" ++ space]).Spans x y) : ∃ c, y.before = some c ∧ isBlank c := by
  have hdirection : ∀ {word : String}, (Join.direction word).Spans x y →
      ∃ c, y.before = some c ∧ isBlank c := by
    rintro word ⟨z, ⟨z', -, hspace⟩, houter⟩
    rcases houter with ⟨z'', -, hspace'⟩ | rfl
    · exact before_of_spans_space hspace'
    · exact before_of_spans_space hspace
  rcases h with h | h | h | ⟨z, -, hspace⟩
  · exact hdirection h
  · exact hdirection h
  · exact hdirection h
  · exact before_of_spans_space hspace

theorem not_spans_paren (h : '(' ∉ s) (hx : At s x) : ¬ (exactly "(").Spans x y := by
  intro hparen
  obtain ⟨u, rfl, -⟩ := hx
  rw [exists_of_spans_exactly hparen] at h
  exact h (by simp)

/-! ### Calls -/

theorem paren_not_mem_upper (hascii : ∀ c ∈ s, c.toNat < 128) (h : '(' ∉ s) : '(' ∉ upper s := by
  rw [upper_of_ascii hascii, mem_map]
  rintro ⟨c, hc, hupper⟩
  have hcode : ∀ n < 128, (Char.ofNat n).toUpper = '(' → Char.ofNat n = '(' := by decide
  rw [← Char.ofNat_toNat c] at hc hupper
  rw [hcode c.toNat (hascii c (Char.ofNat_toNat c ▸ hc)) hupper] at hc
  exact h hc

theorem call_occurs_of_flat (hascii : ∀ c ∈ s, c.toNat < 128) (h : '(' ∉ s) : occurs s = false := by
  rw [occurs, any_eq_false]
  intro f _ hf
  obtain ⟨u, v, y, huv, z₁, hname, hopen⟩ := occursIn_iff.mp hf
  exact not_spans_paren (paren_not_mem_upper hascii h) (At.spans hname ⟨u, huv, rfl⟩) hopen

theorem call_find_of_flat (h : '(' ∉ s) : find s = [] := by
  have hnone : ∀ name, (callPattern name).findAll s = [] := by
    intro name
    refine findAllFrom_eq_nil fun u v b y huv hspans => ?_
    obtain ⟨_, ⟨_, ⟨_, hname, hopen⟩, -⟩, -⟩ := hspans
    have hsuffix := (suffix_of_spans hname).trans ⟨u, huv.symm⟩
    rw [exists_of_spans_exactly hopen] at hsuffix
    exact h (hsuffix.subset (by simp))
  simp [find, findFamily, findOne, hnone]

theorem isWord_toUpper {c : Char} (h : c.toNat < 128) : isWord c.toUpper = isWord c := by
  have hcode : ∀ n < 128, isWord (Char.ofNat n).toUpper = isWord (Char.ofNat n) := by decide
  rw [← Char.ofNat_toNat c]
  exact hcode c.toNat h

theorem eq_of_append_word {u x k n : List Char} (hk : ∀ c ∈ k, isWord c)
    (hn : ∀ c ∈ n, isWord c) (hu : ∀ c ∈ u.getLast?, isWord c = false)
    (hx : ∀ c ∈ x.getLast?, isWord c = false) (h : u ++ k = x ++ n) : k = n := by
  have hnil : ∀ {a t : List Char}, (∀ c ∈ (a ++ t).getLast?, isWord c = false) →
      (∀ c ∈ t, isWord c) → t = [] := by
    intro a t hlast hword
    rcases eq_nil_or_concat t with rfl | ⟨t, d, rfl⟩
    · rfl
    · have hd := hlast d (by simp)
      rw [hword d (by simp)] at hd
      cases hd
  rcases append_eq_append_iff.mp h with ⟨t, rfl, rfl⟩ | ⟨t, rfl, rfl⟩
  · rw [hnil hx fun c hc => hk c (by simp [hc])]
    rfl
  · rw [hnil hu fun c hc => hn c (by simp [hc])]
    rfl

/-- **Of a text with one parenthesis only the word before it can be called**, and only if it is the name of
a function. -/
theorem call_occurs_of_word {x n y : List Char} (hascii : ∀ c ∈ x ++ n ++ y, c.toNat < 128)
    (hflat : '(' ∉ x ++ n ++ y) (hx : ∀ c ∈ x.getLast?, isWord c = false) (hne : n ≠ [])
    (hword : ∀ c ∈ n, isWord c) (hname : ∀ f ∈ Builtin.all, f.name.toList ≠ upper n) :
    occurs (x ++ n ++ '(' :: y) = false := by
  have hletters : ∀ f ∈ Builtin.all, f.name.toList ≠ [] ∧ ∀ c ∈ f.name.toList, isWord c := by
    decide
  have hxn : ∀ c ∈ x ++ n, c.toNat < 128 := fun c hc => hascii c (mem_append_left _ hc)
  have hcapitals : upper (x ++ n) = x.map Char.toUpper ++ n.map Char.toUpper := by
    rw [upper_of_ascii hxn, map_append]
  have hupper : upper (x ++ n ++ '(' :: y) = upper (x ++ n) ++ '(' :: upper y := by
    rw [upper, upper, upper, flatMap_append]
    rfl
  have hflat₁ : '(' ∉ upper (x ++ n) := paren_not_mem_upper hxn fun hmem => hflat (mem_append_left _ hmem)
  have hflat₂ : '(' ∉ upper y :=
    paren_not_mem_upper (fun c hc => hascii c (by simp [hc])) fun hmem => hflat (by simp [hmem])
  rw [occurs, any_eq_false]
  intro f hf hoccurs
  obtain ⟨u, v, w, huv, z₁, ⟨z₂, ⟨z₃, ⟨rfl, hedge⟩, hexact⟩, hgap⟩, hopen⟩ := occursIn_iff.mp hoccurs
  have hv : v = f.name.toList ++ z₂.rest := exists_of_spans_exactly hexact
  obtain ⟨g, hg, hrest⟩ := exists_of_spans_many hgap
  have hend : z₁.rest = '(' :: w.rest := exists_of_spans_exactly hopen
  -- the parenthesis is the one
  have hsplit : upper (x ++ n) ++ '(' :: upper y = (u ++ (f.name.toList ++ g)) ++ '(' :: w.rest := by
    rw [← hupper, huv, hv, hrest, hend]
    simp
  obtain ⟨hbefore, -, -⟩ := (append_cons_inj_of_notMem hflat₁ hflat₂).mp hsplit
  rw [hcapitals] at hbefore
  have hwords : ∀ c ∈ n.map Char.toUpper, isWord c := by
    simpa using fun c hc => (isWord_toUpper (hxn c (mem_append_right _ hc))).trans (hword c hc)
  have hgap : g = [] := by
    rcases eq_nil_or_concat g with rfl | ⟨g, e, rfl⟩
    · rfl
    · obtain ⟨k, d, hk⟩ := (eq_nil_or_concat (n.map Char.toUpper)).resolve_left (by simpa using hne)
      have hlast := congrArg getLast? hbefore
      rw [hk] at hlast
      obtain rfl : d = e := by simpa [← append_assoc] using hlast
      have hd := hwords d (by rw [hk]; simp)
      rw [isWord_of_isBlank (hg d (by simp))] at hd
      cases hd
  have hu : ∀ c ∈ u.getLast?, isWord c = false := by
    obtain ⟨d, k, hk⟩ := exists_cons_of_ne_nil (hletters f hf).1
    intro c hc
    rw [Cursor.atEdge, hv, hk, cons_append, head?_cons, Option.any_some,
      (hletters f hf).2 d (by rw [hk]; simp), Option.mem_def.mp hc, Option.any_some] at hedge
    simpa using hedge
  have hx' : ∀ c ∈ (x.map Char.toUpper).getLast?, isWord c = false := by
    intro c hc
    rw [getLast?_map] at hc
    obtain ⟨d, hd, rfl⟩ := Option.map_eq_some_iff.mp hc
    rw [isWord_toUpper (hxn d (mem_append_left _ (mem_of_getLast? hd))), hx d hd]
  rw [hgap, append_nil] at hbefore
  refine hname f hf ?_
  rw [eq_of_append_word (hletters f hf).2 hwords hu hx' hbefore.symm,
    upper_of_ascii fun c hc => hxn c (mem_append_right _ hc)]

/-! ### The features -/

namespace Mute

variable {ws : List (List Char)}

theorem not_spans (hK : IsKeyword K) (h : ∀ w ∈ ws, Mute K w) (hx : At (unwords ws) x)
    (hedge : ∀ c ∈ x.before, isWord c = false) (hy : ∃ c r, y.rest = c :: r ∧ isBlank c) :
    ¬ (lit K).Spans x y := by
  intro hlit
  obtain ⟨w, hw, hspells⟩ := exists_word_of_spans hK (fun w hw => (h w hw).solid)
    (fun w hw => (h w hw).seam) hx hedge hlit hy
  rw [(h w hw).other] at hspells
  cases hspells

theorem having_occurs (h : ∀ w ∈ ws, Mute "HAVING" w) : Having.occurs (unwords ws) = false := by
  rw [← Bool.not_eq_true, Having.occurs, occursIn_iff]
  rintro ⟨u, v, y, huv, z₁, ⟨z₂, ⟨z₃, ⟨z₄, ⟨rfl, hedge⟩, hlit⟩, hspace⟩, -⟩, -⟩
  exact not_spans (by decide) h ⟨u, huv, rfl⟩ (before_of_edge (by decide) hedge hlit)
    (head_of_spans_space hspace) hlit

theorem union_occurs (h : ∀ w ∈ ws, Mute "UNION" w) : Union.occurs (unwords ws) = false := by
  rw [← Bool.not_eq_true, Union.occurs, occursIn_iff]
  rintro ⟨u, v, y, huv, z₁, ⟨z₂, ⟨z₃, ⟨rfl, hedge⟩, hlit⟩, hall⟩, hspace⟩
  refine not_spans (by decide) h ⟨u, huv, rfl⟩ (before_of_edge (by decide) hedge hlit) ?_ hlit
  rcases hall with ⟨z, hspace', -⟩ | rfl
  · exact head_of_spans_space hspace'
  · exact head_of_spans_space hspace

theorem distinct_occurs (h : ∀ w ∈ ws, Mute "DISTINCT" w) : Distinct.occurs (unwords ws) = false := by
  rw [← Bool.not_eq_true, Distinct.occurs, occursIn_iff]
  rintro ⟨u, v, y, huv, z₁, ⟨z₂, hedge, z₃, ⟨z₄, hselect, hspace⟩, hlit⟩, hspace'⟩
  have hat : At (unwords ws) z₃ := ((At.spans hedge ⟨u, huv, rfl⟩).spans hselect).spans hspace
  exact not_spans (by decide) h hat (before_of_blank (before_of_spans_space hspace))
    (head_of_spans_space hspace') hlit

theorem join_occurs (h : ∀ w ∈ ws, Mute "JOIN" w) : Join.occurs (unwords ws) = false := by
  rw [← Bool.not_eq_true, Join.occurs, occursIn_iff]
  rintro ⟨u, v, y, huv, z₁, ⟨z₂, ⟨rfl, hedge⟩, z₃, ⟨z₄, hinner, hdirection⟩, hlit⟩, hspace⟩
  have hat : At (unwords ws) z₃ := (At.spans hinner ⟨u, huv, rfl⟩).spans hdirection
  have hbefore : ∀ c ∈ z₃.before, isWord c = false := by
    rcases hdirection with hdirection | rfl
    · exact before_of_blank (before_of_directions hdirection)
    · rcases hinner with ⟨z, -, hinner⟩ | rfl
      · exact before_of_blank (before_of_spans_space hinner)
      · exact before_of_edge (by decide) hedge hlit
  exact not_spans (by decide) h hat hbefore (head_of_spans_space hspace) hlit

theorem not_spans_blank (hK : IsKeyword K) (h : ∀ w ∈ ws, Mute K w) {u v : List Char}
    (huv : unwords ws = u ++ v) {z z' : Cursor} (hblank : (one isBlank).Spans ⟨u.getLast?, v⟩ y)
    (hlit : (lit K).Spans y z) (hspace : space.Spans z z') : False := by
  have hat : At (unwords ws) y := At.spans hblank ⟨u, huv, rfl⟩
  obtain ⟨c, t, -, hc, rfl⟩ := hblank
  exact not_spans hK h hat (before_of_blank ⟨c, rfl, hc⟩) (head_of_spans_space hspace) hlit

theorem order_occurs (h : ∀ w ∈ ws, Mute "ORDER" w) : OrderBy.clausePattern.occursIn (unwords ws) = false := by
  rw [← Bool.not_eq_true, occursIn_iff]
  rintro ⟨u, v, y, huv, z₁, ⟨z₂, ⟨z₃, ⟨z₄, hblank, z₅, ⟨z₆, hlit, hspace⟩, -⟩, -⟩, -⟩, -⟩
  exact not_spans_blank (by decide) h huv hblank hlit hspace

theorem clause_occurs (hK : IsKeyword K) (h : ∀ w ∈ ws, Mute K w) (p q : Pattern) :
    (one isBlank ++ lit K ++ space ++ p ++ q).occursIn (unwords ws) = false := by
  rw [← Bool.not_eq_true, occursIn_iff]
  rintro ⟨u, v, y, huv, z₁, ⟨z₂, ⟨z₃, ⟨z₄, hblank, hlit⟩, hspace⟩, -⟩, -⟩
  exact not_spans_blank hK h huv hblank hlit hspace

theorem limit_occurs (h : ∀ w ∈ ws, Mute "LIMIT" w) : Limit.clausePattern.occursIn (unwords ws) = false :=
  clause_occurs (by decide) h _ _

theorem where_occurs (h : ∀ w ∈ ws, Mute "WHERE" w) : clausePattern.occursIn (unwords ws) = false :=
  clause_occurs (by decide) h _ _

theorem padded (hK : IsKeyword K) (h : ∀ w ∈ ws, Mute K w) : ∀ w ∈ [] :: (ws ++ [[]]), Mute K w := by
  have hnil : Mute K [] := ⟨solid_nil, by rw [← Bool.not_eq_true]; exact fun h => (hK.of_spells h).1 rfl,
      seamless_of_not_closesWith hK.closesWith_nil⟩
  simpa [or_imp, forall_and] using ⟨hnil, h, hnil⟩

section

variable (hterms : ∀ w ∈ ws, Where.IsTerm w) (hne : ws ≠ [])
include hterms hne

theorem order_read (h : ∀ w ∈ ws, Mute "ORDER" w) : OrderBy.read (unwords ws) = [] := by
  have horder := order_occurs (padded (by decide) h)
  rw [occursIn, Option.isSome_eq_false_iff, Option.isNone_iff_eq_none] at horder
  rw [OrderBy.read, padded_unwords hterms hne, horder]

theorem limit_read (h : ∀ w ∈ ws, Mute "LIMIT" w) : Limit.read? (unwords ws) = none := by
  have hlimit := limit_occurs (padded (by decide) h)
  rw [occursIn, Option.isSome_eq_false_iff, Option.isNone_iff_eq_none] at hlimit
  rw [Limit.read?, padded_unwords hterms hne, hlimit]
  rfl

theorem filter_eq_nil (h : ∀ w ∈ ws, Mute "WHERE" w) : Where.filter (unwords ws) = [] := by
  have hclause := where_occurs (padded (by decide) h)
  rw [occursIn, Option.isSome_eq_false_iff, Option.isNone_iff_eq_none] at hclause
  rw [Where.filter, Where.clause?, Where.padded_unwords hterms hne, hclause]
  rfl

end

end Mute

theorem opening_unwords {ws : List (List Char)} (hne : ws ≠ []) (h : ∀ w ∈ ws, w ≠ [] ∧ Solid w ∧
    (∀ c ∈ w, isParen c = false) ∧ spells "WHERE" w = false) : Where.Opening (unwords ws) := by
  induction ws with
  | nil => exact absurd rfl hne
  | cons w ws ih =>
    obtain ⟨hw, hsolid, hflat, hother⟩ := h w (by simp)
    have hword : Where.Opening w := .ofWord hw hsolid hflat hother
    cases ws with
    | nil => exact hword
    | cons v ws => exact hword.append (ih (by simp) (forall_mem_cons.mp h).2)

namespace Featureless

variable {ws : List (List Char)} (h : ∀ w ∈ ws, Featureless w)
include h

theorem mute_all (hK : K ∈ featureWords) : ∀ w ∈ ws, Mute K w :=
  fun w hw => (h w hw).mute hK

theorem paren_not_mem : '(' ∉ unwords ws := by
  intro hmem
  rcases mem_unwords hmem with hmem | ⟨w, hw, hmem⟩
  · exact absurd hmem (by decide)
  · exact absurd ((h w hw).flat _ hmem) (by decide)

theorem call_occurs : occurs (unwords ws) = false := by
  refine call_occurs_of_flat (fun c hc => ?_) (paren_not_mem h)
  rcases mem_unwords hc with rfl | ⟨w, hw, hc⟩
  · decide
  · exact (h w hw).ascii c hc

theorem opening (hne : ws ≠ []) (hterms : ∀ w ∈ ws, w ≠ [] ∧ spells "WHERE" w = false) :
    Where.Opening (unwords ws) :=
  opening_unwords hne fun w hw => ⟨(hterms w hw).1, (h w hw).solid, (h w hw).flat, (hterms w hw).2⟩

end Featureless

end SqlGateway.Sql
