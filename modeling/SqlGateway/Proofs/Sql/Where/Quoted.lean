import SqlGateway.Proofs.Sql.Where.Calm

/-!
# Conditions on a quoted text

The value of a member comes from behind a sign, so a value as long as the quoted text is that text
(`eq_of_value`). **The filter is the field with the text between the quotes iff the quoted text is calm**
(`filter_quoted_iff`).
-/

namespace SqlGateway.Sql.Where

open Text Pattern List

section

variable {field s o r : List Char} {name : String}

/-! ### What is taken for the text -/

theorem exists_strip_dropLast (t : List Char) :
    ∃ x y, t = x ++ strip t.dropLast ++ y ∧ ∀ c ∈ x, isBlank c := by
  obtain ⟨x, y, hxy, hx, -⟩ := exists_strip t.dropLast
  obtain ⟨e, he⟩ := dropLast_prefix t
  exact ⟨x, y ++ e, by rw [← append_assoc, ← hxy, he], hx⟩

theorem exists_bareCondition (t : List Char) : strip (bareCondition t) = bareCondition t ∧
    ∃ x y, t = x ++ bareCondition t ++ y := by
  obtain ⟨x, y, hxy, -⟩ := exists_strip t
  rw [bareCondition, dropSemicolon]
  split
  · obtain ⟨x', y', hxy', -⟩ := exists_strip_dropLast (strip t)
    refine ⟨strip_strip _, x ++ x', y' ++ y, ?_⟩
    conv_lhs => rw [hxy, hxy']
    simp
  · exact ⟨strip_strip t, x, y, hxy⟩

theorem exists_trimLiteral (t : List Char) : strip (trimLiteral t) = trimLiteral t ∧
    ∃ x y, t = x ++ trimLiteral t ++ y ∧ ∀ c ∈ x, isBlank c := by
  obtain ⟨x, y, hxy, hx, -⟩ := exists_strip t
  rw [trimLiteral]
  split
  · obtain ⟨x', y', hxy', hx'⟩ := exists_strip_dropLast (strip t)
    refine ⟨strip_strip _, x ++ x', y' ++ y, ?_, forall_mem_append.mpr ⟨hx, hx'⟩⟩
    conv_lhs => rw [hxy, hxy']
    simp
  · exact ⟨strip_strip t, x, y, hxy, hx⟩

theorem length_of_literal (hne : s ≠ []) (htrim : strip r = r) (hvalue : literal r = .text (String.ofList s)) :
    r = s ∨ r.length = s.length + 2 := by
  rcases eq_of_literal_eq_text hvalue with ⟨henclosed, hinner⟩ | hplain
  · rw [htrim] at henclosed hinner
    right
    have hlength := length_inner r
    have hpos : 0 < s.length := length_pos_iff.mpr hne
    rw [hinner] at hlength
    omega
  · exact .inl (htrim ▸ hplain)

theorem eq_of_value_behind_sign {g b : List Char} (hquote : '\'' ∉ s) (hr : r ≠ [])
    (htrim : strip r = r) (hg : ∀ c ∈ g, isBlank c) (hlength : r = s ∨ r.length = s.length + 2)
    (h : ' ' :: (quotedText s ++ [' ']) = g ++ (r ++ b)) : g = [' '] ∧ r = quotedText s ∧ b = [' '] := by
  obtain ⟨c, r, rfl⟩ := exists_cons_of_ne_nil hr
  have hc : isBlank c = false := head?_strip (c :: r) c (by rw [htrim]; rfl)
  rcases g with _ | ⟨d, _ | ⟨e, g⟩⟩
  · obtain ⟨rfl, -⟩ := cons.inj h
    exact absurd hc (by decide)
  · obtain ⟨rfl, hrest⟩ := cons.inj h
    have hrest : quotedText s ++ [' '] = (c :: r) ++ b := hrest
    rcases hlength with rfl | hlength
    · obtain ⟨rfl, -⟩ := cons.inj hrest
      exact absurd (by simp) hquote
    · obtain ⟨hr', hb⟩ := append_inj hrest (by rw [hlength]; simp [quotedText])
      exact ⟨rfl, hr'.symm, hb.symm⟩
  · obtain ⟨rfl, -⟩ := cons.inj (cons.inj h).2
    exact absurd (hg '\'' (by simp)) (by decide)

theorem not_value_behind_later_sign {a g b : List Char} (hquote : '\'' ∉ s) (hr : r ≠ [])
    (htrim : strip r = r) (hlength : r = s ∨ r.length = s.length + 2) :
    s ++ ['\'', ' '] ≠ a ++ '=' :: (g ++ (r ++ b)) := by
  intro h
  have htotal := congrArg length h
  simp only [length_append, length_cons, length_nil] at htotal
  obtain rfl : r = s := hlength.resolve_right fun hlength => by omega
  cases b with
  | nil =>
    -- the last character would be blank
    have hlast := congrArg getLast? h
    have hsolid := getLast?_strip r
    rw [htrim] at hsolid
    obtain ⟨r, d, rfl⟩ := (eq_nil_or_concat r).resolve_left hr
    have hd := hsolid d (by simp)
    rw [append_nil, show a ++ '=' :: (g ++ r.concat d) = a ++ '=' :: (g ++ r) ++ [d] by simp,
      getLast?_concat, show r.concat d ++ ['\'', ' '] = r.concat d ++ ['\''] ++ [' '] by simp,
      getLast?_concat] at hlast
    obtain rfl := Option.some.inj hlast
    exact absurd hd (by decide)
  | cons e b =>
    rw [length_cons] at htotal
    obtain ⟨ha, hg, hb⟩ : a.length = 0 ∧ g.length = 0 ∧ b.length = 0 := by omega
    obtain rfl := length_eq_zero_iff.mp ha
    obtain rfl := length_eq_zero_iff.mp hg
    obtain rfl := length_eq_zero_iff.mp hb
    have hshift : r ++ ['\''] ++ [' '] = '=' :: r ++ [e] := by simpa using h
    have hmem : '\'' ∈ '=' :: r := by
      rw [← (append_singleton_inj.mp hshift).1]
      simp
    rcases mem_cons.mp hmem with hmem | hmem
    · exact absurd hmem (by decide)
    · exact hquote hmem

theorem exists_of_simple?_eq_text {condition : List Char} {t : String}
    (h : simple? condition = some (name, .text t)) :
    (∀ p ∈ specialForms, p.find? (bareCondition condition) = none) ∧
      ∃ l r, comparison? (bareCondition condition) = some (l, none, r) ∧ operand r = .text t := by
  have habsent := (special_or_absent condition).resolve_left (by
    rintro ⟨p, -, m, d, -, hread⟩
    rw [h] at hread
    cases hread)
  refine ⟨habsent, ?_⟩
  rw [simple?_of_absent habsent] at h
  obtain ⟨⟨l, operator, r⟩, hcomparison, heq⟩ := Option.map_eq_some_iff.mp h
  obtain ⟨-, hdemand⟩ := Prod.mk.inj heq
  cases operator with
  | none => exact ⟨l, r, hcomparison, hdemand⟩
  | some operator => cases hdemand

theorem exists_part_of_addConditions {clause : List Char} {t : String}
    (h : addConditions clause [] = [(name, .text t)]) : joinedBy ['O', 'R'] (strip clause) = false ∧
      ∃ part ∈ conjuncts (strip clause), simple? part = some (name, .text t) := by
  rw [addConditions_eq] at h
  split at h
  case isTrue =>
    split at h
    · cases h
    · cases (Prod.mk.inj (cons.inj h).1).2
  case isFalse hor =>
    refine ⟨by simpa using hor, ?_⟩
    have hmem : (name, Value.text t) ∈ Document.merge [] (demands (strip clause)) := by
      rw [h]
      simp
    rcases (Document.mem_merge_iff (by simp [Document.names])).mp hmem with ⟨l, r, hdemands, -⟩ | ⟨-, hmem⟩
    · have hdemand : (name, Value.text t) ∈ demands (strip clause) := by
        rw [hdemands]
        simp
      exact mem_filterMap.mp hdemand
    · cases hmem

theorem exists_of_mem_conjuncts {t part : List Char} (h : part ∈ conjuncts t) :
    joinedBy ['A', 'N', 'D'] part = false ∧ ∃ x y, t = x ++ part ++ y := by
  rw [conjuncts, joined] at h
  split at h
  case isTrue =>
    obtain ⟨x, y, hxy, -⟩ := exists_of_mem_splitAtConnective solidWord_and h
    exact ⟨joinedBy_of_mem_splitAtConnective solidWord_and h, x, y, hxy⟩
  case isFalse hand =>
    obtain rfl := mem_singleton.mp h
    exact ⟨by simpa using hand, [], [], by simp⟩

/-! ### What is found in the text is found around it -/

theorem occursIn_form_of_quoted {p : Pattern} (hp : p ∈ specialForms)
    (h : p.occursIn (quotedText s)) (x : List Char) : p.occursIn (x ++ quotedText s) := by
  obtain ⟨u, v, y, huv, hspans⟩ := occursIn_iff.mp h
  cases u with
  | nil =>
    -- no form begins with a quote
    obtain ⟨f, b, g, c, w, hv, hne, hf, -⟩ := beginsOpening_of_special p hp _ y hspans
    obtain ⟨d, f, rfl⟩ := exists_cons_of_ne_nil hne
    have hd := hf d (by simp)
    rw [nil_append] at huv
    rw [← huv] at hv
    obtain ⟨rfl, -⟩ := cons.inj hv
    exact absurd hd (by decide)
  | cons c u =>
    refine occursIn_iff.mpr ⟨x ++ c :: u, v, y, by rw [huv, append_assoc], ?_⟩
    rw [getLast?_append, getLast?_cons, Option.some_or, ← getLast?_cons]
    exact hspans

theorem hasPiece_of_piece {needle t : List Char} (h : hasPiece needle t) (x y : List Char) :
    hasPiece needle (x ++ t ++ y) := by
  obtain ⟨u, v, rfl⟩ := isSome_cutAt?_iff.mp h
  exact isSome_cutAt?_iff.mpr ⟨x ++ u, v ++ y, by simp⟩

theorem joinedBy_of_piece {word t x : List Char} (hx : ∀ c ∈ x, isParen c = false)
    (h : joinedBy word t) (y : List Char) : joinedBy word (x ++ t ++ y) :=
  joinedFrom_piece (depthOver_of_not_isParen hx 0) h y

theorem exists_stop_of_end (field : List Char)
    (h : (oneOf clauseEnds).occursIn (quotedText s)) (w v : List Char) :
    ∃ u₁ u₂ y, quotedCondition field s ++ w = u₁ ++ u₂ ∧ u₁ ≠ [] ∧ u₂ ≠ [] ∧
      clauseStop.Spans ⟨u₁.getLast?, u₂ ++ v⟩ y := by
  obtain ⟨u, t, y, hut, hspans⟩ := occursIn_iff.mp h
  obtain ⟨g, c, r, ht, -⟩ := exists_of_spans_end hspans
  obtain ⟨z, hz, htakes, -⟩ := exists_of_spans_free (by decide) hspans
  change t = g ++ c :: r at ht
  change t = z ++ y.rest at hz
  obtain ⟨b, hb⟩ := htakes (y.rest ++ (w ++ v)) (field ++ [' ', '=', ' '] ++ u).getLast?
  refine ⟨field ++ [' ', '=', ' '] ++ u, t ++ w, ⟨b, y.rest ++ (w ++ v)⟩, ?_, by simp, by simp [ht], ?_⟩
  · rw [append_assoc, ← append_assoc u, ← hut]
    simp [quotedCondition, comparisonText, Sign.chars]
  · rw [hz]
    simpa using clauseStop_spans_iff.mpr (.inl hb)

/-! ### The text in the filter -/

variable (hfield : Word field)
include hfield

/-- **Only the quoted text reads as the text.** -/
theorem eq_of_value {a g b : List Char} (hquote : '\'' ∉ s) (hne : s ≠ [])
    (h : quotedCondition field s ++ [' '] = a ++ '=' :: (g ++ (r ++ b)))
    (hg : ∀ c ∈ g, isBlank c) (htrim : strip r = r) (hvalue : literal r = .text (String.ofList s)) :
    a = field ++ [' '] ∧ g = [' '] ∧ r = quotedText s ∧ b = [' '] := by
  have htext : quotedCondition field s ++ [' '] = field ++ ' ' :: '=' :: ' ' :: (quotedText s ++ [' ']) := by
    simp [quotedCondition, comparisonText, Sign.chars]
  have hlength := length_of_literal hne htrim hvalue
  have hr : r ≠ [] := by
    rcases hlength with rfl | hlength
    · exact hne
    · rintro rfl
      simp at hlength
  rw [htext] at h
  rcases append_eq_append_iff.mp h with ⟨a', rfl, ha⟩ | ⟨a', rfl, ha⟩
  · rcases a' with _ | ⟨_, _ | ⟨_, _ | ⟨_, _ | ⟨_, a'⟩⟩⟩⟩
    · cases ha
    · obtain ⟨rfl, hsign⟩ := cons.inj ha
      exact ⟨rfl, eq_of_value_behind_sign hquote hr htrim hg hlength (cons.inj hsign).2⟩
    · cases ha
    · cases ha
    · simp only [quotedText, cons_append, cons.injEq, append_assoc] at ha
      exact absurd ha.2.2.2.2 (not_value_behind_later_sign hquote hr htrim hlength)
  · cases a' with
    | nil => cases ha
    | cons d a' =>
      obtain ⟨rfl, -⟩ := cons.inj ha
      exact absurd (by simp) (hfield.not_mem (c := '=') (by decide))

/-- **Where the value of a read condition stands.** -/
theorem exists_of_simple?_part {x part y : List Char} (hquote : '\'' ∉ s) (hne : s ≠ [])
    (hsimple : simple? part = some (name, .text (String.ofList s)))
    (h : quotedCondition field s ++ [' '] = x ++ part ++ y) :
    ∃ x' l y', part = x' ++ bareCondition part ++ y' ∧ bareCondition part = l ++ quotedText s ∧
      (∀ c ∈ x ++ x' ++ l, isParen c = false) ∧ y' ++ y = [' '] := by
  obtain ⟨-, l, r, hcomparison, hvalue⟩ := exists_of_simple?_eq_text hsimple
  obtain ⟨-, l', r', hcut, -, rfl⟩ := comparison?_equal_iff.mp hcomparison
  have hbare := eq_of_cutAt? hcut
  obtain ⟨htrim, x', y', hpart⟩ := exists_bareCondition part
  obtain ⟨g, g', hr', hg, -⟩ := exists_strip r'
  obtain ⟨hvaltrim, a, b, hval, ha⟩ := exists_trimLiteral (strip r')
  have hrest : r' = g ++ a ++ (trimLiteral (strip r') ++ (b ++ g')) := by
    conv_lhs => rw [hr', hval]
    simp
  have hplace : quotedCondition field s ++ [' '] = (x ++ x' ++ l') ++
      '=' :: ((g ++ a) ++ (trimLiteral (strip r') ++ (b ++ g' ++ y' ++ y))) := by
    rw [h]
    conv_lhs => rw [hpart, hbare, hrest]
    simp
  obtain ⟨hbefore, hblank, hquoted, hbehind⟩ := eq_of_value hfield hquote hne hplace
    (fun c hc => (mem_append.mp hc).elim (hg c) (ha c)) hvaltrim hvalue
  rw [hblank, hquoted] at hrest
  -- the part is trimmed, so it ends with the quote
  have hend : b ++ g' = [] := by
    by_contra hend
    obtain ⟨t, d, ht⟩ := (eq_nil_or_concat (b ++ g')).resolve_left hend
    obtain rfl : d = ' ' := by
      have hmem : d ∈ b ++ g' ++ y' ++ y := by simp [ht]
      rw [hbehind] at hmem
      exact mem_singleton.mp hmem
    have hlast : ' ' ∈ (bareCondition part).getLast? := by
      rw [hbare, hrest, ht, show l' ++ ['='] ++ ([' '] ++ (quotedText s ++ t.concat ' ')) =
        l' ++ ['='] ++ ([' '] ++ (quotedText s ++ t)) ++ [' '] by simp, getLast?_concat]
      rfl
    rw [← htrim] at hlast
    exact absurd (getLast?_strip _ _ hlast) (by decide)
  refine ⟨x', l' ++ ['=', ' '], y', hpart, ?_, ?_, by simpa [hend] using hbehind⟩
  · rw [hbare, hrest, hend]
    simp
  · intro c hc
    rw [← append_assoc, hbefore] at hc
    simp only [mem_append, mem_cons, not_mem_nil, or_false] at hc
    rcases hc with (hc | rfl) | rfl | rfl
    · exact isParen_of_isWordChar (hfield.plain c hc)
    · rfl
    · rfl
    · rfl

/-- **A filter that asks for the text shows that the text is calm.** -/
theorem calm_of_filter (ho : Opening o) (hquote : '\'' ∉ s)
    (h : filter (o ++ " WHERE " ++ quotedCondition field s) =
      [(name, .text (String.ofList s))]) : Calm (quotedText s) := by
  by_cases hne : s = []
  · subst hne
    exact ⟨by decide, by decide, by decide, by decide, by decide⟩
  obtain ⟨u, v, huv, -, hfirst, hclause⟩ := exists_clause?_trimmed ho quotedCondition_ne_nil
    (strip_quotedCondition hfield)
  rw [filter, hclause] at h
  simp only at h
  split at h
  · cases h
  -- the pieces of the clause, from the outside to the value
  change addConditions (bareCondition u) [] = _ at h
  obtain ⟨htrim, x₁, y₁, hu⟩ := exists_bareCondition u
  obtain ⟨hor, part, hpart, hsimple⟩ := exists_part_of_addConditions h
  rw [htrim] at hor hpart
  obtain ⟨hand, x₂, y₂, hclause'⟩ := exists_of_mem_conjuncts hpart
  have hplace : quotedCondition field s ++ [' '] = (x₁ ++ x₂) ++ part ++ (y₂ ++ y₁ ++ v) := by
    rw [huv]
    conv_lhs => rw [hu, hclause']
    simp
  obtain ⟨x₃, l, y₃, hpart', hbare, hflat, hbehind⟩ :=
    exists_of_simple?_part hfield hquote hne hsimple hplace
  obtain ⟨hforms, l', r, hcomparison, -⟩ := exists_of_simple?_eq_text hsimple
  obtain ⟨hsigns, -⟩ := comparison?_equal_iff.mp hcomparison
  rw [hbare] at hforms hsigns hpart'
  have hflat₂ : ∀ c ∈ x₂ ++ x₃ ++ l, isParen c = false := fun c hc =>
    hflat c (by simp only [append_assoc] at hc ⊢; exact mem_append_right x₁ hc)
  have hflat₃ : ∀ c ∈ x₃ ++ l, isParen c = false := fun c hc =>
    hflat₂ c (by simp only [append_assoc]; exact mem_append_right x₂ hc)
  refine ⟨?_, ?_, ?_, fun p hp => ?_, fun sign hsign => ?_⟩ <;> rw [Bool.eq_false_iff] <;> intro hfound
  · -- the clause would have stopped there
    have hreach : u = quotedCondition field s ++ (y₃ ++ (y₂ ++ y₁)) := by
      refine (append_left_inj v).mp ?_
      rw [← huv, ← hbehind]
      simp
    obtain ⟨u₁, u₂, y, hsplit, hne₁, hne₂, hspans⟩ :=
      exists_stop_of_end field hfound (y₃ ++ (y₂ ++ y₁)) v
    exact hfirst u₁ u₂ (hreach.trans hsplit) hne₁ hne₂ y hspans
  · have hjoined := joinedBy_of_piece hflat₂ hfound (y₃ ++ y₂)
    rw [hclause', hpart'] at hor
    simp only [append_assoc] at hjoined hor
    rw [hor] at hjoined
    cases hjoined
  · have hjoined := joinedBy_of_piece hflat₃ hfound y₃
    rw [hpart'] at hand
    simp only [append_assoc] at hjoined hand
    rw [hand] at hjoined
    cases hjoined
  · have hoccurs := occursIn_form_of_quoted hp hfound l
    rw [occursIn, hforms p hp] at hoccurs
    cases hoccurs
  · have hpiece := hasPiece_of_piece hfound l []
    rw [append_nil, hsigns sign hsign] at hpiece
    cases hpiece

/-- **The filter is the field with the text iff the quoted text is calm.** -/
theorem filter_quoted_iff (ho : Opening o) (hquote : '\'' ∉ s) :
    filter (o ++ " WHERE " ++ quotedCondition field s) =
      [(String.ofList field, .text (String.ofList s))] ↔ Calm (quotedText s) :=
  ⟨calm_of_filter hfield ho hquote, filter_of_calm hfield ho⟩

end

end SqlGateway.Sql.Where
