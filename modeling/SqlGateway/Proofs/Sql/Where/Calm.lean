import SqlGateway.Proofs.Sql.Where.Clause
import SqlGateway.Proofs.Sql.Where.Comparison
import SqlGateway.Proofs.Sql.Where.Parts

/-!
# Conditions on a calm text

A condition `field = 'text'` is cut and searched in several ways that know no quotes.  A text is `Calm` if
none of them finds anything in it, and then **the filter is the field with the text between the quotes**
(`filter_of_calm`).
-/

namespace SqlGateway.Sql.Where

open Text Pattern List

variable {y x : Cursor} {o r u v : List Char} {b : Option Char}

/-! ### Calm texts -/

/-- What ends a clause inside a text. -/
def clauseEnds : List Pattern :=
  [space ++ phrase ["GROUP", "BY"], space ++ lit "HAVING", space ++ phrase ["ORDER", "BY"],
    space ++ lit "LIMIT", space ++ lit "OFFSET", gap ++ exactly ";"]

def earlierSigns : List String :=
  [">=", "<=", "<>", "!="]

/-- Nothing in the text is taken for a part of a condition. -/
structure Calm (s : List Char) : Prop where
  no_end : (oneOf clauseEnds).occursIn s = false
  no_or : joinedBy ['O', 'R'] s = false
  no_and : joinedBy ['A', 'N', 'D'] s = false
  no_form : ∀ p ∈ specialForms, p.occursIn s = false
  no_sign : ∀ sign ∈ earlierSigns, hasPiece sign.toList s = false

theorem Calm.no_semicolon {s : List Char} (h : Calm s) : ';' ∉ s := by
  intro hmem
  obtain ⟨u, v, rfl⟩ := append_of_mem hmem
  have htakes : (gap ++ exactly ";").Takes ([] ++ ";".toList) v :=
    (takes_many (by simp) _).append (takes_exactly ";" v)
  obtain ⟨b, hb⟩ := htakes u.getLast?
  have hoccurs : (oneOf clauseEnds).occursIn (u ++ ';' :: v) :=
    occursIn_iff.mpr ⟨u, ';' :: v, _, rfl, spans_oneOf.mpr ⟨_, by simp [clauseEnds], hb⟩⟩
  rw [h.no_end] at hoccurs
  cases hoccurs

/-! ### Where a clause stops -/

def clauseStop : Pattern :=
  oneOf (clauseEnds ++ [gap ++ finish])

theorem clauseStop_spans_iff :
    clauseStop.Spans x y ↔ (oneOf clauseEnds).Spans x y ∨ (gap ++ finish).Spans x y := by
  simp [clauseStop, spans_oneOf, or_and_right, exists_or]

theorem clauseStop_spans_space (b : Option Char) : ∃ y, clauseStop.Spans ⟨b, [' ']⟩ y :=
  ⟨⟨some ' ', []⟩, clauseStop_spans_iff.mpr (.inr ⟨⟨some ' ', []⟩, .step isBlank_space (.stay _), rfl, rfl⟩)⟩

/-- **What is taken for the clause**: everything up to the first place where a clause can stop. -/
theorem exists_clause?_trimmed (ho : Opening o) {c : List Char} (hne : c ≠ [])
    (htrimmed : strip c = c) : ∃ u v, c ++ [' '] = u ++ v ∧ (∃ b y, clauseStop.Spans ⟨b, v⟩ y) ∧
      (∀ u₁ u₂, u = u₁ ++ u₂ → u₁ ≠ [] → u₂ ≠ [] → ∀ y, ¬ clauseStop.Spans ⟨u₁.getLast?, u₂ ++ v⟩ y) ∧
      clause? (o ++ " WHERE " ++ c) = some (dropSemicolon (strip u)) := by
  have hhead : ∀ d ∈ (c ++ [' ']).head?, isBlank d = false := by
    have hsolid := head?_strip c
    rw [htrimmed] at hsolid
    obtain ⟨d, c, rfl⟩ := exists_cons_of_ne_nil hne
    exact hsolid
  have hword : (one isBlank ++ lit "WHERE" ++ space).Prefers
      ([' '] ++ ("WHERE" ++ ([' '] ++ (c ++ [' '])))) [] (c ++ [' ']) [] :=
    ((prefers_one isBlank_space _ []).append (prefers_lit (s := "WHERE") (by decide) _ [])).append
      (prefers_many1 (by simp) (by simp) hhead [])
  obtain ⟨u, v, huv, hstop, hfirst, hrun⟩ := exists_kept_few "clause" hword
    rfl ⟨c, [' '], rfl, clauseStop_spans_space⟩ none
  refine ⟨u, v, huv, hstop, hfirst, ?_⟩
  have hstrip : strip (o ++ " WHERE " ++ c) = o ++ " WHERE" ++ ' ' :: c := by
    have hassoc : ∀ a b : List Char, o ++ (a ++ ' ' :: b) = o ++ a ++ ' ' :: b := by
      intro a b
      simp
    have htrim := strip_append_append ho.part.ne_nil ho.part.trimmed hne htrimmed " WHERE "
    have hsame := hassoc " WHERE" c
    rw [append_assoc]
    exact htrim.trans hsame
  have hbehind : clauseBehind (c ++ [' ']) = some (dropSemicolon (strip u)) := by
    have hrun' : clausePattern.run ⟨none, " WHERE" ++ ' ' :: (c ++ [' '])⟩ []
        (fun _ k => some k) = some [("clause", ⟨c ++ [' '], v⟩)] := hrun
    rw [clauseBehind, hrun', huv]
    exact congrArg (fun t => some (dropSemicolon (strip t))) (pieceBefore_append u v)
  exact (ho.clause?_eq hstrip rfl).trans hbehind

theorem exists_of_spans_end (h : (oneOf clauseEnds).Spans x y) :
    ∃ g c r, x.rest = g ++ c :: r ∧ (∀ d ∈ g, isBlank d) ∧ (c = ';' ∨ g ≠ [] ∧ isWord c) := by
  have hword : ∀ {q : Pattern}, BeginsWord q → (space ++ q).Spans x y →
      ∃ g c r, x.rest = g ++ c :: r ∧ (∀ d ∈ g, isBlank d) ∧ (c = ';' ∨ g ≠ [] ∧ isWord c) := by
    rintro q hq ⟨z, hspace, hz⟩
    obtain ⟨g, hne, hg, hx⟩ := exists_of_spans_many1 hspace
    obtain ⟨c, r, hr, hc⟩ := hq z y hz
    exact ⟨g, c, r, by rw [hx, hr], hg, .inr ⟨hne, hc⟩⟩
  obtain ⟨p, hp, hspans⟩ := spans_oneOf.mp h
  simp only [clauseEnds, mem_cons, not_mem_nil, or_false] at hp
  rcases hp with rfl | rfl | rfl | rfl | rfl | rfl
  · exact hword (((beginsWord_lit rfl (by decide)).append _).append _) hspans
  · exact hword (beginsWord_lit rfl (by decide)) hspans
  · exact hword (((beginsWord_lit rfl (by decide)).append _).append _) hspans
  · exact hword (beginsWord_lit rfl (by decide)) hspans
  · exact hword (beginsWord_lit rfl (by decide)) hspans
  · obtain ⟨z, hgap, hz⟩ := hspans
    obtain ⟨g, hg, hx⟩ := exists_of_spans_many hgap
    exact ⟨g, ';', y.rest, by rw [hx, exists_of_spans_exactly hz]; rfl, hg, .inl rfl⟩

theorem exists_of_spans_end_quote {w : List Char} (h : (oneOf clauseEnds).Spans ⟨b, w ++ '\'' :: r⟩ y) :
    ∃ z a, w = z ++ a ∧ ∀ t, (oneOf clauseEnds).Takes z t := by
  obtain ⟨z, hz, htakes, hquote⟩ := exists_of_spans_free (by decide) h
  obtain ⟨a, hw, -⟩ := exists_append_of_class
    (fun c hc => ne_of_mem_of_not_mem hc (hquote '\'' (by decide))) (by simp) hz.symm
  exact ⟨z, a, hw, htakes⟩

/-! ### Signs -/

theorem hasPiece_append {n : Char} {needle : List Char} (hu : n ∉ u) (v : List Char) :
    hasPiece (n :: needle) (u ++ v) = hasPiece (n :: needle) v := by
  induction u with
  | nil => rfl
  | cons c u ih =>
    rw [mem_cons, not_or] at hu
    have hother : (n :: needle).isPrefixOf (c :: (u ++ v)) = false := by
      simp [isPrefixOf, hu.1]
    rw [cons_append, hasPiece, cutAt?, hother, if_neg (by simp), Option.isSome_map]
    exact ih hu.2

theorem comparison?_equal_iff {t l : List Char} : comparison? t = some (l, none, r) ↔
    (∀ sign ∈ earlierSigns, hasPiece sign.toList t = false) ∧
      ∃ u v, cutAt? ['='] t = some (u, v) ∧ l = strip u ∧ r = strip v := by
  let read (m : String × Option String) : Option (List Char × Option String × List Char) :=
    (cutAt? m.1.toList t).map fun cut => (strip cut.1, m.2, strip cut.2)
  have hother : ∀ ms : List (String × Option String), (∀ m ∈ ms, m.2 ≠ none) →
      ms.findSome? read ≠ some (l, none, r) := by
    intro ms hms h
    obtain ⟨m, hm, hread⟩ := exists_of_findSome?_eq_some h
    obtain ⟨cut, -, hm'⟩ := Option.map_eq_some_iff.mp hread
    simp only [Prod.mk.injEq] at hm'
    exact hms m hm hm'.2.1
  have hplace : comparison? t = ((comparisons.take 4).findSome? read).or
      ((read ("=", none)).or ((comparisons.drop 5).findSome? read)) := by
    have hsplit : comparisons = comparisons.take 4 ++ (("=", none) :: comparisons.drop 5) := rfl
    show comparisons.findSome? read = _
    conv_lhs => rw [hsplit]
    rw [findSome?_append, findSome?_cons]
    cases read ("=", none) <;> rfl
  have hnone : (comparisons.take 4).findSome? read = none ↔
      ∀ sign ∈ earlierSigns, hasPiece sign.toList t = false := by
    rw [findSome?_eq_none_iff, show earlierSigns = (comparisons.take 4).map Prod.fst from rfl, forall_mem_map]
    refine forall₂_congr fun m _ => ?_
    rw [Option.map_eq_none_iff, hasPiece, Option.isSome_eq_false_iff, Option.isNone_iff_eq_none]
  rw [hplace, ← hnone]
  cases hearlier : (comparisons.take 4).findSome? read with
  | some m =>
    have hne := hother (comparisons.take 4) (by decide)
    rw [hearlier] at hne
    simpa using hne
  | none =>
    have hne := hother (comparisons.drop 5) (by decide)
    have hequal : read ("=", none) = (cutAt? ['='] t).map fun cut => (strip cut.1, none, strip cut.2) := rfl
    rw [Option.none_or, hequal]
    cases cutAt? ['='] t with
    | none => simpa using hne
    | some m => simp [eq_comm, Prod.ext_iff]

/-! ### Places in a condition -/

def quotedCondition (field s : List Char) : List Char :=
  comparisonText field .equal (quotedText s)

section

variable {field s : List Char} {p : Pattern}

theorem getLast?_quotedCondition : (quotedCondition field s).getLast? = some '\'' := by
  have htext : quotedCondition field s = (field ++ [' ', '=', ' ', '\''] ++ s) ++ ['\''] := by
    simp [quotedCondition, comparisonText, Sign.chars, quotedText]
  rw [htext, getLast?_concat]

theorem quotedCondition_ne_nil : quotedCondition field s ≠ [] := by
  simp [quotedCondition, comparisonText]

theorem operand_quoted : operand (quotedText s) = .text (String.ofList s) := by
  rw [operand, trimLiteral_quoted, literal_quoted]

/-- Where a rest of a condition can begin: in the quoted text, in the field, or around the sign. -/
theorem rest_cases (h : quotedCondition field s ++ r = u ++ v) :
    (∃ u', u = field ++ [' ', '=', ' '] ++ u' ∧ quotedText s ++ r = u' ++ v) ∨
    (∃ x, x ≠ [] ∧ (∀ c ∈ x, c ∈ field) ∧ v = x ++ ' ' :: '=' :: ' ' :: (quotedText s ++ r)) ∨
    ∃ c d r', v = c :: d :: r' ∧ (c, d) ∈ [(' ', '='), ('=', ' '), (' ', '\'')] := by
  have htext : quotedCondition field s ++ r = field ++ ' ' :: '=' :: ' ' :: (quotedText s ++ r) := by
    simp [quotedCondition, comparisonText, Sign.chars]
  rw [htext] at h
  rcases append_eq_append_iff.mp h with ⟨a, rfl, ha⟩ | ⟨a, rfl, rfl⟩
  · rcases a with _ | ⟨_, _ | ⟨_, _ | ⟨_, u'⟩⟩⟩
    · exact .inr (.inr ⟨_, _, _, ha.symm, by simp⟩)
    · exact .inr (.inr ⟨_, _, _, (cons.inj ha).2.symm, by simp⟩)
    · exact .inr (.inr ⟨_, _, _, (cons.inj (cons.inj ha).2).2.symm, by simp⟩)
    · simp only [cons_append, cons.injEq] at ha
      obtain ⟨rfl, rfl, rfl, ha⟩ := ha
      exact .inl ⟨u', by simp, ha⟩
  · cases a with
    | nil => exact .inr (.inr ⟨_, _, _, rfl, by simp⟩)
    | cons c a => exact .inr (.inl ⟨c :: a, by simp, fun d hd => by simp [mem_append.mpr (.inr hd)], rfl⟩)

variable (hfield : Word field)
include hfield

/-- What stands before the quoted text has no special form, and none reaches over the quote. -/
theorem inside_of_form (hp : p ∈ specialForms) (h : quotedCondition field s = u ++ v)
    (hspans : p.Spans ⟨b, v⟩ y) :
    ∃ u', u' ≠ [] ∧ u = field ++ [' ', '=', ' '] ++ u' ∧ quotedText s = u' ++ v := by
  obtain ⟨f, e, g, c, w, hv, hne, hf, he, hg, hc⟩ := beginsOpening_of_special p hp _ y hspans
  change v = f ++ e :: (g ++ c :: w) at hv
  obtain ⟨d, f, rfl⟩ := exists_cons_of_ne_nil hne
  have hd := hf d (by simp)
  rw [← append_nil (quotedCondition field s)] at h
  rcases rest_cases h with ⟨u', hu, hquoted⟩ | ⟨x, -, hx, hv'⟩ | ⟨d', e', r', hv', hmem⟩
  · rw [append_nil] at hquoted
    refine ⟨u', ?_, hu, hquoted⟩
    rintro rfl
    rw [hv] at hquoted
    obtain ⟨rfl, -⟩ := cons.inj hquoted
    exact absurd hd (by decide)
  · -- behind the field stands the sign
    have hsolid : ∀ c ∈ x, isBlank c = false := fun c hc => hfield.solid c (hx c hc)
    rw [hv'] at hv
    rcases eq_or_of_append_blank hsolid he hv with ⟨-, hrest⟩ | ⟨z, hz, -⟩
    · cases g with
      | nil =>
        obtain ⟨rfl, -⟩ := cons.inj hrest
        exact absurd hc (by decide)
      | cons a g =>
        obtain ⟨rfl, -⟩ := cons.inj hrest
        exact absurd (hg '=' (by simp)) (by decide)
    · exact absurd (hf ' ' (by rw [hz]; simp)) (by decide)
  · rw [hv'] at hv
    obtain ⟨rfl, -⟩ := cons.inj hv
    simp only [mem_cons, Prod.mk.injEq, not_mem_nil, or_false] at hmem
    rcases hmem with ⟨rfl, -⟩ | ⟨rfl, -⟩ | ⟨rfl, -⟩ <;> exact absurd hd (by decide)

theorem occursIn_form_quoted (hp : p ∈ specialForms) :
    p.occursIn (quotedCondition field s) → p.occursIn (quotedText s) := by
  intro h
  obtain ⟨u, v, y, huv, hspans⟩ := occursIn_iff.mp h
  obtain ⟨u', hne, hu, hquoted⟩ := inside_of_form hfield hp huv hspans
  refine occursIn_iff.mpr ⟨u', v, y, hquoted, ?_⟩
  obtain ⟨c, u', rfl⟩ := exists_cons_of_ne_nil hne
  rw [hu, getLast?_append, getLast?_cons, Option.some_or, ← getLast?_cons] at hspans
  exact hspans

theorem inside_of_end (h : quotedCondition field s ++ r = u ++ v) (hspans : (oneOf clauseEnds).Spans ⟨b, v⟩ y) :
    ∃ u', u' ≠ [] ∧ u = field ++ [' ', '=', ' '] ++ u' ∧ quotedText s ++ r = u' ++ v := by
  obtain ⟨g, c, w, hv, hg, hc⟩ := exists_of_spans_end hspans
  -- the first character that is not blank tells
  have hfirst : ∀ {d : Char} {t : List Char}, v = d :: t → isBlank d = false → d = ';' := by
    rintro d t hd hblank
    rw [hd] at hv
    cases g with
    | nil =>
      obtain ⟨rfl, -⟩ := cons.inj hv
      exact hc.resolve_right fun hc => hc.1 rfl
    | cons e g =>
      obtain ⟨rfl, -⟩ := cons.inj hv
      rw [hg d (by simp)] at hblank
      cases hblank
  have hsecond : ∀ {d : Char} {t : List Char}, v = ' ' :: d :: t → isBlank d = false →
      d = ';' ∨ isWord d := by
    rintro d t hd hblank
    rw [hd] at hv
    rcases g with _ | ⟨_, _ | ⟨e, g⟩⟩
    · obtain ⟨rfl, -⟩ := cons.inj hv
      exact absurd (hc.resolve_right fun hc => hc.1 rfl) (by decide)
    · obtain ⟨rfl, -⟩ := cons.inj (cons.inj hv).2
      exact hc.imp_right And.right
    · obtain ⟨rfl, -⟩ := cons.inj (cons.inj hv).2
      rw [hg d (by simp)] at hblank
      cases hblank
  rcases rest_cases h with ⟨u', hu, hquoted⟩ | ⟨x, hne, hx, hv'⟩ | ⟨d, e, t, hv', hmem⟩
  · refine ⟨u', ?_, hu, hquoted⟩
    rintro rfl
    exact absurd (hfirst hquoted.symm (by decide)) (by decide)
  · obtain ⟨d, x, rfl⟩ := exists_cons_of_ne_nil hne
    have hd := hx d (by simp)
    obtain rfl := hfirst hv' (hfield.solid d hd)
    exact absurd hd (hfield.not_mem (by decide))
  · simp only [mem_cons, Prod.mk.injEq, not_mem_nil, or_false] at hmem
    rcases hmem with ⟨rfl, rfl⟩ | ⟨rfl, rfl⟩ | ⟨rfl, rfl⟩
    · exact absurd (hsecond hv' (by decide)) (by decide)
    · exact absurd (hfirst hv' (by decide)) (by decide)
    · exact absurd (hsecond hv' (by decide)) (by decide)

theorem joinedBy_quotedCondition {word : List Char} (hword : word = ['O', 'R'] ∨ word = ['A', 'N', 'D']) :
    joinedBy word (quotedCondition field s) = joinedBy word (quotedText s) := by
  have hsolid : SolidWord word := by
    rcases hword with rfl | rfl
    · exact solidWord_or
    · exact solidWord_and
  have hsign : ∀ t : List Char, startsConnective word (' ' :: '=' :: t) = false ∧
      startsConnective word (' ' :: '\'' :: t) = false := by
    rcases hword with rfl | rfl <;> exact fun t => ⟨rfl, rfl⟩
  have hdepth : depthOver 0 field = 0 :=
    depthOver_of_not_isParen (fun c hc => isParen_of_isWordChar (hfield.plain c hc)) 0
  have hequal : startsConnective word ('=' :: ' ' :: quotedText s) = false := rfl
  rw [joinedBy, joinedBy, quotedCondition, comparisonText,
    joinedFrom_append_blank hsolid isBlank_space _ field 0, joinedFrom_solid word ' ' hfield.solid 0,
    hdepth, Bool.false_or]
  show joinedFrom word 0 (' ' :: '=' :: ' ' :: quotedText s) = _
  rw [joinedFrom_cons, (hsign _).1, joinedFrom_cons, show depthAfter 0 ' ' = 0 from rfl, hequal,
    show depthAfter 0 '=' = 0 from rfl, joinedFrom_cons, quotedText, (hsign _).2]
  simp [depthAfter]

theorem hasPiece_quotedCondition {sign : String} (hsign : sign ∈ earlierSigns) :
    hasPiece sign.toList (quotedCondition field s) = hasPiece sign.toList (quotedText s) := by
  have hfirst : ∀ {n : Char} {needle : List Char}, isWordChar n = false → n ∉ [' ', '=', ' '] →
      hasPiece (n :: needle) (quotedCondition field s) = hasPiece (n :: needle) (quotedText s) := by
    intro n needle hn hn'
    have htext : quotedCondition field s = field ++ [' ', '=', ' '] ++ quotedText s := by
      simp [quotedCondition, comparisonText, Sign.chars]
    rw [htext]
    refine hasPiece_append (fun hmem => ?_) (quotedText s)
    rcases mem_append.mp hmem with hmem | hmem
    · exact hfield.not_mem hn hmem
    · exact hn' hmem
  simp only [earlierSigns, mem_cons, not_mem_nil, or_false] at hsign
  rcases hsign with rfl | rfl | rfl | rfl <;> exact hfirst (by decide) (by decide)

/-! ### Reading a calm condition -/

theorem strip_quotedCondition : strip (quotedCondition field s) = quotedCondition field s :=
  strip_append_append hfield.ne_nil (strip_eq_self_of_solid hfield.solid) (cons_ne_nil _ _)
    (strip_quoted s) [' ', '=', ' ']

theorem bareCondition_quotedCondition : bareCondition (quotedCondition field s) = quotedCondition field s :=
  bareCondition_quoted hfield.ne_nil hfield.solid [' ', '=', ' '] s

theorem simple?_quotedCondition (hcalm : Calm (quotedText s)) :
    simple? (quotedCondition field s) = some (String.ofList field, .text (String.ofList s)) := by
  have hbare := bareCondition_quotedCondition (s := s) hfield
  have habsent : ∀ p ∈ specialForms, p.find? (bareCondition (quotedCondition field s)) = none := by
    intro p hp
    rw [hbare, ← Option.not_isSome_iff_eq_none]
    intro hfound
    have hquoted := occursIn_form_quoted hfield hp hfound
    rw [hcalm.no_form p hp] at hquoted
    cases hquoted
  have hcut : cutAt? ['='] (quotedCondition field s) = some (field ++ [' '], ' ' :: quotedText s) := by
    have htext : quotedCondition field s = (field ++ [' ']) ++ (['='] ++ (' ' :: quotedText s)) := by
      simp [quotedCondition, comparisonText, Sign.chars]
    rw [htext]
    refine cutAt?_of_not_mem _ fun hmem => ?_
    rcases mem_append.mp hmem with hmem | hmem
    · exact hfield.not_mem (by decide) hmem
    · exact absurd hmem (by decide)
  have hread : comparison? (quotedCondition field s) = some (field, none, quotedText s) := by
    refine comparison?_equal_iff.mpr ⟨fun sign hsign => ?_, _, _, hcut, ?_, ?_⟩
    · rw [hasPiece_quotedCondition hfield hsign]
      exact hcalm.no_sign sign hsign
    · rw [strip_append_blanks (by simp), strip_eq_self_of_solid hfield.solid]
    · rw [← singleton_append, strip_blanks_append (by simp), strip_quoted]
  rw [simple?_of_absent habsent, hbare, hread]
  simp only [Option.map_some, demand, operand_quoted]

/-! ### The clause of a quoted condition -/

theorem eq_of_no_end (hno : (oneOf clauseEnds).occursIn (quotedText s) = false)
    (huv : quotedCondition field s ++ [' '] = u ++ v) (hstop : ∃ b y, clauseStop.Spans ⟨b, v⟩ y)
    (hfirst : ∀ u₁ u₂, u = u₁ ++ u₂ → u₁ ≠ [] → u₂ ≠ [] → ∀ y,
      ¬ clauseStop.Spans ⟨u₁.getLast?, u₂ ++ v⟩ y) : u = quotedCondition field s := by
  rcases append_eq_append_iff.mp huv with ⟨w, rfl, hw⟩ | ⟨w, hw, hv⟩
  · -- the clause does not reach over the end
    cases w with
    | nil => exact append_nil _
    | cons c w =>
      obtain ⟨y, hy⟩ := clauseStop_spans_space (quotedCondition field s).getLast?
      rw [hw] at hy
      exact absurd hy (hfirst _ _ rfl quotedCondition_ne_nil (by simp) y)
  · cases hlast : w with
    | nil => rw [hw, hlast, append_nil]
    | cons c t =>
      obtain ⟨b, y, hspans⟩ := hstop
      rw [hv] at hspans
      have hquote : w.getLast? = some '\'' := by
        have h : (quotedCondition field s).getLast? = some '\'' := getLast?_quotedCondition
        rw [hw, hlast, getLast?_append, getLast?_cons, Option.some_or, ← getLast?_cons] at h
        rw [hlast, h]
      obtain ⟨w', rfl⟩ := getLast?_eq_some_iff.mp hquote
      rcases clauseStop_spans_iff.mp hspans with hend | ⟨z, hgap, -, hfinish⟩
      · rw [hv] at huv
        obtain ⟨u', -, -, hquoted⟩ := inside_of_end hfield huv hend
        rw [append_assoc] at hend
        obtain ⟨z, a, rfl, htakes⟩ := exists_of_spans_end_quote hend
        rw [← append_assoc, append_left_inj] at hquoted
        obtain ⟨b', hb'⟩ := htakes (a ++ ['\'']) u'.getLast?
        have hoccurs : (oneOf clauseEnds).occursIn (quotedText s) :=
          occursIn_iff.mpr ⟨u', z ++ (a ++ ['\'']), _, by rw [hquoted, append_assoc], hb'⟩
        rw [hno] at hoccurs
        cases hoccurs
      · -- the quote is neither blank nor the end of the text
        obtain ⟨g, hg, hx⟩ := exists_of_spans_many hgap
        have hmem : '\'' ∈ g ++ z.rest := by
          rw [← hx]
          simp
        rcases mem_append.mp hmem with hmem | hmem
        · exact absurd (hg _ hmem) (by decide)
        · have hrest : z.rest = [] ∨ z.rest = ['\n'] := by simpa [Cursor.atFinish] using hfinish
          rcases hrest with hrest | hrest <;> rw [hrest] at hmem <;> simp at hmem

theorem filter_of_calm (ho : Opening o) (hcalm : Calm (quotedText s)) :
    filter (o ++ " WHERE " ++ quotedCondition field s) =
      [(String.ofList field, .text (String.ofList s))] := by
  obtain ⟨u, v, huv, hstop, hfirst, hclause⟩ := exists_clause?_trimmed ho quotedCondition_ne_nil
    (strip_quotedCondition hfield)
  obtain rfl := eq_of_no_end hfield hcalm.no_end huv hstop hfirst
  have hbare : dropSemicolon (strip (quotedCondition field s)) = quotedCondition field s :=
    bareCondition_quotedCondition hfield
  have hne : (quotedCondition field s).isEmpty = false := isEmpty_eq_false_iff.mpr quotedCondition_ne_nil
  have hor : joinedBy ['O', 'R'] (quotedCondition field s) = false := by
    rw [joinedBy_quotedCondition hfield (.inl rfl), hcalm.no_or]
  have hand : joinedBy ['A', 'N', 'D'] (quotedCondition field s) = false := by
    rw [joinedBy_quotedCondition hfield (.inr rfl), hcalm.no_and]
  have hdemands : demands (quotedCondition field s) = [(String.ofList field, .text (String.ofList s))] := by
    rw [demands, conjuncts, joined, hand]
    simp only [Bool.false_eq_true, if_false, filterMap_cons, filterMap_nil,
      simple?_quotedCondition hfield hcalm]
  rw [filter, hclause, hbare]
  simp only [hne, Bool.false_eq_true, if_false]
  rw [addConditions_eq, strip_quotedCondition hfield, hor, hdemands]
  rfl

end

end SqlGateway.Sql.Where
