import SqlGateway.Proofs.Sql.Where.Bound
import SqlGateway.Proofs.Sql.Where.Clause

/-!
# Conditions in parentheses

Connectives count outside parentheses only, so a compound condition in parentheses becomes a single member of
the filter.  **What it asks of numbers does not depend on the numbers** (`rigid_of_simple?`): it accepts all
documents of numbers, or none.
-/

namespace SqlGateway.Sql.Where

open Text Pattern List Option Number Filter

variable {s t u v : List Char}

/-! ### Nesting -/

/-- The parentheses of the text are closed, and each one that is closed was opened. -/
structure Nested (s : List Char) : Prop where
  closed : depthOver 0 s = 0
  opened : ∀ u v, s = u ++ v → 0 ≤ depthOver 0 u

theorem depthOver_eq_add (s : List Char) (d : Int) : depthOver d s = d + depthOver 0 s := by
  induction s generalizing d with
  | nil => simp
  | cons c s ih =>
    have hstep : depthAfter d c = d + depthAfter 0 c := by
      simp only [depthAfter]
      split
      · omega
      · split <;> omega
    rw [depthOver_cons, depthOver_cons, ih (depthAfter d c), ih (depthAfter 0 c), hstep]
    omega

theorem nested_of_not_isParen (h : ∀ c ∈ s, isParen c = false) : Nested s where
  closed := depthOver_of_not_isParen h 0
  opened u v huv := by
    rw [depthOver_of_not_isParen fun c hc => h c (by rw [huv]; exact mem_append_left v hc)]

theorem Nested.append (hs : Nested s) (ht : Nested t) : Nested (s ++ t) where
  closed := by rw [depthOver_append, hs.closed, ht.closed]
  opened u v huv := by
    rcases append_eq_append_iff.mp huv with ⟨a, rfl, ha⟩ | ⟨a, ha, rfl⟩
    · rw [depthOver_append, hs.closed]
      exact ht.opened a v ha
    · exact hs.opened u a ha

def enclosed (s : List Char) : List Char :=
  '(' :: (s ++ [')'])

theorem cut_enclosed (h : enclosed s = u ++ v) : u = [] ∨ (u = enclosed s ∧ v = []) ∨
      ∃ u' v', u = '(' :: u' ∧ v = v' ++ [')'] ∧ s = u' ++ v' := by
  cases u with
  | nil => exact .inl rfl
  | cons c u =>
    obtain ⟨rfl, hs⟩ := cons.inj h
    change s ++ [')'] = u ++ v at hs
    rcases eq_nil_or_concat v with rfl | ⟨v', d, rfl⟩
    · rw [append_nil] at hs
      exact .inr (.inl ⟨by rw [enclosed, hs], rfl⟩)
    · rw [concat_eq_append, ← append_assoc, append_singleton_inj] at hs
      obtain ⟨rfl, rfl⟩ := hs
      exact .inr (.inr ⟨u, v', rfl, by simp, rfl⟩)

theorem Nested.depthOver_inside (hs : Nested s) (h : s = u ++ v) : 0 < depthOver 0 ('(' :: u) := by
  have hopen : depthOver 0 ('(' :: u) = depthOver 1 u := rfl
  have := hs.opened u v h
  rw [hopen, depthOver_eq_add]
  omega

theorem Nested.depthOver_enclosed (hs : Nested s) : depthOver 0 (enclosed s) = 0 := by
  have hopen : depthOver 0 (enclosed s) = depthOver (depthOver 1 s) [')'] := depthOver_append 1 s [')']
  rw [hopen, depthOver_eq_add s, hs.closed]
  rfl

theorem Nested.enclosed (hs : Nested s) : Nested (enclosed s) where
  closed := hs.depthOver_enclosed
  opened u v huv := by
    rcases cut_enclosed huv with rfl | ⟨rfl, rfl⟩ | ⟨u', v', rfl, rfl, hs'⟩
    · simp
    · rw [hs.depthOver_enclosed]
    · exact (hs.depthOver_inside hs').le

/-- **No connective splits a text in parentheses.** -/
theorem part_enclosed {word : List Char} (hword : SolidWord word) (hs : Nested s) : Part word (enclosed s) where
  ne_nil := cons_ne_nil _ _
  trimmed := by
    refine strip_eq_self ?_ ?_
    · rintro c ⟨⟩
      decide
    · rw [enclosed, ← cons_append, getLast?_concat]
      rintro c ⟨⟩
      decide
  closed := hs.enclosed.closed
  quiet := by
    rw [Bool.eq_false_iff]
    intro hjoined
    obtain ⟨u, v, huv, hdepth, hstarts⟩ := joinedFrom_iff.mp hjoined
    obtain ⟨a, w, b, t, rfl, ha, hw, hb⟩ := startsConnective_iff.mp hstarts
    cases u with
    | nil =>
      -- the keyword would begin with the parenthesis
      obtain ⟨-, hrest⟩ := cons.inj huv
      cases w with
      | nil =>
        obtain ⟨rfl, -⟩ := cons.inj hrest
        exact absurd hb (by decide)
      | cons c w =>
        obtain ⟨rfl, -⟩ := cons.inj hrest
        exact absurd (hword.of_spells hw '(' (by simp)).2 (by decide)
    | cons c u =>
      obtain ⟨rfl, hrest⟩ := cons.inj huv
      rcases append_eq_append_iff.mp hrest with ⟨x, -, hx⟩ | ⟨x, hu, hx⟩
      · have hlength := congrArg length hx
        simp only [length_append, length_cons, length_nil] at hlength
        omega
      · rcases cut_enclosed hu with rfl | ⟨-, rfl⟩ | ⟨u', v', rfl, -, hs'⟩
        · rw [nil_append] at hu
          rw [← hu] at hx
          obtain ⟨rfl, -⟩ := cons.inj hx
          exact absurd ha (by decide)
        · have hlength := congrArg length hx
          simp only [length_append, length_cons, length_nil] at hlength
          omega
        · exact absurd hdepth (hs.depthOver_inside hs').ne'

/-! ### Around the spaces -/

/-- The characters that can stand around a space: a sign stands on one side, or a connective does. -/
def Fits (a b : Char) : Prop :=
  a ∈ signChars ∨ b ∈ signChars ∨ a ∈ ['D', 'R'] ∨ b ∈ ['A', 'O']

/-- Around every space stand characters that can stand there. -/
def Joints (s : List Char) : Prop :=
  ∀ u a b w, s = u ++ a :: ' ' :: b :: w → Fits a b

theorem joints_of_solid (h : ∀ c ∈ s, isBlank c = false) : Joints s := by
  rintro u a b w rfl
  exact absurd (h ' ' (by simp)) (by decide)

theorem not_head_space (h : strip s = s) : s ≠ ' ' :: t := by
  intro hs
  exact absurd (head?_strip s ' ' (by rw [h, hs]; rfl)) (by decide)

theorem not_last_space (h : strip s = s) : s ≠ t ++ [' '] := by
  intro hs
  exact absurd (getLast?_strip s ' ' (by rw [h, hs, getLast?_concat]; rfl)) (by decide)

theorem Joints.append (hs : Joints s) (ht : Joints t) (hs' : strip s = s) (ht' : strip t = t)
    (hfits : ∀ a ∈ s.getLast?, ∀ b ∈ t.head?, Fits a b) : Joints (s ++ ' ' :: t) := by
  intro u a b w h
  rcases append_eq_append_iff.mp h with ⟨x, rfl, hx⟩ | ⟨x, rfl, hx⟩
  · cases x with
    | nil => exact absurd (cons.inj hx).2 (not_head_space ht')
    | cons c x => exact ht x a b w (cons.inj hx).2
  · rcases x with _ | ⟨c, _ | ⟨d, _ | ⟨e, x⟩⟩⟩
    · exact absurd (cons.inj hx).2.symm (not_head_space ht')
    · obtain ⟨rfl, htail⟩ := cons.inj hx
      obtain rfl := (cons.inj htail).2
      exact hfits a (by rw [getLast?_concat]; rfl) b rfl
    · obtain ⟨rfl, htail⟩ := cons.inj hx
      obtain ⟨rfl, -⟩ := cons.inj htail
      exact absurd (by simp) (not_last_space (t := u ++ [a]) hs')
    · obtain ⟨rfl, htail⟩ := cons.inj hx
      obtain ⟨rfl, hrest⟩ := cons.inj htail
      obtain ⟨rfl, -⟩ := cons.inj hrest
      exact hs u a b x rfl

theorem Joints.enclosed (hs : Joints s) (hne : s ≠ []) (hs' : strip s = s) : Joints (enclosed s) := by
  intro u a b w h
  rcases cut_enclosed h with rfl | ⟨-, hnil⟩ | ⟨u', v', rfl, hv, rfl⟩
  · obtain ⟨c, s, rfl⟩ := exists_cons_of_ne_nil hne
    obtain ⟨-, htail⟩ := cons.inj h
    obtain ⟨rfl, -⟩ := cons.inj htail
    exact absurd rfl (not_head_space hs')
  · cases hnil
  · rcases v' with _ | ⟨c, _ | ⟨d, _ | ⟨e, v'⟩⟩⟩
    · cases hv
    · cases (cons.inj hv).2
    · obtain ⟨rfl, htail⟩ := cons.inj hv
      obtain ⟨rfl, -⟩ := cons.inj htail
      exact absurd (by simp) (not_last_space (t := u' ++ [a]) hs')
    · obtain ⟨rfl, htail⟩ := cons.inj hv
      obtain ⟨rfl, hrest⟩ := cons.inj htail
      obtain ⟨rfl, -⟩ := cons.inj hrest
      exact hs u' a b v' rfl

/-! ### Written conditions -/

def isConditionChar (c : Char) : Bool :=
  isNameChar c || [' ', '(', ')', '!', '<', '=', '>', '+', '-'].contains c

/-- What the texts of conditions have in common. -/
structure Written (s : List Char) : Prop where
  ne_nil : s ≠ []
  trimmed : strip s = s
  plain : ∀ c ∈ s, isConditionChar c
  nested : Nested s
  joints : Joints s
  compares : ∃ c ∈ s, isSignChar c

inductive Connective where
  | and
  | or
  deriving DecidableEq, Repr

def Connective.word : Connective → List Char
  | and => ['A', 'N', 'D']
  | or => ['O', 'R']

theorem Connective.solid (k : Connective) : ∀ c ∈ k.word, isBlank c = false ∧ isParen c = false := by
  cases k <;> decide

theorem Written.join (hs : Written s) (ht : Written t) (k : Connective) :
    Written (s ++ ' ' :: (k.word ++ ' ' :: t)) := by
  have hword : strip k.word = k.word := strip_eq_self_of_solid fun c hc => (k.solid c hc).1
  have hne : k.word ≠ [] := by cases k <;> decide
  have htail := strip_append_space hne hword ht.ne_nil ht.trimmed
  have hspace : Nested [' '] := nested_of_not_isParen (by decide)
  refine ⟨by simp, strip_append_space hs.ne_nil hs.trimmed (by simp) htail, ?_, ?_, ?_, ?_⟩
  · intro c hc
    simp only [mem_append, mem_cons] at hc
    rcases hc with hc | rfl | hc | rfl | hc
    · exact hs.plain c hc
    · decide
    · revert c
      cases k <;> decide
    · decide
    · exact ht.plain c hc
  · exact hs.nested.append (hspace.append
      ((nested_of_not_isParen fun c hc => (k.solid c hc).2).append (hspace.append ht.nested)))
  · refine hs.joints.append ((joints_of_solid fun c hc => (k.solid c hc).1).append ht.joints hword
      ht.trimmed ?_) hs.trimmed htail ?_
    · intro a ha b _
      refine .inr (.inr (.inl ?_))
      cases k <;> (obtain rfl := some.inj ha; decide)
    · intro a _ b hb
      refine .inr (.inr (.inr ?_))
      cases k <;> (obtain rfl := some.inj hb; decide)
  · obtain ⟨c, hc, hsign⟩ := hs.compares
    exact ⟨c, mem_append_left _ hc, hsign⟩

theorem Written.enclosed (hs : Written s) : Written (enclosed s) where
  ne_nil := cons_ne_nil _ _
  trimmed := (part_enclosed solidWord_or hs.nested).trimmed
  plain c hc := by
    simp only [Where.enclosed, mem_cons, mem_append, not_mem_nil, or_false] at hc
    rcases hc with rfl | hc | rfl
    · decide
    · exact hs.plain c hc
    · decide
  nested := hs.nested.enclosed
  joints := hs.joints.enclosed hs.ne_nil hs.trimmed
  compares := by
    obtain ⟨c, hc, hsign⟩ := hs.compares
    exact ⟨c, mem_cons_of_mem _ (mem_append_left _ hc), hsign⟩

theorem Bound.written (b : Bound) : Written b.chars := by
  have hfield := b.field.plainWord.toWord
  have hlimit := b.limit.plainWord.toWord
  have hsign : ∀ c ∈ b.sign.chars, isBlank c = false ∧ c ∈ signChars ∧ isConditionChar c ∧
      isParen c = false := by
    cases b.sign <;> decide
  have hpart := b.part.1
  have hsolid : strip b.sign.chars = b.sign.chars := strip_eq_self_of_solid fun c hc => (hsign c hc).1
  obtain ⟨first, more, hchars, -⟩ := b.sign.exists_chars
  have htail : strip (b.sign.chars ++ ' ' :: b.limit.chars) = b.sign.chars ++ ' ' :: b.limit.chars :=
    strip_append_space (by simp [hchars]) hsolid hlimit.ne_nil (strip_eq_self_of_solid hlimit.solid)
  have hplain : ∀ c ∈ b.chars, isConditionChar c ∧ isParen c = false := by
    intro c hc
    rw [chars, comparisonText] at hc
    simp only [mem_append, mem_cons] at hc
    rcases hc with hc | rfl | hc | rfl | hc
    · exact ⟨by rw [isConditionChar, b.field.plain c hc, Bool.true_or],
        isParen_of_isWordChar (hfield.plain c hc)⟩
    · decide
    · exact (hsign c hc).2.2
    · decide
    · exact (by decide : ∀ c ∈ Numeral.heads, isConditionChar c ∧ isParen c = false) c
        (Numeral.mem_heads_of_mem hc)
  refine ⟨hpart.ne_nil, hpart.trimmed, fun c hc => (hplain c hc).1,
    nested_of_not_isParen fun c hc => (hplain c hc).2, ?_, ?_⟩
  · refine (joints_of_solid hfield.solid).append ((joints_of_solid fun c hc => (hsign c hc).1).append
      (joints_of_solid hlimit.solid) hsolid (strip_eq_self_of_solid hlimit.solid) ?_)
      (strip_eq_self_of_solid hfield.solid) htail ?_
    · intro a ha _ _
      exact .inl (hsign a (mem_of_getLast? ha)).2.1
    · intro _ _ c hc
      rw [hchars] at hc
      obtain rfl := some.inj hc
      exact .inr (.inl (hsign first (by simp [hchars])).2.1)
  · have hlast : ∃ c ∈ b.sign.chars, isSignChar c := by
      cases b.sign <;> decide
    obtain ⟨c, hc, hcompares⟩ := hlast
    refine ⟨c, ?_, hcompares⟩
    rw [chars, comparisonText]
    simp [hc]

/-! ### The last operand -/

theorem digitsFrom_ne_nil {s : List Char} (h : s.getLast? = some ')') (afterDigit : Bool) :
    (digitsFrom afterDigit s).2 ≠ [] := by
  induction s generalizing afterDigit with
  | nil => cases h
  | cons c s ih =>
    have hrest : s ≠ [] → s.getLast? = some ')' := fun hne => by
      rwa [getLast?_cons_of_ne_nil hne] at h
    rw [digitsFrom]
    split
    case h_1 d hd =>
      refine ih (hrest ?_) true
      rintro rfl
      obtain rfl : c = ')' := by simpa using h
      cases hd
    case h_2 =>
      split
      case isTrue hmark =>
        refine ih (hrest ?_) false
        rintro rfl
        simp at hmark
      case isFalse => exact cons_ne_nil _ _

theorem getLast?_takeSign (h : s.getLast? = some ')') : (takeSign s).2.getLast? = some ')' := by
  have hrest : ∀ {c : Char} {t : List Char}, c ≠ ')' → (c :: t).getLast? = some ')' →
      t.getLast? = some ')' := by
    intro c t hc h
    cases t with
    | nil => exact absurd (by simpa using h) hc
    | cons d t => rwa [getLast?_cons_cons] at h
  unfold takeSign
  split
  · exact hrest (by decide) h
  · exact hrest (by decide) h
  · exact h

theorem readInt_ne_ok (h : s.getLast? = some ')') (htrim : strip s = s) (n : Int) :
    readInt s ≠ .ok n := by
  have houter : ∀ {c : Char}, isBlank c = false → isOuterBlank c = false := by
    intro c hc
    rw [isOuterBlank, hc, Bool.false_and]
  have hstrip : stripBy isOuterBlank s = s := by
    refine stripBy_eq_self (fun c hc => houter ?_) fun c hc => houter ?_
    · exact head?_strip s c (by rw [htrim]; exact hc)
    · exact getLast?_strip s c (by rw [htrim]; exact hc)
  have hleft := digitsFrom_ne_nil (getLast?_takeSign h) false
  simp only [readInt, hstrip, takeDigits]
  split
  · exact fun h => by cases h
  · rw [if_pos]
    · exact fun h => by cases h
    · simpa using .inr hleft

/-- **What ends with a parenthesis stands for itself**, if it has no point in it. -/
theorem literal_of_parenthesis (h : s.getLast? = some ')') (hpoint : '.' ∉ s) :
    literal s = .text (String.ofList (strip s)) := by
  have hlast := getLast?_strip_of_solid h (by decide)
  have hpoint' : (strip s).contains '.' = false := by
    rw [← Bool.not_eq_true, contains_iff_mem]
    exact fun hmem => hpoint (mem_of_mem_strip hmem)
  have henclosed : isEnclosed (strip s) = false := by
    simp [isEnclosed, enclosedBy, hlast]
  have hkeyword : ∀ word ∈ ["NULL", "TRUE", "FALSE"], isKeyword word (strip s) = false := by
    intro word hword
    rw [isKeyword, beq_eq_false_iff_ne]
    intro hupper
    have hmem : ')' ∈ upper (strip s) := mem_flatMap.mpr ⟨')', mem_of_getLast? hlast, by decide⟩
    rw [hupper] at hmem
    exact (by decide : ∀ word ∈ ["NULL", "TRUE", "FALSE"], ')' ∉ word.toList) word hword hmem
  simp only [forall_mem_cons] at hkeyword
  obtain ⟨hnull, htrue, hfalse, -⟩ := hkeyword
  rw [literal]
  simp only [henclosed, hnull, htrue, hfalse, numberOrText, hpoint', Bool.false_eq_true, if_false]
  split
  case h_1 n hn => exact absurd hn (readInt_ne_ok hlast (strip_strip s) n)
  case h_2 => rfl

theorem operand_of_parenthesis (h : s.getLast? = some ')') (hpoint : '.' ∉ s) : ∃ t, operand s = .text t := by
  have hlast := getLast?_strip_of_solid h (by decide)
  have hends : endsWith [';'] (strip s) = false := endsWith_singleton (by rw [hlast]; rintro c ⟨⟩; decide)
  have htrim : trimLiteral s = strip s := by
    rw [trimLiteral]
    simp [hends]
  have hvalue := literal_of_parenthesis hlast fun hmem => hpoint (mem_of_mem_strip hmem)
  exact ⟨_, by rw [operand, htrim, hvalue]⟩

/-! ### Forms that do not occur -/

theorem exists_last_of_spells {word s : List Char} (h : spells word s) {l : Char}
    (hl : word.getLast? = some l) : ∃ t a, s = t ++ [a] ∧ sameLetter l a := by
  obtain ⟨word, rfl⟩ := getLast?_eq_some_iff.mp hl
  have hreverse := forall₂_reverse_iff.mpr (spells_iff.mp h)
  rw [reverse_append] at hreverse
  obtain ⟨a, t, ha, -, ht⟩ := forall₂_cons_left_iff.mp hreverse
  exact ⟨t.reverse, a, by simpa using congrArg reverse ht, ha⟩

def framing : List Char :=
  signChars ++ ['D', 'R', 'A', 'O']

theorem not_fits {a b : Char} (ha : a ∉ framing) (hb : b ∉ framing) : ¬ Fits a b := by
  simp only [framing, mem_append, not_or, mem_cons, not_mem_nil, or_false] at ha hb
  simp only [Fits, mem_cons, not_mem_nil, or_false]
  tauto

theorem not_mem_framing {l a : Char} (hl : l ∈ ['I', 'N', 'S', 'T']) (h : sameLetter l a) :
    a ∉ framing := by
  intro ha
  have hother : ∀ l ∈ ['I', 'N', 'S', 'T'], ∀ c ∈ framing, sameLetter l c = false := by decide
  rw [hother l hl a ha] at h
  cases h

namespace Written

variable {s : List Char} (hs : Written s)
include hs

theorem eq_space {c : Char} (hc : c ∈ s) (hblank : isBlank c) : c = ' ' := by
  have hplain := hs.plain c hc
  rw [isConditionChar, Bool.or_eq_true] at hplain
  rcases hplain with h | h
  · rw [isBlank_of_isWordChar (isWordChar_of_isNameChar h)] at hblank
    cases hblank
  · rw [contains_iff_mem] at h
    simp only [mem_cons, not_mem_nil, or_false] at h
    rcases h with rfl | rfl | rfl | rfl | rfl | rfl | rfl | rfl | rfl
    · rfl
    all_goals exact absurd hblank (by decide)

theorem bareCondition_eq : bareCondition s = s := by
  have hends : endsWith [';'] s = false := by
    refine endsWith_singleton ?_
    rintro c hc rfl
    exact absurd (hs.plain ';' (mem_of_getLast? hc)) (by decide)
  rw [bareCondition, hs.trimmed, dropSemicolon, hends]
  rfl

theorem exists_simple? : ∃ m, simple? s = some m := by
  have hreadable : Readable s := .inr (by rw [hs.bareCondition_eq]; exact hs.compares)
  exact ne_none_iff_exists'.mp fun hnone => simple?_eq_none_iff.mp hnone hreadable

theorem not_spans_keyword {w : String} {l b : Char} {r : List Char} {x y z : Cursor} (hx : s = u ++ x.rest)
    (hw : (lit w).Spans x y) (hspace : space.Spans y z) (hz : z.rest = b :: r)
    (hl : w.toList.getLast? = some l) (hletter : l ∈ ['I', 'N', 'S', 'T']) (hb : b ∉ framing) : False := by
  obtain ⟨t, ht, hxy⟩ := exists_of_spans_lit hw
  obtain ⟨t, a, rfl, ha⟩ := exists_last_of_spells ht hl
  obtain ⟨g, hne, hg, hyz⟩ := exists_of_spans_many1 hspace
  rw [hxy, hyz, hz] at hx
  have hblank : ∀ c ∈ g, c = ' ' := fun c hc => hs.eq_space (by rw [hx]; simp [hc]) (hg c hc)
  have hnot := not_mem_framing hletter ha
  obtain ⟨c, g, rfl⟩ := exists_cons_of_ne_nil hne
  obtain rfl := hblank c (by simp)
  cases g with
  | nil => exact not_fits hnot hb (hs.joints (u ++ t) a b r (by simp [hx]))
  | cons d g =>
    obtain rfl := hblank d (by simp)
    exact not_fits hnot (by decide) (hs.joints (u ++ t) a ' ' (g ++ b :: r) (by simp [hx]))

/-- **Neither lists nor null tests occur** in written conditions. -/
theorem find?_eq_none : ∀ p ∈ [inPattern, notInPattern, isNullPattern, isNotNullPattern], p.find? s = none := by
  have hbehind : ∀ {u v : List Char} {e : Option Char} {x : Cursor}, s = u ++ v →
      (field ++ space).Spans ⟨e, v⟩ x → ∃ u', s = u' ++ x.rest := by
    intro u v e x huv hfront
    obtain ⟨f, hf, -⟩ := exists_of_spans_free (by decide) hfront
    exact ⟨u ++ f, by rw [huv, append_assoc]; exact congrArg (u ++ ·) hf⟩
  intro p hp
  refine Pattern.find?_eq_none fun u v e y huv hspans => ?_
  simp only [mem_cons, not_mem_nil, or_false] at hp
  rcases hp with rfl | rfl | rfl | rfl
  · obtain ⟨_, ⟨_, ⟨z, ⟨_, ⟨x, hfront, hw⟩, hspace⟩, hparen⟩, -⟩, -⟩ := hspans
    obtain ⟨u', hu'⟩ := hbehind huv hfront
    exact hs.not_spans_keyword hu' hw hspace (exists_of_spans_exactly hparen) rfl (by decide)
      (by decide)
  · obtain ⟨_, ⟨_, ⟨_, ⟨_, ⟨z, ⟨_, ⟨x, hfront, hw⟩, hspace⟩, hin⟩, -⟩, -⟩, -⟩, -⟩ := hspans
    obtain ⟨u', hu'⟩ := hbehind huv hfront
    obtain ⟨b, r, hz, hb⟩ := exists_head_of_spans_lit rfl hin
    exact hs.not_spans_keyword hu' hw hspace hz rfl (by decide) (not_mem_framing (by decide) hb)
  · obtain ⟨_, ⟨x, hfront, z, ⟨_, hw, hspace⟩, hnull⟩, -⟩ := hspans
    obtain ⟨u', hu'⟩ := hbehind huv hfront
    obtain ⟨b, r, hz, hb⟩ := exists_head_of_spans_lit rfl hnull
    exact hs.not_spans_keyword hu' hw hspace hz rfl (by decide) (not_mem_framing (by decide) hb)
  · obtain ⟨_, ⟨x, hfront, z, ⟨_, hw, hspace⟩, ⟨_, ⟨_, hnot, -⟩, -⟩⟩, -⟩ := hspans
    obtain ⟨u', hu'⟩ := hbehind huv hfront
    obtain ⟨b, r, hz, hb⟩ := exists_head_of_spans_lit rfl hnot
    exact hs.not_spans_keyword hu' hw hspace hz rfl (by decide) (not_mem_framing (by decide) hb)

end Written

/-! ### What a condition in parentheses asks -/

/-- The document has nothing but numbers. -/
def Numeric (d : Document) : Prop :=
  ∀ name, d.get name = .null ∨ ∃ n : Int, d.get name = .int n

/-- A member of a filter that accepts all documents of numbers, or none of them. -/
def Rigid (m : String × Value) : Prop :=
  ∃ answer : Bool, ∀ d : Document, Numeric d → acceptsMember d m.1 m.2 = answer

theorem rigid_demand {operator : Option String} (h : operator ∈ comparisons.map Prod.snd)
    (name t : String) : Rigid (name, demand operator (.text t)) := by
  refine ⟨operator == some "$ne", fun d hd => ?_⟩
  simp only [comparisons, map_cons, map_nil, mem_cons, not_mem_nil, or_false] at h
  rcases h with rfl | rfl | rfl | rfl | rfl | rfl | rfl <;> rcases hd name with hv | ⟨n, hv⟩ <;>
    simp [demand, acceptsMember, holds, order?, isOperator, hv]

theorem rigid_between (name t : String) (low : Value) :
    Rigid (name, .doc [("$gte", low), ("$lte", .text t)]) := by
  refine ⟨false, fun d hd => ?_⟩
  rcases hd name with hv | ⟨n, hv⟩ <;>
    simp [acceptsMember, holds, order?, isOperator, hv]

theorem rigid_like (name : String) (expression options : Value) :
    Rigid (name, .doc [("$regex", expression), ("$options", options)]) := by
  refine ⟨false, fun d _ => ?_⟩
  simp [acceptsMember, holds, isOperator]

theorem Written.getLast?_high (hs : Written s) (hlast : s.getLast? = some ')') {m : Match}
    (h : betweenPattern.find? s = some m) : (m.get "high").getLast? = some ')' ∧ ∀ c ∈ m.get "high", c ∈ s := by
  obtain ⟨u, v, e, y, huv, y₁, k₁, ⟨y₂, k₂, ⟨y₃, k₃, hfront, hgap⟩, hpiece⟩, hend⟩ := find?_keeps h
  obtain ⟨hending, hkept⟩ := hend.of_isPlain (by decide)
  obtain ⟨hfew, rfl⟩ := keeps_keep (by decide) hpiece
  obtain ⟨hspace, rfl⟩ := hgap.of_isPlain (by decide)
  obtain ⟨f, hf⟩ := suffix_of_spans hfront.spans
  obtain ⟨g, hne, hg, hy₃⟩ := exists_of_spans_many1 hspace
  obtain ⟨high, -, hy₂⟩ := exists_of_spans_few hfew
  have hget : m.get "high" = high := by
    rw [Match.get, Match.get?, hkept]
    show pieceBefore y₁.rest y₂.rest = high
    rw [hy₂, pieceBefore_append]
  have htext : s = (u ++ f ++ g ++ high) ++ y₁.rest := by
    rw [huv, show v = f ++ y₃.rest from hf.symm, hy₃, hy₂]
    simp
  rw [rest_of_ending (fun c hc hmem => absurd (hs.plain c hmem)
    ((by decide : ∀ c ∈ [';', '\n'], ¬ isConditionChar c) c hc)) hs.trimmed htext hending,
    append_nil] at htext
  rw [hget]
  refine ⟨?_, fun c hc => by rw [htext]; exact mem_append_right _ hc⟩
  rw [htext] at hlast
  rcases getLast?_append_eq_some hlast with h | ⟨-, h⟩
  · exact h
  · -- the last character would be one of the blanks before the bound
    have hblank := (getLast?_append_eq_some h).resolve_right fun h => hne h.1
    exact absurd (hg ')' (mem_of_getLast? hblank)) (by decide)

/-- **What a condition in parentheses asks of numbers does not depend on the numbers.** -/
theorem Written.rigid_of_simple? (hs : Written s) (hlast : s.getLast? = some ')') {m : String × Value}
    (h : simple? s = some m) : Rigid m := by
  have hpoint : '.' ∉ s := fun hmem => absurd (hs.plain '.' hmem) (by decide)
  have hbare : dropSemicolon (strip s) = s := hs.bareCondition_eq
  have hnone := hs.find?_eq_none
  simp only [forall_mem_cons] at hnone
  obtain ⟨hin, hnotIn, hnull, hnotNull, -⟩ := hnone
  rw [simple?, hbare] at h
  simp only [hin, hnotIn, hnull, hnotNull] at h
  rcases found_cases h with ⟨found, hfound, hread⟩ | ⟨-, h⟩
  · obtain rfl := some.inj hread
    obtain ⟨hhigh, hmem⟩ := hs.getLast?_high hlast hfound
    obtain ⟨t, ht⟩ := operand_of_parenthesis hhigh fun hdot => hpoint (hmem '.' hdot)
    simp only [ht]
    exact rigid_between _ _ _
  rcases found_cases h with ⟨found, -, hread⟩ | ⟨-, h⟩
  · obtain rfl := some.inj hread
    exact rigid_like _ _ _
  obtain ⟨⟨left, operator, right⟩, hcomparison, rfl⟩ := map_eq_some_iff.mp h
  obtain ⟨⟨sign, operator'⟩, hmem, hread⟩ := exists_of_findSome?_eq_some hcomparison
  obtain ⟨⟨before, behind⟩, hcut, heq⟩ := map_eq_some_iff.mp hread
  obtain ⟨-, rfl, rfl⟩ : strip before = left ∧ operator' = operator ∧ strip behind = right := by
    simpa using heq
  have htext := eq_of_cutAt? hcut
  have hbehind : behind.getLast? = some ')' := by
    have hsign : ∀ m ∈ comparisons, m.1.toList ≠ [] ∧ ')' ∉ m.1.toList := by decide
    obtain ⟨hne, hother⟩ := hsign _ hmem
    rw [htext] at hlast
    refine (getLast?_append_eq_some hlast).resolve_right fun h => ?_
    exact hother (mem_of_getLast? ((getLast?_append_eq_some h.2).resolve_right fun h => hne h.1))
  obtain ⟨t, ht⟩ := operand_of_parenthesis (getLast?_strip_of_solid hbehind (by decide)) fun hdot =>
    hpoint (by rw [htext]; exact mem_append_right _ (mem_of_mem_strip hdot))
  simp only [ht]
  exact rigid_demand (mem_map_of_mem hmem) _ _

end SqlGateway.Sql.Where
