import SqlGateway.Proofs.Sql.Connective
import SqlGateway.Proofs.Sql.Literal
import SqlGateway.Proofs.Sql.Where.Simple

/-!
# Comparisons as they are written

The signs are tried in an order in which no sign hides another, and no special form occurs in a comparison. 
So **a comparison is read as it was written** (`simple?_comparisonText`).
-/

namespace SqlGateway.Sql.Where

open Text List

theorem bareCondition_quoted {field : List Char} (hne : field ≠ []) (hsolid : ∀ c ∈ field, isBlank c = false)
    (between s : List Char) :
    bareCondition (field ++ (between ++ quotedText s)) = field ++ (between ++ quotedText s) := by
  have hends : endsWith [';'] (field ++ (between ++ quotedText s)) = false := by
    refine endsWith_singleton ?_
    rw [← append_assoc, getLast?_append, getLast?_quoted]
    rintro d ⟨⟩
    decide
  rw [bareCondition, strip_append_append hne (strip_eq_self_of_solid hsolid) (t := quotedText s)
    (cons_ne_nil _ _) (strip_quoted s), dropSemicolon, hends]
  rfl

/-! ### Fields and signs -/

def isNameStart (c : Char) : Bool :=
  c.isAlpha || c == '_'

def isNameChar (c : Char) : Bool :=
  c.isAlphanum || c == '_'

/-- The name of a field, which is not a connective in either case. -/
structure FieldName where
  chars : List Char
  begins : chars.head?.any isNameStart
  plain : ∀ c ∈ chars, isNameChar c
  not_or : chars.map Char.toUpper ≠ ['O', 'R']
  not_and : chars.map Char.toUpper ≠ ['A', 'N', 'D']

def FieldName.name (f : FieldName) : String :=
  String.ofList f.chars

/-- The comparison signs; there are two for "different". -/
inductive Sign where
  | equal
  | unequal
  | different
  | less
  | atMost
  | greater
  | atLeast
  deriving DecidableEq, Repr

namespace Sign

def chars : Sign → List Char
  | equal => ['=']
  | unequal => ['!', '=']
  | different => ['<', '>']
  | less => ['<']
  | atMost => ['<', '=']
  | greater => ['>']
  | atLeast => ['>', '=']

/-- The operator of the store, which equality does not need. -/
def operator? : Sign → Option String
  | equal => none
  | unequal => some "$ne"
  | different => some "$ne"
  | less => some "$lt"
  | atMost => some "$lte"
  | greater => some "$gt"
  | atLeast => some "$gte"

def asks (sign : Sign) (v : Value) : Value :=
  match sign.operator? with
  | none => v
  | some operator => .doc [(operator, v)]

theorem demand_operator? (sign : Sign) (v : Value) : demand sign.operator? v = sign.asks v := by
  cases sign <;> rfl

end Sign

theorem sameLetter_toUpper {l c : Char} (hl : l ∈ ['A', 'N', 'D', 'O', 'R'])
    (h : sameLetter l c) : c.toUpper = l := by
  simp only [mem_cons, not_mem_nil, or_false] at hl
  rcases hl with rfl | rfl | rfl | rfl | rfl <;>
    simp [sameLetter] at h <;> rcases h with rfl | rfl <;> decide

theorem map_toUpper_of_spells {word s : List Char} (hword : ∀ l ∈ word, l ∈ ['A', 'N', 'D', 'O', 'R'])
    (h : spells word s) : s.map Char.toUpper = word := by
  replace h := spells_iff.mp h
  induction h with
  | nil => rfl
  | cons hl _ ih =>
    rw [forall_mem_cons] at hword
    rw [map_cons, sameLetter_toUpper hword.1 hl, ih hword.2]

theorem isWordChar_of_isNameChar {c : Char} (h : isNameChar c) : isWordChar c := by
  rw [isNameChar, Bool.or_eq_true, beq_iff_eq] at h
  rcases h with h | rfl
  · exact isWordChar_of_isAlphanum h
  · decide

theorem FieldName.plainWord (f : FieldName) : PlainWord f.chars where
  ne_nil := by
    intro h
    have := f.begins
    rw [h] at this
    exact absurd this (by decide)
  plain c hc := isWordChar_of_isNameChar (f.plain c hc)
  not_or := by
    rw [← Bool.not_eq_true]
    exact fun h => f.not_or (map_toUpper_of_spells (by decide) h)
  not_and := by
    rw [← Bool.not_eq_true]
    exact fun h => f.not_and (map_toUpper_of_spells (by decide) h)

/-! ### Finding the sign -/

def signChars : List Char :=
  ['!', '<', '=', '>']

variable (sign : Sign)

/-- The place of a sign in the order of trial: every sign tried before it has a character that it has
not. -/
theorem Sign.exists_place : ∃ before after,
    comparisons = before ++ (String.ofList sign.chars, sign.operator?) :: after ∧
      ∀ m ∈ before, ∃ c ∈ m.1.toList, c ∈ signChars ∧ c ∉ sign.chars := by
  cases sign with
  | atLeast => exact ⟨[], comparisons.drop 1, rfl, by decide⟩
  | atMost => exact ⟨comparisons.take 1, comparisons.drop 2, rfl, by decide⟩
  | different => exact ⟨comparisons.take 2, comparisons.drop 3, rfl, by decide⟩
  | unequal => exact ⟨comparisons.take 3, comparisons.drop 4, rfl, by decide⟩
  | equal => exact ⟨comparisons.take 4, comparisons.drop 5, rfl, by decide⟩
  | greater => exact ⟨comparisons.take 5, comparisons.drop 6, rfl, by decide⟩
  | less => exact ⟨comparisons.take 6, comparisons.drop 7, rfl, by decide⟩

theorem Sign.exists_chars : ∃ c s, sign.chars = c :: s ∧ c ∈ signChars := by
  cases sign <;> exact ⟨_, _, rfl, by decide⟩

/-- **The sign that stands between two texts is found.** -/
theorem comparison?_chars {u v : List Char} (hu : ∀ c ∈ signChars, c ∉ u) (hv : ∀ c ∈ signChars, c ∉ v) :
    comparison? (u ++ (sign.chars ++ v)) = some (strip u, sign.operator?, strip v) := by
  obtain ⟨before, after, hplace, hbefore⟩ := sign.exists_place
  have hnone : ∀ m ∈ before, cutAt? m.1.toList (u ++ (sign.chars ++ v)) = none := by
    intro m hm
    obtain ⟨c, hc, hsign, hother⟩ := hbefore m hm
    refine cutAt?_eq_none hc ?_
    simp only [mem_append, not_or]
    exact ⟨hu c hsign, hother, hv c hsign⟩
  have hcut : cutAt? (String.ofList sign.chars).toList (u ++ (sign.chars ++ v)) = some (u, v) := by
    obtain ⟨c, s, hs, hc⟩ := sign.exists_chars
    rw [String.toList_ofList, hs]
    exact cutAt?_of_not_mem v (hu c hc)
  rw [comparison?, hplace, findSome?_append, findSome?_eq_none_iff.mpr, Option.none_or, findSome?_cons]
  · simp only [hcut, Option.map_some]
  · intro m hm
    simp only [hnone m hm, Option.map_none]

/-! ### Reading a comparison -/

def comparisonText (field : List Char) (sign : Sign) (word : List Char) : List Char :=
  field ++ ' ' :: (sign.chars ++ ' ' :: word)

section

variable {field word : List Char} (sign : Sign) (hfield : Word field) (hword : Word word)
include hfield hword

theorem not_opens_comparison : ¬ Opens (comparisonText field sign word) := by
  rintro ⟨u, x, b, v, y, w, h, hx, hb, hv, hy⟩
  have hsign : ∀ c ∈ sign.chars, isBlank c = false ∧ isFieldChar c = false ∧ isWord c = false := by
    cases sign <;> decide
  have hsplit : comparisonText field sign word = (u ++ [x]) ++ b :: (v ++ y :: w) := by simp [h]
  rcases eq_or_of_append_blank hfield.solid hb hsplit with ⟨-, hrest⟩ | ⟨u', hu', hrest⟩
  · -- behind the field stands the sign
    obtain ⟨c, s, hs, -⟩ := sign.exists_chars
    have hc := hsign c (by simp [hs])
    cases v with
    | nil =>
      simp only [hs, nil_append, cons_append, cons.injEq] at hrest
      rw [hrest.1, hc.2.2] at hy
      exact absurd hy (by simp)
    | cons d v =>
      simp only [hs, cons_append, cons.injEq] at hrest
      rw [← hrest.1, hv d (by simp)] at hc
      exact absurd hc.1 (by simp)
  · rcases eq_or_of_append_blank (fun c hc => (hsign c hc).1) hb hrest with ⟨rfl, -⟩ | ⟨u'', -, hrest⟩
    · -- before the other blank stands the sign
      have hlast : x ∈ sign.chars := by
        obtain ⟨c, s, hs, -⟩ := sign.exists_chars
        have hx := congrArg getLast? hu'
        rw [getLast?_concat, getLast?_append_cons (by simp [hs])] at hx
        exact mem_of_getLast? hx.symm
      rw [(hsign x hlast).2.1] at hx
      exact absurd hx (by simp)
    · have := hword.solid b (by simp [hrest])
      rw [hb] at this
      exact absurd this (by simp)

theorem bareCondition_comparisonText :
    bareCondition (comparisonText field sign word) = comparisonText field sign word := by
  have hlast : (comparisonText field sign word).getLast? = word.getLast? := by
    rw [comparisonText, getLast?_append_cons (by simp), getLast?_append_cons hword.ne_nil]
  have hhead : (comparisonText field sign word).head? = field.head? := by
    obtain ⟨c, s, rfl⟩ := exists_cons_of_ne_nil hfield.ne_nil
    rfl
  have hstrip : strip (comparisonText field sign word) = comparisonText field sign word := by
    refine strip_eq_self ?_ ?_
    · rw [hhead]; exact fun c hc => hfield.solid c (mem_of_mem_head? hc)
    · rw [hlast]; exact fun c hc => hword.solid c (mem_of_getLast? hc)
  have hends : endsWith [';'] (comparisonText field sign word) = false := by
    refine endsWith_singleton ?_
    rw [hlast]
    rintro c hc rfl
    exact hword.not_mem (by decide) (mem_of_getLast? hc)
  rw [bareCondition, hstrip, dropSemicolon, hends]
  simp

/-- **A comparison is read as it was written.** -/
theorem simple?_comparisonText : simple? (comparisonText field sign word) =
    some (String.ofList field, sign.asks (literal word)) := by
  have hbare := bareCondition_comparisonText sign hfield hword
  have habsent := find?_special_eq_none (not_opens_comparison sign hfield hword)
  have hmarks : ∀ c ∈ signChars, isWordChar c = false ∧ c ≠ ' ' := by decide
  have hcut : comparison? (comparisonText field sign word) = some (field, sign.operator?, word) := by
    have htext : comparisonText field sign word = (field ++ [' ']) ++ (sign.chars ++ ' ' :: word) := by
      simp [comparisonText]
    have hblank : ∀ c ∈ [' '], isBlank c := by simp
    rw [htext, comparison?_chars sign, strip_append_blanks hblank, ← singleton_append,
      strip_blanks_append hblank, strip_eq_self_of_solid hfield.solid, strip_eq_self_of_solid hword.solid]
    · intro c hc
      simpa [hfield.not_mem (hmarks c hc).1] using (hmarks c hc).2
    · intro c hc
      simpa [hword.not_mem (hmarks c hc).1] using (hmarks c hc).2
  rw [simple?_of_absent (by rw [hbare]; exact habsent), hbare, hcut]
  simp only [Option.map_some, operand, trimLiteral_word hword, sign.demand_operator?]

end

theorem isParen_of_isWordChar {c : Char} (h : isWordChar c) : isParen c = false := by
  rw [isParen, Bool.or_eq_false_iff, beq_eq_false_iff_ne, beq_eq_false_iff_ne]
  refine ⟨?_, ?_⟩
  · rintro rfl
    exact absurd h (by decide)
  · rintro rfl
    exact absurd h (by decide)

theorem part_of_word {connective s : List Char} (hsolid : SolidWord connective) (h : Word s)
    (hother : spells connective s = false) : Part connective s :=
  Part.ofWord hsolid h.ne_nil h.solid (fun c hc => isParen_of_isWordChar (h.plain c hc)) hother

theorem Sign.part {connective : List Char} (hsolid : SolidWord connective) (sign : Sign)
    (hother : spells connective sign.chars = false) : Part connective sign.chars := by
  have hchars : sign.chars ≠ [] ∧ ∀ c ∈ sign.chars, isBlank c = false ∧ isParen c = false := by
    cases sign <;> decide
  exact Part.ofWord hsolid hchars.1 (fun c hc => (hchars.2 c hc).1) (fun c hc => (hchars.2 c hc).2) hother

theorem part_comparisonText {field word : List Char} (hfield : PlainWord field)
    (hword : PlainWord word) : Part ['O', 'R'] (comparisonText field sign word) ∧
      Part ['A', 'N', 'D'] (comparisonText field sign word) := by
  have hsign : spells ['O', 'R'] sign.chars = false ∧ spells ['A', 'N', 'D'] sign.chars = false := by
    cases sign <;> decide
  constructor
  · exact (part_of_word solidWord_or hfield.toWord hfield.not_or).append solidWord_or
      ((sign.part solidWord_or hsign.1).append solidWord_or
        (part_of_word solidWord_or hword.toWord hword.not_or))
  · exact (part_of_word solidWord_and hfield.toWord hfield.not_and).append solidWord_and
      ((sign.part solidWord_and hsign.2).append solidWord_and
        (part_of_word solidWord_and hword.toWord hword.not_and))

end SqlGateway.Sql.Where
