import Mathlib.Data.Nat.Digits.Defs
import SqlGateway.Proofs.Text.Search
import SqlGateway.Proofs.Text.Trim
import SqlGateway.Sql.Literal

/-!
# Literals as they are written

**Reading inverts writing** for numbers of at most 4300 digits, truth values, the missing value and quoted
  texts (`literal_chars`).  A text between single quotes is read as that text, whatever stands in it
  (`literal_quoted`).
-/

namespace SqlGateway.Sql

open Text List Number

variable {c : Char} {s : List Char}

/-- The characters of names and literals: they are printable, and neither a part of a comparison sign
nor a parenthesis or semicolon. -/
def isWordChar (c : Char) : Bool :=
  decide (33 ≤ c.toNat) && decide (c.toNat ≤ 126) && !(['!', '<', '=', '>', '(', ')', ';'].contains c)

/-- A word of names and literals. -/
structure Word (s : List Char) : Prop where
  ne_nil : s ≠ []
  plain : ∀ c ∈ s, isWordChar c

/-- A word that is not a connective. -/
structure PlainWord (s : List Char) : Prop extends Word s where
  not_or : spells ['O', 'R'] s = false
  not_and : spells ['A', 'N', 'D'] s = false

theorem isBlank_of_isWordChar (h : isWordChar c) : isBlank c = false := by
  simp only [isWordChar, Bool.and_eq_true, decide_eq_true_eq] at h
  exact isBlank_of_printable h.1.1 h.1.2

theorem Word.solid (h : Word s) : ∀ c ∈ s, isBlank c = false :=
  fun c hc => isBlank_of_isWordChar (h.plain c hc)

theorem Word.not_mem (h : Word s) (hc : isWordChar c = false) : c ∉ s := by
  intro hmem
  rw [h.plain c hmem] at hc
  exact absurd hc (by simp)

theorem Word.endsWith_semicolon (h : Word s) : endsWith [';'] s = false := by
  refine endsWith_singleton fun d hd => ?_
  rintro rfl
  exact h.not_mem (by decide) (mem_of_getLast? hd)

theorem trimLiteral_word (h : Word s) : trimLiteral s = s := by
  rw [trimLiteral, strip_eq_self_of_solid h.solid, h.endsWith_semicolon]
  simp

/-! ### Numbers -/

/-- The sign in front of a number, which may be missing. -/
inductive Mark where
  | none
  | plus
  | minus
  deriving DecidableEq, Repr

def Mark.chars : Mark → List Char
  | none => []
  | plus => ['+']
  | minus => ['-']

def digitChar (d : Fin 10) : Char :=
  Nat.digitChar d

/-- A whole number as it is written: a sign, and at least one digit, the leading one first. -/
structure Numeral where
  mark : Mark
  digits : List (Fin 10)
  digits_ne_nil : digits ≠ []

namespace Numeral

def chars (n : Numeral) : List Char :=
  n.mark.chars ++ n.digits.map digitChar

/-- The number that the digits stand for in base ten. -/
def magnitude (n : Numeral) : Nat :=
  Nat.ofDigits 10 (n.digits.reverse.map Fin.val)

def value (n : Numeral) : Int :=
  match n.mark with
  | .minus => -n.magnitude
  | _ => n.magnitude

def heads : List Char :=
  '+' :: '-' :: (finRange 10).map digitChar

theorem exists_head (n : Numeral) : ∃ c ∈ heads, ∃ s, n.chars = c :: s := by
  obtain ⟨mark, digits, hne⟩ := n
  obtain ⟨d, ds, rfl⟩ := exists_cons_of_ne_nil hne
  cases mark with
  | none =>
    refine ⟨digitChar d, ?_, ds.map digitChar, rfl⟩
    exact mem_cons_of_mem _ (mem_cons_of_mem _ (mem_map_of_mem (mem_finRange d)))
  | plus => exact ⟨'+', by decide, _, rfl⟩
  | minus => exact ⟨'-', by decide, _, rfl⟩

theorem mem_heads_of_mem {n : Numeral} (h : c ∈ n.chars) : c ∈ heads := by
  rcases mem_append.mp h with h | h
  · cases hmark : n.mark <;> rw [hmark] at h <;> simp [Mark.chars] at h <;> subst h <;> decide
  · obtain ⟨d, -, rfl⟩ := mem_map.mp h
    exact mem_cons_of_mem _ (mem_cons_of_mem _ (mem_map_of_mem (mem_finRange d)))

theorem plainWord (n : Numeral) : PlainWord n.chars := by
  obtain ⟨c, hc, s, hs⟩ := n.exists_head
  have hletter : sameLetter 'O' c = false ∧ sameLetter 'A' c = false :=
    (by decide : ∀ c ∈ heads, sameLetter 'O' c = false ∧ sameLetter 'A' c = false) c hc
  refine ⟨⟨by simp [hs], ?_⟩, by simp [hs, spells, hletter.1], by simp [hs, spells, hletter.2]⟩
  exact fun c hc => (by decide : ∀ c ∈ heads, isWordChar c) c (mem_heads_of_mem hc)

end Numeral

theorem digitsFrom_map_digitChar (ds : List (Fin 10)) (afterDigit : Bool) :
    digitsFrom afterDigit (ds.map digitChar) = (ds.map Fin.val, []) := by
  induction ds generalizing afterDigit with
  | nil => rfl
  | cons d ds ih =>
    have hd : digitValue? (digitChar d) = some d.val :=
      (by decide : ∀ d : Fin 10, digitValue? (digitChar d) = some d.val) d
    rw [map_cons, digitsFrom, hd]
    simp only [ih true, map_cons]

theorem digitsValue_eq_ofDigits (ds : List Nat) : digitsValue ds = Nat.ofDigits 10 ds.reverse := by
  rw [Nat.ofDigits_eq_foldr, foldr_reverse, digitsValue]
  congr 1
  funext v d
  simp [Nat.add_comm]

variable (n : Numeral)

theorem takeSign_chars : takeSign n.chars = (decide (n.mark = .minus), n.digits.map digitChar) := by
  obtain ⟨mark, digits, hne⟩ := n
  obtain ⟨d, ds, rfl⟩ := exists_cons_of_ne_nil hne
  cases mark with
  | none =>
    have hd : digitChar d ≠ '-' ∧ digitChar d ≠ '+' :=
      (by decide : ∀ d : Fin 10, digitChar d ≠ '-' ∧ digitChar d ≠ '+') d
    simp only [Numeral.chars, Mark.chars, nil_append, map_cons]
    rw [takeSign.eq_3 _ (by simp [hd.1]) (by simp [hd.2])]
    simp
  | plus => rfl
  | minus => rfl

/-- **Reading a whole number.** -/
theorem readInt_chars : readInt n.chars =
    if 4300 < n.digits.length then .error (.tooManyDigits n.digits.length) else .ok n.value := by
  have hstrip : stripBy isOuterBlank n.chars = n.chars := by
    have hsolid : ∀ c ∈ n.chars, isOuterBlank c = false := fun c hc => by
      simp [isOuterBlank, n.plainWord.solid c hc]
    exact stripBy_eq_self (fun c hc => hsolid c (mem_of_mem_head? hc))
      (fun c hc => hsolid c (mem_of_getLast? hc))
  have hempty : (n.digits.map Fin.val).isEmpty = false := by
    simpa using n.digits_ne_nil
  rw [readInt, hstrip, takeSign_chars]
  simp only [takeDigits, digitsFrom_map_digitChar, length_map, hempty,
    digitsValue_eq_ofDigits, ← map_reverse]
  congr 1
  cases hmark : n.mark <;> simp [Numeral.value, Numeral.magnitude, hmark]

/-! ### Literals -/

def isQuotable (c : Char) : Bool :=
  c.isAlphanum || ['_', '@', '.', '-'].contains c

/-- A literal of a condition. -/
inductive Literal where
  | int (n : Numeral) (short : n.digits.length ≤ 4300)
  | bool (b : Bool)
  | null
  | text (s : List Char) (plain : ∀ c ∈ s, isQuotable c)

namespace Literal

def chars : Literal → List Char
  | int n _ => n.chars
  | bool true => ['T', 'R', 'U', 'E']
  | bool false => ['F', 'A', 'L', 'S', 'E']
  | null => ['N', 'U', 'L', 'L']
  | text s _ => '\'' :: s ++ ['\'']

def value : Literal → Value
  | int n _ => .int n.value
  | bool b => .bool b
  | null => .null
  | text s _ => .text (String.ofList s)

end Literal

theorem isAlphanum_iff : c.isAlphanum ↔
    48 ≤ c.toNat ∧ c.toNat ≤ 57 ∨ 65 ≤ c.toNat ∧ c.toNat ≤ 90 ∨ 97 ≤ c.toNat ∧ c.toNat ≤ 122 := by
  delta Char.isAlphanum Char.isAlpha Char.isUpper Char.isLower Char.isDigit
  simp only [Bool.or_eq_true, Bool.and_eq_true, decide_eq_true_eq, ge_iff_le, UInt32.le_iff_toNat_le]
  simp only [Char.toNat]
  grind

theorem isWordChar_of_isAlphanum (h : c.isAlphanum) : isWordChar c := by
  rw [isAlphanum_iff] at h
  have hother : ∀ d ∈ ['!', '<', '=', '>', '(', ')', ';'], c ≠ d := by
    rintro d hd rfl
    revert h
    revert c
    decide
  simp only [isWordChar, Bool.and_eq_true, decide_eq_true_eq]
  exact ⟨⟨by omega, by omega⟩, by simpa using hother⟩

theorem isWordChar_of_isQuotable (h : isQuotable c) : isWordChar c := by
  rw [isQuotable, Bool.or_eq_true] at h
  rcases h with h | h
  · exact isWordChar_of_isAlphanum h
  · rw [contains_iff_mem] at h
    revert c
    decide

theorem Literal.plainWord (l : Literal) : PlainWord l.chars := by
  cases l with
  | int n _ => exact n.plainWord
  | bool b => cases b <;> exact ⟨⟨by decide, by decide⟩, by decide, by decide⟩
  | null => exact ⟨⟨by decide, by decide⟩, by decide, by decide⟩
  | text s plain =>
    -- the opening quote is no letter
    refine ⟨⟨by simp [chars], ?_⟩, rfl, rfl⟩
    intro c hc
    simp only [chars, cons_append, mem_cons, mem_append, not_mem_nil, or_false] at hc
    rcases hc with rfl | hc | rfl
    · decide
    · exact isWordChar_of_isQuotable (plain c hc)
    · decide

theorem isKeyword_cons_of_ne {word : String} {l : Char} {w : List Char} (hw : word.toList = l :: w)
    (hc : upperChar c = [c]) (hne : c ≠ l) (s : List Char) : isKeyword word (c :: s) = false := by
  rw [isKeyword, upper, flatMap_cons, hc, hw]
  simp [hne]

theorem literal_numeral : literal n.chars =
    if 4300 < n.digits.length then .text (String.ofList n.chars) else .int n.value := by
  have hdot : n.chars.contains '.' = false := by
    rw [← Bool.not_eq_true, contains_iff_mem]
    exact fun h => absurd (Numeral.mem_heads_of_mem h) (by decide)
  have hnumber : numberOrText n.chars =
      if 4300 < n.digits.length then .text (String.ofList n.chars) else .int n.value := by
    rw [numberOrText, hdot, readInt_chars, if_neg (by simp)]
    by_cases hlong : 4300 < n.digits.length
    · rw [if_pos hlong, if_pos hlong]
    · rw [if_neg hlong, if_neg hlong]
  rw [literal, strip_eq_self_of_solid n.plainWord.solid, ← hnumber]
  obtain ⟨c, hc, s, hs⟩ := n.exists_head
  have hupper : upperChar c = [c] := (by decide : ∀ c ∈ Numeral.heads, upperChar c = [c]) c hc
  have hne : ∀ l ∈ ['\'', '"', 'N', 'T', 'F'], c ≠ l :=
    (by decide : ∀ c ∈ Numeral.heads, ∀ l ∈ ['\'', '"', 'N', 'T', 'F'], c ≠ l) c hc
  have hquote : isEnclosed (c :: s) = false := by
    simp [isEnclosed, enclosedBy, hne '\'' (by simp), hne '"' (by simp)]
  have hnull : isKeyword "NULL" (c :: s) = false := isKeyword_cons_of_ne rfl hupper (hne 'N' (by simp)) s
  have htrue : isKeyword "TRUE" (c :: s) = false := isKeyword_cons_of_ne rfl hupper (hne 'T' (by simp)) s
  have hfalse : isKeyword "FALSE" (c :: s) = false := isKeyword_cons_of_ne rfl hupper (hne 'F' (by simp)) s
  simp only [hs, hquote, hnull, htrue, hfalse, Bool.false_eq_true, if_false]

/-- **Reading inverts writing.** -/
theorem literal_chars (l : Literal) : literal l.chars = l.value := by
  cases l with
  | int n short => exact (literal_numeral n).trans (if_neg (by omega))
  | bool b => cases b <;> rfl
  | null => rfl
  | text s plain =>
    have henclosed : isEnclosed ('\'' :: s ++ ['\'']) := by
      simp [isEnclosed, enclosedBy, getLast?_cons]
    rw [literal, strip_eq_self_of_solid (Literal.text s plain).plainWord.solid]
    simp only [Literal.chars, henclosed, if_true, Literal.value]
    simp [inner]

/-! ### Texts between quotes -/

/-- A text between single quotes. -/
def quotedText (s : List Char) : List Char :=
  '\'' :: (s ++ ['\''])

theorem not_mem_quotedText {c : Char} (hc : c ≠ '\'') (hs : c ∉ s) : c ∉ quotedText s := by
  simp [quotedText, hc, hs]

theorem getLast?_quoted (s : List Char) : (quotedText s).getLast? = some '\'' := by
  rw [quotedText, ← cons_append, getLast?_concat]

theorem strip_quoted (s : List Char) : strip (quotedText s) = quotedText s := by
  refine strip_eq_self ?_ ?_
  · rintro c ⟨⟩
    decide
  · rw [getLast?_quoted]
    rintro c ⟨⟩
    decide

theorem trimLiteral_quoted (s : List Char) : trimLiteral (quotedText s) = quotedText s := by
  have hends : endsWith [';'] (quotedText s) = false := by
    refine endsWith_singleton ?_
    rw [getLast?_quoted]
    rintro d ⟨⟩
    decide
  rw [trimLiteral, strip_quoted, hends]
  rfl

theorem isEnclosed_quoted (s : List Char) : isEnclosed (quotedText s) := by
  simp [quotedText, isEnclosed, enclosedBy, getLast?_cons]

theorem inner_quoted (s : List Char) : inner (quotedText s) = s := by
  simp [quotedText, inner]

theorem literal_quoted (s : List Char) : literal (quotedText s) = .text (String.ofList s) := by
  rw [literal, strip_quoted]
  simp only [isEnclosed_quoted, if_true, inner_quoted]

theorem length_inner (s : List Char) : (inner s).length = s.length - 2 := by
  rw [inner, length_dropLast, length_drop, Nat.sub_sub]

theorem eq_of_literal_eq_text {r : List Char} (h : literal r = .text (String.ofList s)) :
    (isEnclosed (strip r) ∧ inner (strip r) = s) ∨ strip r = s := by
  have hnumber : ∀ t : List Char, numberOrText t = .text (String.ofList s) → t = s := by
    intro t ht
    rw [numberOrText] at ht
    split at ht
    · split at ht
      · cases ht
      · split at ht
        · cases ht
        · exact String.ofList_injective (Value.text.inj ht)
    · split at ht
      · cases ht
      · exact String.ofList_injective (Value.text.inj ht)
  rw [literal] at h
  split at h
  case isTrue henclosed => exact .inl ⟨henclosed, String.ofList_injective (Value.text.inj h)⟩
  split at h
  · cases h
  split at h
  · cases h
  split at h
  · cases h
  · exact .inr (hnumber _ h)

end SqlGateway.Sql
