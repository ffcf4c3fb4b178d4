import Mathlib.Data.List.Infix
import SqlGateway.Proofs.Sql.Insert
import SqlGateway.Proofs.Sql.Where.Stop

/-!
# Tests for null

No other form occurs in `c IS NULL` and `c IS NOT NULL`.  **The test asks whether the document has the
field**, not what its value is (`filter_nullTest`).
-/

namespace SqlGateway.Sql.Where

open Text Pattern List

def nullWords : (present : Bool) → List String
  | false => ["IS", "NULL"]
  | true => ["IS", "NOT", "NULL"]

def nullTest (c : List Char) (present : Bool) : List (List Char) :=
  c :: (nullWords present).map String.toList

/-! ### The forms that do not occur -/

theorem exists_of_spans_field {ws : List (List Char)} (hws : ∀ w ∈ ws, Solid w) {p : Pattern}
    {u v : List Char} (huv : unwords ws = u ++ v) {b : Option Char} {y : Cursor}
    (h : (field ++ space ++ p).Spans ⟨b, v⟩ y) : ∃ ws₁ ws₂, ws = ws₁ ++ ws₂ ∧ ws₁ ≠ [] ∧ ws₂ ≠ [] ∧
      ∃ d, (gap ++ p).Spans ⟨d, unwords ws₂⟩ y := by
  obtain ⟨z, ⟨z', hfield, z'', ⟨c, t, hz', hc, rfl⟩, hgap⟩, hp⟩ := h
  obtain ⟨f, -, -, hf⟩ := exists_of_spans_many1 hfield
  have hsplit : unwords ws = (u ++ f) ++ c :: t := by
    rw [huv, show v = f ++ z'.rest from hf, hz', append_assoc]
  obtain ⟨ws₁, ws₂, hlist, hne₁, hne₂, -, rfl⟩ := exists_of_unwords_eq hc hws hsplit
  exact ⟨ws₁, ws₂, hlist, hne₁, hne₂, some c, z, hgap, hp⟩

/-- Behind the field of a test stand fixed words, in which what follows a field in another form is not
found. -/
theorem not_spans_behind {c : List Char} {present : Bool} {ws₁ ws₂ : List (List Char)}
    (hlist : nullTest c present = ws₁ ++ ws₂) (hne₁ : ws₁ ≠ []) (hne₂ : ws₂ ≠ []) {p : Pattern}
    (hp : p ∈ [lit "BETWEEN", lit "IN", lit "NOT" ++ space ++ lit "IN", lit "LIKE"] ∨
      present ∧ p = phrase ["IS", "NULL"]) (d : Option Char) (y : Cursor) :
    ¬ (gap ++ p).Spans ⟨d, unwords ws₂⟩ y := by
  intro h
  have hfound : ((gap ++ p).matchAt? 0 d (unwords ws₂)).isSome := isSome_matchAt?_iff.mpr ⟨y, h⟩
  obtain ⟨w, ws₁, rfl⟩ := exists_cons_of_ne_nil hne₁
  have hsuffix : ws₂ ∈ (nullTest c present).tail.tails := by
    rw [mem_tails, hlist]
    exact ⟨ws₁, rfl⟩
  cases present with
  | false =>
    have hws₂ : ws₂ ∈ ["IS".toList, "NULL".toList].tails := hsuffix
    simp [hne₂] at hws₂ hp
    rcases hws₂ with rfl | rfl <;> rcases hp with rfl | rfl | rfl | rfl <;>
      cases (show false from hfound)
  | true =>
    have hws₂ : ws₂ ∈ ["IS".toList, "NOT".toList, "NULL".toList].tails := hsuffix
    simp [hne₂] at hws₂ hp
    rcases hws₂ with rfl | rfl | rfl <;> rcases hp with (rfl | rfl | rfl | rfl) | rfl <;>
      cases (show false from hfound)

section

variable (c : Identifier) (present : Bool)

theorem isTerm_nullTest : ∀ w ∈ nullTest c.chars present, IsTerm w := by
  have hc : IsTerm c.chars := ⟨c.ne_nil, fun _ h => c.solid h, c.not_mem (by decide)⟩
  cases present <;> simp only [nullTest, forall_mem_cons, hc, true_and] <;> decide

theorem find?_nullTest_eq_none {p : Pattern} (hp : p ∈ [betweenPattern, inPattern, notInPattern, likePattern] ∨
      present ∧ p = isNullPattern) : p.find? (unwords (nullTest c.chars present)) = none := by
  have hfront : ∀ {a b : Pattern} {x y : Cursor}, (a ++ b).Spans x y → ∃ z, a.Spans x z :=
    fun ⟨z, hz, _⟩ => ⟨z, hz⟩
  refine find?_eq_none fun u v b y huv h => ?_
  have hno : ∀ {q : Pattern}, (q ∈ [lit "BETWEEN", lit "IN", lit "NOT" ++ space ++ lit "IN", lit "LIKE"] ∨
      present ∧ q = phrase ["IS", "NULL"]) → ∀ y, ¬ (field ++ space ++ q).Spans ⟨b, v⟩ y := by
    intro q hq y h
    obtain ⟨ws₁, ws₂, hlist, hne₁, hne₂, d, hd⟩ :=
      exists_of_spans_field (fun w hw => (isTerm_nullTest c present w hw).solid) huv h
    exact not_spans_behind hlist hne₁ hne₂ hq d _ hd
  simp only [mem_cons, not_mem_nil, or_false] at hp
  rcases hp with (rfl | rfl | rfl | rfl) | ⟨hpresent, rfl⟩
  · iterate 7 obtain ⟨y, h⟩ := hfront h
    exact hno (by simp) _ h
  · iterate 4 obtain ⟨y, h⟩ := hfront h
    exact hno (by simp) _ h
  · iterate 4 obtain ⟨y, h⟩ := hfront h
    obtain ⟨y₁, ⟨y₂, ⟨y₃, h, hnot⟩, hspace⟩, hin⟩ := h
    exact hno (q := lit "NOT" ++ space ++ lit "IN") (by simp) y ⟨y₃, h, y₁, ⟨y₂, hnot, hspace⟩, hin⟩
  · iterate 3 obtain ⟨y, h⟩ := hfront h
    exact hno (by simp) _ h
  · obtain ⟨y, h⟩ := hfront h
    exact hno (by simp [hpresent]) _ h

/-! ### The form that is found -/

theorem prefers_ending (k : Kept) : ending.Prefers [] k [] k := by
  have hgap : gap.Prefers ([] ++ []) k [] k := prefers_many (by simp) (by simp) k
  refine (hgap.append (prefers_finish k)).right fun b y h => ?_
  obtain ⟨z, hz, hsemicolon⟩ := h
  obtain ⟨g, -, hg⟩ := exists_of_spans_many hz
  rw [exists_of_spans_exactly hsemicolon] at hg
  exact absurd hg (by simp)

theorem find?_nullTest : ∃ m, (field ++ space ++ phrase (nullWords present) ++ ending).find?
    (unwords (nullTest c.chars present)) = some m ∧ m.get "field" = c.chars := by
  have hname : ∀ d ∈ c.chars, isFieldChar d := by
    intro d hd
    rw [isFieldChar, c.isWord_of_mem hd, Bool.true_or]
  have hwords : ∀ w ∈ nullWords present, IsKeyword w := by
    cases present <;> decide
  obtain ⟨s, hs⟩ : ∃ s, unwords ((nullWords present).map String.toList) = 'I' :: s := by
    cases present <;> exact ⟨_, rfl⟩
  have htext : unwords (nullTest c.chars present) =
      c.chars ++ ([' '] ++ (unwords ((nullWords present).map String.toList) ++ [])) := by
    rw [nullTest, unwords_cons (by cases present <;> simp [nullWords]), append_nil]
    rfl
  have hfield := (prefers_many1
    (r := [' '] ++ (unwords ((nullWords present).map String.toList) ++ [])) c.ne_nil hname
    (by rintro d ⟨⟩; decide) []).keep "field"
  have hspace := hfield.append (prefers_many1 (p := isBlank) (by simp) (by simp)
    (by rw [hs]; rintro d ⟨⟩; decide) _)
  rw [htext]
  exact ⟨_, ((hspace.append (prefers_phrase [] _ hwords)).append (prefers_ending _)).find?_here,
    pieceBefore_append c.chars _⟩

/-- **The test is read as a question whether the field is there.** -/
theorem simple?_nullTest : simple? (unwords (nullTest c.chars present)) =
    some (c.name, .doc [("$exists", .bool present)]) := by
  obtain ⟨-, htrim⟩ := unwords_trimmed (isTerm_nullTest c present) (cons_ne_nil _ _)
  have hbare : dropSemicolon (strip (unwords (nullTest c.chars present))) =
      unwords (nullTest c.chars present) := by
    rw [htrim, dropSemicolon_unwords (isTerm_nullTest c present)]
  have hnone : ∀ p ∈ [betweenPattern, inPattern, notInPattern, likePattern],
      p.find? (unwords (nullTest c.chars present)) = none :=
    fun p hp => find?_nullTest_eq_none c present (.inl hp)
  simp only [forall_mem_cons] at hnone
  obtain ⟨hbetween, hin, hnotIn, hlike, -⟩ := hnone
  obtain ⟨m, hfound, hname⟩ := find?_nullTest c present
  cases present with
  | false =>
    have hfound : isNullPattern.find? (unwords (nullTest c.chars false)) = some m := hfound
    simp only [simple?, hbare, hbetween, hin, hnotIn, hlike, hfound, hname]
    rfl
  | true =>
    have hfound : isNotNullPattern.find? (unwords (nullTest c.chars true)) = some m := hfound
    have hnull := find?_nullTest_eq_none c true (.inr ⟨rfl, rfl⟩)
    simp only [simple?, hbare, hbetween, hin, hnotIn, hlike, hnull, hfound, hname]
    rfl

/-- **The filter of the test** asks whether the document has the field. -/
theorem filter_nullTest {o : List Char} (ho : Opening o) :
    filter (o ++ " WHERE " ++ unwords (nullTest c.chars present)) =
      [(c.name, .doc [("$exists", .bool present)])] := by
  have hterms := isTerm_nullTest c present
  have hbehind : ∀ w ∈ (nullWords present).map String.toList, Continues w ∧
      spells ['O', 'R'] w = false ∧ spells ['A', 'N', 'D'] w = false := by
    cases present <;> decide
  have hsolid : ∀ w ∈ nullTest c.chars present, Solid w := fun w hw => (hterms w hw).solid
  have hfilter := filter_unwords hterms ho (cons_ne_nil _ _) (fun w hw => (hbehind w hw).1)
    (b := []) (by simp) (by simp)
  rw [append_nil] at hfilter
  rw [hfilter, addConditions_simple hterms (cons_ne_nil _ _)
    (joinedBy_unwords (by decide) hsolid fun w hw => (hbehind w (mem_of_mem_dropLast hw)).2.1)
    (joinedBy_unwords (by decide) hsolid fun w hw => (hbehind w (mem_of_mem_dropLast hw)).2.2),
    simple?_nullTest]
  rfl

end

end SqlGateway.Sql.Where
