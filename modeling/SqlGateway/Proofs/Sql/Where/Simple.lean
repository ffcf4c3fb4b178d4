import SqlGateway.Proofs.Text.Words
import SqlGateway.Sql.Where

/-!
# Reading a simple condition

`simple?` looks for six special forms, which all begin with a field, blanks and a word character (`Opens`),
and then for a comparison sign.  This file says when it reads anything at all (`simple?_eq_none_iff`).
-/

namespace SqlGateway.Sql.Where

open Text Pattern List Option

variable {s condition word : List Char} {w : String} {l : Char}

/-- The forms that are looked for before a comparison. -/
def specialForms : List Pattern :=
  [betweenPattern, inPattern, notInPattern, likePattern, isNullPattern, isNotNullPattern]

/-- The characters that begin or end a comparison sign. -/
def isSignChar (c : Char) : Bool :=
  c == '=' || c == '<' || c == '>'

/-- A condition without blanks and a semicolon at its end. -/
def bareCondition (condition : List Char) : List Char :=
  dropSemicolon (strip condition)

/-- A condition that can be read: one of the special forms or a comparison sign occurs in it. -/
def Readable (condition : List Char) : Prop :=
  (∃ p ∈ specialForms, p.occursIn (bareCondition condition)) ∨
    ∃ c ∈ bareCondition condition, isSignChar c

instance (condition : List Char) : Decidable (Readable condition) := inferInstanceAs (Decidable (_ ∨ _))

/-! ### Comparison signs -/

theorem isSome_comparison?_iff : (comparison? s).isSome ↔ ∃ c ∈ s, isSignChar c := by
  constructor
  · intro h
    obtain ⟨r, hr⟩ := isSome_iff_exists.mp h
    obtain ⟨⟨sign, operator⟩, hmem, hcut⟩ := exists_of_findSome?_eq_some hr
    obtain ⟨⟨left, right⟩, hcut, -⟩ := map_eq_some_iff.mp hcut
    have hs := eq_of_cutAt? hcut
    -- every sign ends in one of the three characters
    have hsign : ∃ c ∈ sign.toList, isSignChar c := by
      simp only [comparisons, mem_cons, Prod.mk.injEq, not_mem_nil, or_false] at hmem
      rcases hmem with ⟨rfl, -⟩ | ⟨rfl, -⟩ | ⟨rfl, -⟩ | ⟨rfl, -⟩ | ⟨rfl, -⟩ | ⟨rfl, -⟩ | ⟨rfl, -⟩ <;>
        decide
    obtain ⟨c, hc, hcs⟩ := hsign
    exact ⟨c, by rw [hs]; simp [hc], hcs⟩
  · rintro ⟨c, hc, hcs⟩
    obtain ⟨u, v, huv⟩ := append_of_mem hc
    have hfound : (cutAt? [c] s).isSome := isSome_cutAt?_iff.mpr ⟨u, v, by simp [huv]⟩
    rw [comparison?, findSome?_isSome_iff]
    simp only [isSignChar, Bool.or_eq_true, beq_iff_eq] at hcs
    rcases hcs with (rfl | rfl) | rfl
    · exact ⟨("=", none), by decide, by simpa using hfound⟩
    · exact ⟨("<", some "$lt"), by decide, by simpa using hfound⟩
    · exact ⟨(">", some "$gt"), by decide, by simpa using hfound⟩

/-! ### When a condition is read -/

theorem simple?_of_absent (h : ∀ p ∈ specialForms, p.find? (bareCondition condition) = none) :
    simple? condition = (comparison? (bareCondition condition)).map fun (left, operator, right) =>
      (String.ofList left, demand operator (operand right)) := by
  simp only [specialForms, forall_mem_cons] at h
  obtain ⟨h1, h2, h3, h4, h5, h6, -⟩ := h
  simp only [bareCondition] at h1 h2 h3 h4 h5 h6
  simp only [simple?, h1, h2, h3, h4, h5, h6, bareCondition]

theorem found_cases {α : Type} {found : Option Match} {read : Match → α} {other r : Option α}
    (h : (if let some m := found then some (read m) else other) = r) :
    (∃ m, found = some m ∧ some (read m) = r) ∨ found = none ∧ other = r := by
  cases found with
  | none => exact .inr ⟨rfl, h⟩
  | some m => exact .inl ⟨m, rfl, h⟩

/-- **A special form asks for a document**, and without one a condition is a comparison. -/
theorem special_or_absent (condition : List Char) :
    (∃ p ∈ specialForms, ∃ m d, p.find? (bareCondition condition) = some m ∧
      simple? condition = some (String.ofList (m.get "field"), .doc d)) ∨
      ∀ p ∈ specialForms, p.find? (bareCondition condition) = none := by
  generalize hr : simple? condition = r
  have hspecial : ∀ p ∈ specialForms, ∀ (m : Match) (d : Document), p.find? (bareCondition condition) = some m →
      some (String.ofList (m.get "field"), Value.doc d) = r → ∃ p ∈ specialForms, ∃ m d,
        p.find? (bareCondition condition) = some m ∧ r = some (String.ofList (m.get "field"), .doc d) :=
    fun p hp m d hm h => ⟨p, hp, m, d, hm, h.symm⟩
  rcases found_cases hr with ⟨m, hm, h⟩ | ⟨hbetween, hr⟩
  · exact .inl (hspecial betweenPattern (by simp [specialForms]) m _ hm h)
  rcases found_cases hr with ⟨m, hm, h⟩ | ⟨hin, hr⟩
  · exact .inl (hspecial inPattern (by simp [specialForms]) m _ hm h)
  rcases found_cases hr with ⟨m, hm, h⟩ | ⟨hnotIn, hr⟩
  · exact .inl (hspecial notInPattern (by simp [specialForms]) m _ hm h)
  rcases found_cases hr with ⟨m, hm, h⟩ | ⟨hlike, hr⟩
  · exact .inl (hspecial likePattern (by simp [specialForms]) m _ hm h)
  rcases found_cases hr with ⟨m, hm, h⟩ | ⟨hnull, hr⟩
  · exact .inl (hspecial isNullPattern (by simp [specialForms]) m _ hm h)
  rcases found_cases hr with ⟨m, hm, h⟩ | ⟨hnotNull, -⟩
  · exact .inl (hspecial isNotNullPattern (by simp [specialForms]) m _ hm h)
  simp only [specialForms, forall_mem_cons, not_mem_nil, false_imp_iff, implies_true, and_true]
  exact .inr ⟨hbetween, hin, hnotIn, hlike, hnull, hnotNull⟩

/-- **When a condition is read.** -/
theorem simple?_eq_none_iff : simple? condition = none ↔ ¬ Readable condition := by
  have habsent : (∀ p ∈ specialForms, p.find? (bareCondition condition) = none) ↔
      ¬ ∃ p ∈ specialForms, p.occursIn (bareCondition condition) := by
    simp [occursIn]
  constructor
  · intro h
    have hforms : ∀ p ∈ specialForms, p.find? (bareCondition condition) = none := by
      refine (special_or_absent condition).resolve_left ?_
      rintro ⟨p, -, m, d, -, hread⟩
      rw [h] at hread
      cases hread
    rw [simple?_of_absent hforms, map_eq_none_iff, ← not_isSome_iff_eq_none,
      isSome_comparison?_iff] at h
    exact not_or.mpr ⟨habsent.mp hforms, h⟩
  · intro h
    obtain ⟨hforms, hsigns⟩ := not_or.mp h
    rw [simple?_of_absent (habsent.mpr hforms), map_eq_none_iff,
      ← not_isSome_iff_eq_none, isSome_comparison?_iff]
    exact hsigns

/-! ### Texts without special forms -/

/-- A word character behind a field and blanks. -/
def Opens (s : List Char) : Prop :=
  ∃ u x b v y w, s = u ++ x :: b :: (v ++ y :: w) ∧ isFieldChar x ∧ isBlank b ∧
    (∀ c ∈ v, isBlank c) ∧ isWord y

/-- A text that begins with a field, blanks and a word character. -/
def Leads (s : List Char) : Prop :=
  ∃ f b v y w, s = f ++ b :: (v ++ y :: w) ∧ f ≠ [] ∧ (∀ c ∈ f, isFieldChar c) ∧
    isBlank b ∧ (∀ c ∈ v, isBlank c) ∧ isWord y

theorem Leads.opens (h : Leads s) (u : List Char) : Opens (u ++ s) := by
  obtain ⟨f, b, v, y, w, rfl, hf, hfield, hb, hv, hy⟩ := h
  obtain ⟨f', x, rfl⟩ := (eq_nil_or_concat f).resolve_left hf
  exact ⟨u ++ f', x, b, v, y, w, by simp, hfield x (by simp), hb, hv, hy⟩

/-- A pattern that begins with a word character. -/
def BeginsWord (p : Pattern) : Prop :=
  ∀ x y : Cursor, p.Spans x y → ∃ c s, x.rest = c :: s ∧ isWord c

/-- A pattern that begins with a field, blanks and a word character. -/
def BeginsOpening (p : Pattern) : Prop :=
  ∀ x y : Cursor, p.Spans x y → Leads x.rest

theorem BeginsWord.append {p : Pattern} (h : BeginsWord p) (q : Pattern) : BeginsWord (p ++ q) := by
  intro x y hxy
  obtain ⟨z, hz, -⟩ := spans_append.mp hxy
  exact h x z hz

theorem BeginsOpening.append {p q : Pattern} (h : BeginsOpening p) : BeginsOpening (p ++ q) := by
  intro x y hxy
  obtain ⟨z, hz, -⟩ := spans_append.mp hxy
  exact h x z hz

theorem exists_head_of_spans_lit (hw : w = l :: word) {x y : Cursor} (h : (lit w).Spans x y) :
    ∃ c s, x.rest = c :: s ∧ sameLetter l c := by
  obtain ⟨t, ht, hx⟩ := exists_of_spans_lit h
  rw [hw] at ht
  obtain ⟨c, t, rfl, hc, -⟩ := exists_cons_of_spells ht
  exact ⟨c, t ++ y.rest, hx, hc⟩

theorem beginsWord_lit (hw : w = l :: word) (hl : l ∈ capitals) : BeginsWord (lit w) := by
  intro x y h
  obtain ⟨c, s, hx, hc⟩ := exists_head_of_spans_lit hw h
  exact ⟨c, s, hx, (isWord_of_sameCapital hl hc).1⟩

theorem BeginsWord.opening {q : Pattern} (hq : BeginsWord q) : BeginsOpening (field ++ space ++ q) := by
  intro x z h
  obtain ⟨y, hxy, hyz⟩ := spans_append.mp h
  obtain ⟨y', hfield, hspace⟩ := spans_append.mp hxy
  obtain ⟨f, hf, hfield, hx⟩ := exists_of_spans_many1 hfield
  obtain ⟨bs, hbs, hblank, hy'⟩ := exists_of_spans_many1 hspace
  obtain ⟨c, t, hy, hc⟩ := hq y z hyz
  obtain ⟨b, bs, rfl⟩ := exists_cons_of_ne_nil hbs
  refine ⟨f, b, bs, c, t, ?_, hf, hfield, hblank b (by simp), ?_, hc⟩
  · rw [hx, hy', hy, cons_append]
  · exact (forall_mem_cons.mp hblank).2

/-- **All special forms begin alike**, with a field, blanks and a word character. -/
theorem beginsOpening_of_special : ∀ p ∈ specialForms, BeginsOpening p := by
  intro p hp
  have his : BeginsWord (lit "IS") := beginsWord_lit rfl (by decide)
  simp only [specialForms, mem_cons, not_mem_nil, or_false] at hp
  -- only the beginning of a form counts: its other pieces go, from the last to the keyword
  rcases hp with rfl | rfl | rfl | rfl | rfl | rfl
  · iterate 7 apply BeginsOpening.append
    exact BeginsWord.opening (beginsWord_lit rfl (by decide))
  · iterate 4 apply BeginsOpening.append
    exact BeginsWord.opening (beginsWord_lit rfl (by decide))
  · iterate 6 apply BeginsOpening.append
    exact BeginsWord.opening (beginsWord_lit rfl (by decide))
  · iterate 3 apply BeginsOpening.append
    exact BeginsWord.opening (beginsWord_lit rfl (by decide))
  · exact ((his.append _).append _).opening.append
  · exact ((his.append _).append _).opening.append

theorem find?_special_eq_none (h : ¬ Opens s) : ∀ p ∈ specialForms, p.find? s = none := by
  intro p hp
  refine find?_eq_none fun u v b y huv hspans => h ?_
  rw [huv]
  exact (beginsOpening_of_special p hp _ y hspans).opens u

end SqlGateway.Sql.Where
