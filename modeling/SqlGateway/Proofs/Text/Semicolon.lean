import SqlGateway.Proofs.Text.Ending
import SqlGateway.Proofs.Text.Trim

/-!
# A semicolon at the end of a text

The searches of `Ending.lean` in a text with and without a semicolon behind it.  The text has no other
semicolon and does not end in a blank (`Unended`).  The space behind the text can be the blank behind the
words of a clause: **a clause is the same, or empty** (`clause_eq`).
-/

namespace SqlGateway.Text

open List Option

variable {s t y q : List Char} {α : Type} {c d : Option Char}

/-- A text without semicolons that does not end in a blank. -/
structure Unended (r : List Char) : Prop where
  no_semicolon : ';' ∉ r
  solid : ∀ c ∈ r.getLast?, isBlank c = false

theorem Unended.of_suffix {r : List Char} (h : Unended r) (hy : y <:+ r) : Unended y := by
  obtain ⟨u, rfl⟩ := hy
  refine ⟨fun hmem => h.no_semicolon (by simp [hmem]), fun c hc => h.solid c ?_⟩
  rw [mem_def, getLast?_append, hc, some_or]

theorem Unended.eq_nil_of_blank (h : Unended y) (hy : ∀ c ∈ y, isBlank c) : y = [] := by
  rcases eq_nil_or_concat y with rfl | ⟨u, c, rfl⟩
  · rfl
  · have hsolid := h.solid c (by simp)
    rw [hy c (by simp)] at hsolid
    cases hsolid

theorem Unended.exists_strip (hq : Unended q) : strip (q ++ [';']) = strip q ++ [';'] ∧ strip q <:+ q := by
  obtain ⟨u, v, huv, hu, hv⟩ := Text.exists_strip q
  obtain rfl : v = [] := (hq.of_suffix ⟨_, huv.symm⟩).eq_nil_of_blank hv
  rw [append_nil] at huv
  refine ⟨?_, ⟨u, huv.symm⟩⟩
  have hsolid : strip (strip q ++ [';']) = strip q ++ [';'] := by
    refine strip_eq_self (fun c hc => ?_) (fun c hc => ?_)
    · cases hs : strip q with
      | nil =>
        rw [hs] at hc
        obtain rfl : ';' = c := some.inj hc
        decide
      | cons d s =>
        have hd := head?_strip q d (by rw [hs]; rfl)
        rw [hs] at hc
        obtain rfl : d = c := some.inj hc
        exact hd
    · rw [getLast?_concat] at hc
      obtain rfl : ';' = c := some.inj hc
      decide
  have hq' : strip (u ++ (strip q ++ [';'])) = strip (strip q ++ [';']) := strip_blanks_append hu _
  rw [← hsolid, ← hq', ← append_assoc, ← huv]

theorem Unended.padded (hq : Unended q) (hne : q ≠ []) : Unended (' ' :: strip q) := by
  have hs : strip q ≠ [] := by
    intro hs
    obtain ⟨u, v, huv, hu, hv⟩ := Text.exists_strip q
    rw [hs, append_nil] at huv
    refine hne (hq.eq_nil_of_blank fun c hc => ?_)
    rw [huv, mem_append] at hc
    exact hc.elim (hu c) (hv c)
  obtain ⟨c, s, hcs⟩ := exists_cons_of_ne_nil hs
  refine ⟨?_, fun d hd => getLast?_strip q d ?_⟩
  · rw [mem_cons]
    rintro (h | h)
    · cases h
    · exact hq.no_semicolon (mem_of_mem_strip h)
  · rw [hcs] at hd ⊢
    rwa [getLast?_cons_cons] at hd

/-- The ends of a text without and with a semicolon; a space may follow. -/
inductive Semicolon : List Char → List Char → Prop
  | bare : Semicolon [] [';']
  | padded : Semicolon [' '] [';', ' ']

theorem Semicolon.endings {a b : List Char} (h : Semicolon a b) : Pattern.Endings a b := by
  cases h <;> exact ⟨by decide, by decide, by simp⟩

namespace Pattern

variable {r a b : List Char} {p q : Pattern}

theorem spans_of_semicolon {p : Pattern} (hfree : p.isFree) (havoids : p.avoids ';')
    {b : Option Char} {y : Cursor} (h : p.Spans ⟨b, s ++ ';' :: t⟩ y) : ∃ y', p.Spans ⟨b, s⟩ y' := by
  obtain ⟨z, hz, htakes, hclear⟩ := exists_of_spans_free hfree h
  obtain ⟨u, rfl, -⟩ := exists_append_of_class
    (fun c hc => ne_of_mem_of_not_mem hc (hclear ';' havoids)) (by simp) hz.symm
  obtain ⟨b', hspans⟩ := htakes u b
  exact ⟨_, hspans⟩

theorem Absent.semicolon {u : List Char} (hfree : p.isFree) (havoids : p.avoids ';')
    (h : p.Absent u s) : p.Absent u (s ++ ';' :: t) := by
  intro u₁ u₂ hsplit hne b y hy
  rw [← append_assoc] at hy
  obtain ⟨y', hy'⟩ := spans_of_semicolon hfree havoids hy
  exact h u₁ u₂ hsplit hne b y' hy'

/-! ### Words and names -/

section

variable (h : Semicolon a b)
include h

theorem misses_of_two_le (hq : 2 ≤ q.least) : Misses a q ∧ Misses b q := by
  cases h with
  | bare => exact ⟨misses_of_least (by simp), misses_of_least (by simp; omega)⟩
  | padded => exact ⟨misses_of_least (by simp; omega), misses_of_least (by simpa using hq)⟩

theorem closes_of_avoids (hspace : p.holdsOff ' ') (hsign : p.holdsOff ';') : Closes r a b p := by
  refine closes_of_holdsOff h.endings ?_ ?_
  · cases h <;> simp [hspace]
  · cases h <;> simp [hsign]

/-- A pattern that ends in something with at least two characters, none of them a space or semicolon. -/
theorem closes_word (hp : p.isSteady) (hspace : q.holdsOff ' ')
    (hsign : q.holdsOff ';') (hleast : 2 ≤ q.least) : Closes r a b (p ++ q) :=
  (closes_of_avoids h hspace hsign).append h.endings (.inr ⟨hp, (misses_of_two_le h hleast).1.fails⟩)
    (.inr ⟨hp, (misses_of_two_le h hleast).2.fails⟩)

theorem closes_space (hq : Closes r a b q) (hleast : 1 ≤ q.least) : Closes r a b (space ++ q) := by
  refine hq.append h.endings ?_ ?_
  · cases h with
    | bare => exact .inl (by simp)
    | padded => exact .inr ⟨rfl, Misses.fails (misses_of_least (by simpa using hleast))⟩
  · refine .inl ?_
    cases h <;> simp <;> decide

theorem misses_many1 {c : Char → Bool} (hspace : c ' ' = false) (name : String) :
    Misses a (keep name (many1 c)) ∧ Misses b (keep name (many1 c)) := by
  have hmisses : ∀ {t : List Char}, (∀ d ∈ t.tail, c d = false) → Misses t (keep name (many1 c)) :=
    fun ht => (misses_one ht).append (many c)
  cases h with
  | bare => exact ⟨hmisses (by simp), hmisses (by simp)⟩
  | padded => exact ⟨hmisses (by simp), hmisses (by simpa using hspace)⟩

theorem closes_name {c : Char → Bool} (hp : p.isSteady) (hspace : c ' ' = false)
    (hsign : c ';' = false) (name : String) : Closes r a b (p ++ keep name (many1 c)) := by
  have hmisses := misses_many1 h hspace name
  refine (closes_of_avoids h ?_ ?_).append h.endings (.inr ⟨hp, hmisses.1.fails⟩) (.inr ⟨hp, hmisses.2.fails⟩)
  · simp [many1, holdsOff, hspace, show ∀ a b : Pattern, a ++ b = seq a b from fun _ _ => rfl]
  · simp [many1, holdsOff, hsign, show ∀ a b : Pattern, a ++ b = seq a b from fun _ _ => rfl]

end

/-! ### The end of a text -/

theorem exists_of_gap {g w : List Char} (hy : Unended y) (hne : y ≠ [])
    (hg : ∀ c ∈ g, isBlank c) (h : y ++ t = g ++ w) : ∃ z, z ≠ [] ∧ z <:+ y ∧ w = z ++ t := by
  rcases append_eq_append_iff.mp h with ⟨u, rfl, rfl⟩ | ⟨u, rfl, rfl⟩
  · exact absurd (hy.eq_nil_of_blank fun c hc => hg c (by simp [hc])) hne
  · cases u with
    | nil =>
      rw [append_nil] at hy hne
      exact absurd (hy.eq_nil_of_blank hg) hne
    | cons c u => exact ⟨c :: u, by simp, ⟨g, rfl⟩, rfl⟩

theorem not_atFinish (hy : Unended y) (hne : y ≠ []) (c : Option Char) :
    Cursor.atFinish ⟨c, y ++ t⟩ = false := by
  obtain ⟨d, y, rfl⟩ := exists_cons_of_ne_nil hne
  rw [Cursor.atFinish, Bool.eq_false_iff]
  intro h
  simp only [cons_append, isEmpty_cons, Bool.false_or, beq_iff_eq, cons.injEq, append_eq_nil_iff] at h
  obtain ⟨rfl, rfl, -⟩ := h
  exact absurd (hy.solid '\n' rfl) (by decide)

theorem not_spans_ending (hy : Unended y) (hne : y ≠ []) (c : Option Char) (z : Cursor) :
    ¬ (alt (gap ++ exactly ";") (gap ++ finish)).Spans ⟨c, y ++ t⟩ z := by
  rintro (⟨x, hgap, hend⟩ | ⟨⟨d, s⟩, hgap, -, hend⟩)
  · obtain ⟨g, hg, hrest⟩ := exists_of_spans_many hgap
    obtain ⟨u, hu, hsuffix, hx⟩ := exists_of_gap hy hne hg hrest
    rw [exists_of_spans_exactly hend] at hx
    obtain ⟨e, u, rfl⟩ := exists_cons_of_ne_nil hu
    obtain rfl : ';' = e := (cons.inj hx).1
    exact hy.no_semicolon (hsuffix.mem (by simp))
  · obtain ⟨g, hg, hrest⟩ := exists_of_spans_many hgap
    obtain ⟨u, hu, hsuffix, hx⟩ := exists_of_gap hy hne hg hrest
    obtain rfl : s = u ++ t := hx
    rw [not_atFinish (hy.of_suffix hsuffix) hu] at hend
    cases hend

theorem closes_ending (hr : Unended r) (h : Semicolon a b) :
    Closes r a b (alt (gap ++ exactly ";") (gap ++ finish)) := by
  intro c y k k' hy hk
  cases y with
  | nil =>
    cases h with
    | bare => exact congrArg some hk
    | padded => exact congrArg some hk
  | cons d y =>
    have hopen := hr.of_suffix hy
    simp only
    rw [run_eq_none (not_spans_ending hopen (by simp) c), run_eq_none (not_spans_ending hopen (by simp) c)]

theorem ends_ending (h : Semicolon a b) : Ends a (alt (gap ++ exactly ";") (gap ++ finish)) ∧
    Ends b (alt (gap ++ exactly ";") (gap ++ finish)) := by
  have hends : ∀ {t : List Char}, (∀ c, ((alt (gap ++ exactly ";") (gap ++ finish)).run ⟨c, t⟩ []
      fun _ _ => some ()).isSome) → Ends t (alt (gap ++ exactly ";") (gap ++ finish)) := by
    intro t ht c
    obtain ⟨u, hu⟩ := isSome_iff_exists.mp (ht c)
    obtain ⟨y, -, hy, -⟩ := run_sound hu
    exact ⟨y, hy⟩
  cases h with
  | bare => exact ⟨hends fun _ => rfl, hends fun _ => rfl⟩
  | padded => exact ⟨hends fun _ => rfl, hends fun _ => rfl⟩

/-! ### Clauses -/

/-- The words `w` and a blank, and all behind them up to `e`. -/
abbrev clauseBehind (w e : Pattern) : Pattern :=
  w ++ space ++ keep "clause" (few anyChar) ++ e

/-- The words that open a clause: they have no semicolon, and no match of them lies inside another one
without reaching to its end. -/
structure Heading (w : Pattern) : Prop where
  free : w.isFree
  plain : w.isPlain
  steady : w.isSteady
  sign : w.avoids ';' ∧ w.holdsOff ';'
  nonempty : 1 ≤ w.least
  alone : ∀ {v z y : List Char}, (∀ t, w.Takes v t) → z ++ y <:+ v → (∀ t, w.Takes z t) → y = []

section

variable {w e : Pattern} (hw : Heading w)
include hw

theorem Heading.misses : Misses [' '] (w ++ space) ∧ Misses [';', ' '] (w ++ space) := by
  refine misses_of_two_le Semicolon.padded ?_
  have hleast := hw.nonempty
  show 2 ≤ w.least + 1
  omega

/-- Only the words themselves can stand between a place and the space at the end. -/
theorem Heading.takes_of_spans (hy : Unended y) (h : (w ++ space).Spans ⟨c, y ++ [' ']⟩ ⟨d, []⟩) :
    ∀ t, w.Takes y t := by
  obtain ⟨x, hx, hspace⟩ := h
  obtain ⟨z, hz, htakes, -⟩ := exists_of_spans_free hw.free hx
  obtain ⟨g, hne, hg, hrest⟩ := exists_of_spans_many1 hspace
  rw [hrest, show (⟨d, []⟩ : Cursor).rest = [] from rfl, append_nil] at hz
  rcases append_eq_append_iff.mp hz with ⟨u, rfl, hu⟩ | ⟨u, rfl, rfl⟩
  · cases u with
    | nil => rwa [append_nil] at htakes
    | cons f u =>
      rw [cons_append, cons.injEq] at hu
      exact absurd (append_eq_nil_iff.mp hu.2.symm).2 hne
  · have hblank : u = [] := (hy.of_suffix ⟨z, rfl⟩).eq_nil_of_blank fun f hf => hg f (by simp [hf])
    rwa [hblank, append_nil]

/-- If the words take all of a text, none of its ends has the words and a blank in it. -/
theorem Heading.not_spans {v : List Char} (hv : ∀ t, w.Takes v t) (hy : y <:+ v)
    (ht : t = [';', ' '] ∨ t = [' '] ∧ s ≠ []) : ¬ (w ++ space).Spans ⟨c, y ++ t⟩ ⟨d, s⟩ := by
  rintro ⟨⟨f, x⟩, hx, hspace⟩
  obtain ⟨z, hz, htakes, havoids⟩ := exists_of_spans_free hw.free hx
  obtain ⟨g, hne, hg, hrest⟩ := exists_of_spans_many1 hspace
  obtain rfl : x = g ++ s := hrest
  obtain ⟨l, g, rfl⟩ := exists_cons_of_ne_nil hne
  have hl := hg l (by simp)
  obtain ⟨u, hu, hyz⟩ : ∃ u, u ≠ [] ∧ y = z ++ u := by
    by_contra hinside
    -- otherwise the words reach over the end of `y`
    obtain ⟨u, rfl, hu⟩ : ∃ u, z = y ++ u ∧ t = u ++ (l :: g ++ s) := by
      rcases append_eq_append_iff.mp hz with h | ⟨u, rfl, hu⟩
      · exact h
      · obtain rfl : u = [] := by_contra fun hne => hinside ⟨u, hne, rfl⟩
        exact ⟨[], by simp, hu.symm⟩
    rcases ht with rfl | ⟨rfl, hs⟩
    · cases u with
      | nil =>
        obtain rfl : ';' = l := (cons.inj hu).1
        exact absurd hl (by decide)
      | cons m u =>
        obtain rfl : ';' = m := (cons.inj hu).1
        exact havoids ';' hw.sign.1 (by simp)
    · have hlength := congrArg length hu
      have hpos := length_pos_iff.mpr hs
      simp only [length_append, length_cons, length_nil] at hlength
      omega
  exact hu (hw.alone hv (hyz ▸ hy) htakes)

/-- At a place from where the words and a blank do not reach the end, both texts match alike. -/
theorem Heading.matchAt?_eq (he : Closes r [' '] [';', ' '] (keep "clause" (few anyChar) ++ e))
    (hy : y <:+ r) (hno : ∀ d, ¬ (w ++ space).Spans ⟨c, y ++ [' ']⟩ ⟨d, []⟩) (start : Nat) :
    ((clauseBehind w e).matchAt? start c (y ++ [' '])).map (·.get "clause") =
      ((clauseBehind w e).matchAt? start c (y ++ [';', ' '])).map (·.get "clause") := by
  refine map_get_of_texts ?_ "clause"
  rw [texts_matchAt?, texts_matchAt?]
  -- The continuation behind the blank, made to fail at the end of the text.
  let next : Cursor → Kept → Option (List (String × List Char)) := fun x k =>
    if x.rest.isEmpty then none
    else (keep "clause" (few anyChar) ++ e).run x k fun _ l => some (texts l)
  have hnext : (w ++ space).run ⟨c, y ++ [' ']⟩ [] (fun x k =>
      (keep "clause" (few anyChar) ++ e).run x k fun _ l => some (texts l)) =
      (w ++ space).run ⟨c, y ++ [' ']⟩ [] next := by
    refine run_congr fun x k hx => ?_
    obtain ⟨d, s⟩ := x
    have hs : s ≠ [] := by
      rintro rfl
      exact hno d hx.spans
    exact (if_neg (by simpa using hs)).symm
  have hagree : Agree r [' '] [';', ' '] next fun x k =>
      (keep "clause" (few anyChar) ++ e).run x k fun _ l => some (texts l) := by
    intro d z k k' hz hk
    exact (if_neg (by simp)).trans (he d hz hk)
  have hfails : Fails [' '] next := by
    intro z t hzt hne d k
    obtain rfl : t = [] := by
      obtain ⟨f, z, rfl⟩ := exists_cons_of_ne_nil hne
      exact (append_eq_nil_iff.mp (cons.inj hzt).2.symm).2
    rfl
  refine hnext.trans (hagree.run Semicolon.padded.endings (.inr ⟨?_, hfails⟩) (.inl ?_) c hy rfl)
  · exact Bool.and_eq_true_iff.mpr ⟨hw.steady, rfl⟩
  · intro d hd
    obtain rfl : ';' = d := some.inj hd
    exact Bool.and_eq_true_iff.mpr ⟨hw.sign.2, by decide⟩

/-- Where the words and the space at the end make an empty clause, there is none with a semicolon. -/
theorem Heading.exists_empty (hy : Unended y) (hplain : e.isPlain) (hend : Ends [] e)
    (hspans : (w ++ space).Spans ⟨c, y ++ [' ']⟩ ⟨d, []⟩) (start : Nat) :
    (∃ m, (clauseBehind w e).matchAt? start c (y ++ [' ']) =
        some m ∧ m.get "clause" = []) ∧
      (clauseBehind w e).findFrom? start c (y ++ [';', ' ']) = none := by
  have hv := hw.takes_of_spans hy hspans
  constructor
  · obtain ⟨z, hz⟩ := hend d
    have hall : (clauseBehind w e).Spans ⟨c, y ++ [' ']⟩ z :=
      ⟨⟨d, []⟩, ⟨⟨d, []⟩, hspans, .stay _⟩, hz⟩
    have hsome : ((clauseBehind w e).matchAt? start c
        (y ++ [' '])).isSome := isSome_matchAt?_iff.mpr ⟨z, hall⟩
    obtain ⟨m, hm⟩ := isSome_iff_exists.mp hsome
    refine ⟨m, hm, ?_⟩
    obtain ⟨z', ⟨x₂, k₂, ⟨⟨f, s⟩, k₁, hwords, hclause⟩, hx₃⟩, -⟩ := matchAt?_keeps hm
    have hplain' : (w ++ space).isPlain := Bool.and_eq_true_iff.mpr ⟨hw.plain, rfl⟩
    cases s with
    | cons l s =>
      exact absurd (hwords.of_isPlain hplain').1 (hw.not_spans hv (suffix_refl y) (.inr ⟨rfl, by simp⟩))
    | nil =>
      obtain ⟨-, rfl⟩ := keeps_keep rfl hclause
      rw [Match.get, Match.get?, (hx₃.of_isPlain hplain).2, lookup_cons]
      simp [Piece.chars, pieceBefore]
  · rw [← not_isSome_iff_eq_none, isSome_findFrom?_iff]
    rintro ⟨u, v, z, huv, x₂, ⟨⟨f, s⟩, hwords, -⟩, -⟩
    rcases append_eq_append_iff.mp huv with ⟨t, rfl, ht⟩ | ⟨t, rfl, rfl⟩
    · cases t with
      | nil =>
        rw [nil_append] at ht
        rw [← ht] at hwords
        exact hw.not_spans hv (nil_suffix) (.inl rfl) hwords
      | cons l t => exact hw.misses.2 (l :: t) v ht (by simp) _ _ hwords
    · exact hw.not_spans hv ⟨u, rfl⟩ (.inl rfl) hwords

/-- **A clause is the same** with a semicolon behind the text, if no clause counts as an empty one. -/
theorem Heading.clause_eq (hr : Unended r)
    (he : Closes r [' '] [';', ' '] (keep "clause" (few anyChar) ++ e)) (hplain : e.isPlain)
    (hend : Ends [] e) :
    (((clauseBehind w e).find? (r ++ [' '])).map (·.get "clause")).getD [] =
      (((clauseBehind w e).find? (r ++ [';', ' '])).map
        (·.get "clause")).getD [] := by
  have hleft : Misses [' '] (clauseBehind w e) := (hw.misses.1.append _).append _
  have hright : Misses [';', ' '] (clauseBehind w e) :=
    (hw.misses.2.append _).append _
  have hfrom : ∀ {y : List Char}, y <:+ r → ∀ start c,
      (((clauseBehind w e).findFrom? start c (y ++ [' '])).map
        (·.get "clause")).getD [] =
      (((clauseBehind w e).findFrom? start c (y ++ [';', ' '])).map
        (·.get "clause")).getD [] := by
    intro y
    induction y with
    | nil =>
      intro hy start c
      have hno : ∀ d, ¬ (w ++ space).Spans ⟨c, [] ++ [' ']⟩ ⟨d, []⟩ := by
        intro d hd
        have hspans : ([] : List Char).length + (w.least + 1) ≤ [' '].length := least_le_of_spans hd
        have hleast := hw.nonempty
        simp only [length_nil, length_cons] at hspans
        omega
      have hhere := hw.matchAt?_eq he hy hno start
      rw [nil_append, nil_append] at hhere ⊢
      rw [hleft.findFrom?, hright.findFrom?, hhere]
    | cons f y ih =>
      intro hy start c
      by_cases hcross : ∃ d, (w ++ space).Spans ⟨c, f :: y ++ [' ']⟩ ⟨d, []⟩
      · obtain ⟨d, hd⟩ := hcross
        obtain ⟨⟨m, hm, hempty⟩, hnone⟩ := hw.exists_empty (hr.of_suffix hy) hplain hend hd start
        rw [findFrom?_of_matchAt? hm, hnone]
        exact hempty
      · have hhere := hw.matchAt?_eq he hy (fun d hd => hcross ⟨d, hd⟩) start
        have hrest := ih ((suffix_cons f y).trans hy) (start + 1) (some f)
        rw [cons_append, cons_append] at hhere ⊢
        simp only [findFrom?, orElse_eq_orElse, orElse_eq_or, map_or, hhere]
        rw [getD_or, getD_or, hrest]
  exact hfrom (suffix_refl r) 0 none

end

end Pattern

/-! ### Words and the blanks behind them -/

/-- What follows the next blanks of a text. -/
def behindBlanks (s : List Char) : List Char :=
  (s.dropWhile fun c => !isBlank c).dropWhile isBlank

theorem behindBlanks_append {w g x : List Char} (hw : ∀ c ∈ w, isBlank c = false) (hg : IsGap g)
    (hx : ∀ c ∈ x.head?, isBlank c = false) : behindBlanks (w ++ (g ++ x)) = x := by
  obtain ⟨d, g, rfl⟩ := exists_cons_of_ne_nil hg.1
  rw [behindBlanks, dropWhile_append_of_pos (by simpa using hw), cons_append,
    dropWhile_cons_of_neg (by simp [hg.2 d (by simp)]), ← cons_append,
    dropWhile_append_of_pos hg.2, dropWhile_eq_self x hx]

theorem behindBlanks_suffix (h : s <:+ t) : behindBlanks s <:+ behindBlanks t := by
  obtain ⟨u, rfl⟩ := h
  induction u with
  | nil => exact suffix_refl _
  | cons c u ih =>
    refine ih.trans ?_
    rw [cons_append]
    cases hc : isBlank c with
    | false =>
      have hsame : behindBlanks (c :: (u ++ s)) = behindBlanks (u ++ s) := by
        rw [behindBlanks, behindBlanks, dropWhile_cons_of_pos (by simp [hc])]
      exact hsame ▸ suffix_refl _
    | true =>
      rw [behindBlanks, behindBlanks, dropWhile_cons_of_neg (by simp [hc]), dropWhile_cons_of_pos hc]
      cases hrest : u ++ s with
      | nil => exact suffix_refl _
      | cons d t =>
        cases hd : isBlank d with
        | true =>
          have hstay : (d :: t).dropWhile (fun c => !isBlank c) = d :: t := dropWhile_cons_of_neg (by simp [hd])
          exact ⟨[], by rw [hstay, nil_append]⟩
        | false =>
          have hstay : (d :: t).dropWhile isBlank = d :: t := dropWhile_cons_of_neg (by simp [hd])
          rw [hstay]
          exact (dropWhile_suffix _).trans (dropWhile_suffix _)

end SqlGateway.Text
