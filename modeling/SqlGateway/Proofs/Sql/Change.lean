import SqlGateway.Proofs.Sql.Insert
import SqlGateway.Proofs.Sql.Semicolon

/-!
# Changes with a semicolon

A semicolon right behind the last value of an update goes into the value; where a condition follows, the
values end before it (`values_semicolon`).  An insertion can be read with a semicolon if it can be read
without (`insertion_semicolon`).
-/

namespace SqlGateway.Sql

open Text Pattern List Option Document

variable {q s t v u : List Char} {y : Cursor} {b : Option Char} {P : List Char → Prop}

theorem exists_run_of_spans {p : Char → Bool} {x : Cursor} (h : (many1 p).Spans x y) :
    ∃ g z, x.rest = g ++ z ∧ (g ≠ [] ∧ ∀ c ∈ g, p c) ∧ ∀ c ∈ z.head?, p c = false := by
  obtain ⟨g, hne, hg, hx⟩ := exists_of_spans_many1 h
  refine ⟨g ++ y.rest.takeWhile p, y.rest.dropWhile p, ?_, ⟨by simp [hne], ?_⟩, ?_⟩
  · rw [hx, append_assoc, takeWhile_append_dropWhile]
  · exact forall_mem_append.mpr ⟨hg, fun c hc => mem_takeWhile_imp hc⟩
  · exact head?_dropWhile p y.rest

/-! ### Assignments -/

namespace Change

/-- Assignments with a condition behind them. -/
def boundedAssignments : Pattern :=
  lit "SET" ++ space ++ one (fun c => !isBlank c) ++ few anyChar ++ one isBlank ++ lit "WHERE"

theorem exists_of_spans_set (h : (lit "SET" ++ space).Spans ⟨b, v⟩ y) : ∃ i g x, v = i ++ (g ++ x) ∧
      spells "SET" i ∧ IsGap g ∧ ∀ c ∈ x.head?, isBlank c = false := by
  obtain ⟨z, hset, hspace⟩ := h
  obtain ⟨i, hi, hv⟩ := exists_of_spans_lit hset
  obtain ⟨g, x, hz, hg, hx⟩ := exists_run_of_spans hspace
  exact ⟨i, g, x, by rw [← hz]; exact hv, hi, hg, hx⟩

theorem behindBlanks_set {i g x : List Char} (hi : spells "SET" i)
    (hg : IsGap g) (hx : ∀ c ∈ x.head?, isBlank c = false) : behindBlanks (i ++ (g ++ x)) = x :=
  behindBlanks_append (IsKeyword.solid (by decide) hi) hg hx

theorem prefers_assignments {i g w : List Char} {d : Char} (hi : spells "SET" i)
    (hg : IsGap g) (hhead : ∀ c ∈ (u ++ d :: (w ++ t)).head?, isBlank c = false) (hd : isBlank d)
    (hw : spells "WHERE" w) (hu : ';' ∉ u)
    (hfirst : (one isBlank ++ lit "WHERE").Absent u (d :: (w ++ t))) :
    assignmentsPattern.Prefers (i ++ (g ++ (u ++ d :: (w ++ t)))) [] t
      [("assignments", ⟨u ++ d :: (w ++ t), d :: (w ++ t)⟩)] := by
  have hset : (lit "SET" ++ space).Prefers (i ++ (g ++ (u ++ d :: (w ++ t)))) [] (u ++ d :: (w ++ t)) [] :=
    (prefers_lit hi _ _).append (prefers_many1 hg.1 hg.2 hhead _)
  refine prefers_few "assignments" hset (fun _ _ => rfl) ?_
    (((prefers_one hd _ _).append (prefers_lit hw t _)).left _)
  intro u₁ u₂ hsplit hne b y h
  rcases h with h | h | h
  · exact hfirst u₁ u₂ hsplit hne b y h
  · -- Behind a blank of the values stands another of their characters, or the blank before the condition.
    obtain ⟨z, ⟨c, s, hs, -, rfl⟩, hsign⟩ := h
    obtain ⟨c', u₂, rfl⟩ := exists_cons_of_ne_nil hne
    obtain ⟨-, rfl⟩ := cons.inj hs
    have hrest := exists_of_spans_exactly hsign
    cases u₂ with
    | nil =>
      obtain rfl : d = ';' := (cons.inj hrest).1
      exact absurd hd (by decide)
    | cons e u₂ =>
      obtain rfl : e = ';' := (cons.inj hrest).1
      exact hu (by simp [hsplit])
  · have hlast : (u₂ ++ d :: (w ++ t)).isEmpty := h.2
    simp at hlast

theorem get_assignments (hs : ';' ∉ s) (h : boundedAssignments.occursIn s) :
    (assignmentsPattern.find? (s ++ [';'])).map (·.get "assignments") =
      (assignmentsPattern.find? s).map (·.get "assignments") := by
  obtain ⟨u₀, v₀, y, hs₀, x₄, ⟨x₃, ⟨x₂, ⟨x₁, hset, c, r₁, hr₁, hc, rfl⟩, hfew⟩, d, r₂, hr₂, hd, rfl⟩, hwhere⟩ :=
    occursIn_iff.mp h
  -- The first `SET`, and the end of its blanks.
  obtain ⟨u, v, rfl, ⟨b, z, hspans⟩, hfirst⟩ := exists_first_suffix
    (P := fun v => ∃ b y, (lit "SET" ++ space).Spans ⟨b, v⟩ y) ⟨v₀, ⟨u₀, hs₀.symm⟩, _, _, hset⟩
  have hv₀ : v₀ <:+ v := hfirst v₀ ⟨u₀, hs₀.symm⟩ ⟨_, _, hset⟩
  obtain ⟨i, g, x, rfl, hi, hg, hx⟩ := exists_of_spans_set hspans
  have hbehind : d :: r₂ <:+ x := by
    obtain ⟨x₀, hset, hspace⟩ := hset
    obtain ⟨i₀, hi₀, rfl⟩ : ∃ i₀, spells "SET" i₀ ∧ v₀ = i₀ ++ x₀.rest :=
      exists_of_spans_lit hset
    obtain ⟨g₀, hne₀, hg₀, hx₀⟩ := exists_of_spans_many1 hspace
    obtain ⟨t, -, ht⟩ : ∃ t, (∀ c ∈ t, anyChar c) ∧ r₁ = t ++ x₃.rest := exists_of_spans_few hfew
    have hhead : ∀ e ∈ (c :: r₁).head?, isBlank e = false := by
      intro e he
      obtain rfl : c = e := some.inj he
      simpa using hc
    have hsuffix := behindBlanks_suffix hv₀
    rw [hx₀, hr₁, behindBlanks_set hi₀ ⟨hne₀, hg₀⟩ hhead, behindBlanks_set hi hg hx, ht, hr₂] at hsuffix
    exact List.IsSuffix.trans ⟨c :: t, rfl⟩ hsuffix
  -- The first condition behind it.
  obtain ⟨a, v', rfl, ⟨b', z', x₅, ⟨d', r', rfl, hd', rfl⟩, hword⟩, hfirst'⟩ := exists_first_suffix
    (P := fun v => ∃ b y, (one isBlank ++ lit "WHERE").Spans ⟨b, v⟩ y)
    ⟨d :: r₂, hbehind, none, y, ⟨some d, r₂⟩, ⟨d, r₂, rfl, hd, rfl⟩, hwhere⟩
  obtain ⟨w, hw, rfl⟩ : ∃ w, spells "WHERE" w ∧ r' = w ++ z'.rest := exists_of_spans_lit hword
  generalize z'.rest = t at *
  have hfind : ∀ t', (∀ c ∈ (a ++ d' :: (w ++ t')).head?, isBlank c = false) →
      (one isBlank ++ lit "WHERE").Absent a (d' :: (w ++ t')) →
      (lit "SET" ++ space).Absent u (i ++ (g ++ (a ++ d' :: (w ++ t')))) →
      (assignmentsPattern.find? (u ++ (i ++ (g ++ (a ++ d' :: (w ++ t')))))).map (·.get "assignments") =
        some a := by
    intro t' hhead hend hstart
    have hprefers := prefers_assignments hi hg hhead hd' hw (fun hmem => hs (by simp [hmem])) hend
    rw [hprefers.find? fun u₁ u₂ hsplit hne b y h => ?_]
    · exact congrArg some (pieceBefore_append a _)
    · obtain ⟨y₂, ⟨y₁, h, -⟩, -⟩ := h
      exact hstart u₁ u₂ hsplit hne b y₁ h
  rw [hfind t hx (absent_of_first hfirst') (absent_of_first hfirst)]
  have htext : u ++ (i ++ (g ++ (a ++ d' :: (w ++ (t ++ [';']))))) =
      u ++ (i ++ (g ++ (a ++ d' :: (w ++ t)))) ++ [';'] := by simp
  rw [← htext, hfind (t ++ [';'])]
  · cases a <;> simpa using hx
  · simpa using (absent_of_first hfirst').semicolon (by decide) (by decide)
  · simpa using (absent_of_first hfirst).semicolon (by decide) (by decide)

theorem get?_values (q : List Char) : get? (describeUpdate q) "values" =
    (((lit "UPDATE" ++ space ++ tableName nameStops).find? (strip q)).map (·.get "table")).bind fun _ =>
      ((assignmentsPattern.find? (strip q)).map (·.get "assignments")).map fun s =>
        .doc (assignments (strip s)) := by
  rw [describeUpdate, tableBy?]
  cases (lit "UPDATE" ++ space ++ tableName nameStops).find? (strip q) with
  | none => rfl
  | some m =>
    cases assignmentsPattern.find? (strip q) with
    | none => rfl
    | some m => rfl

theorem occursIn_of_values {values : Value} (h : get? (describeUpdate q) "values" = some values) :
    (lit "UPDATE" ++ space ++ tableName nameStops).occursIn (strip q) := by
  rw [get?_values] at h
  obtain ⟨name, hname, -⟩ := bind_eq_some_iff.mp h
  obtain ⟨m, hm, -⟩ := map_eq_some_iff.mp hname
  exact isSome_iff_exists.mpr ⟨m, hm⟩

/-- **The values of an update**, if they end before a condition or there are none. -/
theorem values_semicolon (hq : Unended q)
    (h : boundedAssignments.occursIn (strip q) ∨ (lit "SET" ++ space).occursIn (strip q) = false) :
    get? (describeUpdate (q ++ [';'])) "values" = get? (describeUpdate q) "values" := by
  have hfound : (assignmentsPattern.find? (strip q ++ [';'])).map (·.get "assignments") =
      (assignmentsPattern.find? (strip q)).map (·.get "assignments") := by
    rcases h with h | h
    · exact get_assignments (fun hmem => hq.no_semicolon (mem_of_mem_strip hmem)) h
    · have hnone : ∀ s, (lit "SET" ++ space).occursIn s = false → assignmentsPattern.find? s = none := by
        intro s hs
        rw [← not_isSome_iff_eq_none]
        intro hfound
        obtain ⟨u, v, y, rfl, x₂, ⟨x₁, hset, -⟩, -⟩ := occursIn_iff.mp hfound
        rw [occursIn_iff.mpr ⟨u, v, x₁, rfl, hset⟩] at hs
        cases hs
      have hsemicolon := occursIn_bare (s := strip q) (closes_bare (p := lit "SET" ++ space) (by decide))
        (by decide)
      rw [hnone _ h, hnone _ (hsemicolon.trans h)]
  rw [get?_values, get?_values, hq.exists_strip.1, hfound, get_table_bare (by decide) (by decide) (by decide)]

end Change

/-! ### Insertions -/

namespace Insert

theorem exists_of_spans_insertInto (h : (phrase ["INSERT", "INTO"] ++ space).Spans ⟨b, v⟩ y) :
    ∃ w, v = w ++ y.rest ∧ IsInsertInto w := by
  obtain ⟨x, hphrase, hgap⟩ := h
  obtain ⟨i, g, j, hv, hi, hg, hj⟩ := exists_of_spans_phrase hphrase
  obtain ⟨g', hne, hg', hx⟩ := exists_of_spans_many1 hgap
  refine ⟨i ++ (g ++ (j ++ g')), ?_, i, g, j, g', rfl, hi, hg, hj, hne, hg'⟩
  rw [show v = i ++ (g ++ (j ++ x.rest)) from hv, hx]
  simp

section

variable {w m : List Char} (hw : IsInsertInto w)
include hw

theorem IsInsertInto.not_mem {c : Char} (hblank : isBlank c = false)
    (hletter : ∀ l ∈ "INSERTO".toList, sameLetter l c = false) : c ∉ w := by
  obtain ⟨i, g, j, g', rfl, hi, hg, hj, hg'⟩ := hw
  have hword : ∀ {word s : List Char}, spells word s → (∀ l ∈ word, l ∈ "INSERTO".toList) → c ∉ s := by
    intro word s hs hletters hc
    obtain ⟨l, hl, hsame⟩ := exists_of_mem_spells hs hc
    rw [hletter l (hletters l hl)] at hsame
    cases hsame
  have hblanks : ∀ {g : List Char}, (∀ c ∈ g, isBlank c) → c ∉ g := by
    intro g hg hc
    rw [hg c hc] at hblank
    cases hblank
  simp only [mem_append, not_or]
  exact ⟨hword hi (by decide), hblanks hg.2, hword hj (by decide), hblanks hg'.2⟩

theorem IsInsertInto.behindBlanks (hm : ∀ c ∈ m.head?, isBlank c = false) :
    behindBlanks (behindBlanks (w ++ m)) = m := by
  obtain ⟨i, g, j, g', rfl, hi, hg, hj, hg'⟩ := hw
  rw [append_assoc, append_assoc, append_assoc,
    behindBlanks_append (IsKeyword.solid (by decide) hi) hg (IsKeyword.head? (by decide) hj _),
    behindBlanks_append (IsKeyword.solid (by decide) hj) hg' hm]

theorem IsInsertInto.head? : ∀ c ∈ (w ++ m).head?, isBlank c = false := by
  obtain ⟨i, g, j, g', rfl, hi, -⟩ := hw
  rw [append_assoc]
  exact IsKeyword.head? (by decide) hi _

theorem IsInsertInto.takes (r : List Char) : (phrase ["INSERT", "INTO"] ++ space).Takes w r := by
  obtain ⟨i, g, j, g', rfl, hi, hg, hj, hg'⟩ := hw
  rw [← append_assoc, ← append_assoc]
  refine Takes.append ?_ (takes_many1 hg'.1 hg'.2 r)
  exact ((takes_lit hi _).append (takes_many1 hg.1 hg.2 _)).append (takes_lit hj _)

theorem IsInsertInto.getLast? : ∃ c, w.getLast? = some c ∧ isBlank c := by
  obtain ⟨i, g, j, g', rfl, -, -, -, hne, hg'⟩ := hw
  rcases eq_nil_or_concat g' with rfl | ⟨g', c, rfl⟩
  · exact absurd rfl hne
  · refine ⟨c, ?_, hg' c (by simp)⟩
    simp [getLast?_append]

end

/-! ### What is inserted -/

theorem closes_insertEnd {r : List Char} (hr : Unended r) : Closes r [] [';'] ending := by
  intro c y k k' hy hk
  cases y with
  | nil => exact congrArg some hk
  | cons d y =>
    have hopen := hr.of_suffix hy
    have hsign : d ≠ ';' := fun h => hopen.no_semicolon (by simp [h])
    have hfinish : ∀ t, Cursor.atFinish ⟨c, d :: (y ++ t)⟩ = false := fun t => not_atFinish hopen (by simp) c
    have hor : ∀ p p' : Pattern, (p <|> p') = alt p p' := fun _ _ => rfl
    have hseq : ∀ p p' : Pattern, p ++ p' = seq p p' := fun _ _ => rfl
    have hend := hfinish [';']
    have hend' := hfinish []
    rw [append_nil] at hend'
    simp [ending, exactly, run, hend, hend', hsign, hor, hseq]

theorem ends_insertEnd : Ends [] ending ∧ Ends [';'] ending :=
  ⟨fun c => ⟨⟨c, []⟩, .inr ⟨rfl, rfl⟩⟩,
    fun _ => ⟨⟨some ';', []⟩, .inl ⟨⟨some ';', []⟩, ⟨';', [], rfl, rfl, rfl⟩, rfl⟩⟩⟩

theorem closes_rows {r : List Char} (hr : Unended r) {p : Pattern} (hp : p.isSteady) :
    Closes r [] [';'] (p ++ lit "VALUES" ++ gap ++ keep "rows" (few anyChar) ++ ending) := by
  have hrows := (closes_insertEnd hr).few ends_insertEnd.1 ends_insertEnd.2 anyChar "rows"
  have hvalues : Closes r [] [';'] (lit "VALUES" ++ gap ++ (keep "rows" (few anyChar) ++ ending)) :=
    hrows.append Semicolon.bare.endings (.inl (by simp)) (.inl fun c hc => by
      obtain rfl := some.inj hc
      decide)
  exact hvalues.append (p := p) Semicolon.bare.endings (.inl (by simp))
    (.inr ⟨hp, Misses.fails (misses_of_least (by decide))⟩)

theorem texts_columns (hs : Unended s) : (columnsPattern.find? (s ++ [';'])).map (fun m => texts m.kept) =
      (columnsPattern.find? s).map fun m => texts m.kept :=
  texts_find?_bare (closes_rows hs (by decide)) (by decide)

theorem texts_plain (hs : Unended s) : (plainPattern.find? (s ++ [';'])).map (fun m => texts m.kept) =
      (plainPattern.find? s).map fun m => texts m.kept :=
  texts_find?_bare (closes_rows hs (by decide)) (by decide)

/-! ### The table of an insertion -/

theorem exists_of_spans_table (h : tablePattern.Spans ⟨b, v⟩ y) :
    ∃ w n, v = w ++ (n ++ y.rest) ∧ IsInsertInto w ∧ n ≠ [] ∧ ∀ c ∈ n, solid ['('] c := by
  obtain ⟨x, hinto, hname⟩ := h
  obtain ⟨w, hv, hw⟩ := exists_of_spans_insertInto hinto
  obtain ⟨n, hne, hn, hx⟩ := exists_of_spans_many1 hname
  exact ⟨w, n, by rw [hv, hx], hw, hne, hn⟩

theorem exists_of_spans_columns (h : columnsPattern.Spans ⟨b, v⟩ y) :
    (∃ z, tablePattern.Spans ⟨b, v⟩ z) ∧ '(' ∈ v := by
  obtain ⟨_, ⟨_, ⟨_, ⟨_, ⟨_, ⟨_, ⟨_, ⟨x₃, ⟨x₂, ⟨x₁, hinto, hname⟩, hgap⟩, hopen⟩, -⟩, -⟩, -⟩, -⟩, -⟩, -⟩, -⟩ :=
    h
  obtain ⟨w, n, hv, -⟩ := exists_of_spans_table ⟨x₁, hinto, hname⟩
  obtain ⟨g, -, hx₂⟩ := exists_of_spans_many hgap
  refine ⟨⟨_, x₁, hinto, hname⟩, ?_⟩
  rw [hv, hx₂, exists_of_spans_exactly hopen]
  simp

theorem exists_of_spans_plain (h : plainPattern.Spans ⟨b, v⟩ y) : (∃ z, tablePattern.Spans ⟨b, v⟩ z) ∧
      behindBlanks (behindBlanks (behindBlanks v)) ≠ [] := by
  obtain ⟨_, ⟨_, ⟨_, ⟨x₃, ⟨x₂, ⟨x₁, hinto, hname⟩, hgap⟩, hvalues⟩, -⟩, -⟩, -⟩ := h
  obtain ⟨w, n, rfl, hw, hn⟩ := exists_of_spans_table ⟨x₁, hinto, hname⟩
  obtain ⟨g, hg, hblanks, hx₂⟩ := exists_of_spans_many1 hgap
  obtain ⟨k, hk, hx₃⟩ := exists_of_spans_lit hvalues
  refine ⟨⟨_, x₁, hinto, hname⟩, ?_⟩
  have hn' : ∀ c ∈ n, isBlank c = false := fun c hc => (solid_iff.mp (hn.2 c hc)).1
  rw [hx₂, hx₃, hw.behindBlanks (head?_name hn _), behindBlanks_append hn' ⟨hg, hblanks⟩
    (IsKeyword.head? (by decide) hk _)]
  intro hnil
  rw [(append_eq_nil_iff.mp hnil).1] at hk
  cases hk

theorem spans_table_of_ending {z : List Char} (hz : Unended z) (hne : z ≠ [])
    (ht : t = [' '] ∨ t = [';', ' ']) (h : tablePattern.Spans ⟨b, z ++ t⟩ y) :
    ∃ y', tablePattern.Spans ⟨b, z⟩ y' := by
  obtain ⟨w, n, htext, hw, hn, hsolid⟩ := exists_of_spans_table h
  obtain ⟨c, n, rfl⟩ := exists_cons_of_ne_nil hn
  have hc := hsolid c (by simp)
  -- The blanks before the name are not at the end of the text.
  have hlast : w ≠ z := by
    rintro rfl
    obtain ⟨d, hd, hblank⟩ := hw.getLast?
    rw [hz.solid d hd] at hblank
    cases hblank
  have hfirst : ∃ x, z = w ++ c :: x := by
    rcases append_eq_append_iff.mp htext with ⟨u, rfl, hu⟩ | ⟨u, rfl, hu⟩
    · cases u with
      | nil => exact absurd (append_nil z) hlast
      | cons d u =>
        rcases ht with rfl | rfl
        · obtain ⟨-, hu⟩ := cons.inj hu
          cases (append_eq_nil_iff.mp hu.symm).2
        · obtain rfl : ';' = d := (cons.inj hu).1
          exact absurd (by simp) (hw.not_mem (c := ';') (by decide) (by decide))
    · cases u with
      | nil => exact absurd (append_nil w).symm hlast
      | cons d u =>
        obtain rfl : c = d := (cons.inj hu).1
        exact ⟨u, rfl⟩
  obtain ⟨x, rfl⟩ := hfirst
  obtain ⟨b', hinto⟩ := hw.takes (c :: x) b
  exact ⟨⟨some c, x⟩, ⟨b', c :: x⟩, hinto, ⟨some c, x⟩, ⟨c, x, rfl, hc, rfl⟩, .stay _⟩

section

variable {u w n x : List Char} (hw : IsInsertInto w) (hn : n ≠ [] ∧ ∀ c ∈ n, solid ['('] c)
include hw hn

theorem not_readable (hv : v <:+ w ++ n) : ¬ ('(' ∈ v ∨ behindBlanks (behindBlanks (behindBlanks v)) ≠ []) := by
  have hname : ∀ c ∈ n, isBlank c = false ∧ c ≠ '(' := fun c hc => solid_iff.mp (hn.2 c hc)
  rintro (hopen | hwords)
  · rcases mem_append.mp (hv.mem hopen) with hmem | hmem
    · exact hw.not_mem (by decide) (by decide) hmem
    · exact (hname '(' hmem).2 rfl
  · have hsuffix := behindBlanks_suffix (behindBlanks_suffix (behindBlanks_suffix hv))
    have hhead := head?_name hn []
    rw [append_nil] at hhead
    have hend : n.dropWhile (fun c => !isBlank c) = [] :=
      dropWhile_eq_nil_iff.mpr fun c hc => by simp [(hname c hc).1]
    have hnone : behindBlanks n = [] := by
      rw [behindBlanks, hend]
      rfl
    rw [hw.behindBlanks hhead, hnone] at hsuffix
    exact hwords (suffix_nil.mp hsuffix)

theorem get_table_insertion (hx : ∀ c ∈ x.head?, solid ['('] c = false) (hne : x ≠ [])
    (hopen : Unended (u ++ (w ++ (n ++ x))))
    (hfirst : ∀ v, v <:+ u ++ (w ++ (n ++ x)) → (∃ b y, tablePattern.Spans ⟨b, v⟩ y) → v <:+ w ++ (n ++ x))
    (ht : t = [' '] ∨ t = [';', ' ']) :
    (tablePattern.find? (' ' :: (u ++ (w ++ (n ++ x))) ++ t)).map (·.get "table") = some n := by
  have hx' : ∀ c ∈ (x ++ t).head?, solid ['('] c = false := by
    obtain ⟨d, x, rfl⟩ := exists_cons_of_ne_nil hne
    exact hx
  have hprefers : tablePattern.Prefers (w ++ (n ++ (x ++ t))) [] (x ++ t)
      [("table", ⟨n ++ (x ++ t), x ++ t⟩)] :=
    (hw.prefers (head?_name hn _)).append ((prefers_many1 hn.1 hn.2 hx' _).keep "table")
  have htext : ∀ pre : List Char, pre ++ (w ++ (n ++ x)) ++ t = pre ++ (w ++ (n ++ (x ++ t))) := by simp
  rw [← cons_append, htext, hprefers.find? fun u₁ u₂ hu hne₂ b y h => ?_]
  · exact congrArg some (pieceBefore_append n _)
  · rw [← htext] at h
    cases u₁ with
    | nil =>
      obtain ⟨w', n', hw', hinto, -⟩ := exists_of_spans_table h
      have hblank : isBlank ' ' = false := by
        refine hinto.head? (m := n' ++ y.rest) ' ' ?_
        rw [← hw', ← nil_append u₂, ← hu]
        rfl
      exact absurd hblank (by decide)
    | cons d u₁ =>
      obtain rfl : u = u₁ ++ u₂ := (cons.inj hu).2
      have hsuffix : u₂ ++ (w ++ (n ++ x)) <:+ u₁ ++ u₂ ++ (w ++ (n ++ x)) := ⟨u₁, by simp⟩
      obtain ⟨y', hy'⟩ := spans_table_of_ending (hopen.of_suffix hsuffix) (by simp [hne₂]) ht h
      exact not_before_first hfirst rfl hne₂ ⟨b, y', hy'⟩

end

/-- **The table of an insertion** that can be read. -/
theorem table_insertion_semicolon (hq : Unended q)
    (h : columnsPattern.occursIn (strip q) ∨ plainPattern.occursIn (strip q)) :
    tableOfKind? (some "INSERT") (q ++ [';']) = tableOfKind? (some "INSERT") q := by
  obtain ⟨v₀, hv₀, htable₀, hread⟩ : ∃ v₀, v₀ <:+ strip q ∧ (∃ b y, tablePattern.Spans ⟨b, v₀⟩ y) ∧
      ('(' ∈ v₀ ∨ behindBlanks (behindBlanks (behindBlanks v₀)) ≠ []) := by
    rcases h with h | h
    · obtain ⟨u, v, y, huv, hy⟩ := occursIn_iff.mp h
      obtain ⟨⟨z, hz⟩, hopen⟩ := exists_of_spans_columns hy
      exact ⟨v, ⟨u, huv.symm⟩, ⟨_, z, hz⟩, .inl hopen⟩
    · obtain ⟨u, v, y, huv, hy⟩ := occursIn_iff.mp h
      obtain ⟨⟨z, hz⟩, hwords⟩ := exists_of_spans_plain hy
      exact ⟨v, ⟨u, huv.symm⟩, ⟨_, z, hz⟩, .inr hwords⟩
  obtain ⟨u, v, hsplit, ⟨b, y, x₁, hinto, hname⟩, hfirst⟩ := exists_first_suffix
    (P := fun v => ∃ b y, tablePattern.Spans ⟨b, v⟩ y) ⟨v₀, hv₀, htable₀⟩
  have hlater := hfirst v₀ hv₀ htable₀
  obtain ⟨w, hv, hw⟩ := exists_of_spans_insertInto hinto
  obtain ⟨n, x, hx₁, hn, hx⟩ := exists_run_of_spans hname
  rw [hx₁] at hv
  subst hv
  have hne : x ≠ [] := by
    rintro rfl
    rw [append_nil] at hlater
    exact not_readable hw hn hlater hread
  have hopen := hq.of_suffix hq.exists_strip.2
  rw [hsplit] at hfirst hopen
  have hfind := fun t ht => get_table_insertion (t := t) hw hn hx hne hopen hfirst ht
  rw [← hsplit] at hfind
  have hsemicolon := hfind _ (.inr rfl)
  rw [← padded_semicolon hq] at hsemicolon
  rw [tableOfKind?_first rfl hsemicolon, tableOfKind?_first rfl (hfind _ (.inl rfl))]

/-- **The documents of an insertion.** -/
theorem documents_semicolon (hq : Unended q) :
    (read (q ++ [';'])).toOption.map Insertion.documents = (read q).toOption.map Insertion.documents := by
  have hs := hq.of_suffix hq.exists_strip.2
  have htable : ∀ {s}, columnsPattern.occursIn s ∨ plainPattern.occursIn s →
      ∃ m, tablePattern.find? s = some m := by
    rintro s (h | h)
    all_goals
      obtain ⟨u, v, y, rfl, hy⟩ := occursIn_iff.mp h
      refine isSome_iff_exists.mp (occursIn_iff.mpr ?_)
    · obtain ⟨⟨z, hz⟩, -⟩ := exists_of_spans_columns hy
      exact ⟨u, v, z, rfl, hz⟩
    · obtain ⟨⟨z, hz⟩, -⟩ := exists_of_spans_plain hy
      exact ⟨u, v, z, rfl, hz⟩
  have hsame : ∀ {p : Pattern} {m : Match}, (p.find? (strip q ++ [';'])).map (fun m => texts m.kept) =
      (p.find? (strip q)).map (fun m => texts m.kept) → p.find? (strip q) = some m →
      ∃ m', p.find? (strip q ++ [';']) = some m' ∧ ∀ name, m'.get name = m.get name := by
    intro p m htexts hm
    rw [hm] at htexts
    obtain ⟨m', hm', hkept⟩ := map_eq_some_iff.mp htexts
    refine ⟨m', hm', fun name => ?_⟩
    rw [Match.get, Match.get, get?_eq_lookup, get?_eq_lookup, hkept]
  have hnone : ∀ {p : Pattern}, (p.find? (strip q ++ [';'])).map (fun m => texts m.kept) =
      (p.find? (strip q)).map (fun m => texts m.kept) → p.find? (strip q) = none →
      p.find? (strip q ++ [';']) = none := by
    intro p htexts hp
    rw [hp] at htexts
    exact map_eq_none_iff.mp htexts
  have hfound : ∀ {p : Pattern} {s : List Char} {m : Match}, p.find? s = some m → p.occursIn s :=
    fun h => isSome_iff_exists.mpr ⟨_, h⟩
  simp only [read, hq.exists_strip.1]
  cases hcolumns : columnsPattern.find? (strip q) with
  | some m =>
    obtain ⟨m', hm', hget⟩ := hsame (texts_columns hs) hcolumns
    obtain ⟨t, ht⟩ := htable (.inl (hfound hcolumns))
    obtain ⟨t', ht'⟩ := htable (.inl (hfound hm'))
    simp only [hm', ht, ht', hget]
    split
    · rfl
    · split
      · rfl
      · rfl
  | none =>
    rw [hnone (texts_columns hs) hcolumns]
    cases hplain : plainPattern.find? (strip q) with
    | some m =>
      obtain ⟨m', hm', hget⟩ := hsame (texts_plain hs) hplain
      obtain ⟨t, ht⟩ := htable (.inr (hfound hplain))
      obtain ⟨t', ht'⟩ := htable (.inr (hfound hm'))
      simp only [hm', ht, ht', hget]
      split
      · rfl
      · rfl
    | none =>
      rw [hnone (texts_plain hs) hplain]
      cases tablePattern.find? (strip q) <;> cases tablePattern.find? (strip q ++ [';']) <;> rfl

theorem readable_of_read {insertion : Insertion} (h : read q = .ok insertion) :
    columnsPattern.occursIn (strip q) ∨ plainPattern.occursIn (strip q) := by
  cases hcolumns : columnsPattern.find? (strip q) with
  | some m => exact .inl (isSome_iff_exists.mpr ⟨m, hcolumns⟩)
  | none =>
    cases hplain : plainPattern.find? (strip q) with
    | some m => exact .inr (isSome_iff_exists.mpr ⟨m, hplain⟩)
    | none =>
      simp only [read, hcolumns, hplain] at h
      split at h
      · cases h
      · cases h

end Insert

end SqlGateway.Sql
