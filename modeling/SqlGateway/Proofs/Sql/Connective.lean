import SqlGateway.Proofs.Text.Words
import SqlGateway.Sql.Connective

/-!
# Where connectives stand

`joinedBy` and `splitAtConnective` count parentheses.  A connective joins a text iff some rest of it at depth
zero begins with it (`joinedFrom_iff`), every part is a trimmed piece that begins at depth zero, and
**splitting inverts joining** (`splitAtConnective_joinWith`).
-/

namespace SqlGateway.Sql

open Text List

variable {b c l : Char} {s keyword word current : List Char} {d : Int}
variable {part : List Char}

/-! ### Keywords -/

/-- The letters of a keyword are neither blanks nor parentheses, in whichever case they are written. -/
def SolidWord (word : List Char) : Prop :=
  ∀ l ∈ word, ∀ c, sameLetter l c → isBlank c = false ∧ isParen c = false

theorem solidWord_of_capitals (h : ∀ l ∈ word, l ∈ capitals) : SolidWord word := by
  intro l hl c hc
  obtain ⟨hword, hblank⟩ := isWord_of_sameCapital (h l hl) hc
  refine ⟨hblank, Bool.eq_false_iff.mpr fun hparen => ?_⟩
  rw [isParen, Bool.or_eq_true, beq_iff_eq, beq_iff_eq] at hparen
  rcases hparen with rfl | rfl <;> exact absurd hword (by decide)

theorem solidWord_or : SolidWord ['O', 'R'] :=
  solidWord_of_capitals (by decide)

theorem solidWord_and : SolidWord ['A', 'N', 'D'] :=
  solidWord_of_capitals (by decide)

def connectives : List (List Char) :=
  [['A', 'N', 'D'], ['O', 'R']]

theorem solidWord_of_mem (h : word ∈ connectives) : SolidWord word := by
  simp only [connectives, mem_cons, not_mem_nil, or_false] at h
  rcases h with rfl | rfl
  · exact solidWord_and
  · exact solidWord_or

theorem SolidWord.tail (h : SolidWord (l :: word)) : SolidWord word :=
  (forall_mem_cons.mp h).2

theorem SolidWord.sameLetter_of_isBlank (h : SolidWord (l :: word))
    (hb : isBlank b) : sameLetter l b = false := by
  by_contra hl
  have := (h l (by simp) b (by simpa using hl)).1
  rw [hb] at this
  exact absurd this (by simp)

theorem SolidWord.of_spells (hword : SolidWord word) (h : spells word s) :
    ∀ c ∈ s, isBlank c = false ∧ isParen c = false := by
  intro c hc
  obtain ⟨l, hl, hsame⟩ := exists_of_mem_spells h hc
  exact hword l hl c hsame

theorem startsWithWord_iff : startsWithWord word s ↔
    ∃ w b t, s = w ++ b :: t ∧ spells word w ∧ isBlank b := by
  induction word generalizing s with
  | nil =>
    cases s with
    | nil => simp [startsWithWord]
    | cons c s =>
      constructor
      · intro h
        exact ⟨[], c, s, rfl, rfl, h⟩
      · rintro ⟨w, b, t, hs, hw, hb⟩
        obtain rfl := length_eq_zero_iff.mp (spells_length hw)
        obtain ⟨rfl, -⟩ := cons.inj hs
        exact hb
  | cons l word ih =>
    cases s with
    | nil => simp [startsWithWord]
    | cons c s =>
      rw [startsWithWord, Bool.and_eq_true, ih]
      constructor
      · rintro ⟨hl, w, b, t, rfl, hw, hb⟩
        exact ⟨c :: w, b, t, rfl, by rw [spells, hl, hw]; rfl, hb⟩
      · rintro ⟨w, b, t, hs, hw, hb⟩
        obtain ⟨d, w, rfl, hd, hw'⟩ := exists_cons_of_spells hw
        obtain ⟨rfl, rfl⟩ := cons.inj hs
        exact ⟨hd, w, b, t, rfl, hw', hb⟩

theorem startsConnective_iff : startsConnective word s ↔
    ∃ a w b t, s = a :: (w ++ b :: t) ∧ isBlank a ∧ spells word w ∧ isBlank b := by
  cases s with
  | nil => simp [startsConnective]
  | cons c s =>
    rw [startsConnective, Bool.and_eq_true, startsWithWord_iff]
    constructor
    · rintro ⟨hc, w, b, t, rfl, hw, hb⟩
      exact ⟨c, w, b, t, rfl, hc, hw, hb⟩
    · rintro ⟨a, w, b, t, hs, ha, hw, hb⟩
      obtain ⟨rfl, rfl⟩ := cons.inj hs
      exact ⟨ha, w, b, t, rfl, hw, hb⟩

theorem startsConnective_append (h : startsConnective word s) (t : List Char) :
    startsConnective word (s ++ t) := by
  rw [startsConnective_iff] at h ⊢
  obtain ⟨a, w, b, r, rfl, ha, hw, hb⟩ := h
  exact ⟨a, w, b, r ++ t, by simp, ha, hw, hb⟩

theorem startsWithWord_append_blank (hb : isBlank b) (v : List Char) (hword : SolidWord word)
    (u : List Char) : startsWithWord word (u ++ b :: v) = startsWithWord word (u ++ [b]) := by
  induction word generalizing u with
  | nil => cases u <;> rfl
  | cons l word ih =>
    cases u with
    | nil => simp [startsWithWord, hword.sameLetter_of_isBlank hb]
    | cons c u =>
      simp only [cons_append, startsWithWord]
      rw [ih hword.tail u]

theorem startsConnective_append_blank (hword : SolidWord word) (hb : isBlank b) (c : Char)
    (u v : List Char) : startsConnective word (c :: u ++ b :: v) = startsConnective word (c :: u ++ [b]) := by
  simp only [cons_append, startsConnective]
  rw [startsWithWord_append_blank hb v hword u]

theorem startsConnective_singleton (word : List Char) (b : Char) : startsConnective word [b] = false := by
  cases word <;> simp [startsConnective, startsWithWord]

/-! ### Depth -/

def depthOver (depth : Int) (s : List Char) : Int :=
  s.foldl depthAfter depth

@[simp] theorem depthOver_nil (d : Int) : depthOver d [] = d := rfl

@[simp] theorem depthOver_cons (d : Int) (c : Char) (s : List Char) :
    depthOver d (c :: s) = depthOver (depthAfter d c) s := rfl

theorem depthOver_append (d : Int) (u v : List Char) : depthOver d (u ++ v) = depthOver (depthOver d u) v :=
  foldl_append

theorem depthAfter_of_not_isParen (h : isParen c = false) (d : Int) : depthAfter d c = d := by
  rw [isParen, Bool.or_eq_false_iff] at h
  rw [depthAfter, h.1, h.2]
  rfl

theorem depthOver_of_not_isParen (h : ∀ c ∈ s, isParen c = false) (d : Int) : depthOver d s = d := by
  induction s with
  | nil => rfl
  | cons c s ih =>
    rw [forall_mem_cons] at h
    rw [depthOver_cons, depthAfter_of_not_isParen h.1, ih h.2]

theorem isParen_of_isBlank (h : isBlank c) : isParen c = false := by
  by_contra hp
  simp only [isParen, Bool.not_eq_false, Bool.or_eq_true, beq_iff_eq] at hp
  rcases hp with rfl | rfl <;> exact absurd h (by decide)

theorem depthOver_of_blanks (h : ∀ c ∈ s, isBlank c) (d : Int) : depthOver d s = d :=
  depthOver_of_not_isParen (fun c hc => isParen_of_isBlank (h c hc)) d

/-! ### Joined texts -/

theorem joinedFrom_cons (word : List Char) (d : Int) (c : Char) (s : List Char) : joinedFrom word d (c :: s) =
      (decide (d = 0) && startsConnective word (c :: s) || joinedFrom word (depthAfter d c) s) := by
  rw [joinedFrom]
  cases hs : startsConnective word (c :: s) with
  | false => simp
  | true =>
    have hc : isBlank c := by
      rw [startsConnective, Bool.and_eq_true] at hs
      exact hs.1
    rw [isParen_of_isBlank hc]
    rfl

/-- **Where a connective stands.**  It joins a text iff a rest of the text at depth zero begins with
it. -/
theorem joinedFrom_iff : joinedFrom word d s ↔
    ∃ x y, s = x ++ y ∧ depthOver d x = 0 ∧ startsConnective word y := by
  induction s generalizing d with
  | nil =>
    simp only [joinedFrom, Bool.false_eq_true, false_iff]
    rintro ⟨x, y, hxy, -, hy⟩
    obtain ⟨-, rfl⟩ := append_eq_nil_iff.mp hxy.symm
    simp [startsConnective] at hy
  | cons c s ih =>
    rw [joinedFrom_cons, Bool.or_eq_true, Bool.and_eq_true, decide_eq_true_eq, ih]
    constructor
    · rintro (⟨hd, hs⟩ | ⟨x, y, rfl, hx, hy⟩)
      · exact ⟨[], c :: s, rfl, hd, hs⟩
      · exact ⟨c :: x, y, rfl, hx, hy⟩
    · rintro ⟨x, y, hxy, hx, hy⟩
      cases x with
      | nil =>
        obtain rfl : c :: s = y := hxy
        exact .inl ⟨hx, hy⟩
      | cons a x =>
        obtain ⟨rfl, rfl⟩ := cons.inj hxy
        exact .inr ⟨x, y, rfl, hx, hy⟩

/-- A connective inside a piece of a text joins the text, if the piece begins at depth zero. -/
theorem joinedFrom_piece {x : List Char} (hx : depthOver d x = 0)
    (h : joinedFrom word 0 s) (y : List Char) : joinedFrom word d (x ++ s ++ y) := by
  rw [joinedFrom_iff] at h ⊢
  obtain ⟨u, v, rfl, hu, hv⟩ := h
  refine ⟨x ++ u, v ++ y, by simp, ?_, startsConnective_append hv y⟩
  rw [depthOver_append, hx, hu]

/-- **A blank divides the search**, because no connective reaches over a blank. -/
theorem joinedFrom_append_blank (hword : SolidWord word) (hb : isBlank b) (v u : List Char) (d : Int) :
    joinedFrom word d (u ++ b :: v) =
      (joinedFrom word d (u ++ [b]) || joinedFrom word (depthOver d u) (b :: v)) := by
  induction u generalizing d with
  | nil =>
    rw [nil_append, nil_append, joinedFrom_cons word d b [], startsConnective_singleton]
    simp [joinedFrom]
  | cons c u ih =>
    rw [cons_append, cons_append, joinedFrom_cons, joinedFrom_cons, ih (depthAfter d c),
      ← cons_append, startsConnective_append_blank hword hb, ← cons_append, depthOver_cons, Bool.or_assoc]

/-! ### Split texts -/

theorem splitFrom_skip (word : List Char) (d : Int) (current : List Char) (k : Nat) (s : List Char) :
    splitFrom word d k current s = splitFrom word d 0 current (s.drop k) := by
  induction k generalizing s with
  | zero => rfl
  | succ k ih =>
    cases s with
    | nil => rfl
    | cons c s => rw [splitFrom, drop_succ_cons, ih]

theorem splitFrom_connective {w : List Char} (hw : spells word w) {a : Char}
    (ha : isBlank a) (hb : isBlank b) (current t : List Char) :
    splitFrom word 0 0 current (a :: (w ++ b :: t)) = consPiece current (splitFrom word 0 0 [] (b :: t)) := by
  have hs : startsConnective word (a :: (w ++ b :: t)) :=
    startsConnective_iff.mpr ⟨a, w, b, t, rfl, ha, hw, hb⟩
  rw [splitFrom, hs, isParen_of_isBlank ha, splitFrom_skip, ← spells_length hw, drop_left]
  rfl

theorem splitFrom_cons (h : d = 0 → startsConnective word (c :: s) = false) (current : List Char) :
    splitFrom word d 0 current (c :: s) = splitFrom word (depthAfter d c) 0 (c :: current) s := by
  rw [splitFrom]
  split
  case isTrue hs =>
    simp only [Bool.and_eq_true, beq_iff_eq] at hs
    rw [h hs.1.2] at hs
    exact absurd hs.2 (by simp)
  case isFalse => rfl

theorem splitFrom_append_blank (hword : SolidWord word) (hb : isBlank b) (v u current : List Char)
    (d : Int) (h : joinedFrom word d (u ++ [b]) = false) : splitFrom word d 0 current (u ++ b :: v) =
      splitFrom word (depthOver d u) 0 (u.reverse ++ current) (b :: v) := by
  induction u generalizing current d with
  | nil => rfl
  | cons c u ih =>
    rw [cons_append, joinedFrom_cons, Bool.or_eq_false_iff] at h
    have hc : d = 0 → startsConnective word (c :: (u ++ b :: v)) = false := by
      intro hd
      have h1 := h.1
      rw [← cons_append, startsConnective_append_blank hword hb]
      simpa [hd] using h1
    rw [cons_append, splitFrom_cons hc, ih (c :: current) _ h.2, depthOver_cons, reverse_cons, append_assoc]
    rfl

/-! ### Parts are pieces of the text -/

/-- No connective `word` begins in `piece` at depth zero, if `rest` follows it. -/
def Quiet (word piece rest : List Char) : Prop :=
  ∀ p q, piece = p ++ q → q ≠ [] → depthOver 0 p = 0 → startsConnective word (q ++ rest) = false

theorem quiet_nil (word rest : List Char) : Quiet word [] rest := by
  intro p q hpq hq
  exact absurd (append_eq_nil_iff.mp hpq.symm).2 hq

theorem Quiet.concat {piece rest : List Char} (h : Quiet word piece (c :: rest))
    (hc : depthOver 0 piece = 0 → startsConnective word (c :: rest) = false) :
    Quiet word (piece ++ [c]) rest := by
  intro p q hpq hq hp
  -- a connective would begin in the old stretch or at its new end
  rcases eq_nil_or_concat q with rfl | ⟨q', e, rfl⟩
  · exact absurd rfl hq
  · rw [concat_eq_append, ← append_assoc, append_singleton_inj] at hpq
    obtain ⟨hpiece, rfl⟩ := hpq
    rw [concat_eq_append, append_assoc, singleton_append]
    by_cases hq' : q' = []
    · subst hq'
      rw [append_nil] at hpiece
      exact hc (by rw [hpiece]; exact hp)
    · exact h p q' hpiece hq' hp

/-- `piece` lies in `whole` behind a stretch that ends at depth zero, and it is quiet there. -/
def QuietPiece (word whole piece : List Char) : Prop :=
  ∃ x y, whole = x ++ piece ++ y ∧ depthOver 0 x = 0 ∧ Quiet word piece y

theorem QuietPiece.strip {whole piece : List Char} (h : QuietPiece word whole piece) :
    QuietPiece word whole (strip piece) := by
  obtain ⟨x, y, hwhole, hx, hquiet⟩ := h
  obtain ⟨u, v, hpiece, hu, hv⟩ := exists_strip piece
  refine ⟨x ++ u, v ++ y, ?_, ?_, ?_⟩
  · calc whole = x ++ (u ++ Text.strip piece ++ v) ++ y := by rw [← hpiece, hwhole]
      _ = x ++ u ++ Text.strip piece ++ (v ++ y) := by simp only [append_assoc]
  · rw [depthOver_append, hx, depthOver_of_blanks hu]
  · intro p q hpq hq hp
    have hsplit : piece = (u ++ p) ++ (q ++ v) := by
      rw [hpiece, hpq]
      simp only [append_assoc]
    have := hquiet (u ++ p) (q ++ v) hsplit (by simp [hq])
      (by rw [depthOver_append, depthOver_of_blanks hu, hp])
    rwa [append_assoc] at this

theorem mem_consPiece {pieces : List (List Char)} (h : part ∈ consPiece current pieces) :
    (part = strip current.reverse ∧ part ≠ []) ∨ part ∈ pieces := by
  simp only [consPiece] at h
  split at h
  case isTrue => exact .inr h
  case isFalse hne =>
    rcases mem_cons.mp h with rfl | h
    · exact .inl ⟨rfl, by simpa using hne⟩
    · exact .inr h

section

variable (hword : SolidWord word)
include hword

/-- The invariant of the scan.  `pre` is what lies before the open piece `current`, and no connective
has begun inside the open piece; then every part is such a piece of the whole text. -/
theorem quietPiece_of_mem_splitFrom :
    ∀ (rest pre current : List Char), depthOver 0 pre = 0 → Quiet word current.reverse rest →
      part ∈ splitFrom word (depthOver 0 current.reverse) 0 current rest →
      QuietPiece word (pre ++ current.reverse ++ rest) part ∧ strip part = part ∧ part ≠ [] := by
  intro rest
  -- a connective is passed over in one step, so the induction is on the length of what is left
  induction hn : rest.length using Nat.strong_induction_on generalizing rest with
  | _ n ih =>
    intro pre current hpre hquiet hpart
    have hopen : QuietPiece word (pre ++ current.reverse ++ rest) current.reverse :=
      ⟨pre, rest, rfl, hpre, hquiet⟩
    cases rest with
    | nil =>
      rcases mem_consPiece hpart with ⟨rfl, hne⟩ | h
      · exact ⟨hopen.strip, strip_strip _, hne⟩
      · simp at h
    | cons c rest =>
      by_cases hfire : depthOver 0 current.reverse = 0 ∧ startsConnective word (c :: rest)
      · obtain ⟨hd, hs⟩ := hfire
        obtain ⟨a, w, b, t, hrest, ha, hw, hb⟩ := startsConnective_iff.mp hs
        rw [hrest, hd, splitFrom_connective hw ha hb] at hpart
        rcases mem_consPiece hpart with ⟨rfl, hne⟩ | h
        · exact ⟨hopen.strip, strip_strip _, hne⟩
        · have hlen : (b :: t).length < n := by
            rw [← hn, hrest]
            simp only [length_cons, length_append]
            omega
          have hdepth : depthOver 0 (pre ++ current.reverse ++ a :: w) = 0 := by
            rw [depthOver_append, depthOver_append, hpre, hd, depthOver_cons,
              depthAfter_of_not_isParen (isParen_of_isBlank ha),
              depthOver_of_not_isParen fun c hc => (hword.of_spells hw c hc).2]
          have := ih _ hlen (b :: t) rfl (pre ++ current.reverse ++ a :: w) [] hdepth (quiet_nil word _) h
          rw [hrest]
          simpa using this
      · have hc : depthOver 0 current.reverse = 0 → startsConnective word (c :: rest) = false := by
          intro hd
          by_contra h
          exact hfire ⟨hd, by simpa using h⟩
        have hdepth : depthAfter (depthOver 0 current.reverse) c = depthOver 0 (c :: current).reverse := by
          rw [reverse_cons, depthOver_append]
          rfl
        have hgrown : Quiet word (c :: current).reverse rest := by
          rw [reverse_cons]
          exact hquiet.concat hc
        rw [splitFrom_cons hc, hdepth] at hpart
        have := ih rest.length (by rw [← hn]; simp) rest rfl pre (c :: current) hpre hgrown hpart
        simpa using this

theorem quietPiece_of_mem_splitAtConnective (h : part ∈ splitAtConnective word s) :
    QuietPiece word (' ' :: s ++ [' ']) part ∧ strip part = part ∧ part ≠ [] :=
  quietPiece_of_mem_splitFrom hword (' ' :: s ++ [' ']) [] [] rfl (quiet_nil word _) h

theorem trimmed_of_mem_splitAtConnective (h : part ∈ splitAtConnective word s) :
    strip part = part ∧ part ≠ [] :=
  (quietPiece_of_mem_splitAtConnective hword h).2

/-- **No part is joined** by the connective that was split at. -/
theorem joinedBy_of_mem_splitAtConnective (h : part ∈ splitAtConnective word s) :
    joinedBy word part = false := by
  obtain ⟨⟨x, y, -, -, hquiet⟩, -⟩ := quietPiece_of_mem_splitAtConnective hword h
  by_contra hjoined
  obtain ⟨p, q, hpq, hp, hq⟩ := joinedFrom_iff.mp (by simpa [joinedBy] using hjoined)
  have hne : q ≠ [] := by
    rintro rfl
    simp [startsConnective] at hq
  have := hquiet p q hpq hne hp
  rw [startsConnective_append hq y] at this
  exact absurd this (by simp)

/-- **Every part is a piece of the text** that begins at depth zero. -/
theorem exists_of_mem_splitAtConnective (h : part ∈ splitAtConnective word s) :
    ∃ x y, s = x ++ part ++ y ∧ depthOver 0 x = 0 := by
  obtain ⟨⟨x, y, hwhole, hx, -⟩, htrim, hne⟩ := quietPiece_of_mem_splitAtConnective hword h
  -- the part has no blank at its ends, so the two blanks around the text lie outside of it
  cases x with
  | nil =>
    cases part with
    | nil => exact absurd rfl hne
    | cons c part =>
      have hc := head?_strip (c :: part) c (by rw [htrim]; rfl)
      simp only [nil_append, cons_append, cons.injEq] at hwhole
      rw [← hwhole.1] at hc
      exact absurd hc (by simp)
  | cons a x =>
    simp only [cons_append, cons.injEq] at hwhole
    obtain ⟨rfl, hwhole⟩ := hwhole
    rcases eq_nil_or_concat y with rfl | ⟨y', e, rfl⟩
    · rcases eq_nil_or_concat part with rfl | ⟨part', c, rfl⟩
      · exact absurd rfl hne
      · have hc := getLast?_strip (part'.concat c) c (by rw [htrim]; simp)
        rw [append_nil, concat_eq_append, ← append_assoc, append_singleton_inj] at hwhole
        rw [← hwhole.2] at hc
        exact absurd hc (by simp)
    · rw [concat_eq_append, ← append_assoc, append_singleton_inj] at hwhole
      exact ⟨x, y', hwhole.1, hx⟩

theorem joinedBy_part_of_not_joinedBy {other : List Char}
    (hs : joinedBy other s = false) (h : part ∈ splitAtConnective word s) : joinedBy other part = false := by
  obtain ⟨x, y, rfl, hx⟩ := exists_of_mem_splitAtConnective hword h
  by_contra hjoined
  have := joinedFrom_piece hx (by simpa [joinedBy] using hjoined) y
  rw [joinedBy, this] at hs
  exact absurd hs (by simp)

end

/-! ### Joining and splitting again -/

/-- A text between two spaces. -/
def spaced (s : List Char) : List Char :=
  ' ' :: s ++ [' ']

/-- Texts with a keyword between them. -/
def joinWith (keyword : List Char) (parts : List (List Char)) : List Char :=
  (spaced keyword).intercalate parts

@[simp] theorem joinWith_singleton (keyword part : List Char) : joinWith keyword [part] = part := by
  simp [joinWith]

theorem joinWith_cons_cons (keyword part next : List Char) (parts : List (List Char)) :
    joinWith keyword (part :: next :: parts) =
      part ++ ' ' :: (keyword ++ ' ' :: joinWith keyword (next :: parts)) := by
  simp [joinWith, spaced]

theorem strip_joinWith (hkey : keyword ≠ []) (hkey' : strip keyword = keyword) (parts : List (List Char))
    (hparts : ∀ part ∈ parts, part ≠ [] ∧ strip part = part) :
    strip (joinWith keyword parts) = joinWith keyword parts := by
  induction parts with
  | nil => rfl
  | cons part parts ih =>
    have hpart := hparts part (by simp)
    cases parts with
    | nil => rw [joinWith_singleton]; exact hpart.2
    | cons next parts =>
      have hrest := ih (forall_mem_cons.mp hparts).2
      have hne : joinWith keyword (next :: parts) ≠ [] := by
        have hnext := (hparts next (by simp)).1
        cases parts with
        | nil => rwa [joinWith_singleton]
        | cons last parts => simp [joinWith_cons_cons]
      rw [joinWith_cons_cons]
      exact strip_append_space hpart.1 hpart.2 (by simp)
        (strip_append_space hkey hkey' hne hrest)

/-- What can be joined by `word` and split again: a trimmed text whose parentheses are closed and in
which the connective does not stand. -/
structure Part (word s : List Char) : Prop where
  ne_nil : s ≠ []
  trimmed : strip s = s
  closed : depthOver 0 s = 0
  quiet : joinedFrom word 0 (spaced s) = false

theorem Part.not_joinedBy (h : Part word s) : joinedBy word s = false := by
  by_contra hjoined
  have := joinedFrom_piece (x := [' ']) rfl (by simpa [joinedBy] using hjoined) [' ']
  exact absurd (this.symm.trans h.quiet) (by simp)

theorem strip_spaced (s : List Char) : strip (spaced s) = strip s := by
  have hblank : ∀ c ∈ [' '], isBlank c := by simp
  rw [spaced, strip_append_blanks hblank, ← singleton_append, strip_blanks_append hblank]

theorem consPiece_of_strip (h : strip current.reverse = part) (hne : part ≠ [])
    (pieces : List (List Char)) : consPiece current pieces = part :: pieces := by
  simp only [consPiece]
  rw [h, if_neg (by simpa using hne)]

/-- **Splitting inverts joining.** -/
theorem splitAtConnective_joinWith (hword : SolidWord word) (hkey : spells word keyword)
    (parts : List (List Char)) (hne : parts ≠ []) (hparts : ∀ part ∈ parts, Part word part) :
    splitAtConnective word (joinWith keyword parts) = parts := by
  rw [splitAtConnective]
  induction parts with
  | nil => exact absurd rfl hne
  | cons part parts ih =>
    have hpart := hparts part (by simp)
    have hquiet : joinedFrom word 0 ((' ' :: part) ++ [' ']) = false := hpart.quiet
    have hdepth : depthOver 0 (' ' :: part) = 0 := hpart.closed
    cases parts with
    | nil =>
      rw [joinWith_singleton, splitFrom_append_blank hword isBlank_space [] _ _ _ hquiet, hdepth,
        splitFrom_cons (fun _ => startsConnective_singleton word ' '), splitFrom]
      refine consPiece_of_strip ?_ hpart.ne_nil []
      rw [append_nil, reverse_cons, reverse_reverse]
      exact (strip_spaced part).trans hpart.trimmed
    | cons next parts =>
      have hrest := ih (by simp) (forall_mem_cons.mp hparts).2
      have htext : ' ' :: joinWith keyword (part :: next :: parts) ++ [' '] = (' ' :: part) ++
          ' ' :: (keyword ++ ' ' :: (joinWith keyword (next :: parts) ++ [' '])) := by
        rw [joinWith_cons_cons]
        simp only [cons_append, append_assoc]
      rw [htext, splitFrom_append_blank hword isBlank_space _ _ _ _ hquiet, hdepth, append_nil,
        splitFrom_connective hkey isBlank_space isBlank_space, ← cons_append, hrest]
      refine consPiece_of_strip ?_ hpart.ne_nil _
      rw [reverse_reverse, ← singleton_append, strip_blanks_append (by simp), hpart.trimmed]

theorem joinedBy_append_keyword (hkey : spells word keyword) (hs : depthOver 0 s = 0) (t : List Char) :
    joinedBy word (s ++ ' ' :: (keyword ++ ' ' :: t)) := by
  rw [joinedBy, joinedFrom_iff]
  exact ⟨s, _, rfl, hs, startsConnective_iff.mpr ⟨' ', keyword, ' ', t, rfl, rfl, hkey, rfl⟩⟩

theorem joinedBy_joinWith (hkey : spells word keyword) (hpart : Part word part) (next : List Char)
    (parts : List (List Char)) : joinedBy word (joinWith keyword (part :: next :: parts)) := by
  rw [joinWith_cons_cons]
  exact joinedBy_append_keyword hkey hpart.closed _

/-! ### Parts from words -/

theorem startsWithWord_append_singleton (hb : isBlank b) (hword : SolidWord word)
    (hs : ∀ c ∈ s, isBlank c = false) : startsWithWord word (s ++ [b]) = spells word s := by
  induction word generalizing s with
  | nil =>
    cases s with
    | nil => simp [startsWithWord, spells, hb]
    | cons c s => simp [startsWithWord, spells, hs c (by simp)]
  | cons l word ih =>
    cases s with
    | nil => simp [startsWithWord, spells, hword.sameLetter_of_isBlank hb]
    | cons c s =>
      rw [cons_append, startsWithWord, spells, ih hword.tail (forall_mem_cons.mp hs).2]

theorem joinedFrom_solid (word : List Char) (b : Char) (hs : ∀ c ∈ s, isBlank c = false) (d : Int) :
    joinedFrom word d (s ++ [b]) = false := by
  induction s generalizing d with
  | nil =>
    rw [nil_append, joinedFrom_cons, startsConnective_singleton]
    simp [joinedFrom]
  | cons c s ih =>
    rw [forall_mem_cons] at hs
    rw [cons_append, joinedFrom_cons, ih hs.2]
    simp [startsConnective, hs.1]

theorem Part.ofWord (hword : SolidWord word) (hne : s ≠ []) (hsolid : ∀ c ∈ s, isBlank c = false)
    (hclosed : ∀ c ∈ s, isParen c = false) (hother : spells word s = false) : Part word s where
  ne_nil := hne
  trimmed := strip_eq_self_of_solid hsolid
  closed := depthOver_of_not_isParen hclosed 0
  quiet := by
    rw [spaced, cons_append, joinedFrom_cons, joinedFrom_solid word ' ' hsolid,
      startsConnective, startsWithWord_append_singleton isBlank_space hword hsolid, hother]
    simp

theorem Part.append {t : List Char} (hword : SolidWord word) (hs : Part word s) (ht : Part word t) :
    Part word (s ++ ' ' :: t) where
  ne_nil := by simp
  trimmed := strip_append_space hs.ne_nil hs.trimmed ht.ne_nil ht.trimmed
  closed := by
    rw [depthOver_append, hs.closed]
    exact ht.closed
  quiet := by
    have hquiet : joinedFrom word 0 ((' ' :: s) ++ [' ']) = false := hs.quiet
    have hdepth : depthOver 0 (' ' :: s) = 0 := hs.closed
    have htext : spaced (s ++ ' ' :: t) = (' ' :: s) ++ ' ' :: (t ++ [' ']) := by simp [spaced]
    rw [htext, joinedFrom_append_blank hword isBlank_space, hquiet, hdepth, Bool.false_or]
    exact ht.quiet

theorem Part.joinWith (hword : SolidWord word) (hkey : Part word keyword) (parts : List (List Char))
    (hne : parts ≠ []) (hparts : ∀ part ∈ parts, Part word part) : Part word (joinWith keyword parts) := by
  induction parts with
  | nil => exact absurd rfl hne
  | cons part parts ih =>
    cases parts with
    | nil => rw [joinWith_singleton]; exact hparts part (by simp)
    | cons next parts =>
      rw [joinWith_cons_cons]
      exact (hparts part (by simp)).append hword
        (hkey.append hword (ih (by simp) (forall_mem_cons.mp hparts).2))

end SqlGateway.Sql
