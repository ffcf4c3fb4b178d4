import SqlGateway.Proofs.Sql.Where.Null

/-!
# LIKE

In the expression of `f LIKE 'p'`, `%` is written `.*` and `_` is written `.`.  The expression is looked for
anywhere in a text, and a point is written like an underscore: **the search finds the texts that fit iff the
pattern has no point and begins and ends with `%`**, save for underscores (`like_keeps_meaning_iff`).
-/

namespace SqlGateway.Sql.Where

open Text Pattern List

/-! ### Patterns and search expressions -/

/-- A part of a pattern: a character, any character, or any text. -/
inductive Part where
  | char (c : Char)
  | any
  | anyText

def likePart (c : Char) : Part :=
  if c == '%' then .anyText else if c == '_' then .any else .char c

/-- The parts of a search expression that has no special characters but `.` and `*` behind it. -/
def expressionParts : List Char → List Part
  | '.' :: '*' :: r => .anyText :: expressionParts r
  | c :: r => (if c == '.' then .any else .char c) :: expressionParts r
  | [] => []

/-- Which letters are the same but for their case.  Digits and points have no case. -/
structure Folding where
  same : Char → Char → Prop
  refl : ∀ c, same c c
  caseless : ∀ c ∈ ['0', '1', '.'], ∀ d, same c d ∨ same d c → c = d

namespace Folding

variable (φ : Folding)

/-- The texts in one line for which a part stands. -/
def Stands : Part → List Char → Prop
  | .char c, s => ∃ d, s = [d] ∧ φ.same c d
  | .any, s => ∃ d, s = [d]
  | .anyText, _ => True

/-- The parts stand for the whole text, one after the other. -/
def Fits : List Part → List Char → Prop
  | [], s => s = []
  | a :: parts, s => ∃ u t, s = u ++ t ∧ φ.Stands a u ∧ Fits parts t

/-- The parts are found somewhere in the text. -/
def Finds (parts : List Part) (s : List Char) : Prop :=
  ∃ u v w, s = u ++ (v ++ w) ∧ φ.Fits parts v

theorem fits_concat {parts : List Part} {a : Part} {t u : List Char} (ht : φ.Fits parts t) (hu : φ.Stands a u) :
    φ.Fits (parts ++ [a]) (t ++ u) := by
  induction parts generalizing t with
  | nil =>
    obtain rfl : t = [] := ht
    exact ⟨u, [], (append_nil u).symm, hu, rfl⟩
  | cons b parts ih =>
    obtain ⟨v, w, rfl, hv, hw⟩ := ht
    exact ⟨v, w ++ u, append_assoc v w u, hv, ih hw⟩

theorem fits_reverse {parts : List Part} {s : List Char} (h : φ.Fits parts s) :
    φ.Fits parts.reverse s.reverse := by
  induction parts generalizing s with
  | nil =>
    obtain rfl : s = [] := h
    rfl
  | cons a parts ih =>
    obtain ⟨u, t, rfl, hu, ht⟩ := h
    have hu' : φ.Stands a u.reverse := by
      cases a with
      | char c =>
        obtain ⟨d, rfl, hd⟩ := hu
        exact ⟨d, rfl, hd⟩
      | any =>
        obtain ⟨d, rfl⟩ := hu
        exact ⟨d, rfl⟩
      | anyText => trivial
    rw [reverse_cons, reverse_append]
    exact φ.fits_concat (ih ht) hu'

theorem fits_like_reverse {p s : List Char} :
    φ.Fits (p.reverse.map likePart) s ↔ φ.Fits (p.map likePart) s.reverse := by
  constructor <;> intro h
  · simpa using φ.fits_reverse h
  · simpa using φ.fits_reverse h

end Folding

/-! ### Patterns that can begin anywhere -/

/-- The first character that is not an underscore is `%`. -/
def isWide (p : List Char) : Bool :=
  (p.dropWhile (· == '_')).head? == some '%'

theorem isWide_cons (c : Char) (p : List Char) : isWide (c :: p) = if c == '_' then isWide p else c == '%' := by
  by_cases hc : c = '_' <;> simp [isWide, hc]

section

variable (φ : Folding) {p s : List Char}

theorem fits_cons_of_wide (hp : isWide p) (c : Char) (h : φ.Fits (p.map likePart) s) :
    φ.Fits (p.map likePart) (c :: s) := by
  induction p generalizing c s with
  | nil => cases hp
  | cons d p ih =>
    obtain ⟨v, t, rfl, hv, ht⟩ := h
    rw [isWide_cons] at hp
    by_cases hd : d = '_'
    · -- the underscore stands for the new character, and its own goes to the rest
      subst hd
      obtain ⟨e, rfl⟩ := hv
      exact ⟨[c], e :: t, rfl, ⟨c, rfl⟩, ih hp e ht⟩
    · obtain rfl : d = '%' := by simpa [hd] using hp
      exact ⟨c :: v, t, rfl, trivial, ht⟩

theorem fits_of_wide (hp : isWide p) (u : List Char) (h : φ.Fits (p.map likePart) s) :
    φ.Fits (p.map likePart) (u ++ s) := by
  induction u with
  | nil => exact h
  | cons c u ih => exact fits_cons_of_wide φ hp c ih

/-- A text that fits a pattern, with `x` for what can be any character and nothing for `%`. -/
def filled (x : Char) (p : List Char) : List Char :=
  p.flatMap fun c => if c == '%' then [] else if c == '_' || c == '.' then [x] else [c]

/-- Where the pattern begins with a character of its own, one more before it is not taken. -/
theorem exists_not_fits_of_narrow (hp : isWide p = false) :
    ∃ x ∈ ['0', '1'], ¬ φ.Fits (p.map likePart) (x :: filled x p) := by
  induction p with
  | nil => exact ⟨'0', by simp, fun h => by cases (show ['0'] = [] from h)⟩
  | cons c p ih =>
    rw [isWide_cons] at hp
    by_cases hc : c = '_'
    · subst hc
      obtain ⟨x, hx, hnot⟩ := ih hp
      refine ⟨x, hx, ?_⟩
      rintro ⟨u, t, hut, ⟨d, rfl⟩, ht⟩
      obtain ⟨rfl, rfl⟩ := cons.inj hut
      exact hnot ht
    · have hpercent : c ≠ '%' := by simpa [hc] using hp
      obtain ⟨x, hx, hne⟩ : ∃ x ∈ ['0', '1'], x ≠ c := by
        by_cases h0 : '0' = c
        · exact ⟨'1', by simp, by rw [← h0]; decide⟩
        · exact ⟨'0', by simp, h0⟩
      refine ⟨x, hx, ?_⟩
      rintro ⟨u, t, hut, hu, -⟩
      rw [likePart, if_neg (by simpa using hpercent), if_neg (by simpa using hc)] at hu
      obtain ⟨d, rfl, hsame⟩ := hu
      obtain ⟨rfl, -⟩ := cons.inj hut
      exact hne (φ.caseless x (by revert hx; simp; tauto) c (.inr hsame))

theorem point_mem_of_fits (hp : '.' ∈ p) (h : φ.Fits (p.map likePart) s) : '.' ∈ s := by
  induction p generalizing s with
  | nil => cases hp
  | cons c p ih =>
    obtain ⟨u, t, rfl, hu, ht⟩ := h
    rcases mem_cons.mp hp with rfl | hp
    · obtain ⟨d, rfl, hd⟩ := hu
      rw [← φ.caseless '.' (by simp) d (.inl hd)]
      simp
    · exact mem_append_right u (ih hp ht)

/-! ### What a search finds -/

def searchPart (c : Char) : Part :=
  if c == '%' then .anyText else if c == '_' || c == '.' then .any else .char c

theorem fits_filled (x : Char) (p : List Char) : φ.Fits (p.map searchPart) (filled x p) := by
  induction p with
  | nil => rfl
  | cons c p ih =>
    refine ⟨_, filled x p, flatMap_cons, ?_, ih⟩
    rw [searchPart]
    split
    · trivial
    split
    · exact ⟨x, rfl⟩
    · exact ⟨c, rfl, φ.refl c⟩

theorem filled_reverse (x : Char) (p : List Char) : filled x p.reverse = (filled x p).reverse := by
  rw [filled, flatMap_reverse, filled]
  congr 2
  funext c
  dsimp only [Function.comp_apply]
  split
  · rfl
  · split <;> rfl

theorem not_mem_filled {c x : Char} (hx : x ≠ c) (hc : c ∉ p ∨ c = '.') : c ∉ filled x p := by
  intro h
  obtain ⟨d, hd, hcd⟩ := mem_flatMap.mp h
  split at hcd
  · cases hcd
  split at hcd
  · exact hx (mem_singleton.mp hcd).symm
  case isFalse hpoint =>
    obtain rfl := mem_singleton.mp hcd
    rcases hc with hc | rfl
    · exact hc hd
    · exact hpoint rfl

/-- **When a search finds what fits**: the pattern has no point, and it begins and ends wide. -/
theorem finds_iff_fits_iff (hline : '\n' ∉ p) :
    (∀ s, '\n' ∉ s → (φ.Finds (p.map searchPart) s ↔ φ.Fits (p.map likePart) s)) ↔
      '.' ∉ p ∧ isWide p ∧ isWide p.reverse := by
  constructor
  · intro h
    have hdigit : ∀ {x}, x ∈ ['0', '1'] → '\n' ∉ filled x p ∧ '\n' ≠ x := by
      intro x hx
      have hne : x ≠ '\n' := by
        rintro rfl
        exact absurd hx (by decide)
      exact ⟨not_mem_filled hne (.inl hline), hne.symm⟩
    refine ⟨fun hpoint => ?_, ?_, ?_⟩
    · have hfits := (h _ (hdigit (x := '0') (by simp)).1).mp
        ⟨[], filled '0' p, [], by simp, fits_filled φ '0' p⟩
      exact not_mem_filled (by decide) (.inr rfl) (point_mem_of_fits φ hpoint hfits)
    · rw [← Bool.not_eq_false]
      intro hnarrow
      obtain ⟨x, hx, hnot⟩ := exists_not_fits_of_narrow φ hnarrow
      obtain ⟨hfilled, hne⟩ := hdigit hx
      exact hnot ((h (x :: filled x p) (by simp [hfilled, hne])).mp
        ⟨[x], filled x p, [], by simp, fits_filled φ x p⟩)
    · rw [← Bool.not_eq_false]
      intro hnarrow
      obtain ⟨x, hx, hnot⟩ := exists_not_fits_of_narrow φ hnarrow
      obtain ⟨hfilled, hne⟩ := hdigit hx
      rw [filled_reverse, φ.fits_like_reverse, reverse_cons, reverse_reverse] at hnot
      exact hnot ((h (filled x p ++ [x]) (by simp [hfilled, hne])).mp
        ⟨[], filled x p, [x], rfl, fits_filled φ x p⟩)
  · rintro ⟨hpoint, hbegin, hend⟩ s -
    have hparts : p.map searchPart = p.map likePart := by
      refine map_congr_left fun c hc => ?_
      have hc : c ≠ '.' := fun h => hpoint (h ▸ hc)
      simp [searchPart, likePart, hc]
    rw [hparts]
    constructor
    · rintro ⟨u, v, w, rfl, hv⟩
      refine fits_of_wide φ hbegin u ?_
      have hmore := fits_of_wide φ hend w.reverse (φ.fits_like_reverse.mpr ((reverse_reverse v).symm ▸ hv))
      rwa [φ.fits_like_reverse, ← reverse_append, reverse_reverse] at hmore
    · intro h
      exact ⟨[], s, [], by simp, h⟩

end

/-! ### Conditions -/

def likeText (f p : List Char) : List Char :=
  f ++ (" LIKE " ++ quotedText p)

def likeSigns : List Char :=
  ";\n'\"\\^$|?*+()[]\x7b\x7d"

def searchText (p : List Char) : List Char :=
  substitute (fun c => if c == '%' then some ['.', '*'] else if c == '_' then some ['.'] else none) p

theorem likeExpression_quoted (p : List Char) : likeExpression (quotedText p) = searchText p := by
  rw [likeExpression, trimLiteral_quoted, isEnclosed_quoted, inner_quoted]
  rfl

theorem expressionParts_cons {c : Char} {r : List Char} (hr : c = '.' → r.head? ≠ some '*') :
    expressionParts (c :: r) = (if c == '.' then .any else .char c) :: expressionParts r := by
  rw [expressionParts]
  rintro r' rfl rfl
  exact hr rfl rfl

theorem searchText_cons (c : Char) (p : List Char) : searchText (c :: p) =
    (if c == '%' then ['.', '*'] else if c == '_' then ['.'] else [c]) ++ searchText p := by
  rw [searchText, substitute, flatMap_cons]
  split
  · rfl
  · split <;> rfl

theorem expressionParts_searchText {p : List Char} (hp : '*' ∉ p) :
    expressionParts (searchText p) = p.map searchPart ∧ (searchText p).head? ≠ some '*' := by
  induction p with
  | nil => exact ⟨rfl, by rintro ⟨⟩⟩
  | cons c p ih =>
    obtain ⟨hparts, hhead⟩ := ih fun h => hp (mem_cons_of_mem _ h)
    rw [searchText_cons, map_cons, searchPart, ← hparts]
    split
    · exact ⟨rfl, by rintro ⟨⟩⟩
    split
    case isTrue hc =>
      rw [beq_iff_eq.mp hc]
      exact ⟨expressionParts_cons fun _ => hhead, by rintro ⟨⟩⟩
    case isFalse hc =>
      refine ⟨(expressionParts_cons fun _ => hhead).trans ?_, ?_⟩
      · simp [hc]
      · rintro ⟨⟩
        exact hp (by simp)

section

variable {f p : List Char} (hf : f ≠ [] ∧ ∀ c ∈ f, isFieldChar c) (hp : ∀ c ∈ p, c ∉ likeSigns)
include hf hp

theorem find?_likeText : ∃ m, likePattern.find? (likeText f p) = some m ∧ m.get "field" = f ∧
    m.get "pattern" = quotedText p := by
  have hfield := (prefers_many1 (r := " LIKE ".toList ++ (quotedText p ++ [])) hf.1 hf.2
    (by rintro d ⟨⟩; decide) []).keep "field"
  have hspace := hfield.append (prefers_many1 (p := isBlank) (s := [' '])
    (by simp) (by simp) (by rintro d ⟨⟩; decide) _)
  have hlit := hspace.append (prefers_lit (w := "LIKE") (s := "LIKE".toList) (by decide)
    (" ".toList ++ (quotedText p ++ [])) _)
  have hword := hlit.append (prefers_many1 (p := isBlank) (by simp) (by simp) (by rintro d ⟨⟩; decide) _)
  have hplain : ∀ c ∈ [';', '\n'], c ∉ quotedText p := by
    intro c hc
    obtain ⟨hquote, hsign⟩ := (by decide : ∀ c ∈ [';', '\n'], c ≠ '\'' ∧ c ∈ likeSigns) c hc
    exact not_mem_quotedText hquote fun h => hp c h hsign
  have hlike := prefers_few "pattern" (p := inLine) hword
    (fun c hc => by simpa [inLine] using fun h : c = '\n' => hplain c (by simp [h]) hc)
    (fun u₁ u₂ hsplit hne b y h => hne (by
      simpa using rest_of_ending hplain (strip_quoted p) (by simpa using hsplit) h))
    (prefers_ending _)
  have htext : likeText f p = f ++ (" LIKE ".toList ++ (quotedText p ++ [])) := by
    rw [append_nil, likeText]
  rw [htext]
  exact ⟨_, hlike.find?_here, pieceBefore_append f _, pieceBefore_append (quotedText p) []⟩

/-- **The search expression that a condition is read as.** -/
theorem simple?_likeText (hbetween : betweenPattern.occursIn (likeText f p) = false) :
    simple? (likeText f p) = some (String.ofList f,
      .doc [("$regex", .text (String.ofList (searchText p))), ("$options", .text "i")]) := by
  have hsolid : ∀ c ∈ f, isBlank c = false := by
    intro c hc
    rw [← Bool.not_eq_true]
    intro hblank
    have hfield := hf.2 c hc
    rw [isFieldChar, isWord_of_isBlank hblank, Bool.false_or, beq_iff_eq] at hfield
    rw [hfield] at hblank
    exact absurd hblank (by decide)
  have hopen : '(' ∉ likeText f p := by
    rw [likeText, mem_append, mem_append, not_or, not_or]
    exact ⟨fun h => absurd (hf.2 _ h) (by decide), by decide,
      not_mem_quotedText (by decide) fun h => hp _ h (by decide)⟩
  have hlist : ∀ {a b c : Pattern}, (a ++ exactly "(" ++ b ++ c).find? (likeText f p) = none := by
    refine fun {a b c} => find?_eq_none fun u v e y huv h => hopen ?_
    obtain ⟨_, ⟨_, ⟨x, hfront, hspans⟩, -⟩, -⟩ := h
    have hrest := suffix_of_spans hfront
    rw [exists_of_spans_exactly hspans] at hrest
    rw [huv]
    exact mem_append_right u (hrest.mem (by simp))
  have hbare : dropSemicolon (strip (likeText f p)) = likeText f p :=
    bareCondition_quoted hf.1 hsolid " LIKE " p
  have hbetween' : betweenPattern.find? (likeText f p) = none := by simpa [occursIn] using hbetween
  obtain ⟨m, hfound, hfield, hpattern⟩ := find?_likeText hf hp
  simp only [simple?, hbare, hbetween', show inPattern.find? (likeText f p) = none from hlist,
    show notInPattern.find? (likeText f p) = none from hlist, hfound, hfield, hpattern, likeExpression_quoted]

end

/-- **When `LIKE` keeps its meaning.** -/
theorem like_keeps_meaning_iff (φ : Folding) {f p : List Char} (hf : f ≠ [] ∧ ∀ c ∈ f, isFieldChar c = true)
    (hp : ∀ c ∈ p, c ∉ likeSigns) (hbetween : betweenPattern.occursIn (likeText f p) = false) :
    ∃ r, simple? (likeText f p) = some (String.ofList f,
        .doc [("$regex", .text (String.ofList r)), ("$options", .text "i")]) ∧
      ((∀ s, '\n' ∉ s → (φ.Finds (expressionParts r) s ↔ φ.Fits (p.map likePart) s)) ↔
        '.' ∉ p ∧ isWide p = true ∧ isWide p.reverse = true) := by
  refine ⟨searchText p, simple?_likeText hf hp hbetween, ?_⟩
  rw [(expressionParts_searchText fun h => hp _ h (by decide)).1]
  exact finds_iff_fits_iff φ fun h => hp _ h (by decide)

def sameButCase (c d : Char) : Prop :=
  c = d ∨ c.isAlpha ∧ d.isAlpha ∧ c.toLower = d.toLower

theorem eq_of_sameButCase : ∀ c ∈ ['0', '1', '.'], ∀ d, sameButCase c d ∨ sameButCase d c → c = d := by
  intro c hc d h
  have halpha := (by decide : ∀ c ∈ ['0', '1', '.'], c.isAlpha = false) c hc
  rcases h with (rfl | ⟨h, -⟩) | (rfl | ⟨-, h, -⟩)
  · rfl
  · cases h.symm.trans halpha
  · rfl
  · cases h.symm.trans halpha

def plainFolding : Folding :=
  ⟨sameButCase, fun _ => .inl rfl, eq_of_sameButCase⟩

/-- A pattern for the beginning of a text is looked for everywhere in it. -/
theorem like_beginning_found_anywhere : betweenPattern.occursIn (likeText "name".toList "a_%".toList) = false ∧
    ∃ r, simple? (likeText "name".toList "a_%".toList) = some ("name",
        .doc [("$regex", .text (String.ofList r)), ("$options", .text "i")]) ∧ ¬ ∀ s, '\n' ∉ s →
        (plainFolding.Finds (expressionParts r) s ↔ plainFolding.Fits ("a_%".toList.map likePart) s) := by
  have hbetween : betweenPattern.occursIn (likeText "name".toList "a_%".toList) = false := by decide +kernel
  obtain ⟨r, hr, hmeaning⟩ := like_keeps_meaning_iff plainFolding
    (by decide) (by decide) hbetween
  refine ⟨hbetween, r, hr, fun h => ?_⟩
  exact absurd (hmeaning.mp h).2.1 (by decide)

end SqlGateway.Sql.Where
