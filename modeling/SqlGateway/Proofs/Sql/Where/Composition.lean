import SqlGateway.Proofs.Sql.Where.Parts

/-!
# Clauses put together

Two clauses whose parentheses come out even, and that have no connective at an end (`Joinable`), are put
together: **the filter is made of the filters of the two** (`addConditions_composed`).
-/

namespace SqlGateway.Sql

open Text List Document

variable {s w : List Char}
variable {word : List Char}

/-! ### A connective cuts the scan -/

theorem consPiece_append (current : List Char) (p q : List (List Char)) :
    consPiece current (p ++ q) = consPiece current p ++ q := by
  simp only [consPiece]
  split <;> rfl

theorem consPiece_blank {b : Char} (hb : isBlank b) (current : List Char)
    (pieces : List (List Char)) : consPiece (b :: current) pieces = consPiece current pieces := by
  have hblank : ∀ c ∈ [b], isBlank c := by simp [hb]
  simp only [consPiece, reverse_cons, strip_append_blanks hblank]

theorem splitFrom_append_connective (hword : SolidWord word) (hw : spells word w) {a b : Char}
    (ha : isBlank a) (hb : isBlank b) (t : List Char) :
    ∀ (x current : List Char) (d : Int), depthOver d x = 0 →
      splitFrom word d 0 current (x ++ a :: (w ++ b :: t)) =
        splitFrom word d 0 current (x ++ [a]) ++ splitFrom word 0 0 [] (b :: t) := by
  intro x
  -- a connective inside `x` is passed over in one step, so the induction is on the length of `x`
  induction hn : x.length using Nat.strong_induction_on generalizing x with
  | _ n ih =>
    intro current d hx
    cases x with
    | nil =>
      rw [depthOver_nil] at hx
      rw [hx, nil_append, nil_append, splitFrom_connective hw ha hb,
        splitFrom_cons (fun _ => startsConnective_singleton word a), splitFrom, consPiece_blank ha,
        ← consPiece_append, nil_append]
    | cons c x =>
      have hstart := startsConnective_append_blank hword ha c x (w ++ b :: t)
      by_cases hfire : d = 0 ∧ startsConnective word (c :: x ++ [a])
      · obtain ⟨rfl, hfire⟩ := hfire
        obtain ⟨c', v, e, y, htext, hc, hv, he⟩ := startsConnective_iff.mp hfire
        rw [cons_append, cons.injEq] at htext
        obtain ⟨rfl, htext⟩ := htext
        -- the blank behind `v` may be `a` itself: then nothing of `x` is left
        obtain ⟨x', z, hlast⟩ : ∃ (x' : List Char) (z : Char), e :: y = x' ++ [z] :=
          ⟨_, _, (dropLast_append_getLast (cons_ne_nil e y)).symm⟩
        rw [hlast, ← append_assoc, append_singleton_inj] at htext
        obtain ⟨rfl, rfl⟩ := htext
        have hshort : x'.length < n := by
          rw [← hn, length_cons, length_append]
          omega
        have hdepth : depthOver 0 x' = 0 := by
          rwa [depthOver_cons, depthAfter_of_not_isParen (isParen_of_isBlank hc), depthOver_append,
            depthOver_of_not_isParen fun l hl => (hword.of_spells hv l hl).2] at hx
        have hwhole : x' ++ a :: (w ++ b :: t) = e :: (y ++ (w ++ b :: t)) := by
          calc x' ++ a :: (w ++ b :: t) = (x' ++ [a]) ++ (w ++ b :: t) := by simp
            _ = e :: (y ++ (w ++ b :: t)) := by rw [← hlast, cons_append]
        have hih := ih x'.length hshort x' rfl [] 0 hdepth
        rw [hwhole, ← hlast] at hih
        rw [cons_append, append_assoc, hwhole, splitFrom_connective hv hc he, hih,
          cons_append, append_assoc, ← hlast, splitFrom_connective hv hc he, consPiece_append]
      · have hrest : d = 0 → startsConnective word (c :: x ++ [a]) = false := by
          intro hd
          by_contra h
          exact hfire ⟨hd, by simpa using h⟩
        have hlong : d = 0 → startsConnective word (c :: (x ++ a :: (w ++ b :: t))) = false := by
          intro hd
          rw [← cons_append, hstart]
          exact hrest hd
        rw [cons_append, splitFrom_cons hlong, cons_append, splitFrom_cons (s := x ++ [a]) hrest]
        exact ih x.length (by rw [← hn]; simp) x rfl (c :: current) _ hx

/-- **A split joins the splits** of two texts with the keyword between them. -/
theorem splitAtConnective_append {keyword : List Char} (hword : SolidWord word)
    (hkey : spells word keyword) (hs : depthOver 0 s = 0) (t : List Char) :
    splitAtConnective word (joinWith keyword [s, t]) =
      splitAtConnective word s ++ splitAtConnective word t := by
  have hdepth : depthOver 0 (' ' :: s) = 0 := hs
  have htext : ' ' :: joinWith keyword [s, t] ++ [' '] =
      (' ' :: s) ++ ' ' :: (keyword ++ ' ' :: (t ++ [' '])) := by
    simp [joinWith_cons_cons]
  rw [splitAtConnective, htext,
    splitFrom_append_connective hword hkey isBlank_space isBlank_space _ _ _ _ hdepth]
  rfl

/-! ### Texts that can be put together -/

def isConnective (w : List Char) : Bool :=
  connectives.any fun word => spells word w

/-- A trimmed text that leaves the depth as it is and has no connective at its ends. -/
structure Joinable (s : List Char) : Prop where
  ne_nil : s ≠ []
  trimmed : strip s = s
  closed : depthOver 0 s = 0
  first : ∀ w ∈ (words s).head?, isConnective w = false
  last : ∀ w ∈ (words s).getLast?, isConnective w = false

theorem isKeyword_of_mem : ∀ word ∈ connectives, IsKeyword word := by
  decide

theorem isConnective_of_spells (hword : word ∈ connectives) (hw : spells word w) :
    isConnective w :=
  any_eq_true.mpr ⟨word, hword, hw⟩

theorem words_of_spells (hword : word ∈ connectives) (hw : spells word w) : words w = [w] := by
  obtain ⟨hne, hsolid, -⟩ := (isKeyword_of_mem word hword).of_spells hw
  exact words_solid hne hsolid

theorem Joinable.quiet (hs : Joinable s) (hword : word ∈ connectives) (h : joinedBy word s = false) :
    joinedFrom word 0 (spaced s) = false := by
  by_contra hjoined
  obtain ⟨x, y, hxy, hx, hy⟩ := joinedFrom_iff.mp (by simpa using hjoined)
  obtain ⟨a, w, b, t, rfl, ha, hw, hb⟩ := startsConnective_iff.mp hy
  have hconnective := isConnective_of_spells hword hw
  have hwords := words_of_spells hword hw
  cases x with
  | nil =>
    -- the connective would be the first word
    rw [spaced, nil_append, cons_append, cons.injEq] at hxy
    have hfirst : words s = w :: words t := by
      have := congrArg words hxy.2
      rw [words_append_blank isBlank_space, words_append_blank hb, hwords] at this
      simpa [words, wordsFrom] using this
    have := hs.first w (by rw [hfirst]; rfl)
    rw [hconnective] at this
    cases this
  | cons e x =>
    rw [spaced, cons_append, cons_append, cons.injEq] at hxy
    obtain ⟨rfl, hxy⟩ := hxy
    rcases eq_nil_or_concat t with rfl | ⟨t, z, rfl⟩
    · -- the connective would be the last word
      rw [← cons_append, ← append_assoc, append_singleton_inj] at hxy
      have hlast : words s = words x ++ [w] := by
        rw [hxy.1, words_append_blank ha, hwords]
      have := hs.last w (by rw [hlast, getLast?_concat]; rfl)
      rw [hconnective] at this
      cases this
    · have htext : s = x ++ a :: (w ++ b :: t) := by
        have hright : x ++ a :: (w ++ b :: t.concat z) = (x ++ a :: (w ++ b :: t)) ++ [z] := by
          simp
        rw [hright, append_singleton_inj] at hxy
        exact hxy.1
      have : joinedBy word s :=
        joinedFrom_iff.mpr ⟨x, _, htext, hx, startsConnective_iff.mpr ⟨a, w, b, t, rfl, ha, hw, hb⟩⟩
      rw [h] at this
      cases this

theorem Joinable.part (hs : Joinable s) (hword : word ∈ connectives) (h : joinedBy word s = false) :
    Part word s :=
  ⟨hs.ne_nil, hs.trimmed, hs.closed, hs.quiet hword h⟩

namespace Where

theorem Joinable.joined_eq (hs : Joinable s) (hword : word ∈ connectives) :
    joined word s = splitAtConnective word s := by
  rw [joined]
  split
  case isTrue => rfl
  case isFalse h =>
    have hpart := hs.part hword (by simpa using h)
    have := splitAtConnective_joinWith (solidWord_of_mem hword)
      (isKeyword_of_mem word hword).spells_self [s] (by simp) (by simpa using hpart)
    rw [joinWith_singleton] at this
    exact this.symm

theorem joined_append {t : List Char} (hword : word ∈ connectives) (hs : Joinable s) (ht : Joinable t) :
    joined word (joinWith word [s, t]) = joined word s ++ joined word t := by
  have hkey := (isKeyword_of_mem word hword).spells_self
  have hjoined : joinedBy word (joinWith word [s, t]) := by
    rw [joinWith_cons_cons]
    exact joinedBy_append_keyword hkey hs.closed _
  rw [Joinable.joined_eq hs hword, Joinable.joined_eq ht hword, joined, if_pos hjoined,
    splitAtConnective_append (solidWord_of_mem hword) hkey hs.closed]

theorem strip_pair {t : List Char} (hword : word ∈ connectives) (hs : Joinable s) (ht : Joinable t) :
    strip (joinWith word [s, t]) = joinWith word [s, t] := by
  obtain ⟨hne, hsolid, -⟩ :=
    (isKeyword_of_mem word hword).of_spells (isKeyword_of_mem word hword).spells_self
  refine strip_joinWith hne (strip_eq_self_of_solid hsolid) _ ?_
  simp [hs.ne_nil, hs.trimmed, ht.ne_nil, ht.trimmed]

/-! ### The filters -/

def orList (filter : Document) : List Value :=
  match filter.get? "$or" with
  | some (.list choices) => choices
  | _ => []

/-- The filter with some alternatives; it is empty without them. -/
def either (choices : List Value) : Document :=
  if choices.isEmpty then [] else [("$or", .list choices)]

theorem orList_either (choices : List Value) : orList (either choices) = choices := by
  cases choices <;> rfl

/-- What a text adds to the alternatives of a larger one: the alternatives that it has, or else its
filter, if it asks anything. -/
def choices (s : List Char) : List Value :=
  if joinedBy ['O', 'R'] s then orList (addConditions s [])
  else if (addConditions s []).isEmpty then [] else [.doc (addConditions s [])]

theorem addConditions_of_or (htrim : strip s = s) (hor : joinedBy ['O', 'R'] s) :
    addConditions s [] = either ((alternatives (disjuncts s)).map .doc) := by
  rw [addConditions_eq, htrim, if_pos hor, either, isEmpty_map]
  rfl

theorem addConditions_of_not_or (htrim : strip s = s) (hor : joinedBy ['O', 'R'] s = false) :
    addConditions s [] = ofMembers (demands s) := by
  rw [addConditions_eq, htrim, if_neg (by simp [hor])]
  rfl

theorem choices_eq (htrim : strip s = s) : choices s = (alternatives (disjuncts s)).map .doc := by
  rw [choices]
  split
  case isTrue hor => rw [addConditions_of_or htrim hor, orList_either]
  case isFalse hor =>
    rw [addConditions_of_not_or htrim (by simpa using hor), disjuncts, joined, if_neg hor, alternatives,
      map_singleton, filter_singleton]
    cases (ofMembers (demands s)).isEmpty <;> rfl

/-- **`AND` and `OR` compose**: the filter of `c₁ OR c₂` has the alternatives of both, and where no `OR` joins
them, that of `c₁ AND c₂` is the first updated by the second. -/
theorem addConditions_composed {c₁ c₂ : List Char} (h₁ : Joinable c₁) (h₂ : Joinable c₂) :
    (∀ word ∈ connectives, splitAtConnective word (joinWith word [c₁, c₂]) =
      splitAtConnective word c₁ ++ splitAtConnective word c₂) ∧
    addConditions (joinWith ['O', 'R'] [c₁, c₂]) [] = either (choices c₁ ++ choices c₂) ∧
    (joinedBy ['O', 'R'] c₁ = false → joinedBy ['O', 'R'] c₂ = false →
      addConditions (joinWith ['A', 'N', 'D'] [c₁, c₂]) [] =
        (addConditions c₁ []).merge (addConditions c₂ [])) := by
  have hor : ['O', 'R'] ∈ connectives := by decide
  have hand : ['A', 'N', 'D'] ∈ connectives := by decide
  refine ⟨?_, ?_, ?_⟩
  · intro word hword
    exact splitAtConnective_append (solidWord_of_mem hword) (isKeyword_of_mem word hword).spells_self
      h₁.closed c₂
  · have hjoined : joinedBy ['O', 'R'] (joinWith ['O', 'R'] [c₁, c₂]) := by
      rw [joinWith_cons_cons]
      exact joinedBy_append_keyword (by decide) h₁.closed _
    rw [addConditions_of_or (strip_pair hor h₁ h₂) hjoined, disjuncts, joined_append hor h₁ h₂,
      choices_eq h₁.trimmed, choices_eq h₂.trimmed, ← map_append, alternatives, map_append, filter_append]
    rfl
  · intro hor₁ hor₂
    have hparts : Part ['O', 'R'] (joinWith ['A', 'N', 'D'] [c₁, c₂]) := Part.joinWith solidWord_or
        (Part.ofWord solidWord_or (by decide) (by decide) (by decide) (by decide)) _ (by simp)
        (by simp [h₁.part hor hor₁, h₂.part hor hor₂])
    rw [addConditions_of_not_or hparts.trimmed hparts.not_joinedBy, demands, conjuncts,
      joined_append hand h₁ h₂, filterMap_append, ofMembers, merge_append,
      addConditions_of_not_or h₁.trimmed hor₁, addConditions_of_not_or h₂.trimmed hor₂,
      merge_ofMembers]
    rfl

/-- The `OR` of the first text stands at depth minus one, so it joins nothing there. -/
theorem addConditions_composed_uneven :
    let c₁ := "a = 1 ) or ( b = 2".toList
    let c₂ := "c = 3".toList
    Joinable c₁ ∧ Joinable c₂ ∧ splitAtConnective ['O', 'R'] (joinWith ['O', 'R'] [c₁, c₂]) =
      splitAtConnective ['O', 'R'] c₁ ++ splitAtConnective ['O', 'R'] c₂ ∧
    addConditions (joinWith ['O', 'R'] [c₁, c₂]) [] = either (choices c₁ ++ choices c₂) ∧
    addConditions (joinWith ['A', 'N', 'D'] [c₁, c₂]) [] =
      (addConditions c₁ []).merge (addConditions c₂ []) := by
  have h₁ : Joinable "a = 1 ) or ( b = 2".toList :=
    ⟨by decide, by decide, by decide, by rintro w ⟨⟩; decide, by rintro w ⟨⟩; decide⟩
  have h₂ : Joinable "c = 3".toList :=
    ⟨by decide, by decide, by decide, by rintro w ⟨⟩; decide, by rintro w ⟨⟩; decide⟩
  have hcomposed := addConditions_composed h₁ h₂
  exact ⟨h₁, h₂, hcomposed.1 _ (by decide), hcomposed.2.1, hcomposed.2.2 (by decide) (by decide)⟩

end Where

end SqlGateway.Sql
