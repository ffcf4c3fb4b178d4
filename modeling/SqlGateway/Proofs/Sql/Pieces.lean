import SqlGateway.Proofs.Text.Trim
import SqlGateway.Sql.Pieces

/-!
# Lists written with commas

**Cutting inverts joining** (`splitValues_intercalate`), if the scan passes over each piece in one go
(`Whole`): so it does over a closed text that no comma divides.  `commaList` writes a list with a comma and a
space between its items; cutting it gives them back (`splitValues_commaList`), if they are trimmed.
-/

namespace SqlGateway.Sql

open Text List

variable {s t : List Char} {q c : Char} {items : List (List Char)} {n : Nesting}

/-- Items with a comma and a space between them. -/
def commaList : List (List Char) → List Char
  | [] => []
  | [s] => s
  | s :: t :: items => s ++ ',' :: ' ' :: commaList (t :: items)

/-- The scan passes over the text without finding a place to cut, and ends as it began. -/
def Whole (s : List Char) : Prop :=
  ∀ current rest, cutCommas .step .top current (s ++ rest) = cutCommas .step .top (s.reverse ++ current) rest

theorem cutCommas_step (h : (c == ',' && n.divides) = false) (current rest : List Char) :
    cutCommas .step n current (c :: rest) = cutCommas .step (n.step c) (c :: current) rest := by
  rw [cutCommas, h]
  rfl

theorem cutCommas_pass {step : Nesting → Char → Nesting} (rest : List Char) {s : List Char}
    (h : ∀ c ∈ s, (c == ',' && n.divides) = false ∧ step n c = n) (current : List Char) :
    cutCommas step n current (s ++ rest) = cutCommas step n (s.reverse ++ current) rest := by
  induction s generalizing current with
  | nil => rfl
  | cons c s ih =>
    obtain ⟨hcomma, hstay⟩ := h c (by simp)
    rw [cons_append, cutCommas, hcomma, hstay, if_neg (by simp),
      ih (forall_mem_cons.mp h).2, reverse_cons, append_assoc, singleton_append]

def listMarks : List Char :=
  [',', '(', ')', '\'', '"']

theorem cutCommas_plain (depth : Int) (rest : List Char) (h : ∀ c ∈ s, c ∉ listMarks)
    (current : List Char) : cutCommas .step ⟨none, depth⟩ current (s ++ rest) =
      cutCommas .step ⟨none, depth⟩ (s.reverse ++ current) rest := by
  refine cutCommas_pass rest (fun c hc => ?_) current
  have hc := h c hc
  simp only [listMarks, mem_cons, not_mem_nil, or_false, not_or] at hc
  obtain ⟨hcomma, hopen, hclose, hsingle, hdouble⟩ := hc
  exact ⟨by simp [hcomma], by simp [Nesting.step, isQuote, hopen, hclose, hsingle, hdouble]⟩

theorem whole_of_plain (h : ∀ c ∈ s, c ∉ listMarks) : Whole s :=
  fun current rest => cutCommas_plain 0 rest h current

theorem Whole.append (hs : Whole s) (ht : Whole t) : Whole (s ++ t) := by
  intro current rest
  rw [append_assoc, hs, ht, reverse_append, append_assoc]

theorem whole_applied {n : List Char} (hn : ∀ c ∈ n, c ∉ listMarks) (hs : ∀ c ∈ s, c ∉ listMarks.tail) :
    Whole (n ++ '(' :: (s ++ [')'])) := by
  intro current rest
  have hopen : Nesting.top.step '(' = ⟨none, 1⟩ := rfl
  have hclose : Nesting.step ⟨none, 1⟩ ')' = .top := rfl
  have hinside : ∀ c ∈ s, (c == ',' && Nesting.divides ⟨none, 1⟩) = false ∧
      Nesting.step ⟨none, 1⟩ c = ⟨none, 1⟩ := by
    intro c hc
    have hc := hs c hc
    simp only [listMarks, tail_cons, mem_cons, not_mem_nil, or_false, not_or] at hc
    obtain ⟨hopen, hclose, hsingle, hdouble⟩ := hc
    exact ⟨by simp [Nesting.divides], by simp [Nesting.step, isQuote, hopen, hclose, hsingle, hdouble]⟩
  rw [append_assoc, whole_of_plain hn, cons_append, cutCommas_step (by decide), hopen,
    append_assoc, cutCommas_pass _ hinside, singleton_append, cutCommas_step (by decide), hclose]
  simp

theorem cutCommas_quoted (depth : Int) (rest : List Char) (h : q ∉ s) (current : List Char) :
    cutCommas .step ⟨some q, depth⟩ current (s ++ rest) =
      cutCommas .step ⟨some q, depth⟩ (s.reverse ++ current) rest := by
  refine cutCommas_pass rest (fun c hc => ⟨by simp [Nesting.divides], ?_⟩) current
  have hne : c ≠ q := by
    rintro rfl
    exact h hc
  simp [Nesting.step, hne]

theorem step_quote (hq : isQuote q) : (q == ',') = false ∧ Nesting.top.step q = ⟨some q, 0⟩ := by
  refine ⟨?_, by simp [Nesting.step, Nesting.top, hq]⟩
  rw [isQuote, Bool.or_eq_true, beq_iff_eq, beq_iff_eq] at hq
  rcases hq with rfl | rfl <;> rfl

theorem whole_quoted (hq : isQuote q) (h : q ∉ s) : Whole (q :: (s ++ [q])) := by
  intro current rest
  obtain ⟨hcomma, hopen⟩ := step_quote hq
  have hclose : Nesting.step ⟨some q, 0⟩ q = .top := by
    simp [Nesting.step, Nesting.top]
  rw [cons_append, cutCommas_step (by simp [hcomma]), hopen, append_assoc,
    cutCommas_quoted 0 _ h, singleton_append, cutCommas_step (by simp [hcomma]), hclose]
  simp

theorem splitAtChar_append {sep : Char} {u : List Char} {us : List (List Char)} (hs : sep ∉ s)
    (ht : splitAtChar sep t = u :: us) : splitAtChar sep (s ++ t) = (s ++ u) :: us := by
  induction s with
  | nil => exact ht
  | cons c s ih =>
    rw [mem_cons, not_or] at hs
    rw [cons_append, splitAtChar, if_neg (by simpa using Ne.symm hs.1), ih hs.2]
    rfl

/-- A text that can be an item of a written list. -/
structure IsItem (s : List Char) : Prop where
  whole : Whole s
  trimmed : strip s = s

/-- Whole pieces with commas between them are cut where they were joined. -/
theorem cutCommas_intercalate : ∀ {pieces : List (List Char)}, pieces ≠ [] → (∀ s ∈ pieces, Whole s) →
    ∃ first last, cutCommas .step .top [] ([','].intercalate pieces) = ⟨first, last, .top⟩ ∧
      first ++ [last] = pieces.map strip
  | [], h, _ => absurd rfl h
  | [s], _, h => by
    have hcut := h s (by simp) [] []
    rw [append_nil, append_nil] at hcut
    refine ⟨[], strip s, ?_, rfl⟩
    rw [intercalate_singleton, hcut, cutCommas, reverse_reverse]
  | s :: t :: pieces, _, h => by
    obtain ⟨first, last, hcut, hpieces⟩ := cutCommas_intercalate (cons_ne_nil t pieces)
      (forall_mem_cons.mp h).2
    refine ⟨strip s :: first, last, ?_, by rw [cons_append, hpieces]; rfl⟩
    rw [intercalate_cons_cons, append_assoc, h s (by simp), singleton_append, cutCommas,
      if_pos (by decide), hcut, append_nil, reverse_reverse]

/-- A comma behind a text ends its last piece, if it divides. -/
theorem pieces_cutCommas_comma (step : Nesting → Char → Nesting) (s : List Char) (n : Nesting)
    (current : List Char) : (cutCommas step n current (s ++ [','])).pieces =
      (cutCommas step n current s).pieces ++
        if (cutCommas step n current s).ending.divides then [(cutCommas step n current s).last] else [] := by
  induction s generalizing n current with
  | nil =>
    rw [nil_append, cutCommas, cutCommas, beq_self_eq_true, Bool.true_and]
    split <;> rfl
  | cons c s ih =>
    rw [cons_append, cutCommas, cutCommas]
    split
    · exact congrArg (strip current.reverse :: ·) (ih n [])
    · exact ih _ _

theorem splitValues_eq (s : List Char) : splitValues s = (cutCommas .step .top [] s).pieces ++
    if (cutCommas .step .top [] s).ending.divides then [(cutCommas .step .top [] s).last] else [] :=
  pieces_cutCommas_comma _ _ _ _

theorem strip_of_mem_pieces {step : Nesting → Char → Nesting} {current w : List Char}
    (h : w ∈ (cutCommas step n current s).pieces) : strip w = w := by
  induction s generalizing n current with
  | nil => cases h
  | cons c s ih =>
    rw [cutCommas] at h
    split at h
    · rcases mem_cons.mp h with rfl | h
      · exact strip_strip _
      · exact ih h
    · exact ih h

theorem splitDefinitions_eq (s : List Char) :
    splitDefinitions s = (splitValues s).filter fun piece => !piece.isEmpty := by
  refine filter_congr fun piece hpiece => ?_
  rw [strip_of_mem_pieces hpiece]

theorem splitValues_intercalate {pieces : List (List Char)} (hne : pieces ≠ []) (h : ∀ s ∈ pieces, Whole s) :
    splitValues ([','].intercalate pieces) = pieces.map strip := by
  obtain ⟨first, last, hcut, hpieces⟩ := cutCommas_intercalate hne h
  rw [splitValues_eq, hcut]
  exact hpieces

theorem commaList_eq_intercalate : ∀ (s : List Char) (items : List (List Char)),
    commaList (s :: items) = [','].intercalate (s :: items.map (' ' :: ·))
  | s, [] => intercalate_singleton.symm
  | s, t :: items => by
    rw [commaList, map_cons, intercalate_cons_cons, append_assoc, commaList_eq_intercalate t items]
    cases items <;> rfl

section

variable (hne : items ≠ []) (h : ∀ s ∈ items, IsItem s)
include hne h

theorem exists_pieces :
    ∃ pieces, pieces ≠ [] ∧ commaList items = [','].intercalate pieces ∧ (∀ s ∈ pieces, Whole s) ∧
      pieces.map strip = items := by
  obtain ⟨s, items, rfl⟩ := exists_cons_of_ne_nil hne
  obtain ⟨hs, hitems⟩ := forall_mem_cons.mp h
  have hspace : ∀ t, strip (' ' :: t) = strip t := strip_blanks_append (u := [' ']) (by simp)
  refine ⟨s :: items.map (' ' :: ·), cons_ne_nil _ _, commaList_eq_intercalate s items, forall_mem_cons.mpr
    ⟨hs.whole, forall_mem_map.mpr fun t ht => (whole_of_plain (s := [' ']) (by decide)).append (hitems t ht).whole⟩, ?_⟩
  rw [map_cons, map_map, hs.trimmed]
  exact congrArg (s :: ·) ((map_congr_left fun t ht => (hspace t).trans (hitems t ht).trimmed).trans (map_id' items))

/-- **Cutting a written list gives its items back.** -/
theorem splitValues_commaList
    : splitValues (commaList items) = items := by
  obtain ⟨pieces, hpieces, hlist, hwhole, hitems⟩ := exists_pieces hne h
  rw [hlist, splitValues_intercalate hpieces hwhole, hitems]

theorem splitValues_comma :
    splitValues (commaList items ++ [',']) = items ++ [[]] := by
  obtain ⟨pieces, hpieces, hlist, hwhole, hitems⟩ := exists_pieces hne h
  have hcomma : ∀ {l : List (List Char)}, l ≠ [] → [','].intercalate l ++ [','] = [','].intercalate (l ++ [[]]) := by
    intro l hl
    induction l with
    | nil => exact absurd rfl hl
    | cons s l ih =>
      cases l with
      | nil => simp
      | cons t l =>
        rw [intercalate_cons_cons, append_assoc, ih (by simp)]
        exact intercalate_cons_cons.symm
  rw [hlist, hcomma hpieces, splitValues_intercalate (by simp)
    (forall_mem_append.mpr ⟨hwhole, forall_mem_singleton.mpr fun _ _ => rfl⟩), map_append, hitems]
  rfl

end

theorem strip_commaList : ∀ {items : List (List Char)}, items ≠ [] → (∀ s ∈ items, s ≠ [] ∧ strip s = s) →
      commaList items ≠ [] ∧ strip (commaList items) = commaList items
  | [], h, _ => absurd rfl h
  | [s], _, h => h s (by simp)
  | s :: t :: items, _, h => by
    obtain ⟨hne, htrimmed⟩ := h s (by simp)
    obtain ⟨hne', htrimmed'⟩ := strip_commaList (cons_ne_nil t items)
      (forall_mem_cons.mp h).2
    refine ⟨fun hnil => hne (append_eq_nil_iff.mp hnil).1, ?_⟩
    exact strip_append_append hne htrimmed hne' htrimmed' [',', ' ']

theorem ends_commaList {a b : Char} : ∀ {items : List (List Char)}, items ≠ [] →
    (∀ s ∈ items, s.head? = some a ∧ s.getLast? = some b) →
      (commaList items).head? = some a ∧ (commaList items).getLast? = some b
  | [], h, _ => absurd rfl h
  | [s], _, h => h s (by simp)
  | s :: t :: items, _, h => by
    obtain ⟨hhead, -⟩ := h s (by simp)
    obtain ⟨hhead', hlast⟩ := ends_commaList (cons_ne_nil t items)
      (forall_mem_cons.mp h).2
    have hne : commaList (t :: items) ≠ [] := by
      intro hnil
      rw [hnil] at hhead'
      cases hhead'
    refine ⟨?_, ?_⟩
    · rw [commaList, head?_append, hhead, Option.some_or]
    · rw [commaList, getLast?_append_cons (cons_ne_nil _ _), ← nil_append (' ' :: _),
        getLast?_append_cons hne, hlast]

theorem forall_mem_commaList {p : Char → Prop} (hmarks : p ',' ∧ p ' ') : ∀ {items : List (List Char)},
    (∀ s ∈ items, ∀ c ∈ s, p c) → ∀ c ∈ commaList items, p c
  | [], _ => forall_mem_nil _
  | [s], h => h s mem_cons_self
  | s :: t :: items, h => by
    rw [forall_mem_cons] at h
    rw [commaList, forall_mem_append, forall_mem_cons, forall_mem_cons]
    exact ⟨h.1, hmarks.1, hmarks.2, forall_mem_commaList hmarks h.2⟩

theorem not_mem_commaList {items : List (List Char)} (hc : c ∉ [',', ' ']) (h : ∀ s ∈ items, c ∉ s) :
    c ∉ commaList items := by
  refine fun hmem => forall_mem_commaList (p := (c ≠ ·)) (by simpa using hc) (fun s hs d hd => ?_) c hmem rfl
  rintro rfl
  exact h s hs hd

theorem cutCommas_stepParens {s : List Char} (h : ∀ c ∈ s, isQuote c = false) (depth : Int)
    (current : List Char) :
    cutCommas .stepParens ⟨none, depth⟩ current s = cutCommas .step ⟨none, depth⟩ current s := by
  induction s generalizing depth current with
  | nil => rfl
  | cons c s ih =>
    have hs := ih (forall_mem_cons.mp h).2
    have hstep : ∃ depth', Nesting.stepParens ⟨none, depth⟩ c = ⟨none, depth'⟩ ∧
        Nesting.step ⟨none, depth⟩ c = ⟨none, depth'⟩ := by
      simp only [Nesting.stepParens, Nesting.step, h c (by simp), Bool.false_eq_true, if_false]
      split
      · exact ⟨_, rfl, rfl⟩
      · split <;> exact ⟨_, rfl, rfl⟩
    obtain ⟨depth', hparens, hquotes⟩ := hstep
    rw [cutCommas, cutCommas, hparens, hquotes, hs, hs]

theorem splitColumns_commaList (hne : items ≠ [])
    (h : ∀ s ∈ items, IsItem s ∧ s ≠ [] ∧ ∀ c ∈ s, isQuote c = false) :
    splitColumns (commaList items) = items := by
  have hquotes : ∀ c ∈ commaList items, isQuote c = false :=
    forall_mem_commaList (by decide) fun s hs => (h s hs).2.2
  obtain ⟨pieces, hpieces, hlist, hwhole, hitems⟩ := exists_pieces hne fun s hs => (h s hs).1
  obtain ⟨first, last, hcut, hlast⟩ := cutCommas_intercalate hpieces hwhole
  rw [hitems] at hlast
  have hmem : last ∈ items := by
    rw [← hlast]
    simp
  rw [← hlist, show Nesting.top = ⟨none, 0⟩ from rfl] at hcut
  rw [splitColumns, show Nesting.top = ⟨none, 0⟩ from rfl, cutCommas_stepParens hquotes, hcut, if_neg (by simpa using (h last hmem).2.1)]
  exact hlast

/-! ### Pieces of any text -/

/-- The scan ends outside quotes and parentheses. -/
def Closed (s : List Char) : Prop :=
  s.foldl Nesting.step .top = .top

instance (s : List Char) : Decidable (Closed s) := inferInstanceAs (Decidable (_ = _))

/-- No comma of the text divides, for a scan that starts at `n`. -/
def Undivided (n : Nesting) (s : List Char) : Prop :=
  ∀ u v, s = u ++ ',' :: v → (u.foldl Nesting.step n).divides = false

theorem undivided_iff {s : List Char} : Undivided n s ↔ ∀ i < s.length, s[i]? = some ',' →
    ((s.take i).foldl Nesting.step n).divides = false := by
  constructor
  · intro h i hi hcomma
    refine h _ (s.drop (i + 1)) ?_
    rw [← (List.getElem?_eq_some_iff.mp hcomma).2, ← drop_eq_getElem_cons hi, take_append_drop]
  · rintro h u v rfl
    have hcomma := h u.length (by simp) (by simp)
    rwa [take_left] at hcomma

instance (n : Nesting) (s : List Char) : Decidable (Undivided n s) := decidable_of_iff _ undivided_iff.symm

theorem cutCommas_undivided {s : List Char} (h : Undivided n s) (current rest : List Char) :
    cutCommas .step n current (s ++ rest) =
      cutCommas .step (s.foldl Nesting.step n) (s.reverse ++ current) rest := by
  induction s generalizing n current with
  | nil => rfl
  | cons c s ih =>
    have hcomma : (c == ',' && n.divides) = false := by
      rw [Bool.and_eq_false_imp, beq_iff_eq]
      rintro rfl
      exact h [] s rfl
    have hrest : Undivided (n.step c) s := fun u v huv => h (c :: u) v (congrArg (c :: ·) huv)
    rw [cons_append, cutCommas_step hcomma, ih hrest, foldl_cons, reverse_cons, append_assoc, singleton_append]

theorem ending_cutCommas (s : List Char) (n : Nesting) (current : List Char) :
    (cutCommas .step n current s).ending = s.foldl Nesting.step n := by
  induction s generalizing n current with
  | nil => rfl
  | cons c s ih =>
    rw [cutCommas]
    split
    case isTrue h =>
      obtain ⟨rfl, hn⟩ : c = ',' ∧ n.divides := by simpa using h
      have hnone : n.quote = none := by simpa using (Bool.and_eq_true_iff.mp hn).1
      -- a dividing comma is outside quotes, where it changes nothing
      have hstay : n.step ',' = n := by
        rw [Nesting.step, hnone]
        rfl
      rw [foldl_cons, hstay]
      exact ih n []
    case isFalse => exact ih _ _

theorem splitValues_of_closed (h : Closed s) : splitValues s =
    (cutCommas .step .top [] s).pieces ++ [(cutCommas .step .top [] s).last] := by
  have hending : (cutCommas .step .top [] s).ending.divides := by
    rw [ending_cutCommas, show s.foldl _ _ = _ from h]
    rfl
  rw [splitValues_eq, hending]
  rfl

theorem cutCommas_blank (h : strip s = []) : cutCommas .step .top [] s = ⟨[], [], .top⟩ := by
  obtain ⟨u, v, hs, hu, hv⟩ := exists_strip s
  have hblank : ∀ c ∈ s, isBlank c := by
    rw [hs, h, append_nil]
    exact forall_mem_append.mpr ⟨hu, hv⟩
  have hmarks : ∀ c ∈ listMarks, ¬ isBlank c := by decide
  have hcut := cutCommas_plain 0 [] (fun c hc hmark => hmarks c hmark (hblank c hc)) []
  rw [append_nil, append_nil] at hcut
  rw [Nesting.top, hcut, cutCommas, reverse_reverse, h]

theorem splitArguments_of_closed (h : Closed s) : splitArguments s =
    if (splitValues s).getLast? = some [] then (splitValues s).dropLast else splitValues s := by
  rw [splitValues_of_closed h, getLast?_concat, dropLast_concat, splitArguments]
  by_cases hs : strip s = []
  · rw [hs, cutCommas_blank hs]
    rfl
  · rw [if_neg (by simpa using hs)]
    by_cases hlast : (cutCommas .step .top [] s).last = [] <;> simp [hlast]

/-- **Cutting inverts joining, and the lists of a statement are cut alike**, but for empty pieces. -/
theorem splitValues_join :
    (∀ pieces : List (List Char), pieces ≠ [] → (∀ s ∈ pieces, Closed s ∧ Undivided .top s) →
      splitValues ([','].intercalate pieces) = pieces.map strip) ∧
    (∀ s, splitDefinitions s = (splitValues s).filter fun piece => !piece.isEmpty) ∧
    ∀ s, Closed s → splitArguments s =
      if (splitValues s).getLast? = some [] then (splitValues s).dropLast else splitValues s := by
  refine ⟨fun pieces hne h => splitValues_intercalate hne fun s hs current rest => ?_,
    splitDefinitions_eq, fun s => splitArguments_of_closed⟩
  obtain ⟨hclosed, hundivided⟩ := h s hs
  rw [cutCommas_undivided hundivided, show s.foldl _ _ = _ from hclosed]

/-- Commas in quotes and in parentheses do not cut. -/
theorem splitValues_join_quoted :
    splitValues "'a, b',f(1, 2), c".toList = ["'a, b'".toList, "f(1, 2)".toList, ['c']] ∧
      splitArguments "'a, b', f(1, 2), ".toList = ["'a, b'".toList, "f(1, 2)".toList] := by
  have hvalues : splitValues ([','].intercalate ["'a, b'".toList, "f(1, 2)".toList, [' ', 'c']]) = _ :=
    splitValues_join.1 _ (by decide) (by decide)
  have harguments := splitValues_join.2.2 "'a, b', f(1, 2), ".toList (by decide)
  exact ⟨hvalues.trans (by decide), harguments.trans (by decide)⟩

theorem length_le_of_cutCommas (step : Nesting → Char → Nesting) (s : List Char) (n : Nesting)
    (current : List Char) {w : List Char}
    (h : w ∈ (cutCommas step n current s).pieces ∨ w = (cutCommas step n current s).last) :
    w.length ≤ current.length + s.length := by
  induction s generalizing n current with
  | nil =>
    have hlast := length_strip_le current.reverse
    rw [length_reverse] at hlast
    rcases h with h | rfl
    · cases h
    · exact hlast
  | cons c s ih =>
    rw [cutCommas] at h
    split at h
    · have hfirst := length_strip_le current.reverse
      rw [length_reverse] at hfirst
      rw [length_cons]
      rcases h with h | h
      · rcases mem_cons.mp h with rfl | h
        · omega
        · have := ih n [] (.inl h)
          rw [length_nil] at this
          omega
      · have := ih n [] (.inr h)
        rw [length_nil] at this
        omega
    · have := ih _ _ h
      rw [length_cons] at this ⊢
      omega

theorem length_le_of_mem_splitValues {w : List Char} (h : w ∈ splitValues s) : w.length ≤ s.length := by
  have hcut := length_le_of_cutCommas .step s .top [] (w := w)
  rw [length_nil, Nat.zero_add] at hcut
  rw [splitValues_eq] at h
  rcases mem_append.mp h with h | h
  · exact hcut (.inl h)
  · split at h
    · exact hcut (.inr (mem_singleton.mp h))
    · cases h

theorem splitValues_open (hq : isQuote q) (h : q ∉ s) : splitValues (q :: s) = [] := by
  obtain ⟨hcomma, hopen⟩ := step_quote hq
  have hrest := cutCommas_quoted 0 [] h [q]
  rw [append_nil] at hrest
  rw [splitValues_eq, cutCommas_step (by simp [hcomma]), hopen, hrest]
  rfl

end SqlGateway.Sql
