import Mathlib.Data.List.Forall2
import SqlGateway.Text.Pattern

/-!
# What a search finds

`Spans p x y` says that `p` can match from `x` to `y`; `ways` lists the ways in the order in which they are
tried, and `run` takes the first from which the continuation can go on (`run_eq`).  So **what `run` finds is
spanned, and what is spanned is found** (`run_sound`, `run_complete`).
-/

namespace SqlGateway.Text

open List

variable {u word : List Char} {b : Option Char} {start : Nat}
variable {s needle : List Char} {p : Char → Bool} {x y : Pattern.Cursor} {kept : Pattern.Kept} {c : Char}

/-! ### Fixed pieces -/

theorem eq_of_cutAt? {s v : List Char} (h : cutAt? needle s = some (u, v)) : s = u ++ needle ++ v := by
  induction s generalizing u v with
  | nil =>
    rw [cutAt?] at h
    split at h
    case isTrue hn =>
      obtain ⟨rfl, rfl⟩ := h
      rw [isEmpty_iff.mp hn]
      rfl
    case isFalse => simp at h
  | cons c s ih =>
    rw [cutAt?] at h
    split at h
    case isTrue hp =>
      obtain ⟨rfl, rfl⟩ := h
      obtain ⟨t, ht⟩ := isPrefixOf_iff_prefix.mp hp
      rw [← ht, nil_append, drop_left]
    case isFalse =>
      rw [Option.map_eq_some_iff] at h
      obtain ⟨⟨u', v'⟩, hcut, huv⟩ := h
      obtain ⟨rfl, rfl⟩ := huv
      rw [ih hcut]
      rfl

theorem isSome_cutAt?_iff {s : List Char} : (cutAt? needle s).isSome ↔ ∃ u v, s = u ++ needle ++ v := by
  constructor
  · intro h
    obtain ⟨⟨u, v⟩, hcut⟩ := Option.isSome_iff_exists.mp h
    exact ⟨u, v, eq_of_cutAt? hcut⟩
  · rintro ⟨u, v, rfl⟩
    induction u with
    | nil =>
      rw [nil_append]
      cases needle with
      | nil => cases v <;> rfl
      | cons n needle =>
        have hp : (n :: needle).isPrefixOf (n :: (needle ++ v)) := isPrefixOf_iff_prefix.mpr ⟨v, rfl⟩
        rw [cons_append, cutAt?, if_pos hp]
        rfl
    | cons c u ih =>
      rw [cons_append, cons_append, cutAt?]
      split
      case isTrue => rfl
      case isFalse => rw [Option.isSome_map]; exact ih

theorem cutAt?_eq_none (hc : c ∈ needle) (hs : c ∉ s) : cutAt? needle s = none := by
  rw [← Option.not_isSome_iff_eq_none, isSome_cutAt?_iff]
  rintro ⟨u, v, rfl⟩
  exact hs (by simp [hc])

theorem cutAt?_of_not_mem {n : Char} (v : List Char) (h : n ∉ u) :
    cutAt? (n :: needle) (u ++ (n :: needle ++ v)) = some (u, v) := by
  induction u with
  | nil =>
    have hp : (n :: needle).isPrefixOf (n :: (needle ++ v)) := isPrefixOf_iff_prefix.mpr ⟨v, rfl⟩
    rw [nil_append, cons_append, cutAt?, if_pos hp, length_cons, drop_succ_cons, drop_left]
  | cons c u ih =>
    rw [mem_cons, not_or] at h
    have hp : (n :: needle).isPrefixOf (c :: (u ++ (n :: needle ++ v))) = false := by
      simp [isPrefixOf, h.1]
    rw [cons_append, cutAt?, hp, if_neg (by simp), ih h.2]
    rfl

/-! ### Words -/

/-- Whether a text is the word, its case left aside. -/
def spells : (word s : List Char) → Bool
  | [], [] => true
  | l :: word, c :: s => sameLetter l c && spells word s
  | _, _ => false

theorem spells_iff : ∀ {word s : List Char},
    spells word s ↔ Forall₂ (fun l c => sameLetter l c) word s
  | [], [] => by simp [spells]
  | [], _ :: _ => by simp [spells]
  | _ :: _, [] => by simp [spells]
  | l :: word, c :: s => by rw [spells, Bool.and_eq_true, spells_iff, forall₂_cons]

theorem exists_cons_of_spells {l : Char} {s : List Char} (h : spells (l :: word) s) :
    ∃ c t, s = c :: t ∧ sameLetter l c ∧ spells word t := by
  obtain ⟨c, t, hl, ht, hs⟩ := forall₂_cons_left_iff.mp (spells_iff.mp h)
  exact ⟨c, t, hs, hl, spells_iff.mpr ht⟩

theorem spells_length {s : List Char} (h : spells word s) : s.length = word.length :=
  (spells_iff.mp h).length_eq.symm

theorem exists_of_mem_forall₂ {R : Char → Char → Prop} {v : List Char} (h : Forall₂ R u v) (hc : c ∈ v) :
    ∃ l ∈ u, R l c := by
  obtain ⟨n, rfl⟩ := get_of_mem hc
  exact ⟨_, get_mem u ⟨n, by rw [h.length_eq]; exact n.2⟩, h.get _ n.2⟩

theorem exists_of_mem_spells {s : List Char} (h : spells word s) (hc : c ∈ s) :
    ∃ l ∈ word, sameLetter l c :=
  exists_of_mem_forall₂ (spells_iff.mp h) hc

theorem exists_mem_of_spells {l : Char} {s : List Char} (h : spells word s) (hl : l ∈ word) :
    ∃ c ∈ s, sameLetter l c :=
  exists_of_mem_forall₂ (spells_iff.mp h).flip hl

/-! ### Spans of patterns -/

namespace Pattern

/-- From one place to another over characters of a class. -/
inductive Passes (p : Char → Bool) : Cursor → Cursor → Prop
  | stay (x : Cursor) : Passes p x x
  | step {b : Option Char} {c : Char} {s : List Char} {y : Cursor} :
      p c → Passes p ⟨some c, s⟩ y → Passes p ⟨b, c :: s⟩ y

/-- The pattern can match from one place to another. -/
def Spans : Pattern → Cursor → Cursor → Prop
  | nothing, x, y => y = x
  | one p, x, y => ∃ c s, x.rest = c :: s ∧ p c ∧ y = ⟨some c, s⟩
  | many p, x, y => Passes p x y
  | few p, x, y => Passes p x y
  | seq a b, x, z => ∃ y, a.Spans x y ∧ b.Spans y z
  | alt a b, x, y => a.Spans x y ∨ b.Spans x y
  | keep _ a, x, y => a.Spans x y
  | ahead a, x, y => y = x ∧ ∃ z, a.Spans x z
  | notAhead a, x, y => y = x ∧ ¬ ∃ z, a.Spans x z
  | edge, x, y => y = x ∧ x.atEdge
  | finish, x, y => y = x ∧ x.atFinish
  | last, x, y => y = x ∧ x.rest.isEmpty

/-! ### The ways to match -/

/-- The places that are reached over characters of a class, the nearest first. -/
def passes (p : Char → Bool) : Option Char → List Char → List Cursor
  | b, [] => [⟨b, []⟩]
  | b, c :: s => ⟨b, c :: s⟩ :: if p c then passes p (some c) s else []

/-- The ways to match a pattern, in the order in which they are tried: where each ends, and which pieces
it keeps. -/
def ways : Pattern → Cursor → Kept → List (Cursor × Kept)
  | nothing, x, k => [(x, k)]
  | one p, x, k =>
    match x.rest with
    | [] => []
    | c :: s => if p c then [(⟨some c, s⟩, k)] else []
  | many p, x, k => (passes p x.before x.rest).reverse.map (·, k)
  | few p, x, k => (passes p x.before x.rest).map (·, k)
  | seq a b, x, k => (a.ways x k).flatMap fun w => b.ways w.1 w.2
  | alt a b, x, k => a.ways x k ++ b.ways x k
  | keep name a, x, k => (a.ways x k).map fun w => (w.1, (name, ⟨x.rest, w.1.rest⟩) :: w.2)
  | ahead a, x, k => (a.ways x k).head?.toList.map fun w => (x, w.2)
  | notAhead a, x, k => if (a.ways x k).isEmpty then [(x, k)] else []
  | edge, x, k => if x.atEdge then [(x, k)] else []
  | finish, x, k => if x.atFinish then [(x, k)] else []
  | last, x, k => if x.rest.isEmpty then [(x, k)] else []

variable {α : Type}

theorem shortest_eq (next : Cursor → Option α) : ∀ (s : List Char) (b : Option Char),
    shortest p next b s = (passes p b s).findSome? next
  | [], _ => by rw [shortest, passes, findSome?_singleton]
  | c :: s, b => by
    rw [shortest, passes, findSome?_cons, shortest_eq next s]
    cases next ⟨b, c :: s⟩ <;> cases p c <;> rfl

theorem longest_eq (next : Cursor → Option α) : ∀ (s : List Char) (b : Option Char),
    longest p next b s = (passes p b s).reverse.findSome? next
  | [], _ => by rw [longest, passes, reverse_singleton, findSome?_singleton]
  | c :: s, b => by
    rw [longest, passes, reverse_cons, findSome?_append, findSome?_singleton, longest_eq next s]
    cases p c <;> simp

theorem findSome?_flatMap {β γ : Type} (f : β → List γ) (g : γ → Option α) : ∀ l : List β,
    (l.flatMap f).findSome? g = l.findSome? fun b => (f b).findSome? g
  | [] => rfl
  | b :: l => by
    rw [flatMap_cons, findSome?_append, findSome?_cons, findSome?_flatMap f g l]
    cases (f b).findSome? g <;> rfl

/-- **Matching takes the first way** from which what follows can go on. -/
theorem run_eq (p : Pattern) {α : Type} (x : Cursor) (k : Kept) (next : Cursor → Kept → Option α) :
    p.run x k next = (p.ways x k).findSome? fun w => next w.1 w.2 := by
  induction p generalizing α x k next with
  | nothing => rw [run, ways, findSome?_singleton]
  | one p =>
    obtain ⟨b, s⟩ := x
    cases s with
    | nil => rfl
    | cons c s => cases hc : p c <;> simp [run, ways, hc]
  | many p => rw [run, ways, longest_eq, findSome?_map]; rfl
  | few p => rw [run, ways, shortest_eq, findSome?_map]; rfl
  | seq a b iha ihb =>
    rw [run, ways, findSome?_flatMap, iha]
    simp only [ihb]
  | alt a b iha ihb =>
    rw [run, ways, findSome?_append, iha, ihb, Option.orElse_eq_orElse, Option.orElse_eq_or]
  | keep name a iha => rw [run, ways, findSome?_map, iha]; rfl
  | ahead a iha | notAhead a iha =>
    rw [run, ways, iha]
    cases a.ways x k <;> simp
  | edge | finish | last =>
    rw [run, ways]
    split <;> simp

theorem mem_passes {s : List Char} : y ∈ passes p b s ↔ Passes p ⟨b, s⟩ y := by
  induction s generalizing b with
  | nil =>
    rw [passes, mem_singleton]
    exact ⟨fun h => h ▸ .stay _, fun h => by cases h; rfl⟩
  | cons c s ih =>
    rw [passes, mem_cons]
    constructor
    · rintro (rfl | h)
      · exact .stay _
      · split at h
        case isTrue hc => exact .step hc (ih.mp h)
        case isFalse => cases h
    · rintro (_ | ⟨hc, h⟩)
      · exact .inl rfl
      · exact .inr (by rw [if_pos hc]; exact ih.mpr h)

theorem mem_ways : ∀ {p : Pattern} {x y : Cursor} {k : Kept}, y ∈ (p.ways x k).map Prod.fst ↔ p.Spans x y := by
  intro p
  induction p with
  | nothing => simp [ways, Spans]
  | one p =>
    rintro ⟨b, s⟩ y k
    cases s with
    | nil => simp [ways, Spans]
    | cons c s => cases hc : p c <;> simp [ways, Spans, hc, and_assoc]
  | many p | few p =>
    intro x y k
    have hx : y ∈ passes p x.before x.rest ↔ Passes p x y := mem_passes
    simpa [ways, Spans, Function.comp_def] using hx
  | seq a b iha ihb =>
    intro x z k
    rw [ways, map_flatMap, mem_flatMap]
    constructor
    · rintro ⟨w, ha, hb⟩
      exact ⟨w.1, iha.mp (mem_map_of_mem ha), ihb.mp hb⟩
    · rintro ⟨y, ha, hb⟩
      obtain ⟨w, ha, rfl⟩ := mem_map.mp (iha.mpr ha)
      exact ⟨w, ha, ihb.mpr hb⟩
  | alt a b iha ihb => intro x y k; rw [ways, Spans, map_append, mem_append, iha, ihb]
  | keep name a iha => intro x y k; rw [ways, Spans, map_map, ← iha]; rfl
  | ahead a iha | notAhead a iha =>
    intro x y k
    simp only [Spans, ← iha (k := k), ways]
    cases a.ways x k <;> simp
  | edge | finish | last =>
    intro x y k
    rw [ways, Spans]
    split <;> simp_all

variable {next : Cursor → Kept → Option α}

theorem run_sound {p : Pattern} {a : α}
    (h : p.run x kept next = some a) : ∃ y kept, p.Spans x y ∧ next y kept = some a := by
  rw [run_eq] at h
  obtain ⟨w, hw, ha⟩ := exists_of_findSome?_eq_some h
  exact ⟨w.1, w.2, mem_ways.mp (mem_map_of_mem hw), ha⟩

theorem run_complete {p : Pattern} (h : p.Spans x y) (hy : ∀ kept, (next y kept).isSome) (kept : Kept) :
    (p.run x kept next).isSome := by
  obtain ⟨w, hw, rfl⟩ := mem_map.mp (mem_ways (k := kept).mpr h)
  rw [run_eq, findSome?_isSome_iff]
  exact ⟨w, hw, hy w.2⟩

theorem run_eq_none {p : Pattern} (h : ∀ y, ¬ p.Spans x y) : p.run x kept next = none := by
  rw [run_eq, findSome?_eq_none_iff]
  intro w hw
  exact absurd (mem_ways.mp (mem_map_of_mem hw)) (h w.1)

/-! ### Searches -/

theorem isSome_matchAt?_iff {p : Pattern} :
    (p.matchAt? start b s).isSome ↔ ∃ y, p.Spans ⟨b, s⟩ y := by
  constructor
  · intro h
    obtain ⟨m, hm⟩ := Option.isSome_iff_exists.mp h
    obtain ⟨y, -, hy, -⟩ := run_sound hm
    exact ⟨y, hy⟩
  · rintro ⟨y, hy⟩
    exact run_complete hy (fun _ => rfl) []

theorem getLast?_cons_or (c : Char) (s : List Char) (b : Option Char) :
    (c :: s).getLast?.or b = s.getLast?.or (some c) := by
  rw [getLast?_cons, Option.some_or]
  cases s.getLast? <;> rfl

theorem findFrom?_of_matchAt? {p : Pattern} {m : Match}
    (h : p.matchAt? start b s = some m) : p.findFrom? start b s = some m := by
  cases s with
  | nil => exact h
  | cons d s =>
    rw [findFrom?, h]
    rfl

theorem exists_of_findFrom? {p : Pattern} {m : Match} : ∀ {s : List Char} {start : Nat} {b : Option Char},
    p.findFrom? start b s = some m → ∃ u v start', s = u ++ v ∧ p.matchAt? start' (u.getLast?.or b) v = some m
  | [], start, b, h => ⟨[], [], start, rfl, h⟩
  | c :: s, start, b, h => by
    rw [findFrom?, Option.orElse_eq_orElse, Option.orElse_eq_or, Option.or_eq_some_iff] at h
    rcases h with h | ⟨-, h⟩
    · exact ⟨[], c :: s, start, rfl, h⟩
    · obtain ⟨u, v, start', rfl, hm⟩ := exists_of_findFrom? h
      exact ⟨c :: u, v, start', rfl, by rw [getLast?_cons_or]; exact hm⟩

theorem isSome_findFrom?_iff {p : Pattern} :
    (p.findFrom? start b s).isSome ↔ ∃ u v y, s = u ++ v ∧ p.Spans ⟨u.getLast?.or b, v⟩ y := by
  constructor
  · intro h
    obtain ⟨m, hm⟩ := Option.isSome_iff_exists.mp h
    obtain ⟨u, v, start', hs, hat⟩ := exists_of_findFrom? hm
    obtain ⟨y, hy⟩ := isSome_matchAt?_iff.mp (Option.isSome_of_eq_some hat)
    exact ⟨u, v, y, hs, hy⟩
  · rintro ⟨u, v, y, rfl, hy⟩
    induction u generalizing start b with
    | nil =>
      obtain ⟨m, hm⟩ := Option.isSome_iff_exists.mp (isSome_matchAt?_iff.mpr ⟨y, hy⟩)
      exact Option.isSome_of_eq_some (findFrom?_of_matchAt? hm)
    | cons c u ih =>
      rw [getLast?_cons_or] at hy
      rw [cons_append, findFrom?, Option.orElse_eq_orElse, Option.orElse_eq_or, Option.isSome_or, ih hy,
        Bool.or_true]

/-- **A pattern occurs in a text** iff it spans a piece of it. -/
theorem occursIn_iff {p : Pattern} : p.occursIn s ↔ ∃ u v y, s = u ++ v ∧ p.Spans ⟨u.getLast?, v⟩ y := by
  simp only [occursIn, find?, isSome_findFrom?_iff, Option.or_none]

theorem find?_eq_none {p : Pattern} (h : ∀ u v b y, s = u ++ v → ¬ p.Spans ⟨b, v⟩ y) : p.find? s = none := by
  rw [← Option.not_isSome_iff_eq_none]
  intro hfound
  obtain ⟨u, v, y, huv, hy⟩ := occursIn_iff.mp hfound
  exact h u v _ y huv hy

/-! ### Spans of common patterns -/

theorem spans_append {a b : Pattern} {z : Cursor} :
    (a ++ b).Spans x z ↔ ∃ y, a.Spans x y ∧ b.Spans y z := Iff.rfl

theorem spans_oneOf : ∀ {ps : List Pattern}, (oneOf ps).Spans x y ↔ ∃ p ∈ ps, p.Spans x y
  | [] => by simp [oneOf, Spans]
  | [p] => by simp [oneOf]
  | p :: q :: ps => by
    have halt : (oneOf (p :: q :: ps)).Spans x y ↔ p.Spans x y ∨ (oneOf (q :: ps)).Spans x y := Iff.rfl
    rw [halt, spans_oneOf]
    simp

theorem Passes.exists_append (h : Passes p x y) : ∃ s, (∀ c ∈ s, p c) ∧ x.rest = s ++ y.rest := by
  induction h with
  | stay x => exact ⟨[], by simp, rfl⟩
  | @step b c s y hc _ ih =>
    obtain ⟨t, ht, hs⟩ := ih
    exact ⟨c :: t, forall_mem_cons.mpr ⟨hc, ht⟩, congrArg (c :: ·) hs⟩

theorem Spans.steps {R : Cursor → Cursor → Prop} (hstay : ∀ x, R x x)
    (htrans : ∀ {x y z}, R x y → R y z → R x z) (hstep : ∀ b c s, R ⟨b, c :: s⟩ ⟨some c, s⟩) :
    ∀ {p : Pattern} {x y : Cursor}, p.Spans x y → R x y := by
  have hpasses : ∀ {p : Char → Bool} {x y : Cursor}, Passes p x y → R x y := by
    intro p x y h
    induction h with
    | stay x => exact hstay x
    | step _ _ ih => exact htrans (hstep _ _ _) ih
  intro p
  induction p with
  | nothing => rintro x y rfl; exact hstay _
  | one p =>
    rintro ⟨b, r⟩ y ⟨c, t, rfl, -, rfl⟩
    exact hstep b c t
  | many p | few p => intro x y h; exact hpasses h
  | seq a b iha ihb => rintro x y ⟨z, hxz, hzy⟩; exact htrans (iha hxz) (ihb hzy)
  | alt a b iha ihb =>
    rintro x y (h | h)
    · exact iha h
    · exact ihb h
  | keep _ a iha => intro x y h; exact iha h
  | ahead | notAhead | edge | finish | last => rintro x y ⟨rfl, -⟩; exact hstay _

theorem suffix_of_spans {p : Pattern} (h : p.Spans x y) : y.rest <:+ x.rest :=
  h.steps (R := fun x y => y.rest <:+ x.rest) (fun _ => suffix_refl _) (fun hxy hyz => hyz.trans hxy)
    fun _ c s => suffix_cons c s

theorem exists_of_spans_many1 (h : (many1 p).Spans x y) :
    ∃ s, s ≠ [] ∧ (∀ c ∈ s, p c) ∧ x.rest = s ++ y.rest := by
  obtain ⟨z, ⟨c, s, hx, hc, rfl⟩, hz⟩ := spans_append.mp h
  obtain ⟨t, ht, hs⟩ := Passes.exists_append hz
  exact ⟨c :: t, by simp, forall_mem_cons.mpr ⟨hc, ht⟩, by rw [hx, cons_append, ← hs]⟩

theorem exists_of_spans_lit {w : String} (h : (lit w).Spans x y) :
    ∃ s, spells w.toList s ∧ x.rest = s ++ y.rest := by
  rw [lit] at h
  generalize w.toList = letters at h ⊢
  induction letters generalizing x with
  | nil =>
    obtain rfl : y = x := h
    exact ⟨[], rfl, rfl⟩
  | cons l word ih =>
    obtain ⟨z, ⟨c, s, hx, hc, rfl⟩, hz⟩ := spans_append.mp h
    obtain ⟨t, ht, hs⟩ := ih hz
    exact ⟨c :: t, by rw [spells, hc, ht]; rfl, by rw [hx, cons_append, ← hs]⟩

end Pattern

end SqlGateway.Text
