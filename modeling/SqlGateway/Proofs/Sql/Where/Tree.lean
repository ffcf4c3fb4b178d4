import Mathlib.Data.List.Nodup
import Mathlib.Data.List.Pairwise
import SqlGateway.Proofs.Sql.Where.Enclosed

/-!
# Trees of conditions

A tree of connectives over comparisons with whole numbers, no field of which occurs twice, is written with
every compound subformula in parentheses.  **The filter means the formula iff every part of the formula is a
comparison** (`meaning_kept_iff`).
-/

namespace SqlGateway.Sql.Where

open Text List Document Filter

/-- A formula of comparisons.  A connective joins two formulas or more. -/
inductive Tree where
  | atom (b : Bound)
  | node (k : Connective) (first second : Tree) (rest : List Tree)

variable {v : Bound → Prop} {t : Tree} {b : Bound}

/-- What a connective makes of the truth of the formulas that it joins. -/
def Connective.Joins : Connective → List Prop → Prop
  | and, ps => ∀ p ∈ ps, p
  | or, ps => ∃ p ∈ ps, p

namespace Tree

/-- Goes through a tree, from the comparisons to the root. -/
def fold {α : Type} (leaf : Bound → α) (branch : Connective → List α → α) : Tree → α
  | atom b => leaf b
  | node k first second rest =>
    branch k (first.fold leaf branch :: second.fold leaf branch :: foldAll rest)
where
  foldAll : List Tree → List α
    | [] => []
    | t :: ts => t.fold leaf branch :: foldAll ts

def bounds : Tree → List Bound :=
  fold (fun b => [b]) fun _ => flatten

/-- A formula as it is written, with each compound formula in parentheses. -/
def text : Tree → List Char :=
  fold Bound.chars fun k texts => enclosed (joinWith k.word texts)

/-- The truth of a formula, given that of its comparisons. -/
def Holds (truth : Bound → Prop) : Tree → Prop :=
  fold truth Connective.Joins

def HoldsOf (t : Tree) (d : Document) : Prop :=
  t.Holds fun b => b.HoldsOf d

/-- The formulas that the root joins; a comparison stands alone. -/
def parts : Tree → List Tree
  | atom b => [atom b]
  | node _ first second rest => first :: second :: rest

/-- A formula as it is written, without parentheses around the whole. -/
def bareText : Tree → List Char
  | atom b => b.chars
  | node k first second rest => joinWith k.word ((first :: second :: rest).map text)

/-! ### Going through a tree -/

theorem foldAll_eq {α : Type} (leaf : Bound → α) (branch : Connective → List α → α) :
    ∀ ts : List Tree, fold.foldAll leaf branch ts = ts.map (fold leaf branch)
  | [] => rfl
  | t :: ts => congrArg (t.fold leaf branch :: ·) (foldAll_eq leaf branch ts)

section

variable (k : Connective) (first second : Tree) (rest : List Tree)

theorem fold_node {α : Type} (leaf : Bound → α) (branch : Connective → List α → α) :
    (node k first second rest).fold leaf branch =
      branch k ((first :: second :: rest).map (fold leaf branch)) := by
  rw [fold, foldAll_eq]
  rfl

theorem bounds_node : (node k first second rest).bounds = (first :: second :: rest).flatMap bounds :=
  (fold_node k first second rest _ _).trans flatMap_def.symm

theorem text_node : (node k first second rest).text =
    enclosed (joinWith k.word ((first :: second :: rest).map text)) :=
  fold_node k first second rest _ _

theorem holds_node {truth : Bound → Prop} : (node k first second rest).Holds truth =
    k.Joins ((first :: second :: rest).map (Holds truth)) :=
  fold_node k first second rest _ _

end

theorem ind {P : Tree → Prop} (atom : ∀ b, P (.atom b))
    (node : ∀ k first second rest, (∀ t ∈ first :: second :: rest, P t) →
      P (.node k first second rest)) (t : Tree) : P t :=
  @Tree.rec P (fun ts => ∀ t ∈ ts, P t) atom
    (fun k first second rest hfirst hsecond hrest => node k first second rest
      (forall_mem_cons.mpr ⟨hfirst, forall_mem_cons.mpr ⟨hsecond, hrest⟩⟩))
    (fun _ h => absurd h not_mem_nil)
    (fun _ _ ht hts => forall_mem_cons.mpr ⟨ht, hts⟩) t

/-! ### Truth -/

theorem holds_congr {w : Bound → Prop} (t : Tree) :
    (∀ b ∈ t.bounds, (v b ↔ w b)) → (t.Holds v ↔ t.Holds w) := by
  induction t using ind with
  | atom b => exact fun h => h b (mem_singleton_self b)
  | node k first second rest ih =>
    intro h
    rw [bounds_node] at h
    have hparts : ∀ t ∈ first :: second :: rest, (t.Holds v ↔ t.Holds w) := fun t ht =>
      ih t ht fun b hb => h b (mem_flatMap.mpr ⟨t, ht, hb⟩)
    rw [holds_node, holds_node, map_congr_left fun t ht => propext (hparts t ht)]

theorem holds_const (p : Prop) (t : Tree) : (t.Holds fun _ => p) ↔ p := by
  induction t using ind with
  | atom b => exact Iff.rfl
  | node k first second rest ih =>
    rw [holds_node, map_congr_left fun t ht => propext (ih t ht)]
    have hall : ∀ q ∈ (first :: second :: rest).map fun _ => p, q = p := forall_mem_map.mpr fun _ _ => rfl
    cases k with
    | and => exact ⟨fun h => h p mem_cons_self, fun h q hq => (hall q hq).symm ▸ h⟩
    | or =>
      refine ⟨?_, fun h => ⟨p, mem_cons_self, h⟩⟩
      rintro ⟨q, hq, h⟩
      exact hall q hq ▸ h

theorem holds_of_all (t : Tree) (h : ∀ b ∈ t.bounds, v b) : t.Holds v :=
  ((t.holds_congr fun b hb => iff_true_intro (h b hb)).trans (t.holds_const True)).mpr trivial

theorem not_holds_of_none (t : Tree) (h : ∀ b ∈ t.bounds, ¬ v b) : ¬ t.Holds v :=
  ((t.holds_congr fun b hb => iff_false_intro (h b hb)).trans (t.holds_const False)).mp

theorem holdsOf_and (first second : Tree) (rest : List Tree) (d : Document) :
    (node .and first second rest).HoldsOf d ↔ ∀ t ∈ first :: second :: rest, t.HoldsOf d := by
  rw [HoldsOf, holds_node]
  exact forall_mem_map

theorem holdsOf_or (first second : Tree) (rest : List Tree) (d : Document) :
    (node .or first second rest).HoldsOf d ↔ ∃ t ∈ first :: second :: rest, t.HoldsOf d := by
  rw [HoldsOf, holds_node]
  constructor
  · rintro ⟨p, hp, hholds⟩
    obtain ⟨t, ht, rfl⟩ := mem_map.mp hp
    exact ⟨t, ht, hholds⟩
  · rintro ⟨t, ht, hholds⟩
    exact ⟨_, mem_map_of_mem ht, hholds⟩

/-! ### Texts -/

theorem written_joinWith (k : Connective) {texts : List (List Char)} (hne : texts ≠ [])
    (htexts : ∀ s ∈ texts, Written s) : Written (joinWith k.word texts) := by
  induction texts with
  | nil => exact absurd rfl hne
  | cons s texts ih =>
    cases texts with
    | nil => rw [joinWith_singleton]; exact htexts s (by simp)
    | cons next texts =>
      rw [joinWith_cons_cons]
      exact (htexts s (by simp)).join (ih (by simp) (forall_mem_cons.mp htexts).2) k

theorem written_text (t : Tree) : Written t.text := by
  induction t using ind with
  | atom b => exact b.written
  | node k first second rest ih =>
    rw [text_node]
    exact (written_joinWith k (by simp) (forall_mem_map.mpr ih)).enclosed

theorem part_text (t : Tree) : Sql.Part ['O', 'R'] t.text ∧ Sql.Part ['A', 'N', 'D'] t.text := by
  cases t with
  | atom b => exact b.part
  | node k first second rest =>
    have hinner : Nested (joinWith k.word ((first :: second :: rest).map text)) :=
      (written_joinWith k (by simp) (forall_mem_map.mpr fun t _ => t.written_text)).nested
    rw [text_node]
    exact ⟨part_enclosed solidWord_or hinner, part_enclosed solidWord_and hinner⟩

/-! ### Members of the filter -/

/-- A comparison whose limit can be read. -/
def IsShortBound (t : Tree) : Prop :=
  ∃ b, t = atom b ∧ b.IsShort

/-- The filter of the formula alone accepts the document. -/
def AcceptedBy (t : Tree) (d : Document) : Prop :=
  ∃ m, simple? t.text = some m ∧ acceptsMember d m.1 m.2

/-- **A formula becomes one member**, which is rigid unless the formula is a comparison with a number. -/
theorem exists_member (t : Tree) : ∃ m, simple? t.text = some m ∧ (t.IsShortBound ∨ Rigid m) := by
  cases t with
  | atom b =>
    refine ⟨b.member, b.simple?_chars, ?_⟩
    by_cases hshort : b.IsShort
    · exact .inl ⟨b, rfl, hshort⟩
    · right
      rw [Bound.IsShort, not_le] at hshort
      have hmem : b.sign.operator? ∈ comparisons.map Prod.snd := by
        cases b.sign <;> decide
      rw [Bound.member, literal_numeral, if_pos hshort, ← b.sign.demand_operator?]
      exact rigid_demand hmem _ _
  | node k first second rest =>
    obtain ⟨m, hm⟩ := (node k first second rest).written_text.exists_simple?
    refine ⟨m, hm, .inr ?_⟩
    refine (node k first second rest).written_text.rigid_of_simple? ?_ hm
    rw [text_node, enclosed, ← cons_append, getLast?_concat]

theorem acceptedBy_iff {m : String × Value} (h : simple? t.text = some m) (d : Document) :
    t.AcceptedBy d ↔ acceptsMember d m.1 m.2 := by
  simp [AcceptedBy, h]

theorem IsShortBound.acceptedBy_iff (h : t.IsShortBound) {d : Document}
    (hd : HasNumbers d t.bounds) : t.AcceptedBy d ↔ t.HoldsOf d := by
  obtain ⟨b, rfl, hshort⟩ := h
  have hnumber := hd b (mem_singleton_self b)
  have hsimple : simple? (atom b).text = some b.member := b.simple?_chars
  have hholds : (atom b).HoldsOf d = b.HoldsOf d := rfl
  rw [acceptedBy_iff hsimple, accepts_member_iff hnumber, hholds, Bound.TakenOf]
  simp [hshort]

end Tree

/-! ### Documents with given truths -/

/-- A number that is in the relation to `k`, or one that is not. -/
def Sign.pick : Sign → Bool → Int → Int
  | equal, truth, k => if truth then k else k + 1
  | unequal, truth, k => if truth then k + 1 else k
  | different, truth, k => if truth then k + 1 else k
  | less, truth, k => if truth then k - 1 else k
  | atMost, truth, k => if truth then k else k + 1
  | greater, truth, k => if truth then k + 1 else k
  | atLeast, truth, k => if truth then k else k - 1

theorem Sign.relates_pick (sign : Sign) (truth : Bool) (k : Int) :
    sign.Relates (sign.pick truth k) k ↔ truth := by
  cases sign <;> cases truth <;> simp [pick, Relates]

/-- A document in whose fields stand numbers that make the comparisons true or false. -/
def model (truth : String → Bool) (bs : List Bound) : Document :=
  bs.map fun b => (b.field.name, .int (b.sign.pick (truth b.field.name) b.limit.value))

theorem numeric_model (truth : String → Bool) (bs : List Bound) : Numeric (model truth bs) := by
  intro name
  cases h : Document.get? (model truth bs) name with
  | none => exact .inl (by rw [Document.get, h]; rfl)
  | some v =>
    obtain ⟨l, r, hmodel, -⟩ := lookup_eq_some_iff.mp h
    have hmem : (name, v) ∈ model truth bs := by simp [hmodel]
    obtain ⟨b, -, hb⟩ := mem_map.mp hmem
    refine .inr ⟨_, (get_of_get? h).trans (Prod.mk.inj hb).2.symm⟩

section

variable {bs : List Bound} (hbs : (bs.map fun b => b.field.name).Nodup) (truth : String → Bool)
include hbs

theorem get?_model (hb : b ∈ bs) : get? (model truth bs) b.field.name =
    some (.int (b.sign.pick (truth b.field.name) b.limit.value)) := by
  obtain ⟨l, r, rfl⟩ := append_of_mem hb
  refine lookup_eq_some_iff.mpr ⟨model truth l, model truth r, by simp [model], fun p hp => ?_⟩
  obtain ⟨c, hc, rfl⟩ := mem_map.mp hp
  rw [map_append, map_cons, nodup_append] at hbs
  rw [bne_iff_ne]
  exact (hbs.2.2 _ (mem_map_of_mem hc) _ mem_cons_self).symm

theorem hasNumbers_model : HasNumbers (model truth bs) bs :=
  fun _ hb => ⟨_, get?_model hbs truth hb⟩

theorem holdsOf_model (hb : b ∈ bs) : b.HoldsOf (model truth bs) ↔ truth b.field.name := by
  rw [Bound.HoldsOf, get?_model hbs truth hb]
  simp [b.sign.relates_pick]

end

namespace Tree

/-! ### Filters of joined formulas -/

theorem matches_and_iff {ts : List Tree} (hne : ts ≠ []) (d : Document) :
    Filter.Matches (addConditions (joinWith Connective.and.word (ts.map text)) []) d ↔
      ∀ m ∈ merge [] (ts.filterMap fun t => simple? t.text),
        acceptsMember d m.1 m.2 := by
  have hne' : ts.map text ≠ [] := by simpa using hne
  have hfilter := addConditions_joinWith_and hne'
    (forall_mem_map.mpr fun t _ => t.part_text.1) (forall_mem_map.mpr fun t _ => t.part_text.2)
  rw [matches_iff, Connective.word, hfilter, filterMap_map]
  rfl

theorem demands_text (t : Tree) : demands t.text = (simple? t.text).toList := by
  rw [demands, conjuncts, joined, t.part_text.2.not_joinedBy, if_neg (by simp)]
  cases h : simple? t.text with
  | none => rw [filterMap_cons_none h]; rfl
  | some m => rw [filterMap_cons_some h]; rfl

theorem mem_alternatives {ts : List Tree} {filter : Document} :
    filter ∈ alternatives (ts.map text) ↔ ∃ t ∈ ts, ∃ m, simple? t.text = some m ∧ filter = [m] := by
  rw [alternatives, mem_filter, map_map, mem_map]
  constructor
  · rintro ⟨⟨t, ht, rfl⟩, -⟩
    obtain ⟨m, hm, -⟩ := t.exists_member
    exact ⟨t, ht, m, hm, by rw [Function.comp_apply, demands_text, hm]; rfl⟩
  · rintro ⟨t, ht, m, hm, rfl⟩
    exact ⟨⟨t, ht, by rw [Function.comp_apply, demands_text, hm]; rfl⟩, rfl⟩

theorem matches_or_iff (first second : Tree) (rest : List Tree) (d : Document) : Filter.Matches
      (addConditions (joinWith Connective.or.word ((first :: second :: rest).map text)) []) d ↔
      ∃ t ∈ first :: second :: rest, t.AcceptedBy d := by
  generalize hts : first :: second :: rest = ts
  have hparts : ∀ s ∈ ts.map text, Sql.Part ['O', 'R'] s := forall_mem_map.mpr fun t _ => t.part_text.1
  have hstrip : strip (joinWith ['O', 'R'] (ts.map text)) = joinWith ['O', 'R'] (ts.map text) :=
    strip_joinWith (by decide) (by decide) _ fun s hs => ⟨(hparts s hs).ne_nil, (hparts s hs).trimmed⟩
  have hsplit : disjuncts (joinWith ['O', 'R'] (ts.map text)) = ts.map text :=
    joined_joinWith solidWord_or (by decide) _ (by simp [← hts]) hparts
  have hjoined : joinedBy ['O', 'R'] (joinWith ['O', 'R'] (ts.map text)) := by
    rw [← hts]
    exact joinedBy_joinWith (by decide) first.part_text.1 _ _
  have hne : (alternatives (ts.map text)).isEmpty = false := by
    obtain ⟨m, hm, -⟩ := first.exists_member
    have hfirst : [m] ∈ alternatives (ts.map text) := mem_alternatives.mpr ⟨first, by simp [← hts], m, hm, rfl⟩
    rw [isEmpty_eq_false_iff]
    exact ne_nil_of_mem hfirst
  rw [Connective.word, addConditions_eq, hstrip, hsplit, hjoined, if_pos rfl, hne, if_neg (by simp)]
  have hfilter : Filter.Matches (Document.set [] "$or" (.list ((alternatives (ts.map text)).map .doc))) d ↔
      acceptsSome d ((alternatives (ts.map text)).map .doc) := by
    simp [Document.set, matches_iff, acceptsMember]
  rw [hfilter, acceptsSome_iff]
  constructor
  · rintro ⟨filter, hmem, hmatches⟩
    obtain ⟨t, ht, m, hm, rfl⟩ := mem_alternatives.mp hmem
    exact ⟨t, ht, m, hm, matches_iff.mp hmatches m (by simp)⟩
  · rintro ⟨t, ht, m, hm, haccepts⟩
    exact ⟨[m], mem_alternatives.mpr ⟨t, ht, m, hm, rfl⟩, matches_iff.mpr (by simpa using haccepts)⟩

/-! ### Kept meaning -/

def names (t : Tree) : List String :=
  t.bounds.map fun b => b.field.name

section

variable {ts : List Tree} (hts : ((ts.flatMap bounds).map fun b => b.field.name).Nodup)
include hts

theorem IsShortBound.contains_names {u : Tree} (hshort : t.IsShortBound) (hlong : ¬ u.IsShortBound)
    (ht : t ∈ ts) (hu : u ∈ ts) (hb : b ∈ t.bounds) : u.names.contains b.field.name = false := by
  have hne : t ≠ u := fun h => hlong (h ▸ hshort)
  have hsymm : Std.Symm (Function.onFun List.Disjoint names) := ⟨fun _ _ h _ hb ha => h ha hb⟩
  rw [map_flatMap, nodup_flatMap] at hts
  have hpairwise : ts.Pairwise (Function.onFun List.Disjoint names) := hts.2
  have hdisjoint : List.Disjoint t.names u.names := hpairwise.forall ht hu hne
  rw [← Bool.not_eq_true, contains_iff_mem]
  exact hdisjoint (mem_map_of_mem hb)

theorem holdsOf_model_iff (truth : String → Bool) (ht : t ∈ ts) :
    t.HoldsOf (model truth (ts.flatMap bounds)) ↔ t.Holds fun b => truth b.field.name :=
  t.holds_congr fun _ hb => holdsOf_model hts truth (mem_flatMap.mpr ⟨t, ht, hb⟩)

/-- Documents are told apart by the members of comparisons only. -/
theorem acceptedBy_model_iff (v w : String → Bool) (ht : t ∈ ts)
    (h : t.IsShortBound → ∀ b ∈ t.bounds, v b.field.name = w b.field.name) :
    t.AcceptedBy (model v (ts.flatMap bounds)) ↔ t.AcceptedBy (model w (ts.flatMap bounds)) := by
  obtain ⟨m, hm, hshort | ⟨answer, hrigid⟩⟩ := t.exists_member
  · have hd : ∀ truth, HasNumbers (model truth (ts.flatMap bounds)) t.bounds := fun truth b hb =>
      hasNumbers_model hts truth b (mem_flatMap.mpr ⟨t, ht, hb⟩)
    rw [hshort.acceptedBy_iff (hd v), hshort.acceptedBy_iff (hd w), holdsOf_model_iff hts v ht,
      holdsOf_model_iff hts w ht]
    exact t.holds_congr fun b hb => by rw [h hshort b hb]
  · rw [acceptedBy_iff hm, acceptedBy_iff hm, hrigid _ (numeric_model v _), hrigid _ (numeric_model w _)]

theorem isShortBound_of_and (hne : ts ≠ []) (h : ∀ d, HasNumbers d (ts.flatMap bounds) →
      (Filter.Matches (addConditions (joinWith Connective.and.word (ts.map text)) []) d ↔
        ∀ t ∈ ts, t.HoldsOf d)) : ∀ t ∈ ts, t.IsShortBound := by
  intro u hu
  by_contra hlong
  have hnumbers := hasNumbers_model hts
  -- all comparisons are true, so the filter is
  have hall := (h _ (hnumbers fun _ => true)).mpr fun t ht =>
    (holdsOf_model_iff hts _ ht).mpr (t.holds_of_all fun _ _ => rfl)
  rw [matches_and_iff hne] at hall
  -- those of `u` become false, and so does the formula, but what can tell the documents apart does not
  have hfalse : ¬ u.HoldsOf (model (fun name => !u.names.contains name) (ts.flatMap bounds)) := by
    rw [holdsOf_model_iff hts _ hu]
    refine u.not_holds_of_none fun b hb => ?_
    rw [Bool.not_eq_true, Bool.not_eq_false', contains_iff_mem]
    exact mem_map_of_mem hb
  refine hfalse ((h _ (hnumbers _)).mp ((matches_and_iff hne _).mpr fun m hm => ?_) u hu)
  obtain ⟨l, r, hmembers, -⟩ | ⟨-, hnil⟩ := (Document.mem_merge_iff (by simp [Document.names])).mp hm
  · obtain ⟨t, ht, hsimple⟩ :=
      mem_filterMap.mp (hmembers ▸ mem_append_right l mem_cons_self)
    have haccepted := (acceptedBy_iff hsimple _).mpr (hall m hm)
    refine (acceptedBy_iff hsimple _).mp ((acceptedBy_model_iff hts _ _ ht ?_).mp haccepted)
    intro hshort b hb
    rw [hshort.contains_names hts hlong ht hu hb, Bool.not_false]
  · cases hnil

theorem isShortBound_of_or
    (hmatches : ∀ d, Filter.Matches (addConditions (joinWith Connective.or.word (ts.map text)) []) d ↔
      ∃ t ∈ ts, t.AcceptedBy d) (h : ∀ d, HasNumbers d (ts.flatMap bounds) →
      (Filter.Matches (addConditions (joinWith Connective.or.word (ts.map text)) []) d ↔
        ∃ t ∈ ts, t.HoldsOf d)) : ∀ t ∈ ts, t.IsShortBound := by
  intro u hu
  by_contra hlong
  have hnumbers := hasNumbers_model hts
  -- those of `u` are true, so the formula is
  have htrue : u.HoldsOf (model (u.names.contains) (ts.flatMap bounds)) := by
    rw [holdsOf_model_iff hts _ hu]
    refine u.holds_of_all fun b hb => ?_
    rw [contains_iff_mem]
    exact mem_map_of_mem hb
  obtain ⟨t, ht, haccepted⟩ := (hmatches _).mp ((h _ (hnumbers _)).mpr ⟨u, hu, htrue⟩)
  -- they become false like the others, and what can tell the documents apart was false before
  have haccepted' : t.AcceptedBy (model (fun _ => false) (ts.flatMap bounds)) := by
    refine (acceptedBy_model_iff hts _ _ ht ?_).mp haccepted
    intro hshort b hb
    exact hshort.contains_names hts hlong ht hu hb
  obtain ⟨t', ht', hholds⟩ := (h _ (hnumbers _)).mp ((hmatches _).mpr ⟨t, ht, haccepted'⟩)
  rw [holdsOf_model_iff hts _ ht'] at hholds
  exact t'.not_holds_of_none (fun _ _ => Bool.false_ne_true) hholds

omit hts in
theorem members_of_short {ts : List Tree} (h : ∀ t ∈ ts, t.IsShortBound) :
    (ts.filterMap fun t => simple? t.text) = (ts.flatMap bounds).map Bound.member := by
  induction ts with
  | nil => rfl
  | cons t ts ih =>
    obtain ⟨b, rfl, -⟩ := h t mem_cons_self
    have hsimple : simple? (atom b).text = some b.member := b.simple?_chars
    simp only [filterMap_cons, hsimple, ih (forall_mem_cons.mp h).2]
    rfl

theorem matches_and_iff_of_short (hne : ts ≠ []) (hshort : ∀ t ∈ ts, t.IsShortBound) (d : Document) :
    Filter.Matches (addConditions (joinWith Connective.and.word (ts.map text)) []) d ↔
      ∀ t ∈ ts, t.AcceptedBy d := by
  have hmerge : merge [] (ts.filterMap fun t => simple? t.text) =
      ts.filterMap fun t => simple? t.text := by
    refine merge_of_nodup ?_
    rw [members_of_short hshort, names_members]
    exact hts
  rw [matches_and_iff hne, hmerge]
  constructor
  · intro h t ht
    obtain ⟨m, hm, -⟩ := t.exists_member
    exact (acceptedBy_iff hm d).mpr (h m (mem_filterMap.mpr ⟨t, ht, hm⟩))
  · intro h m hm
    obtain ⟨t, ht, hsimple⟩ := mem_filterMap.mp hm
    exact (acceptedBy_iff hsimple d).mp (h t ht)

theorem keeps_and_iff (hne : ts ≠ []) : (∀ d, HasNumbers d (ts.flatMap bounds) →
      (Filter.Matches (addConditions (joinWith Connective.and.word (ts.map text)) []) d ↔
        ∀ t ∈ ts, t.HoldsOf d)) ↔ ∀ t ∈ ts, t.IsShortBound := by
  refine ⟨isShortBound_of_and hts hne, fun hshort d hd => ?_⟩
  rw [matches_and_iff_of_short hts hne hshort]
  exact forall₂_congr fun t ht =>
    (hshort t ht).acceptedBy_iff fun b hb => hd b (mem_flatMap.mpr ⟨t, ht, hb⟩)

theorem keeps_or_iff
    (hmatches : ∀ d, Filter.Matches (addConditions (joinWith Connective.or.word (ts.map text)) []) d ↔
      ∃ t ∈ ts, t.AcceptedBy d) : (∀ d, HasNumbers d (ts.flatMap bounds) →
      (Filter.Matches (addConditions (joinWith Connective.or.word (ts.map text)) []) d ↔
        ∃ t ∈ ts, t.HoldsOf d)) ↔ ∀ t ∈ ts, t.IsShortBound := by
  refine ⟨isShortBound_of_or hts hmatches, fun hshort d hd => (hmatches d).trans ?_⟩
  exact exists_congr fun t => and_congr_right fun ht =>
    (hshort t ht).acceptedBy_iff fun b hb => hd b (mem_flatMap.mpr ⟨t, ht, hb⟩)

end

/-- The filter of the text means the formula, for documents with numbers in its fields. -/
def MeaningKept (t : Tree) (s : List Char) : Prop :=
  ∀ d, HasNumbers d t.bounds → (Filter.Matches (addConditions s []) d ↔ t.HoldsOf d)

end Tree

/-- A formula no field of which occurs twice. -/
structure Expression where
  tree : Tree
  distinct : (tree.bounds.map fun b => b.field.name).Nodup

/-- **The filter means the formula iff each part of the formula is a comparison that can be read.** -/
theorem meaning_kept_iff (e : Expression) :
    (e.tree.MeaningKept e.tree.bareText ↔ ∀ t ∈ e.tree.parts, t.IsShortBound) ∧
      (e.tree.MeaningKept e.tree.text ↔ e.tree.IsShortBound) := by
  obtain ⟨t, ht⟩ := e
  have halone : t.MeaningKept t.text ↔ t.IsShortBound := by
    have hlist : [t].flatMap Tree.bounds = t.bounds := by simp
    have hkeeps := Tree.keeps_and_iff (by rwa [hlist]) (by simp)
    simpa [Tree.MeaningKept] using hkeeps
  refine ⟨?_, halone⟩
  cases t with
  | atom b =>
    show (Tree.atom b).MeaningKept (Tree.atom b).text ↔ ∀ t ∈ [Tree.atom b], t.IsShortBound
    rwa [forall_mem_singleton]
  | node k first second rest =>
    have hparts : (((first :: second :: rest).flatMap Tree.bounds).map fun b => b.field.name).Nodup := by
      rwa [← Tree.bounds_node k]
    rw [Tree.MeaningKept, Tree.bounds_node]
    cases k with
    | and =>
      simp only [Tree.holdsOf_and]
      exact Tree.keeps_and_iff hparts (cons_ne_nil _ _)
    | or =>
      simp only [Tree.holdsOf_or]
      exact Tree.keeps_or_iff hparts (Tree.matches_or_iff first second rest)

example : addConditions "(a > 1 AND b = 2) OR c = 3" [] =
    [("$or", .list [.doc [("(a > 1 AND b", .text "2)")], .doc [("c", .int 3)]])] := by
  decide +kernel

end SqlGateway.Sql.Where
