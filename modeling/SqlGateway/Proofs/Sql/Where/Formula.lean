import SqlGateway.Proofs.Sql.Where.Comparison
import SqlGateway.Proofs.Sql.Where.Parts

/-!
# Formulas as they are written

A formula is a disjunction of conjunctions of comparisons, in each of which no field occurs twice.  **Reading
inverts writing** (`addConditions_formula`).
-/

namespace SqlGateway.Sql.Where

open Text List Document

/-- A comparison of a field with a literal. -/
structure Comparison where
  field : FieldName
  sign : Sign
  literal : Literal

/-- A conjunction of comparisons of different fields. -/
structure Conjunction where
  atoms : List Comparison
  ne_nil : atoms ≠ []
  distinct : (atoms.map fun a => a.field.name).Nodup

structure Formula where
  conjunctions : List Conjunction
  ne_nil : conjunctions ≠ []

def Comparison.chars (a : Comparison) : List Char :=
  comparisonText a.field.chars a.sign a.literal.chars

def Comparison.member (a : Comparison) : String × Value :=
  (a.field.name, a.sign.asks a.literal.value)

def Conjunction.chars (c : Conjunction) : List Char :=
  joinWith ['A', 'N', 'D'] (c.atoms.map Comparison.chars)

def Conjunction.filter (c : Conjunction) : Document :=
  c.atoms.map Comparison.member

def Formula.chars (φ : Formula) : List Char :=
  joinWith ['O', 'R'] (φ.conjunctions.map Conjunction.chars)

def Formula.filter (φ : Formula) : Document :=
  match φ.conjunctions with
  | [c] => c.filter
  | cs => [("$or", .list (cs.map fun c => .doc c.filter))]

/-! ### Comparisons joined by `AND` -/

section

variable {texts : List (List Char)} (hne : texts ≠ [])
include hne

theorem demands_joinWith_and (hparts : ∀ s ∈ texts, Part ['A', 'N', 'D'] s) :
    demands (joinWith ['A', 'N', 'D'] texts) = texts.filterMap simple? := by
  rw [demands, conjuncts, joined_joinWith solidWord_and (by decide) texts hne hparts]

theorem part_joinWith_and (hparts : ∀ s ∈ texts, Part ['O', 'R'] s) :
    Part ['O', 'R'] (joinWith ['A', 'N', 'D'] texts) := by
  refine Part.joinWith solidWord_or ?_ texts hne hparts
  exact Part.ofWord solidWord_or (by decide) (by decide) (by decide) (by decide)

theorem addConditions_joinWith_and (hor : ∀ s ∈ texts, Part ['O', 'R'] s)
    (hand : ∀ s ∈ texts, Part ['A', 'N', 'D'] s) : addConditions (joinWith ['A', 'N', 'D'] texts) [] =
      merge [] (texts.filterMap simple?) := by
  have hpart := part_joinWith_and hne hor
  rw [addConditions_eq, hpart.trimmed, hpart.not_joinedBy, if_neg (by simp), demands_joinWith_and hne hand]

end

/-! ### Conjunctions joined by `OR` -/

theorem Comparison.simple?_chars (a : Comparison) : simple? a.chars = some a.member := by
  rw [chars, simple?_comparisonText a.sign a.field.plainWord.toWord a.literal.plainWord.toWord, literal_chars]
  rfl

theorem Comparison.part (a : Comparison) : Part ['O', 'R'] a.chars ∧ Part ['A', 'N', 'D'] a.chars :=
  part_comparisonText a.sign a.field.plainWord a.literal.plainWord

namespace Conjunction

variable (c : Conjunction)

theorem part : Part ['O', 'R'] c.chars := by
  refine part_joinWith_and (by simpa using c.ne_nil) ?_
  intro s hs
  obtain ⟨a, -, rfl⟩ := mem_map.mp hs
  exact a.part.1

theorem demands_chars : demands c.chars = c.filter := by
  rw [chars, demands_joinWith_and (by simpa using c.ne_nil), filterMap_map, filter]
  · exact filterMap_eq_map_iff_forall_eq_some.mpr fun a _ => a.simple?_chars
  · intro s hs
    obtain ⟨a, -, rfl⟩ := mem_map.mp hs
    exact a.part.2

theorem merge_filter : merge [] c.filter = c.filter := by
  refine merge_of_nodup ?_
  simpa [names, filter, Comparison.member, Function.comp_def] using c.distinct

theorem filter_ne_nil : c.filter ≠ [] := by
  simpa [filter] using c.ne_nil

end Conjunction

theorem alternatives_chars (cs : List Conjunction) :
    alternatives (cs.map Conjunction.chars) = cs.map Conjunction.filter := by
  have hmap : (cs.map Conjunction.chars).map (fun s => ofMembers (demands s)) =
      cs.map Conjunction.filter := by
    rw [map_map]
    refine map_congr_left fun c _ => ?_
    simp only [Function.comp_apply, c.demands_chars, ofMembers, c.merge_filter]
  rw [alternatives, hmap, filter_eq_self]
  intro d hd
  obtain ⟨c, -, rfl⟩ := mem_map.mp hd
  simpa using c.filter_ne_nil

/-- **Reading inverts writing.** -/
theorem addConditions_formula (φ : Formula) : addConditions φ.chars [] = φ.filter := by
  obtain ⟨cs, hne⟩ := φ
  have hparts : ∀ s ∈ cs.map Conjunction.chars, Part ['O', 'R'] s := by
    intro s hs
    obtain ⟨c, -, rfl⟩ := mem_map.mp hs
    exact c.part
  have hstrip : strip (joinWith ['O', 'R'] (cs.map Conjunction.chars)) =
      joinWith ['O', 'R'] (cs.map Conjunction.chars) :=
    strip_joinWith (by decide) (by decide) _ fun s hs => ⟨(hparts s hs).ne_nil, (hparts s hs).trimmed⟩
  have hsplit : disjuncts (joinWith ['O', 'R'] (cs.map Conjunction.chars)) = cs.map Conjunction.chars :=
    joined_joinWith solidWord_or (by decide) _ (by simpa using hne) hparts
  rw [Formula.chars, addConditions_eq, hstrip, hsplit, alternatives_chars]
  match cs with
  | [] => exact absurd rfl hne
  | [c] =>
    rw [map_singleton, joinWith_singleton, c.part.not_joinedBy, if_neg (by simp),
      c.demands_chars, c.merge_filter]
    rfl
  | c :: next :: cs =>
    rw [map_cons, map_cons, joinedBy_joinWith (by decide) c.part, if_pos rfl, if_neg (by simp)]
    simp [Formula.filter, Document.set, Function.comp_def]

example : addConditions "a >= 1 AND b <> 'x' OR c = NULL" [] =
    [("$or", .list [.doc [("a", .doc [("$gte", .int 1)]), ("b", .doc [("$ne", .text "x")])],
      .doc [("c", .null)]])] := by
  decide +kernel

end SqlGateway.Sql.Where
