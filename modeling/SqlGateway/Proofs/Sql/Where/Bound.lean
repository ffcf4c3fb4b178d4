import SqlGateway.Proofs.Sql.Where.Formula
import SqlGateway.Proofs.Store.Matching

/-!
# What a conjunction of bounds means

Bounds that are joined by `AND` become the members of one document.  **A filter of bounds matches a document
iff the last bound on each field holds there** (`matches_bounds_iff`).
-/

namespace SqlGateway.Sql.Where

open Text List Document Filter

/-- A comparison of a field with a whole number. -/
structure Bound where
  field : FieldName
  sign : Sign
  limit : Numeral

variable {d : Document} {b : Bound} {bs : List Bound} {name : String} {n : Int}

/-- The relation between two numbers that a sign stands for. -/
def Sign.Relates : Sign → Int → Int → Prop
  | equal, m, n => m = n
  | unequal, m, n => m ≠ n
  | different, m, n => m ≠ n
  | less, m, n => m < n
  | atMost, m, n => m ≤ n
  | greater, m, n => n < m
  | atLeast, m, n => n ≤ m

instance (sign : Sign) (m n : Int) : Decidable (sign.Relates m n) := match sign with
  | .equal => inferInstanceAs (Decidable (m = n))
  | .unequal => inferInstanceAs (Decidable (m ≠ n))
  | .different => inferInstanceAs (Decidable (m ≠ n))
  | .less => inferInstanceAs (Decidable (m < n))
  | .atMost => inferInstanceAs (Decidable (m ≤ n))
  | .greater => inferInstanceAs (Decidable (n < m))
  | .atLeast => inferInstanceAs (Decidable (n ≤ m))

namespace Bound

def chars (b : Bound) : List Char :=
  comparisonText b.field.chars b.sign b.limit.chars

/-- The bound holds of a document: there is a number in its field, in the right relation to the
limit. -/
def HoldsOf (b : Bound) (d : Document) : Prop :=
  ∃ n : Int, d.get? b.field.name = some (.int n) ∧ b.sign.Relates n b.limit.value

/-- The limit is short enough to be read as a number. -/
def IsShort (b : Bound) : Prop :=
  b.limit.digits.length ≤ 4300

instance (b : Bound) : Decidable b.IsShort := inferInstanceAs (Decidable (_ ≤ _))

def member (b : Bound) : String × Value :=
  (b.field.name, b.sign.asks (literal b.limit.chars))

theorem simple?_chars (b : Bound) : simple? b.chars = some b.member := by
  rw [chars, simple?_comparisonText b.sign b.field.plainWord.toWord b.limit.plainWord.toWord]
  rfl

theorem part (b : Bound) : Part ['O', 'R'] b.chars ∧ Part ['A', 'N', 'D'] b.chars :=
  part_comparisonText b.sign b.field.plainWord b.limit.plainWord

end Bound

/-! ### What one member asks -/

theorem get_of_get? {v : Value} (h : d.get? name = some v) : d.get name = v := by
  rw [Document.get, h]
  rfl

theorem accepts_asks_int (h : d.get? name = some (.int n)) (sign : Sign) (k : Int) :
    acceptsMember d name (sign.asks (.int k)) ↔ sign.Relates n k := by
  cases sign <;>
    simp [Sign.asks, Sign.operator?, acceptsMember, holds, order?,
      isOperator, get_of_get? h, Sign.Relates, Int.compare_eq_gt, Int.compare_eq_lt] <;>
    omega

theorem accepts_asks_text (h : d.get? name = some (.int n)) (sign : Sign) (s : String) :
    acceptsMember d name (sign.asks (.text s)) ↔ sign = .unequal ∨ sign = .different := by
  cases sign <;>
    simp [Sign.asks, Sign.operator?, acceptsMember, holds, order?,
      isOperator, get_of_get? h]

/-- What the filter makes of a bound. -/
def Bound.TakenOf (b : Bound) (d : Document) : Prop :=
  (b.IsShort ∧ b.HoldsOf d) ∨ (¬ b.IsShort ∧ (b.sign = .unequal ∨ b.sign = .different))

/-- The document has whole numbers in the fields of the bounds. -/
def HasNumbers (d : Document) (bs : List Bound) : Prop :=
  ∀ b ∈ bs, ∃ n : Int, d.get? b.field.name = some (.int n)

theorem accepts_member_iff (hd : ∃ n : Int, d.get? b.field.name = some (.int n)) :
    acceptsMember d b.member.1 b.member.2 ↔ b.TakenOf d := by
  obtain ⟨n, hn⟩ := hd
  simp only [Bound.member, literal_numeral, Bound.TakenOf, Bound.IsShort]
  by_cases hlong : 4300 < b.limit.digits.length
  · rw [if_pos hlong, accepts_asks_text hn]
    simp [Nat.not_le.mpr hlong]
  · rw [if_neg hlong, accepts_asks_int hn]
    simp [Nat.not_lt.mp hlong, Bound.HoldsOf, hn]

/-! ### The members of the filter -/

def boundsText (bs : List Bound) : List Char :=
  joinWith ['A', 'N', 'D'] (bs.map Bound.chars)

/-- No later bound is on the same field. -/
def IsLast (bs : List Bound) (b : Bound) : Prop :=
  ∃ l r, bs = l ++ b :: r ∧ ∀ c ∈ r, c.field.name ≠ b.field.name

theorem addConditions_boundsText (hne : bs ≠ []) :
    addConditions (boundsText bs) [] = merge [] (bs.map Bound.member) := by
  have hparts : ∀ s ∈ bs.map Bound.chars, Part ['O', 'R'] s ∧ Part ['A', 'N', 'D'] s := by
    intro s hs
    obtain ⟨b, -, rfl⟩ := mem_map.mp hs
    exact b.part
  rw [boundsText, addConditions_joinWith_and (by simpa using hne) (fun s hs => (hparts s hs).1)
    (fun s hs => (hparts s hs).2), filterMap_map]
  exact congrArg _ (filterMap_eq_map_iff_forall_eq_some.mpr fun b _ => b.simple?_chars)

theorem names_members (bs : List Bound) :
    names (bs.map Bound.member) = bs.map fun b => b.field.name := by
  rw [names, map_map]
  rfl

theorem mem_merge_bounds {m : String × Value} :
    m ∈ merge [] (bs.map Bound.member) ↔ ∃ b, IsLast bs b ∧ b.member = m := by
  obtain ⟨name, v⟩ := m
  rw [mem_merge_iff (by simp [names])]
  simp only [not_mem_nil, and_false, or_false]
  constructor
  · rintro ⟨l, r, hmap, hr⟩
    obtain ⟨l', rest, rfl, rfl, hrest⟩ := map_eq_append_iff.mp hmap
    obtain ⟨b, r', rfl, hb, rfl⟩ := map_eq_cons_iff.mp hrest
    obtain rfl : b.field.name = name := congrArg Prod.fst hb
    rw [names_members] at hr
    exact ⟨b, ⟨l', r', rfl, fun c hc hname => hr (mem_map.mpr ⟨c, hc, hname⟩)⟩, hb⟩
  · rintro ⟨b, ⟨l, r, rfl, hr⟩, hb⟩
    obtain rfl : b.field.name = name := congrArg Prod.fst hb
    refine ⟨l.map Bound.member, r.map Bound.member, by rw [map_append, map_cons, hb], ?_⟩
    rw [names_members]
    intro hmem
    obtain ⟨c, hc, hname⟩ := mem_map.mp hmem
    exact hr c hc hname

theorem IsLast.mem (h : IsLast bs b) : b ∈ bs := by
  obtain ⟨l, r, rfl, -⟩ := h
  simp

theorem isLast_iff_of_nodup (h : (bs.map fun b => b.field.name).Nodup) : IsLast bs b ↔ b ∈ bs := by
  refine ⟨IsLast.mem, fun hb => ?_⟩
  obtain ⟨l, r, rfl⟩ := append_of_mem hb
  refine ⟨l, r, rfl, fun c hc hname => ?_⟩
  rw [map_append, map_cons, nodup_append] at h
  refine (nodup_cons.mp h.2.1).1 ?_
  exact mem_map.mpr ⟨c, hc, hname⟩

/-- **A conjunction of bounds matches where the last bound on each field holds.** -/
theorem matches_bounds_iff (bs : List Bound) (hne : bs ≠ []) (d : Document) (hd : HasNumbers d bs) :
    (Filter.Matches (addConditions (boundsText bs) []) d ↔ ∀ b, IsLast bs b → b.TakenOf d) ∧
      ((bs.map fun b => b.field.name).Nodup → (∀ b ∈ bs, b.IsShort) →
        (Filter.Matches (addConditions (boundsText bs) []) d ↔ ∀ b ∈ bs, b.HoldsOf d)) := by
  have hlast : Filter.Matches (addConditions (boundsText bs) []) d ↔ ∀ b, IsLast bs b → b.TakenOf d := by
    rw [matches_iff, addConditions_boundsText hne]
    constructor
    · intro h b hb
      exact (accepts_member_iff (hd b hb.mem)).mp (h b.member (mem_merge_bounds.mpr ⟨b, hb, rfl⟩))
    · intro h m hm
      obtain ⟨b, hb, rfl⟩ := mem_merge_bounds.mp hm
      exact (accepts_member_iff (hd b hb.mem)).mpr (h b hb)
  refine ⟨hlast, fun hdistinct hshort => hlast.trans ?_⟩
  refine forall_congr' fun b => ?_
  rw [isLast_iff_of_nodup hdistinct]
  refine imp_congr_right fun hb => ?_
  simp [Bound.TakenOf, hshort b hb]

def onceOverwritten : List Bound :=
  let a : FieldName := ⟨['a'], by decide, by decide, by decide, by decide⟩
  [⟨a, .greater, ⟨.none, [1], by decide⟩⟩, ⟨a, .less, ⟨.none, [5], by decide⟩⟩]

/-- The first of two bounds on one field is lost: the filter of `a > 1 AND a < 5` matches zero. -/
theorem matches_onceOverwritten : onceOverwritten ≠ [] ∧ HasNumbers [("a", .int 0)] onceOverwritten ∧
    Filter.Matches (addConditions (boundsText onceOverwritten) []) [("a", .int 0)] ∧
    ¬ ∀ b ∈ onceOverwritten, b.HoldsOf [("a", .int 0)] := by
  have hd : HasNumbers [("a", .int 0)] onceOverwritten := by
    intro b hb
    simp only [onceOverwritten, mem_cons, not_mem_nil, or_false] at hb
    rcases hb with rfl | rfl <;> exact ⟨0, by decide⟩
  refine ⟨by simp [onceOverwritten], hd, ?_, ?_⟩
  · refine (matches_bounds_iff onceOverwritten (by simp [onceOverwritten]) _ hd).1.mpr ?_
    rintro b ⟨l, r, h, hr⟩
    -- the first bound has a later one on its field, and the second one holds
    match l with
    | [] =>
      obtain ⟨rfl, rfl⟩ := cons.inj h
      exact (hr _ (mem_cons_self ..) rfl).elim
    | [c] =>
      obtain ⟨-, h⟩ := cons.inj h
      obtain ⟨rfl, -⟩ := cons.inj h
      exact .inl ⟨by decide, 0, by decide, by decide⟩
    | c :: e :: l => simp [onceOverwritten] at h
  · intro h
    obtain ⟨n, hn, hlimit⟩ := h _ (mem_cons_self ..)
    obtain rfl : (0 : Int) = n := by simpa [get?, FieldName.name] using hn
    exact absurd hlimit (by decide)

end SqlGateway.Sql.Where
