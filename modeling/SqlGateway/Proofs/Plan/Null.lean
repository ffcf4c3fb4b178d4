import SqlGateway.Proofs.Plan.Condition
import SqlGateway.Proofs.Sql.Where.Null
import SqlGateway.Proofs.Store.Matching

/-!
# Nulls that are inserted and tested

An insertion gives its document a member for every column, and a test for null asks whether the member is
there. So **no inserted document is found by `IS NULL`** (`insertion_not_isNull`), and every one by `IS NOT
NULL`.
-/

namespace SqlGateway.Plan

open Text Sql Insert List

/-- Whether a document has what a member of a filter asks. -/
def meets (d : Document) : String × Value → Bool
  | (name, .doc [("$exists", .bool present)]) => d.has name == present
  | (name, v) => Filter.acceptsMember d name v

/-- The document has what every member of the filter asks. -/
def Meets (filter d : Document) : Prop :=
  ∀ m ∈ filter, meets d m

instance (filter d : Document) : Decidable (Meets filter d) :=
  inferInstanceAs (Decidable (∀ m ∈ filter, meets d m))

theorem meets_nullTest (c : Identifier) (present : Bool) {o : List Char} (ho : Where.Opening o) (d : Document) :
    Meets (Where.filter (o ++ " WHERE " ++ unwords (Where.nullTest c.chars present))) d ↔
      d.has c.name = present := by
  rw [Where.filter_nullTest c present ho, Meets, forall_mem_singleton, meets, beq_iff_eq]

theorem has_column {grid : Grid} {d : Document} (hd : d ∈ grid.documents) {c : Identifier}
    (hc : c ∈ grid.columns) : d.has c.name := by
  obtain ⟨row, hrow, rfl⟩ := mem_map.mp hd
  have hname : c.name ∈ Document.names ((grid.columns.map Identifier.name).zip (row.map literal)) := by
    rw [grid.names_document hrow]
    exact mem_map_of_mem hc
  obtain ⟨m, hm, hfst⟩ := mem_map.mp hname
  rw [Document.has, Document.get?, lookup_isSome_iff]
  exact ⟨m, hm, by simp [hfst]⟩

/-- **No inserted document is found by `IS NULL`**, whatever its cells are, and every one is found by
`IS NOT NULL`. -/
theorem insertion_not_isNull (t : Identifier) (grid : Grid) (p : Planner) :
    (p.plan (grid.text t)).1 = .ok (insertionPlan t.table grid.documents) ∧
    ∀ d ∈ grid.documents, ∀ c ∈ grid.columns, ∀ o, Where.Opening o →
      ¬ Meets (Where.filter (o ++ " WHERE ".toList ++ unwords (Where.nullTest c.chars false))) d ∧
      Meets (Where.filter (o ++ " WHERE ".toList ++ unwords (Where.nullTest c.chars true))) d := by
  refine ⟨plan_grid t grid p, fun d hd c hc o ho => ⟨fun h => ?_, ?_⟩⟩
  · have hmissing := (meets_nullTest c false ho d).mp h
    rw [has_column hd hc] at hmissing
    cases hmissing
  · exact (meets_nullTest c true ho d).mpr (has_column hd hc)

/-- The null of an insertion is stored, and the test for null does not find it. -/
theorem insertion_not_isNull_null : (Planner.empty.plan "INSERT INTO T (a, b) VALUES (1, NULL)".toList).1 =
        .ok (insertionPlan "t" [[("a", .int 1), ("b", .null)]]) ∧ Where.Opening "SELECT * FROM t".toList ∧
      ¬ Meets (Where.filter "SELECT * FROM t WHERE b IS NULL".toList) [("a", .int 1), ("b", .null)] ∧
      Meets (Where.filter "SELECT * FROM t WHERE b IS NOT NULL".toList) [("a", .int 1), ("b", .null)] := by
  have hselect : Where.Opening "SELECT * FROM t".toList :=
    opening_selectionHead ⟨['t'], by decide, by decide, by decide, by decide⟩
  have hone : IsCell ['1'] := ⟨by decide, ⟨whole_of_plain (by decide), by decide⟩, by decide⟩
  have hnull : IsCell "NULL".toList := isCell_chars .null
  obtain ⟨hplan, hfound⟩ := insertion_not_isNull ⟨['T'], by decide, by decide⟩
    ⟨[⟨['a'], by decide, by decide⟩, ⟨['b'], by decide, by decide⟩], by decide, by decide,
      [[['1'], "NULL".toList]], by decide,
      forall_mem_singleton.mpr (forall_mem_cons.mpr ⟨hone, forall_mem_singleton.mpr hnull⟩),
      by decide⟩ Planner.empty
  exact ⟨hplan, hselect, hfound _ (mem_singleton.mpr rfl) ⟨['b'], by decide, by decide⟩
    (mem_cons_of_mem _ (mem_singleton.mpr rfl)) _ hselect⟩

end SqlGateway.Plan
