import SqlGateway.Proofs.Plan.Insert

/-!
# The documents that an insertion inserts

A text of the kind `INSERT` is refused, or it inserts documents that have members.  Rows that do not fit are
passed over; **the documents that are left have the columns as their names** (`insertion_refused_or_full`).
-/

namespace SqlGateway

open List Document

namespace Sql.Insert

open Text Pattern

/-! ### Columns -/

/-- What is read as the column list of an insertion. -/
def columnList? (text : List Char) : Option (List Char) :=
  (columnsPattern.find? (strip text)).map (·.get "columns")

theorem exists_matchAt?_of_prefers {p q : Pattern} {s t : List Char} {k : Kept} {name : String}
    (hp : p.Prefers s [] t k) (hq : q.forgets name) (hspans : ∀ b, ∃ y, q.Spans ⟨b, t⟩ y) :
    ∃ m, (p ++ q).matchAt? 0 none s = some m ∧ m.kept.lookup name = k.lookup name := by
  obtain ⟨b, hp⟩ := hp none
  obtain ⟨y, hy⟩ := hspans b
  have hsome : (q.run ⟨b, t⟩ k fun there kept =>
      some (Match.mk 0 (pieceBefore there.rest s) there.rest kept)).isSome :=
    run_complete hy (fun _ => rfl) k
  obtain ⟨m, hm⟩ := Option.isSome_iff_exists.mp hsome
  obtain ⟨z, l, hkeeps, hl⟩ := run_keeps q _ _ _ _ hm
  obtain rfl := Option.some.inj hl
  exact ⟨_, (hp _ hsome).trans hm, hkeeps.lookup_of_forgets hq⟩

theorem columnList?_of_listed {text list rest : List Char} (h : Listed list rest (strip text)) :
    columnList? text = some list := by
  obtain ⟨behind, hprefers⟩ := h.prefers
  have hforgets : (gap ++ keep "rows" (few anyChar) ++ ending).forgets "columns" := by decide
  obtain ⟨m, hm, hkept⟩ := exists_matchAt?_of_prefers hprefers hforgets fun b => by
      obtain ⟨b', hpass⟩ := takes_passes [] (fun _ _ => rfl) b
      rw [append_nil] at hpass
      exact ⟨⟨b', []⟩, ⟨b', []⟩, ⟨⟨b, rest⟩, .stay _, hpass⟩, .inr ⟨rfl, rfl⟩⟩
  have hfound : columnsPattern.find? (strip text) = some m := findFrom?_of_matchAt? hm
  rw [columnList?, hfound, Option.map_some, Match.get, Match.get?, hkept]
  exact congrArg some (pieceBefore_append list behind)

/-! ### Documents -/

/-- Documents with members, which have the columns as their names if there are columns. -/
structure Full (columns : Option (List String)) (documents : List Document) : Prop where
  ne_nil : documents ≠ []
  full : ∀ d ∈ documents, d ≠ []
  names : ∀ names ∈ columns, ∀ d ∈ documents, d.names = names.eraseDups

theorem ne_nil_of_mem_rows {s : List Char} {row : List (List Char)} (h : row ∈ rows s) : row ≠ [] := by
  simpa using (mem_filter.mp h).2

section

variable {names : List String} {row : List (List Char)} (hlength : names.length = row.length)
include hlength

theorem names_ofRow : (Document.ofMembers (names.zip (row.map literal))).names = names.eraseDups := by
  rw [Document.names_ofMembers, Document.names, map_fst_zip (by simp [hlength])]

theorem ofRow_ne_nil (hrow : row ≠ []) : ofMembers (names.zip (row.map literal)) ≠ [] := by
  rw [ofMembers, ne_eq, merge_eq_nil_iff, zip_eq_nil_iff]
  rintro ⟨-, rfl | hnil⟩
  · exact hrow (length_eq_zero_iff.mp hlength.symm)
  · exact hrow (map_eq_nil_iff.mp hnil)

end

theorem of_mem_fitting {columns : List String} {s : List Char} {d : Document}
    (h : d ∈ (rows s).filterMap (document? columns)) : d ≠ [] ∧ d.names = columns.eraseDups := by
  obtain ⟨row, hrow, hd⟩ := mem_filterMap.mp h
  rw [document?] at hd
  split at hd
  case isTrue hlength =>
    obtain rfl := Option.some.inj hd
    exact ⟨ofRow_ne_nil (beq_iff_eq.mp hlength) (ne_nil_of_mem_rows hrow), names_ofRow (beq_iff_eq.mp hlength)⟩
  case isFalse => cases hd

theorem full_of_read {text : List Char} {i : Insertion} (h : read text = .ok i) :
    Full ((columnList? text).map columnNames) i.documents := by
  rw [columnList?]
  simp only [read] at h
  split at h
  case h_1 => cases h
  split at h
  case h_1 m hcolumns =>
    -- rows that do not fit are left out, and no row is an error
    rw [hcolumns]
    split at h
    case isTrue => cases h
    split at h
    case isTrue => cases h
    case isFalse hsome =>
      obtain rfl := Except.ok.inj h
      refine ⟨by simpa using hsome, fun d hd => (of_mem_fitting hd).1, ?_⟩
      rintro names ⟨⟩ d hd
      exact (of_mem_fitting hd).2
  case h_2 hcolumns =>
    rw [hcolumns]
    split at h
    case h_2 => cases h
    split at h
    case isTrue => cases h
    case isFalse hsome =>
      obtain rfl := Except.ok.inj h
      refine ⟨by simpa using hsome, fun d hd => ?_, by rintro names ⟨⟩⟩
      obtain ⟨row, hrow, rfl⟩ := mem_map.mp hd
      exact ofRow_ne_nil (by simp [numberedColumns]) (ne_nil_of_mem_rows hrow)

end Sql.Insert

namespace Plan

open Sql Insert

/-- The plan inserts the documents: one by itself, two or more together. -/
inductive Inserts : Value → List Document → Prop
  | one (table : Value) (d : Document) : Inserts
      (.doc [("operation", .text "insert"), ("collection", table), ("document", .doc d)]) [d]
  | many (table : Value) (documents : List Document) (h : 2 ≤ documents.length) : Inserts
      (.doc [("operation", .text "INSERT_MANY"), ("collection", table),
        ("documents", .list (documents.map .doc))]) documents

theorem inserts_of_full {columns : Option (List String)} {documents : List Document} (h : Full columns documents)
    (table : Value) : ∃ plan, insertOutcome table (some documents) = .ok plan ∧ Inserts plan documents := by
  obtain ⟨d, ds, rfl⟩ := exists_cons_of_ne_nil h.ne_nil
  cases ds with
  | nil => exact ⟨_, if_neg (by simpa using h.full d (by simp)), .one table d⟩
  | cons e ds => exact ⟨_, rfl, .many table _ (by simp)⟩

/-- **An insertion never inserts an empty or ragged batch.** -/
theorem insertion_refused_or_full {text : List Char} (hkind : statementKind? text = some "INSERT") (p : Planner) :
    ((∃ refusal, (p.plan text).1 = .error (.refused refusal)) ∨
      ∃ plan documents, (p.plan text).1 = .ok plan ∧ Inserts plan documents ∧
        Full ((columnList? text).map columnNames) documents) ∧
      ∀ list rest, Listed list rest (Text.strip text) → columnList? text = some list := by
  refine ⟨?_, fun list rest hlisted => columnList?_of_listed hlisted⟩
  rw [plan_insert hkind]
  cases hread : Insert.read text with
  | error failure => exact .inl ⟨_, rfl⟩
  | ok i =>
    have hfull := full_of_read hread
    obtain ⟨plan, hplan, hinserts⟩ := inserts_of_full hfull (.ofText? (tableOfKind? (some "INSERT") text))
    exact .inr ⟨plan, _, hplan, hinserts, hfull⟩

/-- An insertion whose list names a column twice, with a row that does not fit. -/
def repeatedColumn : List Char :=
  insertionText "t" "a, b, a" "(1, 2, 3), (4), (5, 6, 7)"

/-- What is left are documents with the two columns. -/
theorem repeatedColumn_full : statementKind? repeatedColumn = some "INSERT" ∧
    ∃ plan documents, (Planner.empty.plan repeatedColumn).1 = .ok plan ∧ Inserts plan documents ∧
      Full (some ["a", "b", "a"]) documents := by
  have hkind : statementKind? repeatedColumn = some "INSERT" :=
    (statementKind?_insertionText "t".toList).2 (by decide)
  obtain ⟨hplan, hlist⟩ := insertion_refused_or_full hkind Planner.empty
  have hlisted := listed_insertionText ⟨['t'], by decide, by decide⟩ (by decide : ')' ∉ "a, b, a".toList)
    "(1, 2, 3), (4), (5, 6, 7)".toList
  refine ⟨hkind, hplan.resolve_left ?_⟩
  rintro ⟨refusal, hrefused⟩
  have hsome : (insertOutcome (.ofText? (tableOfKind? (some "INSERT") repeatedColumn))
      ((Insert.read repeatedColumn).toOption.map Insertion.documents)).toOption.isSome := by
    decide +kernel
  rw [← plan_insert hkind Planner.empty, hrefused] at hsome
  cases hsome

end Plan

end SqlGateway
