import SqlGateway.Proofs.Plan.Condition
import SqlGateway.Proofs.Sql.Where.Quoted

/-!
# Quoted texts as data

`quoted_text_kept_iff` says when a quoted text without quotes inside is data: **a deletion asks for it iff it
is calm**, and **an insertion stores it iff it has no closing parenthesis and no semicolon**.
-/

namespace SqlGateway.Plan

open Text Pattern Sql Insert List Where Except

/-! ### Deletions -/

def textDeletion (t : TableName) (f : Where.FieldName) (s : List Char) : List Char :=
  withCondition (deletionHead t) (quotedCondition f.chars s)

theorem deletion_iff_calm (t : TableName) (f : Where.FieldName) {s : List Char} (hquote : '\'' ∉ s)
    (p : Planner) : (∃ plan, (p.plan (textDeletion t f s)).1 = .ok plan ∧
      changeFilter? plan = some (.doc [(f.name, .text (String.ofList s))])) ↔ Where.Calm (quotedText s) := by
  have hfilter := filter_quoted_iff f.plainWord.toWord (opening_deletionHead t) hquote
  have hchanges : ChangesBy (filter (textDeletion t f s)) (quotedCondition f.chars s)
      (p.plan (textDeletion t f s)).1 := changesBy_deletion t _ p
  rw [← hfilter]
  constructor
  · rintro ⟨plan, hplan, hasks⟩
    rcases hchanges with ⟨plan', hplan', hasks'⟩ | ⟨hrefused, -⟩
    · obtain rfl := ok.inj (hplan.symm.trans hplan')
      exact Value.doc.inj (Option.some.inj (hasks'.symm.trans hasks))
    · rw [hplan] at hrefused
      cases hrefused
  · intro hasks
    rcases hchanges with ⟨plan, hplan, hasks'⟩ | ⟨-, hsemicolon, -⟩
    · exact ⟨plan, hplan, by rw [hasks']; exact congrArg (fun d => some (Value.doc d)) hasks⟩
    · -- a calm text has no semicolon, so the deletion is not refused
      have hsemicolon' : ';' ∈ f.chars ++ [' ', '=', ' '] ++ quotedText s := by
        simpa [quotedCondition, comparisonText, Where.Sign.chars] using hsemicolon
      rcases mem_append.mp hsemicolon' with hmem | hmem
      · rcases mem_append.mp hmem with hmem | hmem
        · exact absurd hmem (f.plainWord.not_mem (by decide))
        · exact absurd hmem (by decide)
      · exact absurd hmem (hfilter.mp hasks).no_semicolon

/-! ### Insertions -/

def insertedDocument? (plan : Value) : Option Value :=
  match plan with
  | .doc members => Document.get? members "document"
  | _ => none

theorem exists_read_of_plan {text : List Char} {plan : Value} {d : Document}
    (hkind : statementKind? text = some "INSERT") {p : Planner} (hplan : (p.plan text).1 = .ok plan)
    (hdocument : insertedDocument? plan = some (.doc d)) : ∃ table, read text = .ok ⟨table, [d]⟩ := by
  rw [plan_insert hkind] at hplan
  cases hread : read text with
  | error failure =>
    rw [hread] at hplan
    cases hplan
  | ok i =>
    obtain ⟨table, documents⟩ := i
    rw [hread] at hplan
    rcases documents with _ | ⟨_ | ⟨m, e⟩, _ | ⟨next, rest⟩⟩
    · cases hplan
    · cases hplan
    · obtain rfl := ok.inj hplan
      cases hdocument
    · obtain rfl := ok.inj hplan
      obtain rfl := Value.doc.inj (Option.some.inj hdocument)
      exact ⟨table, rfl⟩
    · obtain rfl := ok.inj hplan
      cases hdocument

def textInsertion (n : SmallName) (c : Identifier) (s : List Char) : List Char :=
  insertionText n.chars c.chars (rowText (quotedText s))

theorem columnNames_identifier (c : Identifier) : columnNames c.chars = [c.name] :=
  columnNames_commaList (cons_ne_nil c [])

theorem exists_value_of_document {c : Identifier} {rows : List (List (List Char))} {s : List Char}
    (h : [(c.name, Value.text (String.ofList s))] ∈ rows.filterMap (document? (columnNames c.chars))) :
    ∃ row ∈ rows, ∃ w ∈ row, s.length ≤ w.length := by
  obtain ⟨row, hrow, hdocument⟩ := mem_filterMap.mp h
  rw [columnNames_identifier, document?] at hdocument
  split at hdocument
  case isTrue hlength =>
    obtain ⟨w, rfl⟩ := length_eq_one_iff.mp (beq_iff_eq.mp hlength).symm
    have hvalue : literal w = .text (String.ofList s) :=
      (Prod.mk.inj (cons.inj (Option.some.inj hdocument)).1).2
    refine ⟨[w], hrow, w, by simp, ?_⟩
    have htrim := length_strip_le w
    rcases eq_of_literal_eq_text hvalue with ⟨-, rfl⟩ | rfl
    · rw [length_inner]
      omega
    · exact htrim
  case isFalse => cases hdocument

theorem exists_value_of_read {n : SmallName} {c : Identifier} {s piece tail : List Char} {table : String}
    (hhead : (piece ++ tail).head? = some '(') (hlast : (piece ++ tail).getLast? = some ')')
    (hpiece : ';' ∉ piece) (htail : tail.head?.all (· == ';'))
    (hread : read (insertionText n.chars c.chars (piece ++ tail)) =
      .ok ⟨table, [[(c.name, .text (String.ofList s))]]⟩) :
    ∃ row ∈ rows (strip piece), ∃ w ∈ row, s.length ≤ w.length := by
  rw [read_into n.toIdentifier _ _ (c.not_mem (by decide)) hhead hpiece htail hlast] at hread
  split at hread
  · cases hread
  split at hread
  · cases hread
  obtain ⟨-, hdocuments⟩ := Insertion.mk.inj (ok.inj hread)
  exact exists_value_of_document (by rw [hdocuments]; simp)

theorem insertion_iff_plain (n : SmallName) (c : Identifier) {s : List Char} (hquote : '\'' ∉ s) (p : Planner) :
    (∃ plan, (p.plan (textInsertion n c s)).1 = .ok plan ∧
      insertedDocument? plan = some (.doc [(c.name, .text (String.ofList s))])) ↔ ')' ∉ s ∧ ';' ∉ s := by
  constructor
  · rintro ⟨plan, hplan, hdocument⟩
    have hkind : statementKind? (textInsertion n c s) = some "INSERT" := by
      refine (statementKind?_insertionText n.chars).1.resolve_right fun hunknown => ?_
      cases (plan_of_unknown hunknown p).symm.trans hplan
    obtain ⟨table, hread⟩ := exists_read_of_plan hkind hplan hdocument
    have hsemicolon : ';' ∉ s := by
      intro hmem
      obtain ⟨s₁, s₂, rfl, hfirst⟩ := eq_append_cons_of_mem hmem
      have htext : rowText (quotedText (s₁ ++ ';' :: s₂)) =
          ('(' :: '\'' :: s₁) ++ (';' :: (s₂ ++ ['\'', ')'])) := by simp [rowText, quotedText]
      rw [textInsertion, htext] at hread
      obtain ⟨row, hrow, w, hw, hlength⟩ :=
        exists_value_of_read rfl (by simp [getLast?_cons]) (by simpa using hfirst) rfl hread
      have hvalue := length_value_le hrow hw
      have htrim := length_strip_le ('(' :: '\'' :: s₁)
      simp only [length_append, length_cons] at hlength htrim
      omega
    refine ⟨fun hclose => ?_, hsemicolon⟩
    have hplain : ';' ∉ rowText (quotedText s) := by simpa [rowText, quotedText] using hsemicolon
    have hlast : (rowText (quotedText s)).getLast? = some ')' := by
      rw [rowText, ← cons_append, getLast?_concat]
    rw [textInsertion, ← append_nil (rowText (quotedText s))] at hread
    obtain ⟨row, hrow, w, hw, hlength⟩ :=
      exists_value_of_read rfl (by rw [append_nil, hlast]) hplain rfl hread
    have htrim : strip (rowText (quotedText s)) = rowText (quotedText s) := by
      refine strip_eq_self ?_ ?_
      · rintro d ⟨⟩
        decide
      · rw [hlast]
        rintro d ⟨⟩
        decide
    rw [htrim] at hrow
    have hvalue := length_value_lt hquote hclose hrow hw
    omega
  · rintro ⟨hclose, hsemicolon⟩
    let batch : Batch := ⟨[c], by simp, by simp, [[.text s fun d hd hmem => by
      simp only [mem_cons, not_mem_nil, or_false] at hmem
      rcases hmem with rfl | rfl | rfl
      · exact hquote hd
      · exact hclose hd
      · exact hsemicolon hd]], by simp, by simp⟩
    refine ⟨insertionPlan n.name batch.documents, ?_, rfl⟩
    exact plan_of_read ((statementKind?_insertionText n.chars).2 (batch.semicolon_not_mem_text n))
      (tableOfKind?_insertionText n batch.ends_values.2) (batch.read_text n) batch.documents_ne_nil
      (fun _ hd => batch.document_ne_nil hd) p

/-! ### Both -/

/-- **Which quoted texts are data.** -/
theorem quoted_text_kept_iff (t : TableName) (f : Where.FieldName) (n : SmallName) (c : Identifier)
    (s : List Char) (hquote : '\'' ∉ s) (p : Planner) : ((∃ plan, (p.plan (textDeletion t f s)).1 = .ok plan ∧
        changeFilter? plan = some (.doc [(f.name, .text (String.ofList s))])) ↔ Where.Calm (quotedText s)) ∧
    ((∃ plan, (p.plan (textInsertion n c s)).1 = .ok plan ∧
        insertedDocument? plan = some (.doc [(c.name, .text (String.ofList s))])) ↔ ')' ∉ s ∧ ';' ∉ s) :=
  ⟨deletion_iff_calm t f hquote p, insertion_iff_plain n c hquote p⟩

/-- A text with a closing parenthesis is asked for, but it is not stored. -/
theorem quoted_parenthesis_kept : '\'' ∉ ['a', ')'] ∧
    (∃ plan, (Planner.empty.plan "DELETE FROM t WHERE f = 'a)'".toList).1 = .ok plan ∧
      changeFilter? plan = some (.doc [("f", .text "a)")])) ∧
    ¬ ∃ plan, (Planner.empty.plan "INSERT INTO t (c) VALUES ('a)')".toList).1 = .ok plan ∧
      insertedDocument? plan = some (.doc [("c", .text "a)")]) := by
  have hkept := quoted_text_kept_iff
    ⟨['t'], by decide, by decide, by decide, by decide⟩ ⟨['f'], by decide, by decide, by decide, by decide⟩
    ⟨⟨['t'], by decide, by decide⟩, by decide⟩ ⟨['c'], by decide, by decide⟩ ['a', ')'] (by decide)
    Planner.empty
  refine ⟨by decide, hkept.1.mpr ⟨by decide, by decide, by decide, by decide, by decide⟩, fun h => ?_⟩
  exact (hkept.2.mp h).1 (by decide)

end SqlGateway.Plan
