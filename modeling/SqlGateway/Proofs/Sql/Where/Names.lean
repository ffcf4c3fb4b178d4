import SqlGateway.Proofs.Sql.Where.Parts
import SqlGateway.Proofs.Sql.Where.Simple

/-!
# The names that a filter uses

A filter uses names in its own members and in the documents under `$or`.  **Its dollar names** are the `$or`
of a clause that `OR` joins and the texts that stand left of a comparison sign, and no other
(`mem_usedNames_iff`).
-/

namespace SqlGateway.Sql.Where

open Text Pattern List Document

variable {s condition : List Char} {n : String}

def listedNames : Value → List String
  | .list items => items.flatMap fun item =>
    match item with
    | .doc d => names d
    | _ => []
  | _ => []

/-- The names of a filter and of the alternatives that it lists under `$or`. -/
def usedNames (f : Document) : List String :=
  f.names ++ listedNames (f.get "$or")

/-- Whether a name is taken for an operator. -/
def isDollarName (name : String) : Bool :=
  name.toList.head? == some '$'

/-- The text left of the sign, in a condition that is read as a comparison. -/
def rawField? (condition : List Char) : Option (List Char) :=
  if specialForms.any fun p => p.occursIn (bareCondition condition) then none
  else (comparison? (bareCondition condition)).map Prod.fst

/-! ### Where a condition takes its field from -/

/-- A pattern that keeps as `field` a stretch of field characters, if anything. -/
def KeepsField (p : Pattern) : Prop :=
  ∀ (x y : Cursor) (l : Kept), p.Keeps x [] y l →
    ∀ piece, l.lookup "field" = some piece → ∀ c ∈ piece.chars, isFieldChar c

theorem keepsField_field : KeepsField field := by
  intro x y l h piece hpiece c hc
  obtain ⟨hspans, rfl⟩ := keeps_keep rfl h
  obtain ⟨s, -, hs, hx⟩ := exists_of_spans_many1 hspans
  simp only [lookup_cons, beq_self_eq_true, Option.some.injEq] at hpiece
  rw [← hpiece, Piece.chars, hx, pieceBefore_append] at hc
  exact hs c hc

theorem KeepsField.append {p q : Pattern} (hp : KeepsField p) (hq : q.forgets "field") :
    KeepsField (p ++ q) := by
  rintro x z m ⟨y, l, hl, hm⟩ piece hpiece
  rw [hm.lookup_of_forgets hq] at hpiece
  exact hp x y l hl piece hpiece

theorem keepsField_of_special : ∀ p ∈ specialForms, KeepsField p := by
  intro p hp
  simp only [specialForms, mem_cons, not_mem_nil, or_false] at hp
  -- the field stands first, and no later piece is kept under its name
  rcases hp with rfl | rfl | rfl | rfl | rfl | rfl
  all_goals
    repeat refine KeepsField.append ?_ rfl
    exact keepsField_field

/-- **The field of a special form** has field characters only. -/
theorem field_of_special {p : Pattern} (hp : p ∈ specialForms) {m : Match}
    (h : p.find? s = some m) : ∀ c ∈ m.get "field", isFieldChar c := by
  intro c hc
  obtain ⟨u, v, b, y, -, hkeeps⟩ := find?_keeps h
  rw [Match.get, Match.get?] at hc
  cases hpiece : m.kept.lookup "field" with
  | none => simp [hpiece] at hc
  | some piece =>
    rw [hpiece] at hc
    exact keepsField_of_special p hp _ y _ hkeeps piece hpiece c hc

theorem isDollarName_ofList (h : ∀ c ∈ s, isFieldChar c) : isDollarName (String.ofList s) = false := by
  rw [isDollarName, String.toList_ofList]
  cases s with
  | nil => rfl
  | cons c s =>
    have hc : c ≠ '$' := by
      rintro rfl
      exact absurd (h '$' (by simp)) (by decide)
    simpa using hc

/-! ### What a condition gives -/

theorem literal_ne_list (s : List Char) (items : List Value) : literal s ≠ .list items := by
  rw [literal, numberOrText]
  repeat' split
  all_goals simp

theorem demand_ne_list (operator : Option String) (s : List Char) (items : List Value) :
    demand operator (operand s) ≠ .list items := by
  cases operator with
  | none => exact literal_ne_list _ items
  | some name => simp [demand]

theorem rawField?_of_absent (h : ∀ p ∈ specialForms, p.find? (bareCondition condition) = none) :
    rawField? condition = (comparison? (bareCondition condition)).map Prod.fst := by
  rw [rawField?, if_neg]
  simp only [any_eq_true, not_exists, not_and]
  intro p hp
  rw [occursIn, h p hp]
  simp

theorem simple?_cases {name : String} {v : Value} (h : simple? condition = some (name, v)) :
    (isDollarName name → rawField? condition = some name.toList) ∧ ∀ items, v ≠ .list items := by
  rcases special_or_absent condition with ⟨p, hp, m, d, hfind, hread⟩ | habsent
  · obtain ⟨rfl, rfl⟩ := Prod.mk.inj (Option.some.inj (h.symm.trans hread))
    refine ⟨fun hdollar => ?_, by simp⟩
    rw [isDollarName_ofList (field_of_special hp hfind)] at hdollar
    cases hdollar
  · rw [simple?_of_absent habsent, Option.map_eq_some_iff] at h
    obtain ⟨⟨left, operator, right⟩, hcut, heq⟩ := h
    obtain ⟨rfl, rfl⟩ := Prod.mk.inj heq
    refine ⟨fun _ => ?_, demand_ne_list operator right⟩
    rw [rawField?_of_absent habsent, hcut, String.toList_ofList]
    rfl

theorem exists_simple?_of_rawField? (h : rawField? condition = some s) :
    ∃ v, simple? condition = some (String.ofList s, v) := by
  rw [rawField?] at h
  split at h
  case isTrue => cases h
  case isFalse hno =>
    have habsent : ∀ p ∈ specialForms, p.find? (bareCondition condition) = none := by
      simpa [occursIn] using hno
    obtain ⟨⟨left, operator, right⟩, hcut, rfl⟩ := Option.map_eq_some_iff.mp h
    exact ⟨_, by rw [simple?_of_absent habsent, hcut]; rfl⟩

/-! ### The names of a filter -/

theorem mem_names_demands_iff :
    n ∈ (demands s).names ↔ ∃ part ∈ conjuncts s, ∃ v, simple? part = some (n, v) := by
  simp only [demands, names, mem_map, mem_filterMap, Prod.exists]
  constructor
  · rintro ⟨n, v, ⟨part, hpart, h⟩, rfl⟩
    exact ⟨part, hpart, v, h⟩
  · rintro ⟨part, hpart, v, h⟩
    exact ⟨n, v, ⟨part, hpart, h⟩, rfl⟩

theorem names_ofMembers_iff {ms : Document} : n ∈ (ofMembers ms).names ↔ n ∈ ms.names := by
  rw [ofMembers, mem_names_merge_iff]
  simp [names]

theorem mem_listedNames_alternatives_iff {conditions : List (List Char)} :
    n ∈ listedNames (.list ((alternatives conditions).map .doc)) ↔
      ∃ part ∈ conditions.flatMap conjuncts, ∃ v, simple? part = some (n, v) := by
  have hmem : n ∈ listedNames (.list ((alternatives conditions).map .doc)) ↔
      ∃ d ∈ alternatives conditions, n ∈ d.names := by
    simp [listedNames, mem_flatMap]
  rw [hmem]
  constructor
  · rintro ⟨d, hd, hn⟩
    obtain ⟨s, hs, rfl⟩ := mem_map.mp (mem_filter.mp hd).1
    obtain ⟨part, hpart, hv⟩ := mem_names_demands_iff.mp (names_ofMembers_iff.mp hn)
    exact ⟨part, mem_flatMap.mpr ⟨s, hs, hpart⟩, hv⟩
  · rintro ⟨part, hpart, hv⟩
    obtain ⟨s, hs, hpart⟩ := mem_flatMap.mp hpart
    have hn : n ∈ (ofMembers (demands s)).names :=
      names_ofMembers_iff.mpr (mem_names_demands_iff.mpr ⟨part, hpart, hv⟩)
    refine ⟨_, mem_filter.mpr ⟨mem_map_of_mem hs, ?_⟩, hn⟩
    cases hd : ofMembers (demands s) with
    | nil => rw [hd] at hn; cases hn
    | cons => rfl

theorem listedNames_get {f : Document} (h : ∀ m ∈ f, ∀ items, m.2 ≠ .list items) (name : String) :
    listedNames (f.get name) = [] := by
  rw [Document.get, Document.get?]
  cases hv : f.lookup name with
  | none => rfl
  | some v =>
    have hmem : (name, v) ∈ f := by
      obtain ⟨l, r, hlr, -⟩ := lookup_eq_some_iff.mp hv
      rw [hlr]
      simp
    cases v with
    | list items => exact absurd rfl (h _ hmem items)
    | _ => rfl

/-- **The names of a clause's filter**: the fields of its simple conditions, and `$or` if the clause is
joined by `OR` and anything in it can be read. -/
theorem mem_usedNames_addConditions : n ∈ usedNames (addConditions s []) ↔
      (n = "$or" ∧ joinedBy ['O', 'R'] (strip s) ∧ ∃ part ∈ parts s, Readable part) ∨
        ∃ part ∈ parts s, ∃ v, simple? part = some (n, v) := by
  rw [addConditions_eq]
  by_cases hor : joinedBy ['O', 'R'] (strip s)
  · rw [if_pos hor]
    have hparts : parts s = (disjuncts (strip s)).flatMap conjuncts := rfl
    by_cases halt : alternatives (disjuncts (strip s)) = []
    · -- nothing can be read
      have hnone : ∀ part ∈ parts s, simple? part = none := by
        intro part hpart
        obtain ⟨d, hd, hpart⟩ := mem_flatMap.mp hpart
        exact alternatives_eq_nil_iff.mp halt d hd part hpart
      rw [halt, if_pos isEmpty_nil]
      constructor
      · intro h; cases h
      · rintro (⟨-, -, part, hpart, hread⟩ | ⟨part, hpart, v, hv⟩)
        · exact absurd hread (simple?_eq_none_iff.mp (hnone part hpart))
        · rw [hnone part hpart] at hv
          cases hv
    · rw [if_neg (by simpa using halt)]
      have hused : usedNames (set [] "$or" (.list ((alternatives (disjuncts (strip s))).map .doc))) =
          "$or" :: listedNames (.list ((alternatives (disjuncts (strip s))).map .doc)) := rfl
      rw [hused, mem_cons, mem_listedNames_alternatives_iff, hparts]
      have hread : ∃ part ∈ parts s, Readable part := by
        by_contra hno
        apply halt
        refine alternatives_eq_nil_iff.mpr fun d hd part hpart => simple?_eq_none_iff.mpr fun hr => ?_
        exact hno ⟨part, mem_flatMap.mpr ⟨d, hd, hpart⟩, hr⟩
      exact or_congr_left ⟨fun h => ⟨h, hor, hread⟩, And.left⟩
  · rw [if_neg hor]
    have hparts : parts s = conjuncts (strip s) := by
      rw [parts, disjuncts, joined, if_neg hor, flatMap_singleton]
    have hvalues : ∀ m ∈ merge [] (demands (strip s)), ∀ items, m.2 ≠ .list items := by
      intro m hm
      rcases mem_of_mem_merge hm with hm | hm
      · cases hm
      · obtain ⟨part, -, hpart⟩ := mem_filterMap.mp hm
        exact (simple?_cases hpart).2
    rw [usedNames, listedNames_get hvalues, append_nil, mem_names_merge_iff,
      mem_names_demands_iff, hparts]
    simp [names, hor]

/-- **The dollar names of a filter.** -/
theorem mem_usedNames_iff (text : List Char) (name : String) (hname : isDollarName name = true) :
    name ∈ usedNames (filter text) ↔ ∃ clause, clause? text = some clause ∧
      ((name = "$or" ∧ joinedBy ['O', 'R'] (strip clause) = true ∧ ∃ part ∈ parts clause, Readable part) ∨
        ∃ part ∈ parts clause, rawField? part = some name.toList) := by
  have hfield : ∀ part, (∃ v, simple? part = some (name, v)) ↔ rawField? part = some name.toList := by
    intro part
    constructor
    · rintro ⟨v, hv⟩
      exact (simple?_cases hv).1 hname
    · intro h
      obtain ⟨v, hv⟩ := exists_simple?_of_rawField? h
      exact ⟨v, by rw [hv, String.ofList_toList]⟩
  rw [filter]
  cases clause? text with
  | none => simp [usedNames, Document.names, listedNames, Document.get, Document.get?, Value.ofOption]
  | some clause =>
    have hempty : (if clause.isEmpty then [] else addConditions clause []) = addConditions clause [] := by
      cases clause with
      | nil => decide
      | cons => rfl
    simp only [hempty, mem_usedNames_addConditions, hfield, Option.some.injEq, exists_eq_left']

theorem mem_usedNames_where : isDollarName "$where" = true ∧
    "$where" ∈ usedNames (filter "SELECT * FROM t WHERE a = 1 AND $where = 'x'".toList) := by
  refine ⟨by decide, (mem_usedNames_iff _ "$where" (by decide)).mpr ?_⟩
  exact ⟨"a = 1 AND $where = 'x'".toList, by decide +kernel, .inr ⟨"$where = 'x'".toList,
    by decide +kernel, by decide +kernel⟩⟩

end SqlGateway.Sql.Where
