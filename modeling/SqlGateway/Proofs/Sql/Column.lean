import SqlGateway.Proofs.Sql.Insert
import SqlGateway.Statement

/-!
# The columns of a table

A definition is a name, a type and perhaps a mark such as `NOT NULL` (`Definition`).  **The definitions are
read as columns in their order** (`readAll_definitions`), without those that mention `INDEX` or `KEY`, which
are taken for constraints (`isLost`).
-/

namespace SqlGateway.Sql

open Text Pattern List

/-! ### Definitions without parentheses -/

namespace Column

def noConstraints : Document :=
  [("primary_keys", .list []), ("foreign_keys", .list []), ("indexes", .list []),
    ("unique_constraints", .list [])]

section

variable {s : List Char} (h : '(' ∉ s)
include h

theorem not_spans_nameList {x y : Cursor} (hx : x.rest <:+ s) (name : String) :
    ¬ (nameList name).Spans x y := by
  rintro ⟨z, ⟨z', hopen, -⟩, -⟩
  refine h (hx.subset ?_)
  rw [exists_of_spans_exactly hopen]
  simp

theorem constraints_of_flat : constraints s = noConstraints := by
  have hprimary : primaryKeyPattern.find? s = none := by
    refine find?_eq_none fun u v b y huv hspans => ?_
    obtain ⟨z, hz, hlist⟩ := hspans
    exact not_spans_nameList h ((suffix_of_spans hz).trans ⟨u, huv.symm⟩) _ hlist
  have hforeign : foreignKeyPattern.findAll s = [] := by
    refine findAllFrom_eq_nil fun u v b y huv hspans => ?_
    obtain ⟨z, hz, hlist⟩ := hspans
    exact not_spans_nameList h ((suffix_of_spans hz).trans ⟨u, huv.symm⟩) _ hlist
  rw [constraints, hprimary, hforeign]
  rfl

end

/-! ### Definitions -/

/-- What a definition may say of its column. -/
inductive Mark where
  | notNull
  | unique
  | primaryKey
  deriving DecidableEq

def Mark.words : Mark → List (List Char)
  | .notNull => ["NOT", "NULL"]
  | .unique => ["UNIQUE"]
  | .primaryKey => ["PRIMARY", "KEY"]

/-- A definition: a name, a type and some marks. -/
structure Definition where
  name : Identifier
  type : String
  marks : List Mark
  known : type ∈ ["INT", "TEXT", "FLOAT", "BOOLEAN", "DATE"]

namespace Definition

variable (d : Definition)

def words : List (List Char) :=
  d.name.chars :: d.type.toList :: d.marks.flatMap Mark.words

def text : List Char :=
  unwords d.words

theorem isName_of_mem_words : ∀ w ∈ d.words, IsName w := by
  have htype : IsName d.type.toList := by
    obtain ⟨hne, hplain⟩ := (by decide : ∀ type ∈ ["INT", "TEXT", "FLOAT", "BOOLEAN", "DATE"],
      type.toList ≠ [] ∧ ∀ c ∈ type.toList, Where.isNameChar c) d.type d.known
    exact ⟨hne, hplain⟩
  intro w hw
  rcases mem_cons.mp hw with rfl | hw
  · exact d.name.isName
  rcases mem_cons.mp hw with rfl | hw
  · exact htype
  · obtain ⟨m, -, hm⟩ := mem_flatMap.mp hw
    have hmark : ∀ w ∈ m.words, w ≠ [] ∧ ∀ c ∈ w, Where.isNameChar c := by
      cases m <;> decide
    exact ⟨(hmark w hm).1, (hmark w hm).2⟩

theorem solid_words : ∀ w ∈ d.words, w ≠ [] ∧ Solid w :=
  fun w hw => ⟨(d.isName_of_mem_words w hw).ne_nil, (d.isName_of_mem_words w hw).solid⟩

theorem strip_text : d.text ≠ [] ∧ strip d.text = d.text :=
  strip_unwords (by simp [words]) d.solid_words

theorem avoids {l : List Char} (hl : ∀ c ∈ l, Where.isNameChar c = false) (hspace : ' ' ∉ l) :
    ∀ c ∈ d.text, c ∉ l := by
  intro c hc hmem
  rcases mem_unwords hc with rfl | ⟨w, hw, hc⟩
  · exact hspace hmem
  · exact (d.isName_of_mem_words w hw).avoids hl c hc hmem

def isLost : Bool :=
  isConstraint d.name.chars || d.marks.contains .primaryKey

def column : Column :=
  { name := d.name.name
    type := d.type
    isPrimaryKey := mentions "PRIMARY KEY" d.text
    isNotNull := mentions "NOT NULL" d.text
    isUnique := mentions "UNIQUE" d.text
    default := (defaultPattern.find? d.text).map fun m => String.ofList (m.get "default") }

theorem read?_text : read? d.text = some d.column := by
  rw [read?, show Text.words d.text = d.words from words_unwords d.solid_words]
  simp [words, column, Identifier.name]

end Definition

theorem mentions_unwords {phrase : String} (hne : phrase.toList ≠ []) (hsolid : Solid phrase.toList) :
    ∀ ws : List (List Char), mentions phrase (unwords ws) = ws.any (mentions phrase)
  | [] => by
    rw [mentions, any_nil]
    cases h : phrase.toList with
    | nil => exact absurd h hne
    | cons c s => rfl
  | [w] => by simp [unwords]
  | w :: v :: ws => by
    have ih := mentions_unwords hne hsolid (v :: ws)
    rw [mentions] at ih
    rw [unwords, mentions, upper_append, show ∀ s, upper (' ' :: s) = ' ' :: upper s from fun _ => rfl,
      hasPiece_space hne hsolid, ih]
    rfl

theorem isConstraint_text (d : Definition) : isConstraint d.text = d.isLost := by
  have htype := (by decide : ∀ type ∈ ["INT", "TEXT", "FLOAT", "BOOLEAN", "DATE"],
    mentions "INDEX" type.toList = false ∧ mentions "KEY" type.toList = false) d.type d.known
  have hindex : ∀ m : Mark, m.words.any (mentions "INDEX") = false := by intro m; cases m <;> decide
  have hkey : ∀ m : Mark, m.words.any (mentions "KEY") = (m == .primaryKey) := by
    intro m; cases m <;> decide
  have hnone : (d.marks.any fun _ => false) = false := by simp
  have hlost : d.marks.any (· == Mark.primaryKey) = d.marks.contains .primaryKey := by
    rw [Bool.eq_iff_iff]
    simp
  rw [isConstraint, Definition.text, mentions_unwords (by decide) (by decide),
    mentions_unwords (by decide) (by decide), Definition.words]
  simp only [any_cons, any_flatMap, hindex, hkey, htype, Bool.false_or, hnone, Bool.or_false, hlost]
  rw [Definition.isLost, isConstraint, Bool.or_assoc]

/-- **The columns of a table are its definitions, save for those that mention `INDEX` or `KEY`.** -/
theorem readAll_definitions {ds : List Definition} (hne : ds ≠ []) :
    readAll (commaList (ds.map Definition.text)) = (ds.filter fun d => !d.isLost).map Definition.column := by
  have hsplit : splitColumns (commaList (ds.map Definition.text)) = ds.map Definition.text := by
    refine splitColumns_commaList (by simpa using hne) fun s hs => ?_
    obtain ⟨d, -, rfl⟩ := mem_map.mp hs
    obtain ⟨htext, htrim⟩ := d.strip_text
    refine ⟨⟨whole_of_plain (d.avoids (by decide) (by decide)), htrim⟩, htext, fun c hc => ?_⟩
    have hquote := d.avoids (l := ['\'', '"']) (by decide) (by decide) c hc
    simpa [isQuote] using hquote
  rw [readAll, hsplit, filter_map, filterMap_map]
  have hread : read? ∘ Definition.text = some ∘ Definition.column := funext Definition.read?_text
  have hlost : (fun piece => !isConstraint piece) ∘ Definition.text = fun d => !d.isLost :=
    funext fun d => congrArg _ (isConstraint_text d)
  rw [hread, hlost, filterMap_eq_map]

def intDefinition (c : List Char) : List Char :=
  unwords [c, "INT"]

end Column

/-! ### The statement -/

def creationText (table definitions : List Char) : List Char :=
  "CREATE TABLE " ++ (table ++ (" (" ++ (definitions ++ [')'])))

theorem find?_definitions (t : Identifier) (definitions : List Char) :
    ∃ m, Statement.definitionsPattern.find? (creationText t.chars definitions) = some m ∧
      m.get "definitions" = definitions := by
  have hhead : ∀ c ∈ (t.chars ++ ([' '] ++ (['('] ++ (definitions ++ [')'])))).head?, isBlank c = false := by
    obtain ⟨c, s, hs⟩ := exists_cons_of_ne_nil t.ne_nil
    rw [hs]
    rintro d ⟨⟩
    exact t.solid (by rw [hs]; simp)
  have hphrase : (phrase ["CREATE", "TABLE"]).Prefers ("CREATE TABLE" ++ ([' '] ++ (t.chars ++
      ([' '] ++ (['('] ++ (definitions ++ [')'])))))) [] _ [] := prefers_phrase _ [] (by decide)
  have hopen := (((hphrase.append (prefers_many1 (by simp) (by simp) hhead [])).append
    (prefers_many1 t.ne_nil (fun _ => t.isWord_of_mem) (by rintro d ⟨⟩; decide) [])).append
    (prefers_many (p := isBlank) (by simp) (by rintro d ⟨⟩; decide) [])).append
    (prefers_exactly "(" (definitions ++ [')']) [])
  have hprefers := prefers_many_kept "definitions" (q := exactly ")") hopen (fun _ _ => rfl) (by
      intro v₁ v₂ hsplit hne b y h
      obtain ⟨c, v₁, rfl⟩ := exists_cons_of_ne_nil hne
      obtain ⟨-, hnil⟩ := cons.inj hsplit
      have hrest := exists_of_spans_exactly h
      simp [(append_eq_nil_iff.mp hnil.symm).2] at hrest)
    (prefers_exactly ")" [] _)
  exact ⟨_, hprefers.find?_here, pieceBefore_append definitions [')']⟩

def flatCreation (table : Value) (columns : List Column) (definitions : List Char) : Document :=
  [("table_name", table), ("columns", .list (columns.map fun c => .doc c.toDocument)),
    ("constraints", .doc Column.noConstraints), ("total_columns", .ofNat columns.length),
    ("has_primary_key", .bool (columns.any Column.isPrimaryKey)), ("has_indexes", .bool false),
    ("original_definition", .text (String.ofList definitions))]

theorem describeCreation_creationText (t : Identifier) {definitions : List Char}
    (htrim : strip definitions = definitions) (hflat : '(' ∉ definitions) (table : Value) :
    Statement.describeCreation table (creationText t.chars definitions) =
      flatCreation table (Column.readAll definitions) definitions := by
  obtain ⟨m, hm, hget⟩ := find?_definitions t definitions
  simp only [Statement.describeCreation, hm, hget, htrim, Column.constraints_of_flat hflat]
  rfl

end SqlGateway.Sql
