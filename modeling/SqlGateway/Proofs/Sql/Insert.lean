import Mathlib.Data.List.Basic
import SqlGateway.Proofs.Sql.Pieces
import SqlGateway.Proofs.Sql.Where.Comparison
import SqlGateway.Proofs.Value.Document
import SqlGateway.Sql.Insert

/-!
# Insertions as they are written

What is read of an insertion depends on the values up to the first semicolon only (`read_into`).  **Each row
is found, in order and as it was written** (`findAll_rows`), cut into its cells and made a document
(`Grid.read_text`).
-/

namespace SqlGateway.Sql

open Text Where List Document Numeral

variable {c : Char} {s w l : List Char} {row : List (List Char)}

/-! ### Names -/

/-- Letters, digits and underscores. -/
structure IsName (w : List Char) : Prop where
  ne_nil : w ≠ []
  plain : ∀ c ∈ w, isNameChar c

namespace IsName

variable (h : IsName w)
include h

theorem avoids (hl : ∀ c ∈ l, isNameChar c = false) : ∀ c ∈ w, c ∉ l := by
  intro c hc hmem
  have := hl c hmem
  rw [h.plain c hc] at this
  cases this

theorem solid : Solid w :=
  fun c hc => isBlank_of_isWordChar (isWordChar_of_isNameChar (h.plain c hc))

theorem ascii (hc : c ∈ w) : c.toNat < 128 := by
  have hc := h.plain c hc
  rw [isNameChar, Bool.or_eq_true, beq_iff_eq, isAlphanum_iff] at hc
  rcases hc with hc | rfl
  · omega
  · decide

theorem isWord_of_mem (hc : c ∈ w) : isWord c := by
  rw [isWord, if_pos (h.ascii hc)]
  exact h.plain c hc

theorem unstopped {stops : List Char} (hstops : ∀ c ∈ stops, isNameChar c = false) (hc : c ∈ w) :
    Pattern.solid stops c := by
  have hstop : stops.contains c = false := by
    rw [← Bool.not_eq_true, contains_iff_mem]
    exact h.avoids hstops c hc
  rw [Pattern.solid, h.solid c hc, hstop]
  rfl

theorem bareName_eq : bareName w = w := by
  have hplain : ∀ c ∈ w, isNameQuote c = false := by
    intro c hc
    rw [← Bool.not_eq_true]
    intro hquote
    have hmem : c ∈ ['`', '[', ']', '\'', '"'] := by
      simpa [isNameQuote, isQuote, or_assoc] using hquote
    exact h.avoids (by decide) c hc hmem
  exact stripBy_eq_self (fun c hc => hplain c (mem_of_mem_head? hc)) (fun c hc => hplain c (mem_of_getLast? hc))

end IsName

/-- A name: a letter or an underscore, then letters, digits and underscores. -/
structure Identifier where
  chars : List Char
  begins : chars.head?.any isNameStart
  plain : ∀ c ∈ chars, isNameChar c

namespace Identifier

variable (i : Identifier)

def name : String :=
  String.ofList i.chars

/-- The name of a table, which is kept in small letters. -/
def table : String :=
  String.ofList (lower i.chars)

theorem ne_nil : i.chars ≠ [] := by
  intro h
  have := i.begins
  rw [h] at this
  exact absurd this (by decide)

theorem isName : IsName i.chars :=
  ⟨i.ne_nil, i.plain⟩

theorem avoids (hl : ∀ c ∈ l, isNameChar c = false) : ∀ c ∈ i.chars, c ∉ l :=
  i.isName.avoids hl

theorem not_mem (h : isNameChar c = false) : c ∉ i.chars :=
  fun hc => i.avoids (l := [c]) (by simpa using h) c hc (by simp)

theorem solid (h : c ∈ i.chars) : isBlank c = false :=
  i.isName.solid c h

theorem ascii (h : c ∈ i.chars) : c.toNat < 128 :=
  i.isName.ascii h

theorem isWord_of_mem (h : c ∈ i.chars) : isWord c :=
  i.isName.isWord_of_mem h

theorem word : Word i.chars where
  ne_nil := i.ne_nil
  plain c hc := isWordChar_of_isNameChar (i.plain c hc)

theorem unstopped (h : c ∈ i.chars) : Pattern.solid nameStops c :=
  i.isName.unstopped (by decide) h

theorem trimmed : strip i.chars = i.chars :=
  strip_eq_self_of_solid fun _ hc => i.solid hc

theorem isItem : IsItem i.chars where
  whole := whole_of_plain (i.avoids (by decide))
  trimmed := i.trimmed

theorem bareName_chars : bareName i.chars = i.chars :=
  i.isName.bareName_eq

theorem table_ne_empty : i.table ≠ "" := by
  rw [table, lower_of_ascii fun _ => i.ascii]
  simpa using i.ne_nil

theorem isSolid : i.chars ≠ [] ∧ ∀ c ∈ i.chars, Pattern.solid ['('] c :=
  ⟨i.ne_nil, fun _ => i.isName.unstopped (by decide)⟩

end Identifier

/-- A name without capital letters. -/
structure SmallName extends Identifier where
  small : ∀ c ∈ chars, c.isUpper = false

theorem SmallName.lower_chars (t : SmallName) : lower t.chars = t.chars := by
  have hsmall : ∀ c ∈ t.chars, c.toLower = c := by
    intro c hc
    have hlow := t.small c hc
    delta Char.toLower
    split
    case isTrue h =>
      have hupper : c.isUpper := by
        delta Char.isUpper
        simpa using h
      rw [hupper] at hlow
      cases hlow
    case isFalse => rfl
  rw [lower_of_ascii fun c hc => t.ascii hc, map_congr_left hsmall, map_id']

theorem SmallName.table_eq (t : SmallName) : t.table = t.name := by
  rw [Identifier.table, t.lower_chars]
  rfl

theorem Numeral.isItem (n : Numeral) : IsItem n.chars where
  whole := whole_of_plain fun c hc =>
    (by decide : ∀ c ∈ heads, c ∉ listMarks) c (mem_heads_of_mem hc)
  trimmed := strip_eq_self_of_solid n.plainWord.solid

/-! ### Entries of rows -/

/-- An entry of a row: a whole number, a truth value, the missing value, or a text without quotes, closing
parentheses and semicolons. -/
inductive Entry where
  | int (n : Numeral) (short : n.digits.length ≤ 4300)
  | bool (b : Bool)
  | null
  | text (s : List Char) (plain : ∀ c ∈ s, c ∉ ['\'', ')', ';'])

namespace Entry

def chars : Entry → List Char
  | int n _ => n.chars
  | bool b => (Literal.bool b).chars
  | null => Literal.null.chars
  | text s _ => quotedText s

def value : Entry → Value
  | int n _ => .int n.value
  | bool b => .bool b
  | null => .null
  | text s _ => .text (String.ofList s)

variable (e : Entry)

theorem literal_chars : literal e.chars = e.value := by
  cases e with
  | int n short => exact literal_chars (.int n short)
  | bool b => exact literal_chars (.bool b)
  | null => exact literal_chars .null
  | text s _ => exact literal_quoted s

theorem ne_nil : e.chars ≠ [] := by
  cases e with
  | int n short => exact (Literal.int n short).plainWord.ne_nil
  | bool b => exact (Literal.bool b).plainWord.ne_nil
  | null => exact Literal.null.plainWord.ne_nil
  | text s _ => exact cons_ne_nil _ _

theorem not_mem (hc : c ∈ [')', ';']) : c ∉ e.chars := by
  have hword : isWordChar c = false := by
    revert c
    decide
  cases e with
  | int n short => exact (Literal.int n short).plainWord.not_mem hword
  | bool b => exact (Literal.bool b).plainWord.not_mem hword
  | null => exact Literal.null.plainWord.not_mem hword
  | text s plain =>
    have hquote : c ≠ '\'' := by
      rintro rfl
      exact absurd hc (by decide)
    exact not_mem_quotedText hquote fun h => plain c h (mem_cons_of_mem _ hc)

theorem isItem : IsItem e.chars := by
  cases e with
  | int n _ => exact n.isItem
  | bool b => cases b <;> exact ⟨whole_of_plain (by decide), by decide⟩
  | null => exact ⟨whole_of_plain (by decide), by decide⟩
  | text s plain =>
    exact ⟨whole_quoted (by decide) fun h => plain _ h (by decide), strip_quoted s⟩

end Entry

namespace Insert

open Pattern

/-! ### Rows -/

def rowText (content : List Char) : List Char :=
  '(' :: (content ++ [')'])

theorem not_spans_row (hc : c ≠ '(') (b : Option Char) (s : List Char) (y : Cursor) :
    ¬ rowPattern.Spans ⟨b, c :: s⟩ y := by
  rintro ⟨x, ⟨x', hopen, -⟩, -⟩
  have h := exists_of_spans_exactly hopen
  exact hc (cons.inj h).1

theorem prefers_row {content : List Char} (hne : content ≠ []) (hplain : ')' ∉ content)
    (r : List Char) : rowPattern.Prefers (rowText content ++ r) [] r
      [("row", ⟨content ++ (')' :: r), ')' :: r⟩)] := by
  have hclass : ∀ c ∈ content, noneOf [')'] c := by
    intro c hc
    have hne : c ≠ ')' := fun h => hplain (h ▸ hc)
    simp [noneOf, hne]
  have hrow : rowPattern.Prefers (['('] ++ (content ++ ([')'] ++ r))) [] r
      [("row", ⟨content ++ ([')'] ++ r), [')'] ++ r⟩)] :=
    ((prefers_exactly "(" _ []).append
      ((prefers_many1 hne hclass (by rintro c ⟨⟩; decide) []).keep "row")).append
      (prefers_exactly ")" r _)
  rw [rowText, cons_append, append_assoc]
  exact hrow

/-- **Each row is found**, in order and as it was written. -/
theorem findAll_rows (contents : List (List Char)) (h : ∀ s ∈ contents, s ≠ [] ∧ ')' ∉ s) :
    (rowPattern.findAll (commaList (contents.map rowText))).map (·.get "row") = contents := by
  have hfrom : ∀ (contents : List (List Char)), (∀ s ∈ contents, s ≠ [] ∧ ')' ∉ s) →
      ∀ (start : Nat) (b : Option Char),
        (rowPattern.findAllFrom start 0 b (commaList (contents.map rowText))).map (·.get "row") = contents := by
    intro contents
    induction contents with
    | nil => intro _ start b; rfl
    | cons content contents ih =>
      intro h start b
      obtain ⟨hne, hplain⟩ := h content (by simp)
      have ih := ih (forall_mem_cons.mp h).2
      cases contents with
      | nil =>
        obtain ⟨b', hfirst⟩ := findAllFrom_of_prefers (prefers_row hne hplain []) start b
        rw [append_nil] at hfirst
        rw [map_singleton, commaList, rowText, hfirst]
        exact congrArg (· :: []) (get_kept "row" content _ _ _ _)
      | cons next contents =>
        obtain ⟨b', hfirst⟩ := findAllFrom_of_prefers (prefers_row hne hplain
          (',' :: ' ' :: commaList ((next :: contents).map rowText))) start b
        rw [findAllFrom_pass (not_spans_row (by decide) _ _),
          findAllFrom_pass (not_spans_row (by decide) _ _)] at hfirst
        rw [map_cons, map_cons, commaList, rowText, ← map_cons, hfirst, map_cons, ih, get_kept]
  exact hfrom contents h 0 none

/-! ### Rows of any text -/

theorem length_row_le {start skip : Nat} {b : Option Char} {m : Match}
    (h : m ∈ rowPattern.findAllFrom start skip b s) : (m.get "row").length + 2 ≤ s.length := by
  obtain ⟨u, v, start', b', rfl, hm⟩ := exists_of_mem_findAllFrom h
  obtain ⟨y, ⟨x₂, l₂, ⟨x₁, l₁, hopen, hrow⟩, hclose⟩, -⟩ := matchAt?_keeps hm
  obtain ⟨hopens, rfl⟩ := hopen.of_isPlain (isPlain_exactly "(")
  obtain ⟨hspans, rfl⟩ := keeps_keep (by rfl) hrow
  obtain ⟨hcloses, hkept⟩ := hclose.of_isPlain (isPlain_exactly ")")
  obtain ⟨content, -, -, hcontent⟩ := exists_of_spans_many1 hspans
  have hget : m.get "row" = content := by
    rw [Match.get, Match.get?, hkept]
    show pieceBefore x₂.rest x₁.rest = content
    rw [hcontent, pieceBefore_append]
  have hv : v = '(' :: (content ++ ')' :: y.rest) := by
    have hfirst : v = '(' :: x₁.rest := exists_of_spans_exactly hopens
    have hlast : x₂.rest = ')' :: y.rest := exists_of_spans_exactly hcloses
    rw [hfirst, hcontent, hlast]
  rw [hget, hv]
  simp only [length_append, length_cons]
  omega

theorem length_le_of_mem_row {m : Match} (hm : splitValues (strip (m.get "row")) = row)
    (hlength : (m.get "row").length + 2 ≤ s.length) (hw : w ∈ row) : w.length + 2 ≤ s.length := by
  have hvalue := length_le_of_mem_splitValues (by rw [hm]; exact hw)
  have htrim := length_strip_le (m.get "row")
  omega

theorem length_value_le (h : row ∈ rows s) (hw : w ∈ row) : w.length + 2 ≤ s.length := by
  obtain ⟨m, hm, hrow⟩ := mem_map.mp (mem_filter.mp h).1
  exact length_le_of_mem_row hrow (length_row_le hm) hw

/-- A quoted value with a closing parenthesis inside is lost: what is read instead is shorter. -/
theorem length_value_lt (hquote : '\'' ∉ s) (hclose : ')' ∈ s)
    (h : row ∈ rows (rowText (quotedText s))) (hw : w ∈ row) : w.length < s.length := by
  obtain ⟨s₁, s₂, rfl, hfirst⟩ := eq_append_cons_of_mem hclose
  have htext : rowText (quotedText (s₁ ++ ')' :: s₂)) = rowText ('\'' :: s₁) ++ (s₂ ++ ['\'', ')']) := by
    simp [rowText, quotedText]
  obtain ⟨m, hm, hrow⟩ := mem_map.mp (mem_filter.mp h).1
  have hplain : ')' ∉ '\'' :: s₁ := by simpa using hfirst
  obtain ⟨b, hall⟩ := findAllFrom_of_prefers
    (prefers_row (cons_ne_nil _ _) hplain (s₂ ++ ['\'', ')'])) 0 none
  change rowPattern.findAllFrom 0 0 none (rowText ('\'' :: s₁) ++ (s₂ ++ ['\'', ')'])) = _ at hall
  rw [findAll, htext, hall] at hm
  rcases mem_cons.mp hm with rfl | hm
  · -- the quote of the first row stays open
    obtain ⟨t, v, hstrip, ht⟩ := exists_strip_cons (c := '\'') (by decide) s₁
    have hopen : '\'' ∉ t := fun hmem => hquote (by simp [ht, hmem])
    rw [get_kept, hstrip, splitValues_open (by decide) hopen] at hrow
    rw [← hrow] at hw
    cases hw
  · have hlength := length_le_of_mem_row hrow (length_row_le hm) hw
    simp only [length_append, length_cons, length_nil] at hlength ⊢
    omega

/-! ### Statements -/

/-- An insertion of values, written behind the columns of a table. -/
def insertionText (table columns values : List Char) : List Char :=
  "INSERT INTO " ++ (table ++ (" (" ++ (columns ++ (") VALUES " ++ values))))

/-- `INSERT INTO` and the blanks behind it. -/
def IsInsertInto (w : List Char) : Prop :=
  ∃ i g j g', w = i ++ (g ++ (j ++ g')) ∧ spells "INSERT" i ∧
    (g ≠ [] ∧ ∀ c ∈ g, isBlank c) ∧ spells "INTO" j ∧
      (g' ≠ [] ∧ ∀ c ∈ g', isBlank c)

theorem IsInsertInto.prefers {m : List Char} (hw : IsInsertInto w) (hm : ∀ c ∈ m.head?, isBlank c = false) :
    (phrase ["INSERT", "INTO"] ++ space).Prefers (w ++ m) [] m [] := by
  obtain ⟨i, g, j, g', rfl, hi, hg, hj, hg'⟩ := hw
  rw [append_assoc, append_assoc, append_assoc]
  exact (((prefers_lit hi _ _).append (prefers_many1 hg.1 hg.2 (IsKeyword.head? (by decide) hj _) _)).append
    (prefers_lit hj _ _)).append (prefers_many1 hg'.1 hg'.2 hm _)

theorem solid_iff : solid ['('] c ↔ isBlank c = false ∧ c ≠ '(' := by
  simp [solid]

theorem head?_name {n : List Char} (hn : n ≠ [] ∧ ∀ c ∈ n, solid ['('] c) (t : List Char) :
    ∀ c ∈ (n ++ t).head?, isBlank c = false :=
  head_solid_append hn.1 (fun c hc => (solid_iff.mp (hn.2 c hc)).1) t

/-- The text inserts into a table with a column list, and `rest` stands behind `VALUES`. -/
inductive Listed (list rest : List Char) : List Char → Prop
  | intro {into name gap gap' values : List Char} (hinto : IsInsertInto into)
      (hname : name ≠ [] ∧ ∀ c ∈ name, solid ['('] c) (hgap : ∀ c ∈ gap, isBlank c)
      (hlist : ')' ∉ list) (hgap' : ∀ c ∈ gap', isBlank c)
      (hvalues : spells "VALUES" values) :
      Listed list rest (into ++ (name ++ (gap ++ ("(" ++ (list ++ (")" ++ (gap' ++
        (values ++ rest))))))))

/-- `INSERT INTO table (columns) VALUES`. -/
def listedHead : Pattern :=
  phrase ["INSERT", "INTO"] ++ space ++ many1 (solid ['(']) ++ gap ++ exactly "(" ++
    keep "columns" (few anyChar) ++ exactly ")" ++ gap ++ lit "VALUES"

theorem Listed.prefers {list rest : List Char} (h : Listed list rest s) :
    ∃ behind, listedHead.Prefers s [] rest [("columns", ⟨list ++ behind, behind⟩)] := by
  obtain @⟨into, name, gap, gap', values, hinto, hname, hgap, hlist, hgap', hvalues⟩ := h
  have hbefore : ∀ c ∈ (gap ++ '(' :: (list ++ (")" ++ (gap' ++ (values ++ rest))))).head?,
      solid ['('] c = false := by
    cases gap with
    | nil => rintro c ⟨⟩; decide
    | cons d gap => rintro c ⟨⟩; simp [solid, hgap d (by simp)]
  have hopen := (((hinto.prefers (head?_name hname _)).append (prefers_many1 hname.1 hname.2 hbefore [])).append
    (prefers_many hgap (by rintro c ⟨⟩; decide) [])).append (prefers_exactly "(" _ [])
  have hclose := prefers_few "columns" (q := exactly ")") hopen (fun _ _ => rfl)
    (fun u₁ u₂ hsplit hne b y h => by
      obtain ⟨c, u₂, rfl⟩ := exists_cons_of_ne_nil hne
      obtain rfl : c = ')' := (cons.inj (exists_of_spans_exactly h)).1
      exact hlist (by rw [hsplit]; simp)) (prefers_exactly ")" _ _)
  exact ⟨_, (hclose.append (prefers_many hgap' (IsKeyword.head? (by decide) hvalues _) _)).append
    (prefers_lit hvalues _ _)⟩

theorem isInsertInto : IsInsertInto "INSERT INTO " :=
  ⟨"INSERT", [' '], "INTO", [' '], by decide⟩

section

variable (t : Identifier)

theorem prefers_table (r : List Char) : tablePattern.Prefers
    ("INSERT INTO " ++ (t.chars ++ ' ' :: r)) [] (' ' :: r)
    [("table", ⟨t.chars ++ ' ' :: r, ' ' :: r⟩)] :=
  (isInsertInto.prefers (head?_name t.isSolid _)).append
    ((prefers_many1 t.isSolid.1 t.isSolid.2 (by rintro c ⟨⟩; decide) []).keep "table")

variable {columns piece tail : List Char}

theorem prefers_values {k l : Kept} {a : Pattern} (ha : a.Prefers s k (piece ++ tail) l)
    (hpiece : ';' ∉ piece) (htail : tail.head?.all (· == ';'))
    (hlast : (piece ++ tail).getLast? = some ')') :
    ∃ r, (a ++ keep "rows" (few anyChar) ++ ending).Prefers s k r (("rows", ⟨piece ++ tail, tail⟩) :: l) := by
  have hending : ∃ r, ending.Prefers tail (("rows", ⟨piece ++ tail, tail⟩) :: l) r
      (("rows", ⟨piece ++ tail, tail⟩) :: l) := by
    cases tail with
    | nil =>
      refine ⟨[], (prefers_finish _).right fun b y h => ?_⟩
      cases exists_of_spans_exactly h
    | cons c r =>
      obtain rfl : c = ';' := by simpa using htail
      exact ⟨r, (prefers_exactly ";" r _).left finish⟩
  obtain ⟨r, hending⟩ := hending
  refine ⟨r, prefers_few "rows" ha (fun _ _ => rfl) ?_ hending⟩
  intro u₁ u₂ hsplit hne b y h
  obtain ⟨c, u₂, rfl⟩ := exists_cons_of_ne_nil hne
  rcases h with h | ⟨-, h⟩
  · obtain rfl : c = ';' := (cons.inj (exists_of_spans_exactly h)).1
    exact hpiece (by rw [hsplit]; simp)
  · -- the text does not end in a line end
    have hline : c :: u₂ ++ tail = ['\n'] := by simpa [Cursor.atFinish] using h
    rw [hsplit, append_assoc, hline, getLast?_concat] at hlast
    exact absurd hlast (by decide)

theorem listed_insertionText (hcolumns : ')' ∉ columns) (values : List Char) :
    Listed columns (' ' :: values) (insertionText t.chars columns values) :=
  @Listed.intro _ _ _ _ [' '] [' '] "VALUES" isInsertInto t.isSolid (by decide) hcolumns (by decide)
    (by decide)

theorem prefers_columns (hcolumns : ')' ∉ columns) (hhead : (piece ++ tail).head? = some '(')
    (hpiece : ';' ∉ piece) (htail : tail.head?.all (· == ';'))
    (hlast : (piece ++ tail).getLast? = some ')') :
    ∃ r behind, columnsPattern.Prefers (insertionText t.chars columns (piece ++ tail)) [] r
      [("rows", ⟨piece ++ tail, tail⟩), ("columns", ⟨columns ++ behind, behind⟩)] := by
  obtain ⟨behind, hlisted⟩ := (listed_insertionText t hcolumns (piece ++ tail)).prefers
  have hvalues := hlisted.append (prefers_many (p := isBlank) (s := [' ']) (r := piece ++ tail) (by simp)
    (by rw [hhead]; rintro c ⟨⟩; decide) _)
  obtain ⟨r, hr⟩ := prefers_values hvalues hpiece htail hlast
  exact ⟨r, behind, hr⟩

theorem strip_insertionText {table values : List Char} (hlast : values.getLast? = some ')') :
    strip (insertionText table columns values) = insertionText table columns values := by
  have hinsert : "INSERT INTO".toList ≠ [] ∧ strip "INSERT INTO".toList = "INSERT INTO".toList := by
    decide
  obtain ⟨init, rfl⟩ := getLast?_eq_some_iff.mp hlast
  have hassoc : ∀ u v w x y z : List Char,
      u ++ (v ++ (w ++ (x ++ (y ++ (init ++ z))))) = u ++ ((v ++ (w ++ (x ++ (y ++ init)))) ++ z) := by
    intro u v w x y z
    simp
  have htrim := strip_append_append hinsert.1 hinsert.2 (t := [')']) (by simp) (by decide)
    (([' '] ++ table) ++ (" (" ++ (columns ++ (") VALUES " ++ init))))
  rwa [← hassoc] at htrim

/-- **What an insertion reads as.**  It depends on the values up to the first semicolon. -/
theorem read_into (piece tail : List Char) (hcolumns : ')' ∉ columns)
    (hhead : (piece ++ tail).head? = some '(') (hpiece : ';' ∉ piece)
    (htail : tail.head?.all (· == ';')) (hlast : (piece ++ tail).getLast? = some ')') :
    read (insertionText t.chars columns (piece ++ tail)) = if (rows (strip piece)).isEmpty then .error .noRows
      else if ((rows (strip piece)).filterMap (document? (columnNames columns))).isEmpty then
        .error .noFittingRow
      else .ok ⟨t.table, (rows (strip piece)).filterMap (document? (columnNames columns))⟩ := by
  obtain ⟨r, behind, hprefers⟩ := prefers_columns t hcolumns hhead hpiece htail hlast
  have htable := (prefers_table t
    ("(" ++ (columns ++ (") VALUES " ++ (piece ++ tail))))).find?_here
  have hkept : ∀ (start : Nat) (text r : List Char),
      let m : Match := ⟨start, text, r,
        [("rows", ⟨piece ++ tail, tail⟩), ("columns", ⟨columns ++ behind, behind⟩)]⟩
      m.get "rows" = piece ∧ m.get "columns" = columns :=
    fun _ _ _ => ⟨pieceBefore_append piece tail, pieceBefore_append columns behind⟩
  have htext : tablePattern.find? (insertionText t.chars columns (piece ++ tail)) = _ := htable
  rw [read, strip_insertionText hlast, htext]
  simp only [hprefers.find?_here, get_kept, t.bareName_chars, (hkept _ _ _).1, (hkept _ _ _).2]
  rfl

end

/-! ### Rows of cells -/

/-- The text of a value in a row: an item of the list without a closing parenthesis or a semicolon. -/
structure IsCell (s : List Char) : Prop where
  ne_nil : s ≠ []
  isItem : IsItem s
  plain : ∀ c ∈ [')', ';'], c ∉ s

theorem isCell_numeral (n : Numeral) : IsCell n.chars where
  ne_nil := n.plainWord.ne_nil
  isItem := n.isItem
  plain := fun _ hc hmem => (by decide : ∀ c ∈ [')', ';'], c ∉ heads) _ hc
    (mem_heads_of_mem hmem)

theorem isCell_chars (e : Entry) : IsCell e.chars :=
  ⟨e.ne_nil, e.isItem, fun _ hc => e.not_mem hc⟩

def rowsText (rows : List (List (List Char))) : List Char :=
  commaList (rows.map fun row => rowText (commaList row))

theorem strip_cells (hrow : ∀ s ∈ row, IsCell s) (hne : row ≠ []) :
    commaList row ≠ [] ∧ strip (commaList row) = commaList row :=
  strip_commaList hne fun s hs => ⟨(hrow s hs).ne_nil, (hrow s hs).isItem.trimmed⟩

theorem not_mem_marks (hc : c ∈ [')', ';']) : c ∉ [',', ' '] := by
  revert c
  decide

theorem not_mem_cells (hrow : ∀ s ∈ row, IsCell s) (hc : c ∈ [')', ';']) : c ∉ commaList row :=
  not_mem_commaList (not_mem_marks hc) fun s hs => (hrow s hs).plain c hc

variable {rows : List (List (List Char))}

theorem semicolon_not_mem_rowsText (hrows : ∀ row ∈ rows, ∀ s ∈ row, IsCell s) : ';' ∉ rowsText rows := by
  refine not_mem_commaList (by decide) (forall_mem_map.mpr fun row hrow => ?_)
  simpa [rowText] using not_mem_cells (hrows row hrow) (by decide)

theorem ends_rowsText (hne : rows ≠ []) :
    (rowsText rows).head? = some '(' ∧ (rowsText rows).getLast? = some ')' := by
  exact ends_commaList (by simpa using hne) (forall_mem_map.mpr fun row _ =>
    ⟨rfl, by rw [rowText, ← cons_append, getLast?_concat]⟩)

theorem strip_rowsText (hne : rows ≠ []) : strip (rowsText rows) = rowsText rows := by
  obtain ⟨hhead, hlast⟩ := ends_rowsText hne
  refine strip_eq_self ?_ ?_
  · rw [hhead]
    rintro c ⟨⟩
    decide
  · rw [hlast]
    rintro c ⟨⟩
    decide

/-- **The rows are cut into their cells.** -/
theorem rows_rowsText (hrows : ∀ row ∈ rows, ∀ s ∈ row, IsCell s)
    (hne : ∀ row ∈ rows, row ≠ []) : Insert.rows (rowsText rows) = rows := by
  have hfound := findAll_rows (rows.map commaList) (forall_mem_map.mpr fun row hrow =>
    ⟨(strip_cells (hrows row hrow) (hne row hrow)).1, not_mem_cells (hrows row hrow) (by decide)⟩)
  rw [map_map] at hfound
  have hcut : (rowPattern.findAll (rowsText rows)).map (fun m => splitValues (strip (m.get "row"))) = rows := by
    calc (rowPattern.findAll (rowsText rows)).map (fun m => splitValues (strip (m.get "row")))
        = ((rowPattern.findAll (rowsText rows)).map (·.get "row")).map (splitValues ∘ strip) := by
          rw [map_map]
          rfl
      _ = (rows.map commaList).map (splitValues ∘ strip) := congrArg _ hfound
      _ = rows := by
          rw [map_map]
          refine (map_congr_left fun row hrow => ?_).trans (map_id _)
          show splitValues (strip (commaList row)) = row
          rw [(strip_cells (hrows row hrow) (hne row hrow)).2,
            splitValues_commaList (hne row hrow) fun s hs => (hrows row hrow s hs).isItem]
  rw [Insert.rows, hcut, filter_eq_self]
  intro row hrow
  simpa using hne row hrow

theorem columnNames_commaList {columns : List Identifier} (hne : columns ≠ []) :
    columnNames (commaList (columns.map Identifier.chars)) = columns.map Identifier.name := by
  have hitem : ∀ s ∈ columns.map Identifier.chars, (s ≠ [] ∧ strip s = s) ∧ IsItem s :=
    forall_mem_map.mpr fun i _ => ⟨⟨i.ne_nil, i.trimmed⟩, i.isItem⟩
  have hne' : columns.map Identifier.chars ≠ [] := by simpa using hne
  rw [columnNames, (strip_commaList hne' fun s hs => (hitem s hs).1).2,
    splitValues_commaList hne' fun s hs => (hitem s hs).2, map_map]
  refine map_congr_left fun i _ => ?_
  rw [Function.comp_apply, i.trimmed, i.bareName_chars, Identifier.name]

/-- Columns with different names, and rows with a cell for each column. -/
structure Grid where
  columns : List Identifier
  columns_ne_nil : columns ≠ []
  distinct : (columns.map Identifier.name).Nodup
  rows : List (List (List Char))
  rows_ne_nil : rows ≠ []
  isCell : ∀ row ∈ rows, ∀ s ∈ row, IsCell s
  fits : ∀ row ∈ rows, row.length = columns.length

namespace Grid

variable (grid : Grid)

def text (table : Identifier) : List Char :=
  insertionText table.chars (commaList (grid.columns.map Identifier.chars)) (rowsText grid.rows)

/-- Each row as a document: the columns with the values of the cells, in order. -/
def documents : List Document :=
  grid.rows.map fun row => (grid.columns.map Identifier.name).zip (row.map literal)

theorem row_ne_nil (h : row ∈ grid.rows) : row ≠ [] := by
  rintro rfl
  exact grid.columns_ne_nil (length_eq_zero_iff.mp (grid.fits [] h).symm)

theorem names_document (h : row ∈ grid.rows) :
    names ((grid.columns.map Identifier.name).zip (row.map literal)) =
      grid.columns.map Identifier.name := by
  rw [names, map_fst_zip]
  simp [grid.fits row h]

theorem document?_row (h : row ∈ grid.rows) : document? (grid.columns.map Identifier.name) row =
      some ((grid.columns.map Identifier.name).zip (row.map literal)) := by
  have hlength : (grid.columns.map Identifier.name).length = row.length := by
    simp [grid.fits row h]
  rw [document?, if_pos (by simpa using hlength), ofMembers,
    merge_of_nodup (by rw [grid.names_document h]; exact grid.distinct), nil_append]

theorem filterMap_document? :
    grid.rows.filterMap (document? (grid.columns.map Identifier.name)) = grid.documents :=
  filterMap_eq_map_iff_forall_eq_some.mpr fun _ hrow => grid.document?_row hrow

theorem not_mem_columns (hc : c ∈ [')', ';']) : c ∉ commaList (grid.columns.map Identifier.chars) :=
  not_mem_commaList (not_mem_marks hc) (forall_mem_map.mpr fun i _ h => i.avoids (by decide) c h hc)

theorem semicolon_not_mem_text (t : Identifier) : ';' ∉ grid.text t := by
  unfold text insertionText
  simp only [mem_append, not_or]
  exact ⟨by decide, t.not_mem (by decide), by decide, grid.not_mem_columns (by decide), by decide,
    semicolon_not_mem_rowsText grid.isCell⟩

theorem documents_ne_nil : grid.documents ≠ [] := by
  simpa [documents] using grid.rows_ne_nil

theorem document_ne_nil {d : Document} (h : d ∈ grid.documents) : d ≠ [] := by
  obtain ⟨row, hrow, rfl⟩ := mem_map.mp h
  simp [zip_eq_nil_iff, grid.columns_ne_nil, grid.row_ne_nil hrow]

/-- **An insertion reads as it was written**: all rows in order, with all their values. -/
theorem read_text (t : Identifier) : read (grid.text t) = .ok ⟨t.table, grid.documents⟩ := by
  obtain ⟨hhead, hlast⟩ := ends_rowsText grid.rows_ne_nil
  have htext := read_into t (rowsText grid.rows) [] (grid.not_mem_columns (by decide))
    (by rw [append_nil]; exact hhead) (semicolon_not_mem_rowsText grid.isCell) rfl
    (by rw [append_nil]; exact hlast)
  have hsome : grid.documents.isEmpty = false := by
    simpa using grid.documents_ne_nil
  have hsome' : grid.rows.isEmpty = false := by
    simpa using grid.rows_ne_nil
  rw [append_nil, strip_rowsText grid.rows_ne_nil,
    rows_rowsText grid.isCell fun row hrow => grid.row_ne_nil hrow,
    columnNames_commaList grid.columns_ne_nil, filterMap_document?, hsome, hsome'] at htext
  exact htext

end Grid

/-! ### Rows of entries -/

def valuesText (rows : List (List Entry)) : List Char :=
  commaList (rows.map fun row => rowText (commaList (row.map Entry.chars)))

/-- Columns with different names, and rows with an entry for each column. -/
structure Batch where
  columns : List Identifier
  columns_ne_nil : columns ≠ []
  distinct : (columns.map Identifier.name).Nodup
  rows : List (List Entry)
  rows_ne_nil : rows ≠ []
  fits : ∀ row ∈ rows, row.length = columns.length

namespace Batch

variable (batch : Batch)

def text (table : SmallName) : List Char :=
  insertionText table.chars (commaList (batch.columns.map Identifier.chars)) (valuesText batch.rows)

/-- Each row as a document: the columns with the values of the entries, in order. -/
def documents : List Document :=
  batch.rows.map fun row => (batch.columns.map Identifier.name).zip (row.map Entry.value)

def grid : Grid where
  columns := batch.columns
  columns_ne_nil := batch.columns_ne_nil
  distinct := batch.distinct
  rows := batch.rows.map (·.map Entry.chars)
  rows_ne_nil := by simpa using batch.rows_ne_nil
  isCell := by
    intro row hrow s hs
    obtain ⟨entries, -, rfl⟩ := mem_map.mp hrow
    obtain ⟨e, -, rfl⟩ := mem_map.mp hs
    exact isCell_chars e
  fits := by
    intro row hrow
    obtain ⟨entries, hmem, rfl⟩ := mem_map.mp hrow
    rw [length_map, batch.fits entries hmem]

theorem valuesText_eq : valuesText batch.rows = rowsText batch.grid.rows := by
  rw [rowsText, grid, map_map]
  rfl

variable (t : SmallName)

theorem text_eq : batch.text t = batch.grid.text t.toIdentifier := by
  rw [text, valuesText_eq]
  rfl

theorem documents_grid : batch.grid.documents = batch.documents := by
  rw [documents, Grid.documents, grid, map_map]
  refine map_congr_left fun row _ => ?_
  rw [Function.comp_apply, map_map]
  exact congrArg _ (map_congr_left fun e _ => e.literal_chars)

theorem semicolon_not_mem_text : ';' ∉ batch.text t := by
  rw [text_eq]
  exact batch.grid.semicolon_not_mem_text t.toIdentifier

theorem documents_ne_nil : batch.documents ≠ [] := by
  rw [← documents_grid]
  exact batch.grid.documents_ne_nil

theorem document_ne_nil {d : Document} (h : d ∈ batch.documents) : d ≠ [] := by
  rw [← documents_grid] at h
  exact batch.grid.document_ne_nil h

theorem ends_values : (valuesText batch.rows).head? = some '(' ∧
    (valuesText batch.rows).getLast? = some ')' := by
  rw [valuesText_eq]
  exact ends_rowsText batch.grid.rows_ne_nil

theorem read_text : read (batch.text t) = .ok ⟨t.name, batch.documents⟩ := by
  rw [text_eq, batch.grid.read_text, t.table_eq, documents_grid]

example : read "INSERT INTO t (a, b) VALUES (1, 'x, (y'), (NULL, TRUE)" =
    .ok ⟨"t", [[("a", .int 1), ("b", .text "x, (y")], [("a", .null), ("b", .bool true)]]⟩ := by
  rfl

end Batch

end Insert

end SqlGateway.Sql
