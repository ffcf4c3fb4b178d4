import SqlGateway.Proofs.Sql.TableName

/-!
# A table and its schema

The columns of a new table have a name, a type, perhaps a size and perhaps `NOT NULL`.  **They are read in
their order, and the schema has a property for each** (`readCreate_definitions`).
-/

namespace SqlGateway.Sql.Schema

open Text Pattern Where List Value Column Numeral

/-! ### Sizes -/

/-- A number that is not too long to be read. -/
abbrev Short : Type := { n : Numeral // n.digits.length ≤ 4300 }

/-- A length, or a precision and a scale. -/
inductive Size where
  | length (n : Short)
  | scaled (precision scale : Short)

namespace Size

def chars : Size → List Char
  | length n => n.1.chars
  | scaled precision scale => precision.1.chars ++ ',' :: scale.1.chars

def toDocument : Size → Document
  | length n => [("length", .int n.1.value)]
  | scaled precision scale => [("precision", .int precision.1.value), ("scale", .int scale.1.value)]

theorem mem_of_mem_chars {z : Size} {c : Char} (h : c ∈ z.chars) : c ∈ ',' :: heads := by
  cases z with
  | length n => exact mem_cons_of_mem _ (mem_heads_of_mem h)
  | scaled precision scale =>
    rcases mem_append.mp h with h | h
    · exact mem_cons_of_mem _ (mem_heads_of_mem h)
    · rcases mem_cons.mp h with rfl | h
      · exact mem_cons_self
      · exact mem_cons_of_mem _ (mem_heads_of_mem h)

theorem chars_ne_nil (z : Size) : z.chars ≠ [] := by
  cases z with
  | length n => exact n.1.plainWord.ne_nil
  | scaled precision scale => simp [chars]

end Size

theorem sizeNumber_chars (n : Short) : sizeNumber n.1.chars = .ok (.int n.1.value) := by
  rw [sizeNumber, readInt_chars, if_neg (Nat.not_lt.mpr n.2)]

/-- **A size is read back.** -/
theorem readSize_chars (z : Size) : readSize z.chars = .ok z.toDocument := by
  have hcomma : ∀ n : Numeral, ',' ∉ n.chars := fun n h => absurd (mem_heads_of_mem h) (by decide)
  have htrim : ∀ n : Numeral, strip n.chars = n.chars := fun n => strip_eq_self_of_solid n.plainWord.solid
  have hsingle : ∀ n : Numeral, splitAtChar ',' n.chars = [n.chars] := by
    intro n
    simpa using splitAtChar_append (hcomma n) (show splitAtChar ',' [] = [[]] from rfl)
  cases z with
  | length n =>
    rw [Size.chars, readSize, hsingle]
    simp only [sizeNumber_chars]
    rfl
  | scaled precision scale =>
    have hsplit := splitAtChar_append (hcomma precision.1)
      (show splitAtChar ',' (',' :: scale.1.chars) = [] :: splitAtChar ',' scale.1.chars from rfl)
    rw [append_nil, hsingle] at hsplit
    rw [Size.chars, readSize, hsplit]
    simp only [htrim, sizeNumber_chars]
    rfl

theorem head_of_unwords {b c : Char} (hb : isBlank b) {ws : List (List Char)} {u t : List Char}
    (hws : ∀ w ∈ ws, w ≠ [] ∧ Solid w) (h : unwords ws = u ++ b :: c :: t) : ∃ w ∈ ws.tail, w.head? = some c := by
  obtain ⟨ws₁, ws₂, rfl, hne₁, hne₂, -, hrest⟩ := exists_of_unwords_eq hb (fun w hw => (hws w hw).2) h
  obtain ⟨w, ws, rfl⟩ := exists_cons_of_ne_nil hne₂
  refine ⟨w, by rw [tail_append_of_ne_nil hne₁]; simp, ?_⟩
  obtain ⟨r, hr, -⟩ := exists_unwords_cons w ws
  rw [hr] at hrest
  rw [← head?_append_of_ne_nil w (hws w (by simp)).1, ← hrest]
  rfl

/-! ### Definitions -/

/-- A column as it is written: its name, its type in some letter case, and what is said of it. -/
structure Definition where
  name : List Char
  type : String
  stored : StoredType
  spelling : List Char
  size : Option Size
  isRequired : Bool
  isName : IsName name
  known : (type, stored) ∈ StoredType.table
  cased : IsCased type spelling

theorem table_facts : ∀ entry ∈ StoredType.table, IsKeyword entry.1.toList ∧
    StoredType.ofName entry.1 = entry.2 ∧ entry.1.toList.head? ≠ some 'K' := by
  decide +kernel

namespace Definition

variable (d : Definition)

def key : String :=
  String.ofList (lower d.name)

def sizeChars : List Char :=
  match d.size with
  | some z => '(' :: (z.chars ++ [')'])
  | none => []

def words : List (List Char) :=
  d.name :: (d.spelling ++ d.sizeChars) :: if d.isRequired then ["NOT", "NULL"] else []

def text : List Char :=
  unwords d.words

/-- What is read of a column. -/
def column : Document :=
  [("name", .text d.key), ("sql_type", .text d.type), ("mongo_type", .doc d.stored.toDocument),
    ("nullable", .bool (!d.isRequired)), ("primary_key", .bool false), ("auto_increment", .bool false)] ++
    match d.size with
    | some z => [("size", .doc z.toDocument)]
    | none => []

/-- The rule for a column: a text with a length is limited by it. -/
def rule : Document :=
  [("bsonType", .text d.stored.bson), ("description", .text ("Column " ++ d.key ++ " (" ++ d.type ++ ")"))] ++
    match d.size with
    | some (.length n) => if d.stored.type = "string" then [("maxLength", .int n.1.value)] else []
    | _ => []

theorem isName_spelling : IsName d.spelling :=
  isName_of_cased (table_facts _ d.known).1 d.cased

theorem mem_sizeChars {c : Char} (h : c ∈ d.sizeChars) : c ∈ '(' :: ')' :: ',' :: heads := by
  rw [sizeChars] at h
  split at h
  · rcases mem_cons.mp h with rfl | h
    · exact mem_cons_self
    · rcases mem_append.mp h with h | h
      · exact mem_cons_of_mem _ (mem_cons_of_mem _ (Size.mem_of_mem_chars h))
      · rw [mem_singleton.mp h]
        exact mem_cons_of_mem _ mem_cons_self
  · cases h

theorem forall_mem_words {P : Char → Prop} (hname : ∀ w, IsName w → ∀ c ∈ w, P c)
    (hsize : ∀ c ∈ '(' :: ')' :: ',' :: heads, P c) : ∀ w ∈ d.words, w ≠ [] ∧ ∀ c ∈ w, P c := by
  have htype : d.spelling ++ d.sizeChars ≠ [] ∧ ∀ c ∈ d.spelling ++ d.sizeChars, P c :=
    ⟨by simp [d.isName_spelling.ne_nil], forall_mem_append.mpr ⟨hname _ d.isName_spelling,
      fun c hc => hsize c (d.mem_sizeChars hc)⟩⟩
  refine forall_mem_cons.mpr ⟨⟨d.isName.ne_nil, hname _ d.isName⟩, forall_mem_cons.mpr ⟨htype, ?_⟩⟩
  intro w hw
  have hmark : ∀ w ∈ ["NOT".toList, "NULL".toList], w ≠ [] ∧ ∀ c ∈ w, isNameChar c := by decide
  split at hw
  · exact ⟨(hmark w hw).1, hname w ⟨(hmark w hw).1, (hmark w hw).2⟩⟩
  · cases hw

theorem solid_words : ∀ w ∈ d.words, w ≠ [] ∧ Solid w :=
  d.forall_mem_words (fun w hw => hw.solid) (by decide)

theorem strip_text : d.text ≠ [] ∧ strip d.text = d.text :=
  strip_unwords (by simp [words]) d.solid_words

/-! ### Reading a definition -/

def mark : List Char :=
  if d.isRequired then "NOT NULL" else []

theorem exists_gap : ∃ g, (∀ c ∈ g, isBlank c) ∧ (∀ c ∈ (g ++ d.mark).head?, c = ' ') ∧
    d.text = d.name ++ ([' '] ++ (d.spelling ++ (d.sizeChars ++ (g ++ d.mark)))) := by
  rw [text, words, mark]
  cases d.isRequired with
  | false => exact ⟨[], by simp, by simp, by simp [unwords]⟩
  | true => exact ⟨[' '], by simp, by rintro c ⟨⟩; rfl, by simp [unwords]⟩

theorem exists_prefers_size {r : List Char} (hr : ∀ c ∈ r.head?, c = ' ') :
    ∃ l, (∀ k, (opt (nameList "size")).Prefers (d.sizeChars ++ r) k r (l ++ k)) ∧
      ((d.size = none ∧ l = []) ∨ ∃ z, d.size = some z ∧ l = [("size", ⟨z.chars ++ ')' :: r, ')' :: r⟩)]) := by
  rw [sizeChars]
  cases hz : d.size with
  | none =>
    refine ⟨[], fun k => Prefers.right (fun b => ⟨b, fun _ _ => rfl⟩) ?_, .inl ⟨rfl, rfl⟩⟩
    rintro b y ⟨x, ⟨x', hopen, -⟩, -⟩
    cases r with
    | nil => cases exists_of_spans_exactly hopen
    | cons c r =>
      obtain rfl := hr c rfl
      cases exists_of_spans_exactly hopen
  | some z =>
    have hinside : ∀ c ∈ z.chars, noneOf [')'] c := fun c hc =>
      (by decide : ∀ c ∈ ',' :: heads, noneOf [')'] c) c (Size.mem_of_mem_chars hc)
    refine ⟨_, fun k => Prefers.left ?_ nothing, .inr ⟨z, rfl, rfl⟩⟩
    have hsize := (prefers_many1 z.chars_ne_nil hinside (r := ')' :: r) (by rintro c ⟨⟩; rfl) k).keep "size"
    simpa [nameList] using ((prefers_exactly "(" _ k).append hsize).append (prefers_exactly ")" r _)

theorem matches?_text : ∃ m, columnPattern.matches? d.text = some m ∧ m.get "name" = d.name ∧
    m.get "type" = d.spelling ∧ m.get? "size" = d.size.map Size.chars ∧ m.get "rest" = d.mark := by
  obtain ⟨g, hg, hhead, htext⟩ := d.exists_gap
  have hmark : (∀ c ∈ d.mark, inLine c) ∧ ∀ c ∈ d.mark.head?, isBlank c = false := by
    rw [mark]
    cases d.isRequired with
    | false => simp
    | true => exact ⟨by decide, by rintro c ⟨⟩; rfl⟩
  have hbehind : ∀ c ∈ (d.sizeChars ++ (g ++ d.mark)).head?, isWord c = false := by
    rw [sizeChars]
    cases d.size with
    | some z => rintro c ⟨⟩; decide
    | none =>
      intro c hc
      rw [hhead c hc]
      decide
  have hname := (prefers_many1 d.isName.ne_nil (fun _ => d.isName.isWord_of_mem)
    (r := [' '] ++ (d.spelling ++ (d.sizeChars ++ (g ++ d.mark)))) (by rintro c ⟨⟩; decide) []).keep "name"
  have hspace := hname.append (prefers_many1 (by simp) (by simp)
    (head_solid_append d.isName_spelling.ne_nil d.isName_spelling.solid (d.sizeChars ++ (g ++ d.mark))) _)
  have htype := hspace.append ((prefers_many1 d.isName_spelling.ne_nil
    (fun _ => d.isName_spelling.isWord_of_mem) hbehind _).keep "type")
  obtain ⟨l, hsize, hl⟩ := d.exists_prefers_size hhead
  have hrest : ∀ k, (keep "rest" (many inLine)).Prefers d.mark k [] (("rest", ⟨d.mark, []⟩) :: k) := by
    intro k
    simpa using (prefers_many hmark.1 (r := []) (by simp) k).keep "rest"
  have hall := (((htype.append (hsize _)).append (prefers_many hg hmark.2 _)).append (hrest _)).append
    (prefers_finish _)
  rw [htext]
  refine ⟨_, hall.matchAt? 0 none, ?_⟩
  have hwhole : pieceBefore [] d.mark = d.mark := by simpa using pieceBefore_append d.mark []
  rcases hl with ⟨hz, rfl⟩ | ⟨z, hz, rfl⟩
  · rw [hz]
    exact ⟨pieceBefore_append _ _, pieceBefore_append _ _, rfl, hwhole⟩
  · rw [hz]
    exact ⟨pieceBefore_append _ _, pieceBefore_append _ _, congrArg some (pieceBefore_append _ _), hwhole⟩

theorem read_mark : mentions "NOT NULL" d.mark = d.isRequired ∧
    mentions "PRIMARY KEY" d.mark = false ∧ mentions "AUTO_INCREMENT" d.mark = false ∧
    defaultPattern.find? d.mark = none := by
  rw [mark]
  cases d.isRequired
  · exact ⟨by decide, by decide, by decide, rfl⟩
  · exact ⟨by decide, by decide, by decide, rfl⟩

/-- **A definition is read as its column.** -/
theorem readColumn?_text : readColumn? d.text = .ok (some d.column) := by
  obtain ⟨m, hm, hname, htype, hsize, hrest⟩ := d.matches?_text
  obtain ⟨hkeyword, hstored, -⟩ := table_facts _ d.known
  obtain ⟨hrequired, hprimary, hauto, hdefault⟩ := d.read_mark
  have hupper : String.ofList (upper d.spelling) = d.type := by
    rw [d.cased.upper hkeyword, String.ofList_toList]
  rw [readColumn?, d.strip_text.2, hm]
  simp only [hname, htype, hrest, hupper, hstored, hrequired, hprimary, hauto, hsize, hdefault]
  rw [column]
  cases d.size with
  | none => rfl
  | some z =>
    simp only [Option.map_some, readSize_chars]
    rfl

theorem property_column : property (.doc d.column) = .ok (d.key, .doc d.rule) := by
  rw [column, rule]
  cases d.size with
  | none => rfl
  | some z =>
    cases z with
    | scaled => rfl
    | length n =>
      have htest : (Value.text d.stored.type == .text "string") = decide (d.stored.type = "string") := by
        rw [Bool.eq_iff_iff, beq_iff_eq, decide_eq_true_iff, Value.text.injEq]
      -- Only the test for texts is left of the reading, as everything else is known.
      show (if (Value.text d.stored.type == .text "string") then _ else _) = _
      rw [htest]
      by_cases hstring : d.stored.type = "string"
      · simp only [hstring]; rfl
      · simp only [hstring]; rfl

theorem required?_column :
    required? (.doc d.column) = .ok (if d.isRequired then some (.text d.key) else none) := by
  rw [column]
  cases d.isRequired <;> rfl

/-- The words of a key do not stand side by side in a definition. -/
theorem not_mentions_key {phrase : String} {p q : List Char} (hphrase : phrase.toList = p ++ ' ' :: 'K' :: q) :
    Column.mentions phrase d.text = false := by
  have hascii : ∀ c ∈ d.text, c.toNat < 128 := by
    intro c hc
    rcases mem_unwords hc with rfl | ⟨w, hw, hc⟩
    · decide
    · exact (d.forall_mem_words (fun w hw c => hw.ascii) (by decide) w hw).2 c hc
  rw [Column.mentions, upper_of_ascii hascii, hasPiece, ← Bool.not_eq_true, isSome_cutAt?_iff]
  rintro ⟨u, v, htext⟩
  have hsplit : d.text.map Char.toUpper = (u ++ p) ++ ' ' :: 'K' :: (q ++ v) := by
    rw [htext, hphrase]
    simp
  obtain ⟨a, b, hab, -, hb⟩ := map_eq_append_iff.mp hsplit
  obtain ⟨x, b, rfl, hx, hb⟩ := map_eq_cons_iff.mp hb
  obtain ⟨y, b, rfl, hy, -⟩ := map_eq_cons_iff.mp hb
  have hblank : isBlank x := by
    rcases eq_toUpper_or x with h | h <;> rw [h, hx] <;> decide
  obtain ⟨w, hw, hhead⟩ := head_of_unwords hblank d.solid_words hab
  rcases mem_cons.mp hw with rfl | hw
  · refine (table_facts _ d.known).2.2 ?_
    rw [head?_append_of_ne_nil _ d.isName_spelling.ne_nil] at hhead
    rw [← d.cased, head?_map, hhead, Option.map_some, hy]
  · split at hw
    · have hmark : ∀ w ∈ ["NOT".toList, "NULL".toList], w.head? = some 'N' := by decide
      obtain rfl := Option.some.inj ((hmark w hw).symm.trans hhead)
      exact absurd hy (by decide)
    · cases hw

theorem isConstraint_text (h : ∀ word ∈ ["INDEX", "UNIQUE", "CHECK"], mentions word d.text = false) :
    isConstraint d.text = false := by
  have hprimary := d.not_mentions_key (show "PRIMARY KEY".toList = "PRIMARY".toList ++ _ from rfl)
  have hforeign := d.not_mentions_key (show "FOREIGN KEY".toList = "FOREIGN".toList ++ _ from rfl)
  rw [isConstraint]
  simp [hprimary, hforeign, h]

theorem isItem_text : IsItem d.text where
  trimmed := d.strip_text.2
  whole := by
    obtain ⟨g, hg, -, htext⟩ := d.exists_gap
    have hname : ∀ c ∈ d.name ++ ' ' :: d.spelling, c ∉ listMarks :=
      forall_mem_append.mpr ⟨d.isName.avoids (by decide),
        forall_mem_cons.mpr ⟨by decide, d.isName_spelling.avoids (by decide)⟩⟩
    have hmark : ∀ c ∈ g ++ d.mark, c ∉ listMarks := by
      refine forall_mem_append.mpr ⟨fun c hc hmem => ?_, ?_⟩
      · exact absurd (hg c hc) (by simp [(by decide : ∀ c ∈ listMarks, isBlank c = false) c hmem])
      · rw [mark]
        cases d.isRequired <;> decide
    rw [sizeChars] at htext
    rw [htext]
    cases d.size with
    | none => simpa using (whole_of_plain hname).append (whole_of_plain hmark)
    | some z =>
      have hsize : ∀ c ∈ z.chars, c ∉ listMarks.tail := fun c hc =>
        (by decide : ∀ c ∈ ',' :: heads, c ∉ listMarks.tail) c (Size.mem_of_mem_chars hc)
      simpa using (whole_applied hname hsize).append (whole_of_plain hmark)

end Definition

/-! ### Tables -/

variable {ds : List Definition}

theorem readColumns_definitions (hne : ds ≠ [])
    (hplain : ∀ d ∈ ds, ∀ word ∈ ["INDEX", "UNIQUE", "CHECK"], mentions word d.text = false) :
    readColumns (commaList (ds.map Definition.text)) = .ok (ds.map Definition.column) := by
  have hsplit : splitDefinitions (commaList (ds.map Definition.text)) = ds.map Definition.text := by
    rw [splitDefinitions_eq, splitValues_commaList (by simpa using hne) (forall_mem_map.mpr fun d _ => d.isItem_text),
      filter_eq_self]
    exact forall_mem_map.mpr fun d _ => by simpa using d.strip_text.1
  have hkept : (ds.map Definition.text).filter (fun piece => !isConstraint piece) = ds.map Definition.text := by
    rw [filter_eq_self]
    exact forall_mem_map.mpr fun d hd => by rw [d.isConstraint_text (hplain d hd)]; rfl
  rw [readColumns, hsplit, hkept, mapM_map_eq_ok fun d _ => d.readColumn?_text]
  simp [filterMap_map]

/-- The schema of a table: a rule for each column under its name, and the names of the required ones. -/
def tableSchema (ds : List Definition) : Document :=
  [("$jsonSchema", .doc [("bsonType", .text "object"), ("title", .text "Generated schema from CREATE TABLE"),
      ("properties", .doc (ds.map fun d => (d.key, .doc d.rule))),
      ("required", .list ((ds.filter Definition.isRequired).map fun d => .text d.key))])]

theorem schema_columns (hnames : (ds.map Definition.key).Nodup) :
    schema (ds.map fun d => .doc d.column) = .ok (tableSchema ds) := by
  have hrule : ∀ d ∈ ds, (do return (← property (.doc d.column), ← required? (.doc d.column))) =
      Except.ok ((d.key, doc d.rule), if d.isRequired then some (text d.key) else none) := by
    intro d _
    rw [d.property_column, d.required?_column]
    rfl
  have hmembers : Document.ofMembers (ds.map fun d => (d.key, doc d.rule)) =
      ds.map fun d => (d.key, doc d.rule) := by
    refine Document.merge_of_nodup ?_
    simpa [Document.names, Function.comp_def] using hnames
  have hrequired : ds.filterMap (fun d => if d.isRequired then some (text d.key) else none) =
      (ds.filter Definition.isRequired).map fun d => .text d.key := by
    rw [← filterMap_eq_map, filterMap_filter]
    rfl
  rw [schema, mapM_map_eq_ok hrule, tableSchema, ← hmembers, ← hrequired]
  show Except.ok _ = _
  rw [map_map, filterMap_map]
  rfl

/-- **A table is read with its columns in their order, and its schema has a rule for each of them.** -/
theorem readCreate_definitions (t : Identifier) (hne : ds ≠ []) (hnames : (ds.map Definition.key).Nodup)
    (hplain : ∀ d ∈ ds, ∀ word ∈ ["INDEX", "UNIQUE", "CHECK"], Column.mentions word d.text = false) :
    readCreate ("CREATE TABLE ".toList ++ (t.chars ++ ([' '] ++
        '(' :: (commaList (ds.map Definition.text) ++ [')'])))) =
      .ok [("operation", .text "CREATE_TABLE"), ("table", .text t.table),
        ("columns", .list (ds.map fun d => .doc d.column)),
        ("constraints", .doc (constraints (commaList (ds.map Definition.text)))),
        ("schema", .doc (tableSchema ds))] := by
  have hstrip : strip (commaList (ds.map Definition.text)) = commaList (ds.map Definition.text) :=
    (strip_commaList (by simpa using hne) (forall_mem_map.mpr fun d _ => d.strip_text)).2
  have hlaid : Laid (["CREATE", "TABLE"] ++ guardWords ["IF", "NOT", "EXISTS"] false) "CREATE TABLE ".toList :=
    laid_self _ (by decide)
  have hcolumns : (ds.map Definition.column).map doc = ds.map fun d => .doc d.column := by
    rw [map_map]
    rfl
  rw [readCreate_laid hlaid (by simp), created, hstrip, readColumns_definitions hne hplain]
  show (schema ((ds.map Definition.column).map doc) >>= fun _ => _) = _
  rw [hcolumns, schema_columns hnames]
  rfl

/-- A text with a length is limited, and the comma of a size does not end a definition. -/
theorem readCreate_goods : ∃ columns constraints, readCreate
      "CREATE TABLE Goods (Name varchar(20) NOT NULL, price DECIMAL(10,2))".toList =
    .ok [("operation", .text "CREATE_TABLE"), ("table", .text "goods"), ("columns", columns),
      ("constraints", constraints), ("schema", .doc [("$jsonSchema", .doc
        [("bsonType", .text "object"), ("title", .text "Generated schema from CREATE TABLE"),
          ("properties", .doc
            [("name", .doc [("bsonType", .text "string"), ("description", .text "Column name (VARCHAR)"),
                ("maxLength", .int 20)]),
              ("price", .doc [("bsonType", .text "decimal"), ("description", .text "Column price (DECIMAL)")])]),
          ("required", .list [.text "name"])])])] := by
  let number (ds : List (Fin 10)) (h : ds ≠ []) (hshort : ds.length ≤ 4300) : Short := ⟨⟨.none, ds, h⟩, hshort⟩
  let ds : List Definition :=
    [⟨"Name".toList, "VARCHAR", ⟨"string", "string", none⟩, "varchar".toList,
        some (.length (number [2, 0] (by simp) (by simp))), true, ⟨by decide, by decide⟩, by decide, rfl⟩,
      ⟨"price".toList, "DECIMAL", ⟨"number", "decimal", none⟩, "DECIMAL".toList,
        some (.scaled (number [1, 0] (by simp) (by simp)) (number [2] (by simp) (by simp))), false,
        ⟨by decide, by decide⟩, by decide, rfl⟩]
  have hread := readCreate_definitions ⟨"Goods".toList, by decide, by decide⟩ (show ds ≠ [] by simp [ds])
    (by decide) (by decide)
  exact ⟨_, _, hread⟩

end SqlGateway.Sql.Schema
