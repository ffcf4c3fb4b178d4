import Mathlib.Data.List.Dedup
import SqlGateway.Proofs.Sql.SelectList
import SqlGateway.Proofs.Text.Layout
import SqlGateway.Sql.Distinct

/-!
# Distinct rows

Stages turn documents into others (`Runs`): grouping gives one document for each value under which documents
are grouped, in any order, and projecting shows what members stand for.  **The stages of a statement with
`DISTINCT` give each row of the selected fields once** (`distinct_rows`).
-/

namespace SqlGateway.Sql.Distinct

open Text Pattern List Document Identifier SelectList

/-! ### What stages do -/

/-- The value at the end of a path of members. -/
def valueAt : List (List Char) → Value → Option Value
  | [], v => some v
  | name :: path, .doc d => (get? d (String.ofList name)).bind (valueAt path)
  | _ :: _, _ => none

/-- What a text such as `$a.b` stands for in a document. -/
def valueOf (d : Document) : Value → Option Value
  | .text s =>
    match s.toList with
    | '$' :: path => valueAt (splitAtChar '.' path) (.doc d)
    | _ => none
  | _ => none

/-- The members that stand for something in a document, with what they stand for. -/
def shown (members d : Document) : Document :=
  members.filterMap fun m => (valueOf d m.2).map (m.1, ·)

/-- A projection shows the identity too, unless it says otherwise. -/
def projected (members d : Document) : Document :=
  (if get? members "_id" = some (.int 0) then [] else d.filter (·.1 == "_id")) ++ shown members d

/-- The documents are grouped by what the members stand for in them. -/
def Groups (members : Document) (docs out : List Document) : Prop :=
  ∃ keys : List Document, keys.Nodup ∧ (∀ k, k ∈ keys ↔ ∃ d ∈ docs, shown members d = k) ∧
    out = keys.map fun k => [("_id", .doc k)]

/-- One stage turns some documents into others. -/
def Performs (stage : Value) (docs out : List Document) : Prop :=
  (∃ members, stage = .doc [("$group", .doc [("_id", .doc members)])] ∧ Groups members docs out) ∨
    ∃ members, stage = .doc [("$project", .doc members)] ∧ out = docs.map (projected members)

def Runs : List Value → List Document → List Document → Prop
  | [], docs, out => out = docs
  | stage :: stages, docs, out => ∃ between, Performs stage docs between ∧ Runs stages between out

/-! ### The stages of a statement -/

variable {fs : List Identifier} {d : Document}

def fieldsOf (fs : List Identifier) : Document :=
  fs.map fun f => (f.name, .text ("$" ++ f.name))

def fieldsBack (fs : List Identifier) : Document :=
  (fs.map fun f => (f.name, .text ("$_id." ++ f.name))) ++ [("_id", .int 0)]

/-- The values of a document in the fields. -/
def rowOf (fs : List Identifier) (d : Document) : Document :=
  fs.map fun f => (f.name, d.get f.name)

theorem read?_listWords (hne : fs ≠ []) (hcalm : ∀ f ∈ fs.tail, opensWith "FROM" f.chars = false)
    (b : List (List Char)) : read? (unwords ("SELECT" :: "DISTINCT" ::
      (listWords (fs.map chars) ++ "FROM".toList :: b))) =
        some (fs.map fun f => ⟨f.name, none⟩) := by
  have hfields : ∀ c ∈ fs.map chars, SelectList.IsField c :=
    forall_mem_map.mpr fun f _ => isField_identifier f
  have hfrom : opensWith "FROM" "FROM" := by decide
  obtain ⟨l, hl⟩ : ∃ l, l = listWords (fs.map chars) := ⟨_, rfl⟩
  obtain ⟨f, fs, rfl⟩ := exists_cons_of_ne_nil hne
  obtain ⟨w, hw, -⟩ := exists_listWords_cons f.chars (fs.map chars)
  have htail : ∀ v ∈ l.tail, opensWith "FROM" v = false := by
    intro v hv
    rw [hl, map_cons, hw, tail_cons] at hv
    obtain ⟨c, hc, hcv⟩ := mem_listWords hv
    obtain ⟨g, hg, rfl⟩ := mem_map.mp hc
    rcases hcv with rfl | rfl
    · exact hcalm g hg
    · rw [opensWith_concat (by decide) (by decide), hcalm g hg]
  obtain ⟨m, hfind, hget⟩ := find?_items
    (fun s hs => (laid_self ["SELECT", "DISTINCT"] (by decide)).prefers (by decide) (by simp) hs [])
    (hl ▸ isTerm_listWords hfields) (by rw [hl, map_cons, hw]; simp) htail hfrom
  have htext : unwords ("SELECT".toList :: "DISTINCT".toList :: (l ++ "FROM".toList :: b)) =
      (["SELECT", "DISTINCT"].flatMap fun w => w.toList ++ [' ']) ++ unwords (l ++ "FROM".toList :: b) := by
    rw [unwords_cons (by simp), unwords_cons (by simp)]
    simp
  rw [← hl, htext, read?, listPattern, hfind, Option.map_some, hget, hl, unwords_listWords]
  rw [(strip_commaList (by simp) fun c hc => ⟨(hfields c hc).ne_nil, (hfields c hc).trimmed⟩).2,
    readItems_commaList hfields (by simp), map_map]
  rfl

theorem stages_fields (hnodup : (fs.map name).Nodup) (hid : "_id" ∉ fs.map name) :
    stages (fs.map fun f => ⟨f.name, none⟩) =
      [.doc [("$group", .doc [("_id", .doc (fieldsOf fs))])], .doc [("$project", .doc (fieldsBack fs))]] := by
  have hfilter : ((fs.map fun f => (⟨f.name, none⟩ : SelectItem)).filter fun item =>
      item.field != "" && item.field != "*") = fs.map fun f => ⟨f.name, none⟩ := by
    refine filter_eq_self.mpr (forall_mem_map.mpr fun f _ => ?_)
    have hname : f.name ≠ "" ∧ f.name ≠ "*" := by
      constructor <;> intro h
      · exact f.ne_nil (String.ofList_injective h)
      · exact f.not_mem (c := '*') (by decide) (by rw [show f.chars = ['*'] from String.ofList_injective h]; simp)
    simpa using hname
  have hbare : ∀ f : Identifier, String.ofList (bareName f.name.toList) = f.name := by
    intro f
    rw [name, String.toList_ofList, f.bareName_chars]
  have hmembers : ∀ e : Identifier → String, names (fs.map fun f => (f.name, .text (e f))) =
      fs.map name := fun e => map_map.trans rfl
  rw [stages, hfilter]
  simp only [map_map, Function.comp_def, hbare, Option.getD_none]
  rw [ofMembers, ofMembers, merge_of_nodup (by rw [hmembers]; exact hnodup),
    merge_of_nodup (by rw [hmembers]; exact hnodup), nil_append, nil_append,
    set_of_not_mem (by rw [hmembers]; exact hid)]
  rfl

theorem splitAtChar_chars (f : Identifier) : splitAtChar '.' f.chars = [f.chars] := by
  have hsplit := splitAtChar_append (f.not_mem (by decide)) (show splitAtChar '.' [] = [[]] from rfl)
  rwa [append_nil] at hsplit

theorem valueOf_field (d : Document) (f : Identifier) : valueOf d (.text ("$" ++ f.name)) = d.get? f.name := by
  have htext : ("$" ++ f.name).toList = '$' :: f.chars := by simp [name]
  simp only [valueOf, htext, splitAtChar_chars, valueAt]
  exact Option.bind_fun_some _

theorem valueOf_back (k : Document) (f : Identifier) :
    valueOf [("_id", .doc k)] (.text ("$_id." ++ f.name)) = k.get? f.name := by
  have htext : ("$_id." ++ f.name).toList = '$' :: ("_id" ++ '.' :: f.chars) := by simp [name]
  have hsplit : splitAtChar '.' ("_id".toList ++ '.' :: f.chars) = ["_id".toList, f.chars] := by
    rw [splitAtChar_append (by decide) (show splitAtChar '.' ('.' :: f.chars) = [] :: splitAtChar '.' f.chars from rfl),
      splitAtChar_chars, append_nil]
  simp only [valueOf, htext, hsplit]
  exact Option.bind_fun_some (k.get? f.name)

theorem filterMap_rowOf {g : Identifier → Option Value} (h : ∀ f ∈ fs, g f = some (d.get f.name)) :
    (fs.filterMap fun f => (g f).map (f.name, ·)) = rowOf fs d := by
  rw [rowOf, ← filterMap_eq_map]
  exact filterMap_congr fun f hf => by rw [h f hf]; rfl

theorem shown_fieldsOf (h : ∀ f ∈ fs, d.has f.name) : shown (fieldsOf fs) d = rowOf fs d := by
  rw [shown, fieldsOf, filterMap_map]
  refine filterMap_rowOf fun f hf => ?_
  obtain ⟨v, hv⟩ := Option.isSome_iff_exists.mp (h f hf)
  rw [valueOf_field, Document.get, hv]
  rfl

theorem get?_rowOf {f : Identifier} : ∀ {fs : List Identifier}, f ∈ fs →
    (rowOf fs d).get? f.name = some (d.get f.name)
  | g :: fs, h => by
    rw [rowOf, map_cons, get?_cons]
    split
    case isTrue heq => rw [heq]
    case isFalse hne =>
      rcases mem_cons.mp h with rfl | h
      · exact absurd rfl hne
      · exact get?_rowOf h

theorem projected_fieldsBack (d : Document) (hid : "_id" ∉ fs.map name) :
    projected (fieldsBack fs) [("_id", .doc (rowOf fs d))] = rowOf fs d := by
  have hhidden : get? (fieldsBack fs) "_id" = some (.int 0) := by
    rw [get?, fieldsBack, lookup_append, lookup_eq_none_iff.mpr ?_]
    · rfl
    · refine forall_mem_map.mpr fun f hf => ?_
      have hne : "_id" ≠ f.name := fun h => hid (h ▸ mem_map_of_mem hf)
      simpa using hne
  rw [projected, if_pos hhidden, nil_append, shown, fieldsBack, filterMap_append, filterMap_map]
  refine (append_nil _).trans (filterMap_rowOf (g := fun f => valueOf [("_id", .doc (rowOf fs d))]
    (.text ("$_id." ++ f.name))) fun f hf => ?_)
  rw [valueOf_back, get?_rowOf hf]

/-- **The rows of the selected fields, each once.** -/
theorem distinct_rows (hne : fs ≠ []) (hnodup : (fs.map Identifier.name).Nodup)
    (hid : "_id" ∉ fs.map Identifier.name) (hcalm : ∀ f ∈ fs.tail, opensWith "FROM".toList f.chars = false)
    (b : List (List Char)) {docs : List Document} (hdocs : ∀ d ∈ docs, ∀ f ∈ fs, d.has f.name = true) :
    let stages := pipeline [] (unwords ("SELECT".toList :: "DISTINCT".toList ::
      (listWords (fs.map chars) ++ "FROM".toList :: b)))
    (∃ out, Runs stages docs out) ∧
      ∀ out, Runs stages docs out → out.Nodup ∧ ∀ row, row ∈ out ↔ ∃ d ∈ docs, row = rowOf fs d := by
  intro stages
  have hstages : stages = [.doc [("$group", .doc [("_id", .doc (fieldsOf fs))])],
      .doc [("$project", .doc (fieldsBack fs))]] := by
    rw [← stages_fields hnodup hid]
    simp only [stages, pipeline, read?_listWords hne hcalm b, nil_append]
  have hback : ∀ keys : List Document, (∀ k, k ∈ keys ↔ ∃ d ∈ docs, shown (fieldsOf fs) d = k) →
      (∀ k, k ∈ keys ↔ ∃ d ∈ docs, k = rowOf fs d) ∧
        (keys.map fun k => [("_id", Value.doc k)]).map (projected (fieldsBack fs)) = keys := by
    intro keys hkeys
    have hrows : ∀ k, k ∈ keys ↔ ∃ d ∈ docs, k = rowOf fs d := by
      intro k
      rw [hkeys]
      constructor
      · rintro ⟨d, hd, rfl⟩
        exact ⟨d, hd, shown_fieldsOf (hdocs d hd)⟩
      · rintro ⟨d, hd, rfl⟩
        exact ⟨d, hd, shown_fieldsOf (hdocs d hd)⟩
    refine ⟨hrows, ?_⟩
    rw [map_map]
    refine (map_congr_left fun k hk => ?_).trans (map_id' keys)
    obtain ⟨d, -, rfl⟩ := (hrows k).mp hk
    exact projected_fieldsBack d hid
  have hruns : ∀ out, Runs stages docs out ↔ ∃ between, Groups (fieldsOf fs) docs between ∧
      out = between.map (projected (fieldsBack fs)) := by
    intro out
    simp [hstages, Runs, Performs]
  constructor
  · obtain ⟨keys, hkeys⟩ : ∃ keys, keys = (docs.map (shown (fieldsOf fs))).dedup := ⟨_, rfl⟩
    refine ⟨_, (hruns _).mpr ⟨_, ⟨keys, hkeys ▸ nodup_dedup _, fun k => ?_, rfl⟩, rfl⟩⟩
    rw [hkeys, mem_dedup, mem_map]
  · intro out hout
    obtain ⟨_, ⟨keys, hkeys, hmem, rfl⟩, rfl⟩ := (hruns out).mp hout
    obtain ⟨hrows, hmap⟩ := hback keys hmem
    rw [hmap]
    exact ⟨hkeys, hrows⟩

/-- Two of the documents have the same row, which comes once. -/
theorem distinct_rows_twice :
    let docs : List Document := [[("_id", .int 1), ("a", .int 5), ("b", .int 6)],
      [("b", .int 6), ("c", .int 7), ("a", .int 5)], [("a", .int 6), ("b", .int 5)]]
    let stages := pipeline [] "SELECT DISTINCT a, b FROM t".toList
    (∃ out, Runs stages docs out) ∧ ∀ out, Runs stages docs out → out.Nodup ∧ ∀ row, row ∈ out ↔
      row = [("a", .int 5), ("b", .int 6)] ∨ row = [("a", .int 6), ("b", .int 5)] := by
  intro docs stages
  let fs : List Identifier := [⟨['a'], by decide, by decide⟩, ⟨['b'], by decide, by decide⟩]
  obtain ⟨hex, hrows⟩ := distinct_rows (show fs ≠ [] by simp [fs]) (by decide) (by decide) (by decide) [['t']]
    (show ∀ d ∈ docs, ∀ f ∈ fs, d.has f.name by decide)
  refine ⟨hex, fun out hout => ⟨(hrows out hout).1, fun row => ((hrows out hout).2 row).trans ?_⟩⟩
  have hdocs : docs.map (rowOf fs) = [[("a", .int 5), ("b", .int 6)], [("a", .int 5), ("b", .int 6)],
      [("a", .int 6), ("b", .int 5)]] := rfl
  have hmem : (∃ d ∈ docs, row = rowOf fs d) ↔ row ∈ docs.map (rowOf fs) := by
    simp only [mem_map, eq_comm]
  rw [hmem, hdocs]
  simp

end SqlGateway.Sql.Distinct
