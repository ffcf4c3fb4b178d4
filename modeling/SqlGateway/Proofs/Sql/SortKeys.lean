import SqlGateway.Proofs.Sql.OrderBy

/-!
# Sort keys

A list of sort keys is read as it is written, with any blanks around its commas and its directions in any
case (`readKeys_listed`).  A field that is listed again keeps its first place and takes its last direction.
-/

namespace SqlGateway.Sql.OrderBy

open Text List Document

variable {c : Char}

theorem ne_of_isBlank (h : isBlank c) : c ≠ ',' ∧ c ≠ ';' := by
  constructor <;>
  · rintro rfl
    exact absurd h (by decide)

/-- A field with its direction, and what is written behind the field. -/
structure SortKey where
  field : List Char
  direction : Direction
  tail : List Char
  ne_nil : field ≠ []
  plain : ∀ c ∈ field, isBlank c = false ∧ c ≠ ',' ∧ c ≠ ';'
  written : tail = [] ∧ direction = .upwards ∨
    ∃ g w, tail = g ++ w ∧ IsGap g ∧ w.map Char.toUpper = direction.word

namespace SortKey

variable (k : SortKey) {b e : List Char}

def name : String :=
  String.ofList k.field

def text : List Char :=
  k.field ++ k.tail

def member : String × Value :=
  (k.name, k.direction.toValue)

theorem words_field : words k.field = [k.field] :=
  words_solid k.ne_nil fun c hc => (k.plain c hc).1

theorem direction_word {d : Direction} {w : List Char} (hw : w.map Char.toUpper = d.word) :
    w ≠ [] ∧ (∀ c ∈ w, isBlank c = false ∧ c ≠ ',' ∧ c ≠ ';') ∧ upper w = d.word := by
  obtain ⟨word, hkeyword, hd⟩ : ∃ word : String, IsKeyword word.toList ∧ d.word = word.toList := by
    cases d
    · exact ⟨"ASC", by decide, rfl⟩
    · exact ⟨"DESC", by decide, rfl⟩
  rw [hd] at hw ⊢
  have hcased : IsCased word w := hw
  obtain ⟨hne, hsolid, hletters⟩ := hkeyword.of_spells (hcased.spells hkeyword)
  refine ⟨hne, fun c hc => ⟨hsolid c hc, ?_, ?_⟩, hcased.upper hkeyword⟩
  · rintro rfl
    exact absurd (hletters ',' hc) (by decide)
  · rintro rfl
    exact absurd (hletters ';' hc) (by decide)

theorem mem_text (hc : c ∈ k.text) : c ≠ ',' ∧ c ≠ ';' := by
  rcases mem_append.mp hc with hc | hc
  · exact (k.plain c hc).2
  · rcases k.written with ⟨htail, -⟩ | ⟨g, w, htail, hg, hw⟩
    · rw [htail] at hc
      cases hc
    · rw [htail] at hc
      rcases mem_append.mp hc with hc | hc
      · exact ne_of_isBlank (hg.2 c hc)
      · exact ((direction_word hw).2.1 c hc).2

theorem mem_padded (hb : ∀ c ∈ b, isBlank c) (he : ∀ c ∈ e, isBlank c)
    (hc : c ∈ b ++ (k.text ++ e)) : c ≠ ',' ∧ c ≠ ';' := by
  rcases mem_append.mp hc with hc | hc
  · exact ne_of_isBlank (hb c hc)
  · rcases mem_append.mp hc with hc | hc
    · exact k.mem_text hc
    · exact ne_of_isBlank (he c hc)

theorem readKey?_text (hb : ∀ c ∈ b, isBlank c) (he : ∀ c ∈ e, isBlank c) :
    readKey? (b ++ (k.text ++ e)) = some (k.name, k.direction) := by
  rw [readKey?, words_blanks_append hb, words_append_blanks he, text]
  rcases k.written with ⟨htail, hdirection⟩ | ⟨g, w, htail, hg, hw⟩
  · rw [htail, append_nil, k.words_field, hdirection]
    rfl
  · obtain ⟨hne, hsolid, hupper⟩ := direction_word hw
    have hword : words w = [w] := words_solid hne fun c hc => (hsolid c hc).1
    rw [htail, words_append_gap hg, k.words_field, hword]
    simp only [singleton_append, isKeyword, hupper]
    cases k.direction <;> rfl

end SortKey

/-- The keys stand in a text with commas between them, and blanks around the commas. -/
inductive Listed : List SortKey → List Char → Prop
  | last (k : SortKey) {b e : List Char} (hb : ∀ c ∈ b, isBlank c) (he : ∀ c ∈ e, isBlank c) :
      Listed [k] (b ++ (k.text ++ e))
  | cons (k : SortKey) {ks : List SortKey} {b e s : List Char} (hb : ∀ c ∈ b, isBlank c)
      (he : ∀ c ∈ e, isBlank c) (hs : Listed ks s) : Listed (k :: ks) (b ++ (k.text ++ e) ++ ',' :: s)

variable {ks : List SortKey}

theorem Listed.pieces {s : List Char} (h : Listed ks s) :
    ';' ∉ s ∧ (splitAtChar ',' s).filterMap readKey? = ks.map fun k => (k.name, k.direction) := by
  induction h with
  | last k hb he =>
    refine ⟨fun hmem => (k.mem_padded hb he hmem).2 rfl, ?_⟩
    have hsplit := splitAtChar_append (fun hmem => (k.mem_padded hb he hmem).1 rfl)
      (show splitAtChar ',' [] = [[]] from rfl)
    rw [append_nil] at hsplit
    rw [hsplit, filterMap_cons_some (k.readKey?_text hb he)]
    rfl
  | @cons k ks b e s hb he hs ih =>
    constructor
    · rw [mem_append, mem_cons, not_or, not_or]
      exact ⟨fun hmem => (k.mem_padded hb he hmem).2 rfl, by decide, ih.1⟩
    · have hsplit := splitAtChar_append
        (fun hmem => (k.mem_padded hb he hmem).1 rfl) (show splitAtChar ',' (',' :: s) = [] :: splitAtChar ',' s from rfl)
      rw [append_nil] at hsplit
      rw [hsplit, filterMap_cons_some (k.readKey?_text hb he), ih.2, map_cons]

/-- A list of keys sets the directions of its fields one after the other. -/
theorem Listed.readKeys_eq {s : List Char} (h : Listed ks s) :
    readKeys s = ofMembers (ks.map SortKey.member) := by
  obtain ⟨hsemicolon, hpieces⟩ := h.pieces
  have hlast : endsWith [';'] s = false := endsWith_singleton fun c hc => by
    rintro rfl
    exact hsemicolon (mem_of_getLast? hc)
  rw [readKeys, Where.dropSemicolon, hlast]
  simp only [Bool.false_eq_true, if_false, hpieces, map_map]
  rfl

/-- **Sort keys are read as they are written**, each field at its first place and with its last direction. -/
theorem readKeys_listed {ks : List SortKey} {s : List Char} (h : Listed ks s) :
    (readKeys s).names = (ks.map SortKey.name).eraseDups ∧ (∀ n v, (n, v) ∈ readKeys s ↔
        ∃ l k r, ks = l ++ k :: r ∧ k.member = (n, v) ∧ n ∉ r.map SortKey.name) ∧
      ((ks.map SortKey.name).Nodup → readKeys s = ks.map SortKey.member) := by
  have hnames : names (ks.map SortKey.member) = ks.map SortKey.name := by
    rw [names, map_map]
    rfl
  rw [h.readKeys_eq]
  refine ⟨?_, fun n v => ?_, fun hnodup => ?_⟩
  · rw [names_ofMembers, hnames]
  · rw [ofMembers, mem_merge_iff (by simp [names])]
    constructor
    · rintro (⟨l, r, hsplit, hr⟩ | ⟨-, hmem⟩)
      · obtain ⟨ks₁, ks₂, rfl, rfl, hks₂⟩ := map_eq_append_iff.mp hsplit
        obtain ⟨k, ks₃, rfl, hk, rfl⟩ := map_eq_cons_iff.mp hks₂
        refine ⟨ks₁, k, ks₃, rfl, hk, ?_⟩
        rwa [names, map_map] at hr
      · cases hmem
    · rintro ⟨l, k, r, rfl, hk, hr⟩
      refine .inl ⟨l.map SortKey.member, r.map SortKey.member, ?_, ?_⟩
      · rw [map_append, map_cons, hk]
      · rwa [names, map_map]
  · exact merge_of_nodup (by rw [hnames]; exact hnodup)

/-- A field that is listed downwards and then upwards comes first, and upwards. -/
theorem readKeys_listed_again : ∃ ks, Listed ks "b dEsC , a,b".toList ∧
    (readKeys "b dEsC , a,b".toList).names = ["b", "a"] ∧ ("b", .int 1) ∈ readKeys "b dEsC , a,b".toList := by
  let bare (c : Char) (h : isBlank c = false ∧ c ≠ ',' ∧ c ≠ ';') : SortKey :=
    ⟨[c], .upwards, [], cons_ne_nil c [], forall_mem_singleton.mpr h, .inl ⟨rfl, rfl⟩⟩
  let downwards : SortKey := ⟨['b'], .downwards, " dEsC".toList, cons_ne_nil _ _, by decide,
    .inr ⟨[' '], "dEsC".toList, rfl, isGap_space, by decide⟩⟩
  have hlisted : Listed [downwards, bare 'a' (by decide), bare 'b' (by decide)] "b dEsC , a,b".toList :=
    .cons downwards (b := []) (e := [' ']) (by simp) (by simp) (.cons (bare 'a' (by decide)) (b := [' ']) (e := [])
      (by simp) (by simp) (.last (bare 'b' (by decide)) (b := []) (by simp) (by simp)))
  obtain ⟨hnames, hmem, -⟩ := readKeys_listed hlisted
  refine ⟨_, hlisted, hnames.trans (by decide), (hmem _ _).mpr ⟨[downwards, bare 'a' (by decide)], _, [], rfl, rfl, ?_⟩⟩
  simp

end SqlGateway.Sql.OrderBy
