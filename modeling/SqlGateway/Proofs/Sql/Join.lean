import SqlGateway.Proofs.Sql.Feature
import SqlGateway.Proofs.Text.Place

/-!
# Joins in words

`JOIN` is also found at the end of a longer word, and the words before it may be ends of names.  But a join
needs `ON` behind its table, and that settles which `JOIN` it is (`eq_of_onFollows`).  So **a statement with
one join is read as it is written** (`exists_type`), up to the type of the join.
-/

namespace SqlGateway.Sql

open Text Pattern Where List

variable {K : String} {a : List (List Char)} {x y : Cursor} {u₁ u₂ : List Char}

def dotted (table field : Identifier) : List Char :=
  table.chars ++ '.' :: field.chars

theorem word_dotted (a x : Identifier) : Word (dotted a x) where
  ne_nil := by simp [dotted]
  plain := forall_mem_append.mpr ⟨a.word.plain, forall_mem_cons.mpr ⟨by decide, x.word.plain⟩⟩

theorem spells_dotted (hK : IsKeyword K) (a x : Identifier) : spells K (dotted a x) = false := by
  rw [← Bool.not_eq_true]
  intro h
  have hdot : '.' ∉ dotted a x := not_mem_of_spells hK (by decide) h
  exact hdot (by simp [dotted])

theorem mute_dotted (hK : IsKeyword K) (a : Identifier) {x : Identifier}
    (h : spells K x.chars = false) : Mute K (dotted a x) where
  solid := (word_dotted a x).solid
  other := spells_dotted hK a x
  seam := by
    refine seamless_iff.mpr fun u k huk hk => ?_
    have hdot : '.' ∉ k := not_mem_of_spells hK (by decide) hk
    rcases append_eq_append_iff.mp huk with ⟨m, rfl, hm⟩ | ⟨m, -, rfl⟩
    · cases m with
      | nil =>
        rw [nil_append] at hm
        exact absurd (by rw [← hm]; simp) hdot
      | cons d m =>
        obtain ⟨-, hx⟩ := cons.inj hm
        rcases eq_nil_or_concat m with rfl | ⟨m, d', rfl⟩
        · obtain rfl : x.chars = k := hx
          rw [hk] at h
          cases h
        · intro c hc
          rw [concat_eq_append, append_cons, ← append_assoc, getLast?_concat] at hc
          obtain rfl : d' = c := Option.some.inj hc
          exact x.isWord_of_mem (by rw [hx]; simp)
    · exact absurd (by simp) hdot

namespace Join

/-! ### Keywords before a join -/

/-- The words that may stand before `JOIN`. -/
def directionWords : List String :=
  ["INNER", "LEFT", "RIGHT", "FULL", "OUTER", "CROSS"]

/-- A pattern that leads from place to place over some of these words. -/
def Steps (p : Pattern) : Prop :=
  ∀ (a : List (List Char)) (x y : Cursor), IsPlace a → x.rest = unwords a → p.Spans x y →
    ∃ ks b, a = ks ++ b ∧ (∀ k ∈ ks, ∃ K ∈ directionWords, spells K k) ∧ IsPlace b ∧
      y.rest = unwords b

theorem steps_lit (hK : K ∈ directionWords) : Steps (lit K ++ space) := by
  intro a x y ha hx h
  obtain ⟨w, ws, rfl⟩ := exists_cons_of_ne_nil ha.ne_nil
  obtain ⟨hw, hws, hy⟩ := exists_of_lit_space ha hx
    ((by decide : ∀ K ∈ directionWords, IsKeyword K) K hK) h
  exact ⟨[w], ws, rfl, forall_mem_singleton.mpr ⟨K, hK, hw⟩, hws, hy⟩

theorem Steps.append {p q : Pattern} (hp : Steps p) (hq : Steps q) : Steps (p ++ q) := by
  rintro a x y ha hx ⟨z, hxz, hzy⟩
  obtain ⟨ks, b, rfl, hks, hb, hz⟩ := hp a x z ha hx hxz
  obtain ⟨ls, c, rfl, hls, hc, hy⟩ := hq b z y hb hz hzy
  refine ⟨ks ++ ls, c, (append_assoc ..).symm, ?_, hc, hy⟩
  exact forall_mem_append.mpr ⟨hks, hls⟩

theorem Steps.opt {p : Pattern} (hp : Steps p) : Steps (opt p) := by
  rintro a x y ha hx (h | rfl)
  · exact hp a x y ha hx h
  · exact ⟨[], a, rfl, by simp, ha, hx⟩

theorem steps_direction (hK : K ∈ directionWords) : Steps (direction K) :=
  (steps_lit hK).append (steps_lit (by decide)).opt

def beforeJoin : Pattern :=
  opt (lit "INNER" ++ space) ++
    opt (oneOf [direction "LEFT", direction "RIGHT", direction "FULL", lit "CROSS" ++ space])

theorem steps_beforeJoin : Steps beforeJoin := by
  refine (steps_lit (by decide)).opt.append (Steps.opt ?_)
  rintro a x y ha hx (h | h | h | h)
  · exact steps_direction (by decide) a x y ha hx h
  · exact steps_direction (by decide) a x y ha hx h
  · exact steps_direction (by decide) a x y ha hx h
  · exact steps_lit (by decide) a x y ha hx h

/-- **The words of a join** are spelled as keywords up to its `JOIN`. -/
theorem exists_of_words {z : Cursor} (ha : IsPlace a) (hx : x.rest = unwords a)
    (hwords : words.Spans x z) (hspace : space.Spans z y) : ∃ ks j b, a = ks ++ j :: b ∧
      (∀ k ∈ ks, ∃ K ∈ directionWords, spells K k) ∧ spells "JOIN" j ∧
      IsPlace b ∧ z.rest = ' ' :: unwords b ∧ y.rest = unwords b := by
  obtain ⟨z', hbefore, hlit⟩ := hwords
  obtain ⟨ks, c, rfl, hks, hc, hz'⟩ := steps_beforeJoin a x z' ha hx hbefore
  obtain ⟨j, b, rfl⟩ := exists_cons_of_ne_nil hc.ne_nil
  obtain ⟨hj, hb, hy⟩ := exists_of_lit_space hc hz' (by decide) ⟨z, hlit, hspace⟩
  obtain ⟨k, hk, hrest⟩ := exists_of_spans_lit hlit
  obtain ⟨rfl, -⟩ := exists_of_solid_space hc hz' ((by decide : IsKeyword "JOIN").of_spells hk).2.1
    hrest hspace
  rw [hz', unwords_cons hb.ne_nil] at hrest
  exact ⟨ks, k, b, rfl, hks, hj, hb, (append_cancel_left hrest).symm, hy⟩

theorem takes_words (r : List Char) : words.Takes "JOIN" r := by
  have hnone : ∀ (p : Pattern) (r : List Char), (opt p).Takes [] r := fun p r => Takes.right fun b => ⟨b, rfl⟩
  exact ((hnone _ _).append (hnone _ _)).append (takes_lit (by decide) r)

/-! ### Which `JOIN` it is -/

/-- A table, perhaps another name for it, and `ON` with something behind it. -/
def OnFollows (ws : List (List Char)) : Prop :=
  ∃ t r o c, ws = t :: (r ++ o :: c) ∧ spells "ON" o ∧ c ≠ [] ∧
    (r.length ≤ 1 ∨ ∃ s n, r = [s, n] ∧ spells "AS" s)

def joinTail : Pattern :=
  space ++ (keep "table" (many1 isTableChar) ++ (aliasPattern ++ (space ++ (lit "ON" ++ (space ++
    (keep "condition" (few anyChar) ++ ahead conditionEnd))))))

theorem spans_joinPattern : joinPattern.Spans x y ↔ ∃ z, words.Spans x z ∧ joinTail.Spans z y := by
  constructor
  · rintro ⟨z₁, ⟨z₂, ⟨z₃, ⟨z₄, ⟨z₅, ⟨z₆, ⟨z₇, ⟨z₈, h₁, h₂⟩, h₃⟩, h₄⟩, h₅⟩, h₆⟩, h₇⟩, h₈⟩, h₉⟩
    exact ⟨z₈, h₁, z₇, h₂, z₆, h₃, z₅, h₄, z₄, h₅, z₃, h₆, z₂, h₇, z₁, h₈, h₉⟩
  · rintro ⟨z₈, h₁, z₇, h₂, z₆, h₃, z₅, h₄, z₄, h₅, z₃, h₆, z₂, h₇, z₁, h₈, h₉⟩
    exact ⟨z₁, ⟨z₂, ⟨z₃, ⟨z₄, ⟨z₅, ⟨z₆, ⟨z₇, ⟨z₈, h₁, h₂⟩, h₃⟩, h₄⟩, h₅⟩, h₆⟩, h₇⟩, h₈⟩, h₉⟩

theorem prefers_joinPattern {s r : List Char} {k m : Kept}
    (h : (keep "type" words ++ joinTail).Prefers s k r m) : joinPattern.Prefers s k r m := by
  rw [joinPattern]
  exact h

theorem isBlank_of_isTableChar {c : Char} (h : isTableChar c) : isBlank c = false := by
  by_contra hblank
  rw [Bool.not_eq_false] at hblank
  rw [isTableChar, isWord_of_isBlank hblank, Bool.false_or, isNameQuote, isQuote] at h
  simp only [Bool.or_eq_true, beq_iff_eq] at h
  rcases h with (((rfl | rfl) | rfl) | rfl | rfl) | rfl <;> exact absurd hblank (by decide)

/-- **Behind the words of a join stands `ON`.** -/
theorem onFollows_of_joinTail {z : Cursor} (ha : IsPlace a) (hx : x.rest = unwords a)
    (hwords : words.Spans x z) (htail : joinTail.Spans z y) :
    ∃ ks j b, a = ks ++ j :: b ∧ (∀ k ∈ ks, ∃ K ∈ directionWords, spells K k) ∧
      spells "JOIN" j ∧ z.rest = ' ' :: unwords b ∧ OnFollows b := by
  obtain ⟨z₁, hspace, z₂, htable, z₃, halias, z₄, hspace', z₅, hon, z₆, hspace'', -⟩ := htail
  obtain ⟨ks, j, b, rfl, hks, hj, hb, hz, hz₁⟩ := exists_of_words ha hx hwords hspace
  refine ⟨ks, j, b, rfl, hks, hj, hz, ?_⟩
  obtain ⟨t, b, rfl⟩ := exists_cons_of_ne_nil hb.ne_nil
  -- the word behind the table and the other name
  have hend : ∀ {c : List (List Char)}, IsPlace c → z₄.rest = unwords c →
      ∃ o d, c = o :: d ∧ spells "ON" o ∧ d ≠ [] := by
    intro c hc hz₄
    obtain ⟨o, d, rfl⟩ := exists_cons_of_ne_nil hc.ne_nil
    obtain ⟨ho, hd, -⟩ := exists_of_lit_space hc hz₄ (by decide) ⟨z₅, hon, hspace''⟩
    exact ⟨o, d, rfl, ho, hd.ne_nil⟩
  rcases halias with ⟨z', ⟨z'', hspace₂, has⟩, hname⟩ | rfl
  · obtain ⟨hb, hz''⟩ := exists_of_class_space hb hz₁ (fun c => isBlank_of_isTableChar) ⟨z₂, htable, hspace₂⟩
    rcases has with has | rfl
    · obtain ⟨s, b, rfl⟩ := exists_cons_of_ne_nil hb.ne_nil
      obtain ⟨hs, hb, hz'⟩ := exists_of_lit_space hb hz'' (by decide) has
      obtain ⟨n, b, rfl⟩ := exists_cons_of_ne_nil hb.ne_nil
      obtain ⟨hb, hz₄⟩ := exists_of_class_space hb hz' (fun _ => isBlank_of_isWord) ⟨z₃, hname, hspace'⟩
      obtain ⟨o, d, rfl, ho, hd⟩ := hend hb hz₄
      exact ⟨t, [s, n], o, d, rfl, ho, hd, .inr ⟨s, n, rfl, hs⟩⟩
    · obtain ⟨n, b, rfl⟩ := exists_cons_of_ne_nil hb.ne_nil
      obtain ⟨hb, hz₄⟩ := exists_of_class_space hb hz'' (fun _ => isBlank_of_isWord) ⟨z₃, hname, hspace'⟩
      obtain ⟨o, d, rfl, ho, hd⟩ := hend hb hz₄
      exact ⟨t, [n], o, d, rfl, ho, hd, .inl (by simp)⟩
  · obtain ⟨hb, hz₄⟩ := exists_of_class_space hb hz₁ (fun c => isBlank_of_isTableChar) ⟨z₃, htable, hspace'⟩
    obtain ⟨o, d, rfl, ho, hd⟩ := hend hb hz₄
    exact ⟨t, [], o, d, rfl, ho, hd, .inl (by simp)⟩

variable {c : List (List Char)}

/-- **`ON` settles which `JOIN` it is**, whatever the words before it end with. -/
theorem eq_of_onFollows {b ks : List (List Char)} {j t n : List Char}
    (ha : ∀ w ∈ a.tail, spells "ON".toList w = false)
    (ht : ∀ K ∈ ["ON", "AS"], spells K.toList t = false) (hn : spells "ON".toList n = false)
    (hks : ∀ k ∈ ks, ∃ K ∈ directionWords, spells K.toList k) (hb : OnFollows b)
    (h : a ++ "JOIN".toList :: t :: n :: "ON".toList :: c = ks ++ j :: b) :
    a = ks ∧ b = t :: n :: "ON".toList :: c := by
  have hsplit : (a ++ ["JOIN".toList]) ++ (t :: n :: "ON".toList :: c) = (ks ++ [j]) ++ b := by
    simpa using h
  rcases append_eq_append_iff.mp hsplit with ⟨m, hm, hb'⟩ | ⟨m, hm, hb'⟩
  · -- the words of the join do not go on behind the first `JOIN`
    rcases eq_nil_or_concat m with rfl | ⟨m, e, rfl⟩
    · rw [append_nil] at hm
      exact ⟨(append_inj_left' hm rfl).symm, hb'.symm⟩
    · rw [concat_eq_append, ← append_assoc] at hm
      obtain ⟨K, hK, hspells⟩ := hks "JOIN".toList (by rw [append_inj_left' hm rfl]; simp)
      rw [(by decide : ∀ K ∈ directionWords, spells K.toList "JOIN".toList = false) K hK] at hspells
      cases hspells
  · -- nor does it end before it, because `ON` is too far away
    rcases eq_nil_or_concat m with rfl | ⟨m, e, rfl⟩
    · rw [append_nil] at hm
      exact ⟨append_inj_left' hm rfl, hb'⟩
    · rw [concat_eq_append, ← append_assoc] at hm
      obtain ⟨rfl, he⟩ := append_inj' hm rfl
      obtain rfl : "JOIN".toList = e := (cons.inj he).1
      have hbefore : ∀ w ∈ m ++ ["JOIN".toList, t, n], spells "ON".toList w = false := by
        have hjoin : spells "ON".toList "JOIN".toList = false := by decide
        rw [forall_mem_append]
        refine ⟨fun w hw => ha w ?_, by simpa using ⟨hjoin, ht "ON" (by simp), hn⟩⟩
        rw [tail_append_of_ne_nil (by simp)]
        exact mem_append_right _ hw
      obtain ⟨t', r, o, d, rfl, ho, -, hr⟩ := hb
      have hplace : (m ++ ["JOIN".toList, t, n]) ++ "ON".toList :: c = (t' :: r) ++ o :: d := by
        rw [cons_append, hb']
        simp
      have hlong : m ++ ["JOIN".toList, t, n] <+: t' :: r := by
        rcases append_eq_append_iff.mp hplace with ⟨q, hq, -⟩ | ⟨q, hq, hrest⟩
        · exact ⟨q, hq.symm⟩
        · cases q with
          | nil => exact ⟨[], by rw [hq]; simp⟩
          | cons w q =>
            obtain ⟨rfl, -⟩ := cons.inj hrest
            rw [hbefore o (by rw [hq]; simp)] at ho
            cases ho
      rcases hr with hr | ⟨s, n', rfl, hs⟩
      · have := hlong.length_le
        simp at this
        omega
      · cases m with
        | nil =>
          obtain rfl : t = s := by simp_all
          rw [ht "AS" (by simp)] at hs
          cases hs
        | cons w m =>
          have := hlong.length_le
          simp at this

/-! ### The condition -/

def equalityWords (a x b y : Identifier) : List (List Char) :=
  [dotted a x, ['='], dotted b y]

theorem prefers_dotted (table field : String) (a x : Identifier) {r : List Char}
    (hr : ∀ c ∈ r.head?, isWord c = false) (k : Kept) :
    (keep table (many1 isWord) ++ exactly "." ++ keep field (many1 isWord)).Prefers (dotted a x ++ r) k r
      ((field, ⟨x.chars ++ r, r⟩) :: (table, ⟨dotted a x ++ r, '.' :: (x.chars ++ r)⟩) :: k) := by
  have htext : dotted a x ++ r = a.chars ++ ("." ++ (x.chars ++ r)) := by simp [dotted]
  rw [htext]
  exact (((prefers_many1 a.ne_nil (fun _ => a.isWord_of_mem) (by simp; decide) k).keep table).append
    (prefers_exactly "." _ _)).append ((prefers_many1 x.ne_nil (fun _ => x.isWord_of_mem) hr _).keep field)

theorem pieceBefore_dotted (a x : Identifier) (r : List Char) :
    pieceBefore ('.' :: (x.chars ++ r)) (dotted a x ++ r) = a.chars := by
  rw [show dotted a x ++ r = a.chars ++ '.' :: (x.chars ++ r) by simp [dotted]]
  exact pieceBefore_append _ _

theorem head_dotted (a x : Identifier) (r : List Char) : ∀ c ∈ (dotted a x ++ r).head?, isBlank c = false :=
  head_solid_append (word_dotted a x).ne_nil (word_dotted a x).solid r

theorem read_equality (a x b y : Identifier) : JoinCondition.read (unwords (equalityWords a x b y)) =
    .equality a.name x.name b.name y.name := by
  obtain ⟨u, hu⟩ : ∃ u, u = [' '] ++ ("=".toList ++ ([' '] ++ (dotted b y ++ []))) := ⟨_, rfl⟩
  have htext : unwords (equalityWords a x b y) = dotted a x ++ u := by
    rw [hu]
    simp [equalityWords, unwords]
  have hleft := prefers_dotted "leftTable" "leftField" a x (r := u) (by rw [hu]; simp; decide) []
  have hright := prefers_dotted "rightTable" "rightField" b y (r := []) (by simp)
    [("leftField", ⟨x.chars ++ u, u⟩), ("leftTable", ⟨dotted a x ++ u, '.' :: (x.chars ++ u)⟩)]
  have hsign : ∀ {q : Pattern} {k l : Kept}, q.Prefers (dotted b y ++ []) k [] l →
      (gap ++ (exactly "=" ++ (gap ++ q))).Prefers u k [] l := by
    intro q k l hq
    rw [hu]
    exact (prefers_many (by simp) (by simp; decide) k).append ((prefers_exactly "=" _ k).append
      ((prefers_many (by simp) (head_dotted b y []) k).append hq))
  have hprefers : JoinCondition.equalityPattern.Prefers (dotted a x ++ u) [] []
      [("rightField", ⟨y.chars ++ [], []⟩), ("rightTable", ⟨dotted b y ++ [], '.' :: (y.chars ++ [])⟩),
        ("leftField", ⟨x.chars ++ u, u⟩), ("leftTable", ⟨dotted a x ++ u, '.' :: (x.chars ++ u)⟩)] := by
    have hwhole := hleft.append (hsign (prefers_assoc.mp hright))
    rw [JoinCondition.equalityPattern]
    exact hwhole
  obtain ⟨m, hm, hlt, hlf, hrt, hrf⟩ : ∃ m, JoinCondition.equalityPattern.find? (dotted a x ++ u) = some m ∧
      m.get "leftTable" = a.chars ∧ m.get "leftField" = x.chars ∧ m.get "rightTable" = b.chars ∧
      m.get "rightField" = y.chars :=
    ⟨_, hprefers.find?_here, pieceBefore_dotted a x u, pieceBefore_append x.chars u, pieceBefore_dotted b y [],
      pieceBefore_append y.chars []⟩
  rw [htext, JoinCondition.read, hm]
  show JoinCondition.equality (String.ofList (m.get "leftTable")) (String.ofList (m.get "leftField"))
    (String.ofList (m.get "rightTable")) (String.ofList (m.get "rightField")) = _
  rw [hlt, hlf, hrt, hrf]
  rfl

def endWords : List String :=
  directionWords ++ ["JOIN", "WHERE", "GROUP", "ORDER", "HAVING", "LIMIT"]

variable {ws : List (List Char)}

theorem exists_first_of_words {z : Cursor} (hwords : words.Spans x z) (hspace : space.Spans z y) :
    ∃ K ∈ endWords, ∃ z', (lit K ++ space).Spans x z' := by
  rcases hwords with ⟨z₁, ⟨z₂, h | rfl, hdirection⟩, hjoin⟩
  · exact ⟨"INNER", by decide, z₂, h⟩
  · rcases hdirection with (⟨z', h, -⟩ | ⟨z', h, -⟩ | ⟨z', h, -⟩ | h) | rfl
    · exact ⟨"LEFT", by decide, z', h⟩
    · exact ⟨"RIGHT", by decide, z', h⟩
    · exact ⟨"FULL", by decide, z', h⟩
    · exact ⟨"CROSS", by decide, z₁, h⟩
    · exact ⟨"JOIN", by decide, y, z, hjoin, hspace⟩

/-- A condition ends before such a keyword, at a semicolon or at the end. -/
theorem exists_of_conditionEnd (h : conditionEnd.Spans x y) :
    (∃ K ∈ endWords, ∃ z, (space ++ (lit K ++ space)).Spans x z) ∨
      (alt (gap ++ exactly ";") (gap ++ finish)).Spans x y := by
  rcases h with ⟨z, ⟨z', hspace, hwords⟩, hspace'⟩ | ⟨z, ⟨z', hspace, hlit⟩, hspace'⟩ |
    ⟨z, ⟨z', hspace, z'', hlit, -⟩, -⟩ | ⟨z, ⟨z', hspace, z'', hlit, -⟩, -⟩ |
    ⟨z, ⟨z', hspace, hlit⟩, hspace'⟩ | ⟨z, ⟨z', hspace, hlit⟩, hspace'⟩ | h
  · obtain ⟨K, hK, w, h⟩ := exists_first_of_words hwords hspace'
    exact .inl ⟨K, hK, w, z', hspace, h⟩
  · exact .inl ⟨"WHERE", by decide, y, z', hspace, z, hlit, hspace'⟩
  · exact .inl ⟨"GROUP", by decide, z'', z', hspace, hlit⟩
  · exact .inl ⟨"ORDER", by decide, z'', z', hspace, hlit⟩
  · exact .inl ⟨"HAVING", by decide, y, z', hspace, z, hlit, hspace'⟩
  · exact .inl ⟨"LIMIT", by decide, y, z', hspace, z, hlit, hspace'⟩
  · exact .inr h

theorem isPlace_of_terms (hne : ws ≠ []) (h : ∀ w ∈ ws, IsTerm w) : IsPlace ws :=
  ⟨hne, fun w hw => (h w hw).solid, fun w hw => (h w (mem_of_mem_tail hw)).ne_nil⟩

def behind : List (List Char) → List Char
  | [] => []
  | w :: ws => ' ' :: unwords (w :: ws)

theorem unwords_append_behind (hc : c ≠ []) (e : List (List Char)) :
    unwords (c ++ e) = unwords c ++ behind e := by
  cases e with
  | nil => rw [behind, append_nil, append_nil]
  | cons w ws => exact unwords_append hc (cons_ne_nil w ws)

theorem head_behind (e : List (List Char)) : ∀ d ∈ (behind e).head?, isBlank d := by
  cases e <;> simp [behind]

theorem unwords_nil_cons (e : List (List Char)) : unwords ([] :: e) = behind e := by
  cases e <;> rfl

/-- What may stand behind the condition of a join: nothing, or a clause. -/
inductive Closing : List (List Char) → Prop
  | nothing : Closing []
  | clause {ws : List (List Char)} (h : ws ≠ []) : Closing ("WHERE" :: ws)

variable {e : List (List Char)}

theorem Closing.spans_conditionEnd (he : Closing e) (b : Option Char) :
    ∃ y, conditionEnd.Spans ⟨b, behind e⟩ y := by
  cases he with
  | nothing =>
    obtain ⟨b', hgap⟩ := takes_many (s := []) (by simp) [] b
    exact ⟨_, .inr (.inr (.inr (.inr (.inr (.inr (.inr ⟨_, hgap, rfl, rfl⟩))))))⟩
  | @clause ws hws =>
    have hwhere : (space ++ lit "WHERE" ++ space).Takes ([' '] ++ "WHERE" ++ [' ']) (unwords ws) :=
      ((takes_many1 (by simp) (by simp) _).append (takes_lit (by decide) _)).append
        (takes_many1 (by simp) (by simp) _)
    obtain ⟨b', hspans⟩ := hwhere b
    have hbehind : [' '] ++ "WHERE" ++ [' '] ++ unwords ws = behind ("WHERE" :: ws) := by
      simp [behind, unwords_cons hws]
    rw [hbehind] at hspans
    exact ⟨_, .inr (.inl hspans)⟩

theorem not_spans_conditionEnd {r : List Char} (hterms : ∀ w ∈ c, IsTerm w)
    (hcalm : ∀ w ∈ c.tail, ∀ K ∈ endWords, spells K w = false) (hr : ∀ d ∈ r.head?, isBlank d)
    (hsplit : unwords c = u₁ ++ u₂) (hne : u₂ ≠ []) (b : Option Char) (y : Cursor) :
    ¬ conditionEnd.Spans ⟨b, u₂ ++ r⟩ y := by
  intro h
  rcases exists_of_conditionEnd h with ⟨K, hK, z, h⟩ | h
  · exact not_spans_whole hterms ((by decide : ∀ K ∈ endWords, IsKeyword K) K hK)
      (fun w hw => hcalm w hw K hK) hr hsplit hne b z h
  · exact not_spans_end hterms hsplit hne b y h

/-! ### The join -/

theorem exists_place_before (hterms : ∀ w ∈ a ++ c, IsTerm w) (ha : a ≠ [])
    (hc : c ≠ []) (hsplit : unwords a ++ [' '] = u₁ ++ u₂) : ∃ a', u₂ ++ unwords c = unwords (a' ++ c) ∧
      IsPlace (a' ++ c) ∧ ∀ w ∈ a'.tail, w ∈ a := by
  have hconcat : unwords (a ++ [[]]) = u₁ ++ u₂ := by
    rw [unwords_append ha (by simp), ← hsplit]
    rfl
  obtain ⟨d, x, z, b, hlist, -, rfl⟩ := exists_place (by simp) hconcat
  rcases eq_nil_or_concat b with rfl | ⟨b, e, rfl⟩
  · obtain ⟨rfl, hlast⟩ := append_inj' hlist rfl
    obtain ⟨rfl, rfl⟩ := append_eq_nil_iff.mp (cons.inj hlast).1.symm
    exact ⟨[], rfl, (isPlace_of_terms (by simp [hc]) hterms).of_append hc, by simp⟩
  · rw [concat_eq_append, ← cons_append, ← append_assoc] at hlist
    obtain ⟨rfl, hlast⟩ := append_inj' hlist rfl
    obtain rfl : [] = e := (cons.inj hlast).1
    refine ⟨z :: b, ?_, ?_, fun w hw => by simp [show w ∈ b from hw]⟩
    · rw [concat_eq_append, ← cons_append, unwords_append (by simp) (by simp),
        unwords_append (cons_ne_nil _ _) hc]
      simp
    · rw [append_assoc, cons_append] at hterms
      exact (isPlace_of_terms (by simp) hterms).of_rest

section

variable {t n : Identifier} {c : List (List Char)} {r : List Char} (hterms : ∀ w ∈ c, IsTerm w) (hc : c ≠ [])
  (hcalm : ∀ w ∈ c.tail, ∀ K ∈ endWords, spells K w = false) (hn : spells "AS" n.chars = false)
  (hr : ∀ d ∈ r.head?, isBlank d) (hend : ∀ b, ∃ y, conditionEnd.Spans ⟨b, r⟩ y)
include hterms hc hcalm hn hr hend

theorem prefers_joinTail (k : Kept) :
    let u := [' '] ++ ("ON" ++ ([' '] ++ (unwords c ++ r)))
    let v := [' '] ++ (n.chars ++ u)
    joinTail.Prefers ([' '] ++ (t.chars ++ v)) k r (("condition", ⟨unwords c ++ r, r⟩) ::
      ("alias", ⟨n.chars ++ u, u⟩) :: ("table", ⟨t.chars ++ v, v⟩) :: k) := by
  intro u v
  have hblank : ∀ (s : List Char) (k : Kept), (∀ d ∈ s.head?, isBlank d = false) →
      space.Prefers ([' '] ++ s) k s k := fun s k hs => prefers_many1 (by simp) (by simp) hs k
  have hcondition : ∀ k : Kept, (keep "condition" (few anyChar) ++ ahead conditionEnd).Prefers
      (unwords c ++ r) k r (("condition", ⟨unwords c ++ r, r⟩) :: k) := by
    intro k
    refine prefers_few_first "condition" (fun _ _ => rfl) ?_ (prefers_ahead (by decide) hend _)
    rintro u₁ u₂ hsplit hne b y ⟨-, z, hz⟩
    exact not_spans_conditionEnd hterms hcalm hr hsplit hne b z hz
  have hhead : ∀ d ∈ (unwords c ++ r).head?, isBlank d = false :=
    head_unwords (fun w hw => ⟨(hterms w hw).ne_nil, (hterms w hw).solid⟩) hc r
  have halias : ∀ k : Kept, aliasPattern.Prefers v k u (("alias", ⟨n.chars ++ u, u⟩) :: k) := by
    intro k
    refine Prefers.left ((((hblank _ k (head_solid_append n.ne_nil (fun _ => n.solid) _)).append
      (Prefers.right (fun b => ⟨b, fun _ _ => rfl⟩) ?_)).append
        ((prefers_many1 n.ne_nil (fun _ => n.isWord_of_mem) (by simp [u]; decide) k).keep "alias"))) _
    -- the other name is not `AS`
    rintro b y ⟨z, has, hspace⟩
    have hsplit : unwords [[], n.chars] = [] ++ ' ' :: n.chars := rfl
    obtain ⟨w, hw, hspells⟩ := exists_whole_of_spans (v := u) (g := [' ']) (by decide)
      (by simpa using ⟨solid_nil, fun _ => n.solid⟩) (by simpa using n.ne_nil) hsplit (cons_ne_nil _ _)
      (by simp [u]) (by simp) (by simp) rfl has (head_of_spans_space hspace)
    rw [mem_singleton.mp hw, hn] at hspells
    cases hspells
  refine (hblank _ k (head_solid_append t.ne_nil (fun _ => t.solid) _)).append (Prefers.append (Prefers.keep
    (prefers_many1 t.ne_nil (fun c hc => by simp [isTableChar, t.isWord_of_mem hc])
      (by simp [v]; decide) k) "table")
      ((halias _).append ((hblank _ _ (by simp; decide)).append ((prefers_lit (by decide) _ _).append
        ((hblank _ _ hhead).append (hcondition _))))))

/-- What is matched where the words of a join stand before a table, a name and a condition, whatever is
matched behind them. -/
theorem findAllFrom_of_joinTail {u s A : List Char} (hA : A = behind (t.chars :: n.chars :: "ON" :: c) ++ r)
    (hs : ∀ {r l}, joinTail.Prefers A [("type", ⟨s ++ A, A⟩)] r l → joinPattern.Prefers (s ++ A) [] r l)
    (hu : joinPattern.Absent u (s ++ A)) (start : Nat) (b : Option Char) : ∃ m start' b',
      joinPattern.findAllFrom start 0 b (u ++ (s ++ A)) = m :: joinPattern.findAllFrom start' 0 b' r ∧
      m.get "type" = s ∧ m.get "table" = t.chars ∧ m.get? "alias" = some n.chars ∧
      m.get "condition" = unwords c := by
  obtain ⟨g, hg⟩ : ∃ g, g = [' '] ++ ("ON" ++ ([' '] ++ (unwords c ++ r))) := ⟨_, rfl⟩
  obtain ⟨v, hv⟩ : ∃ v, v = [' '] ++ (n.chars ++ g) := ⟨_, rfl⟩
  have htext : A = [' '] ++ (t.chars ++ v) := by
    rw [hA, behind, unwords_cons (by simp), unwords_cons (by simp), unwords_cons hc, hv, hg]
    simp
  have hprefers : joinPattern.Prefers (s ++ A) [] r [("condition", ⟨unwords c ++ r, r⟩),
      ("alias", ⟨n.chars ++ g, g⟩), ("table", ⟨t.chars ++ v, v⟩), ("type", ⟨s ++ A, A⟩)] := by
    refine hs ?_
    rw [htext, hv, hg]
    exact prefers_joinTail hterms hc hcalm hn hr hend _
  have hpiece : pieceBefore A (s ++ A) = s := pieceBefore_append s A
  rw [hA, ← append_assoc s] at hprefers hpiece hu ⊢
  obtain ⟨start', b', hmatch⟩ := findAllFrom_step hprefers (by simp [behind]) hu start b
  exact ⟨_, start', b', hmatch, hpiece, pieceBefore_append t.chars v,
    congrArg some (pieceBefore_append n.chars g), pieceBefore_append (unwords c) r⟩

end

/-- Whether the words of a join begin at a place with `u` before its `JOIN`. -/
def Begins (u : List Char) : Prop :=
  ∀ r, words.Takes (u ++ "JOIN") r

/-- The first place where they begin, behind `u₁`. -/
structure BeginsFirst (l : List (List Char)) (u₁ u₂ : List Char) : Prop where
  split : unwords l ++ [' '] = u₁ ++ u₂
  begins : Begins u₂
  first : ∀ a c, u₁ = a ++ c → c ≠ [] → ¬ Begins (c ++ u₂)

theorem exists_beginsFirst (l : List (List Char)) : ∃ u₁ u₂, BeginsFirst l u₁ u₂ := by
  obtain ⟨u₁, u₂, hsplit, hbegins, hfirst⟩ := exists_first_suffix (P := Begins) (s := unwords l ++ [' '])
    ⟨[], nil_suffix, takes_words⟩
  rw [hsplit] at hfirst
  exact ⟨u₁, u₂, hsplit, hbegins, fun _ _ => not_before_first hfirst⟩

section

variable {l c e : List (List Char)} {t n : Identifier}
  (hterms : ∀ w ∈ l ++ "JOIN".toList :: t.chars :: n.chars :: "ON".toList :: (c ++ e), IsTerm w)
  (hl : ∀ w ∈ l, spells "ON" w = false) (ht : ∀ K ∈ ["ON", "AS"], spells K t.chars = false)
  (hn : ∀ K ∈ ["ON", "AS"], spells K n.chars = false) (hne : l ≠ []) (hc : c ≠ []) (he : Closing e)

theorem not_spans_behind (hbehind : ∀ w ∈ e, IsTerm w) (hlast : ∀ w ∈ e.dropLast, spells "ON" w = false)
    {r₁ r₂ : List Char} (hsplit : behind e = r₁ ++ r₂) (b : Option Char) (y : Cursor) :
    ¬ joinPattern.Spans ⟨b, r₂⟩ y := by
  intro h
  rw [← unwords_nil_cons] at hsplit
  obtain ⟨d, x, w, ws, hlist, -, rfl⟩ := exists_place (by simp) hsplit
  have hplace : IsPlace ([] :: e) :=
    ⟨by simp, forall_mem_cons.mpr ⟨solid_nil, fun w hw => (hbehind w hw).solid⟩,
      fun w hw => (hbehind w hw).ne_nil⟩
  rw [hlist] at hplace
  obtain ⟨z, hspans, htail⟩ := spans_joinPattern.mp h
  obtain ⟨ks, j, b', hsplit', -, -, -, t', r, o, c', rfl, ho, hc', -⟩ :=
    onFollows_of_joinTail hplace.of_rest rfl hspans htail
  -- behind the last word no word follows
  have hmem : o ∈ e.dropLast := by
    have hws : ws = (ks ++ [j]).tail ++ t' :: (r ++ o :: c') := by
      rw [← tail_append_of_ne_nil (by simp), append_assoc, singleton_append, ← hsplit', tail_cons]
    have he : e = (d ++ [x ++ w]).tail ++ ws := by
      rw [← tail_append_of_ne_nil (by simp), append_assoc, singleton_append, ← hlist, tail_cons]
    have hshape : e = ((d ++ [x ++ w]).tail ++ ((ks ++ [j]).tail ++ t' :: (r ++ [o]))) ++ c' := by
      rw [he, hws]
      simp
    rw [hshape, dropLast_append_of_ne_nil hc']
    simp
  rw [hlast o hmem] at ho
  cases ho

include hterms hl ht hn hne hc he

/-- **There is one join, with the table, the name and the condition that are written.**  Its type is what
stands before its table from the first place on where the words of a join begin. -/
theorem exists_match (hopen : BeginsFirst l u₁ u₂)
    (hcalm : ∀ w ∈ c.tail, ∀ K ∈ endWords, spells K w = false)
    (hlast : ∀ w ∈ e.dropLast, spells "ON" w = false) :
    ∃ m, joinPattern.findAll (unwords (l ++ "JOIN".toList :: t.chars :: n.chars :: "ON".toList ::
        (c ++ e))) = [m] ∧ m.get "type" = u₂ ++ "JOIN".toList ∧
      m.get "table" = t.chars ∧ m.get? "alias" = some n.chars ∧ m.get "condition" = unwords c := by
  obtain ⟨d, hd⟩ : ∃ d, d = t.chars :: n.chars :: "ON".toList :: (c ++ e) := ⟨_, rfl⟩
  have hctail : ∀ w ∈ c ++ e, IsTerm w := fun w hw => hterms w (by simp at hw ⊢; tauto)
  have hjoin : unwords ("JOIN".toList :: d) = "JOIN".toList ++ ' ' :: unwords d :=
    unwords_cons (by rw [hd]; simp) _
  -- wherever the words of a join begin, they end here
  have hunique : ∀ u₁ u₂, unwords l ++ [' '] = u₁ ++ u₂ → ∀ b y z,
      words.Spans ⟨b, u₂ ++ unwords ("JOIN" :: d)⟩ z →
      joinTail.Spans z y → z.rest = ' ' :: unwords d := by
    intro u₁ u₂ hsplit b y z hwords hspans
    obtain ⟨a, hrest, hplace, ha⟩ := exists_place_before (c := "JOIN" :: d) (by rw [hd]; exact hterms) hne
      (by simp) hsplit
    obtain ⟨ks, j, b', hlist, hks, -, hz, hb'⟩ := onFollows_of_joinTail hplace hrest hwords hspans
    rw [hd] at hlist
    rw [hz, (eq_of_onFollows (fun w hw => hl w (ha w hw)) ht (hn "ON" (by simp)) hks hb' hlist).2, hd]
  have hbegins : ∀ u₁ u₂, unwords l ++ [' '] = u₁ ++ u₂ → ∀ b y,
      joinPattern.Spans ⟨b, u₂ ++ unwords ("JOIN" :: d)⟩ y → Begins u₂ := by
    intro u₁ u₂ hsplit b y hspans
    obtain ⟨z, hwords, hrest⟩ := spans_joinPattern.mp hspans
    obtain ⟨s, hs, htakes, -⟩ := exists_of_spans_free (by decide) hwords
    rw [hunique u₁ u₂ hsplit b y z hwords hrest] at hs
    have hcut : (u₂ ++ "JOIN") ++ ' ' :: unwords d = s ++ ' ' :: unwords d := by
      rw [← hs, append_assoc, ← hjoin]
    rw [Begins, append_cancel_right hcut]
    exact htakes
  have htext : ∀ w, w ++ (u₂ ++ "JOIN" ++ ' ' :: unwords d) = w ++ (u₂ ++ unwords ("JOIN" :: d)) :=
    fun w => by rw [hjoin, append_assoc]
  rw [← hd, unwords_append hne (by simp), append_cons, hopen.split, append_assoc, ← htext]
  have hsplit : ' ' :: unwords d = behind (t.chars :: n.chars :: "ON" :: c) ++ behind e := by
    rw [hd, behind, cons_append, ← unwords_append_behind (cons_ne_nil _ _)]
    rfl
  have hfirst : joinPattern.Absent u₁ (u₂ ++ "JOIN" ++ ' ' :: unwords d) := by
    intro a c' hsplit hne' b y hspans
    rw [htext, ← append_assoc] at hspans
    exact hopen.first a c' hsplit hne' (hbegins a (c' ++ u₂) (by rw [hopen.split, hsplit, append_assoc])
      b y hspans)
  obtain ⟨m, start, b, hm, hkept⟩ := findAllFrom_of_joinTail (fun w hw => hctail w (mem_append_left e hw)) hc hcalm
    (hn "AS" (by simp)) (head_behind e) he.spans_conditionEnd hsplit (fun htail => prefers_joinPattern
      (prefers_keep_of_unique "type" (by decide) (hopen.begins _) (fun b y w => by
        rw [append_assoc, ← hjoin]
        exact hunique u₁ u₂ hopen.split b w y) htail)) hfirst 0 none
  refine ⟨m, ?_, hkept⟩
  rw [findAll, hm, findAllFrom_eq_nil fun _ _ b y hr =>
    not_spans_behind (fun w hw => hctail w (mem_append_right c hw)) hlast hr b y]

end

variable {l : List (List Char)}

theorem occurs_unwords {r : List (List Char)} (hl : l ≠ []) (hr : r ≠ []) :
    occurs (unwords (l ++ "JOIN".toList :: r)) := by
  obtain ⟨b, hwords⟩ := takes_words (' ' :: unwords r) (some ' ')
  obtain ⟨b', hspace⟩ := takes_many1 (cons_ne_nil ' ' []) (by decide : ∀ c ∈ [' '], isBlank c)
    (unwords r) b
  refine occursIn_iff.mpr ⟨unwords l ++ [' '], unwords ("JOIN" :: r), ⟨b', unwords r⟩, ?_, ?_⟩
  · rw [unwords_append hl (cons_ne_nil _ _), append_assoc]
    rfl
  · rw [unwords_cons hr, getLast?_concat]
    exact ⟨_, ⟨_, ⟨rfl, rfl⟩, hwords⟩, hspace⟩

theorem calm_equality (a x b y : Identifier) :
    ∀ w ∈ (equalityWords a x b y).tail, ∀ K ∈ endWords, spells K w = false := by
  have hkeyword : ∀ K ∈ endWords, IsKeyword K ∧ spells K ['='] = false := by decide
  rw [equalityWords, tail_cons, forall_mem_cons, forall_mem_singleton]
  exact ⟨fun K hK => (hkeyword K hK).2, fun K hK => spells_dotted (hkeyword K hK).1 b y⟩

theorem isTerm_equality (a x b y : Identifier) : ∀ w ∈ equalityWords a x b y, IsTerm w := by
  rw [equalityWords, forall_mem_cons, forall_mem_cons, forall_mem_singleton]
  exact ⟨isTerm_of_word (word_dotted a x), by decide, isTerm_of_word (word_dotted b y)⟩

theorem ofMatch_equality {m : Match} {t n a x b y : Identifier} (htable : m.get "table" = t.chars)
    (hname : m.get? "alias" = some n.chars) (hcondition : m.get "condition" = unwords (equalityWords a x b y))
    (i : Nat) : ofMatch m i = ⟨i, typeOf (strip (m.get "type")), t.name, n.name,
      .equality a.name x.name b.name y.name, String.ofList (unwords (equalityWords a x b y))⟩ := by
  have hread : ofMatch m i = ⟨i, typeOf (strip (m.get "type")), String.ofList (bareName (strip (m.get "table"))),
      ((m.get? "alias").map String.ofList).getD (String.ofList (bareName (strip (m.get "table")))),
      .read (strip (m.get "condition")), String.ofList (strip (m.get "condition"))⟩ := by
    rw [ofMatch]
    cases m.get? "alias" <;> rfl
  rw [hread, htable, hname, hcondition, (unwords_trimmed (isTerm_equality a x b y) (by simp [equalityWords])).2,
    read_equality, t.trimmed, t.bareName_chars]
  rfl

/-- **A join on the equality of two fields is read as it is written**, and its type hangs only on the words
before it. -/
theorem exists_type (hl : ∀ w ∈ l, spells "ON" w = false) (hne : l ≠ []) :
    ∃ type, ∀ (t n a x b y : Identifier) (e : List (List Char)), Closing e →
      (∀ w ∈ l ++ "JOIN".toList :: t.chars :: n.chars :: "ON".toList :: (equalityWords a x b y ++ e), IsTerm w) →
      (∀ K ∈ ["ON", "AS"], spells K t.chars = false) →
      (∀ K ∈ ["ON", "AS"], spells K n.chars = false) → (∀ w ∈ e.dropLast, spells "ON" w = false) →
      read (unwords (l ++ "JOIN".toList :: t.chars :: n.chars :: "ON".toList :: (equalityWords a x b y ++ e))) =
        [⟨0, type, t.name, n.name, .equality a.name x.name b.name y.name,
          String.ofList (unwords (equalityWords a x b y))⟩] := by
  obtain ⟨u₁, u₂, hopen⟩ := exists_beginsFirst l
  refine ⟨typeOf (strip (u₂ ++ "JOIN")), fun t n a x b y e he hterms ht hn hlast => ?_⟩
  obtain ⟨m, hm, htype, htable, hname, hcondition⟩ :=
    exists_match hterms hl ht hn hne (by simp [equalityWords]) he hopen (calm_equality a x b y) hlast
  rw [read, hm, ← htype, ← ofMatch_equality htable hname hcondition]
  rfl

end Join

end SqlGateway.Sql
