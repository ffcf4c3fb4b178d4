import SqlGateway.Proofs.Sql.Join
import SqlGateway.Proofs.Sql.Token.Semicolon

/-!
# The layout of a join

The words of a join are found in every layout, but its type is looked up by their exact text.  So **the layout
changes nothing but the type** (`read_laid`).
-/

namespace SqlGateway.Sql.Join

open Text Pattern Where List

variable {K type : String} {ws : List String} {d j s w : List Char} {p : Pattern}

/-! ### The words -/

/-- The words before `JOIN`, and the type that they stand for. -/
def phrases : List (List String × String) :=
  [(["INNER"], "inner"), (["LEFT"], "left"), (["LEFT", "OUTER"], "left"), (["RIGHT"], "right"),
    (["RIGHT", "OUTER"], "right"), (["FULL"], "full"), (["FULL", "OUTER"], "full")]

/-- The words of a join with single spaces between them. -/
def tight (ws : List String) : List Char :=
  unwords (ws.map String.toList ++ ["JOIN".toList])

theorem prefers_opt_none (hp : p.refuses w) (hs : Opens w s) (k : Kept) : (opt p).Prefers s k s k :=
  Prefers.right (fun b => ⟨b, fun _ _ => rfl⟩) fun _ _ => not_spans_of_refuses hp hs

theorem opens_laid (h : Laid (K :: ws) d) (r : List Char) : Opens K (d ++ r) := by
  cases h with
  | cons hk _ _ => exact ⟨_, _, hk, append_assoc ..⟩

theorem prefers_direction (hK : IsKeyword K) (hws : ws = [] ∨ ws = ["OUTER"]) (hd : Laid (K :: ws) d)
    (hs : Opens "JOIN" s) (hhead : ∀ c ∈ s.head?, isBlank c = false) (k : Kept) :
    (direction K).Prefers (d ++ s) k s k := by
  cases hd with
  | @cons _ _ l g v hl hg hv =>
    rw [append_assoc, append_assoc]
    rcases hws with rfl | rfl
    · cases hv
      exact ((prefers_lit (hl.spells hK) _ k).append (prefers_many1 hg.1 hg.2 hhead k)).append
        (prefers_opt_none (by decide) hs k)
    · exact ((prefers_lit (hl.spells hK) _ k).append
        (prefers_many1 hg.1 hg.2 (hv.head? (by decide) s) k)).append
          (Prefers.left (hv.prefers (by decide) (by simp) hhead k) nothing)

/-- **The words of a join are found in every layout.** -/
theorem prefers_words (hrow : (ws, type) ∈ phrases) (hd : Laid ws d) (hj : IsCased "JOIN" j) (r : List Char)
    (k : Kept) : words.Prefers (d ++ (j ++ r)) k r k := by
  have hjoin := hj.spells (by decide)
  have hhead : ∀ c ∈ (j ++ r).head?, isBlank c = false := IsKeyword.head? (by decide) hjoin r
  have hopen : Opens "JOIN" (j ++ r) := ⟨j, r, hj, rfl⟩
  refine Prefers.append ?_ (prefers_lit hjoin r k)
  rcases (by decide : ∀ p ∈ phrases, p.1 = ["INNER"] ∨ ∃ K ∈ ["LEFT", "RIGHT", "FULL"],
    p.1 = [K] ∨ p.1 = [K, "OUTER"]) _ hrow with rfl | ⟨K, hK, hws⟩
  · exact (Prefers.left (hd.prefers (by decide) (by simp) hhead k) nothing).append
      (prefers_opt_none (by decide) hopen k)
  · obtain ⟨v, rfl, hv⟩ : ∃ v, ws = K :: v ∧ (v = [] ∨ v = ["OUTER"]) := by
      rcases hws with h | h <;> exact ⟨_, h, by simp⟩
    obtain ⟨hkeyword, hinner⟩ := (by decide : ∀ K ∈ ["LEFT", "RIGHT", "FULL"],
      IsKeyword K ∧ (lit "INNER" ++ space).refuses K) K hK
    have hfirst := opens_laid hd (j ++ r)
    have hdirection := prefers_direction hkeyword hv hd hopen hhead k
    refine (prefers_opt_none hinner hfirst k).append (Prefers.left ?_ nothing)
    simp only [mem_cons, not_mem_nil, or_false] at hK
    rcases hK with rfl | rfl | rfl
    · exact Prefers.left hdirection _
    · exact Prefers.right (Prefers.left hdirection _) fun _ _ => not_spans_of_refuses (by decide) hfirst
    · exact Prefers.right (Prefers.right (Prefers.left hdirection _)
        fun _ _ => not_spans_of_refuses (by decide) hfirst) fun _ _ => not_spans_of_refuses (by decide) hfirst

/-! ### The type -/

theorem upper_laid (hws : ∀ w ∈ ws, IsKeyword w.toList) (hd : Laid ws d) (hj : IsCased "JOIN" j) :
    Text.words (upper (d ++ j)) = ws.map String.toList ++ ["JOIN".toList] ∧
      ∀ c ∈ (upper (d ++ j)).head?, isBlank c = false := by
  induction hd with
  | nil =>
    rw [nil_append, hj.upper (by decide)]
    exact ⟨words_solid (by decide) (by decide), by simp; decide⟩
  | @cons word ws k g s hk hg hs ih =>
    rw [forall_mem_cons] at hws
    have hgap : upper g = g :=
      (flatMap_congr fun c hc => Token.upperChar_of_isBlank (hg.2 c hc)).trans (flatMap_singleton' g)
    have hsolid := hws.1.solid hws.1.spells_self
    have hword : upper (k ++ (g ++ s) ++ j) = word.toList ++ (g ++ upper (s ++ j)) := by
      rw [append_assoc, append_assoc, upper_append, hk.upper hws.1, upper_append, hgap]
    rw [hword, words_append_gap hg, (ih hws.2).1, words_solid hws.1.ne_nil hsolid]
    exact ⟨rfl, head_solid_append hws.1.ne_nil hsolid _⟩

theorem strip_laid (hws : ∀ w ∈ ws, IsKeyword w.toList) (hd : Laid ws d) (hj : IsCased "JOIN" j) :
    strip (upper (strip (d ++ j))) = upper (d ++ j) := by
  have hjoin := (by decide : IsKeyword "JOIN".toList).of_spells (hj.spells (by decide))
  have hlast : ∀ c ∈ (d ++ j).getLast?, isBlank c = false := by
    rw [getLast?_append_of_ne_nil _ hjoin.1]
    exact fun c hc => hjoin.2.1 c (mem_of_getLast? hc)
  have hhead : ∀ c ∈ (d ++ j).head?, isBlank c = false := by
    cases hd with
    | nil => exact fun c hc => hjoin.2.1 c (mem_of_head? hc)
    | cons hk hg hs => exact (Laid.cons hk hg hs).head? (hws _ mem_cons_self) j
  rw [strip_eq_self hhead hlast, strip_eq_self (upper_laid hws hd hj).2]
  rw [upper_append, hj.upper (by decide)]
  simp
  decide

theorem typeOf_laid (hrow : (ws, type) ∈ phrases) (hd : Laid ws d) (hj : IsCased "JOIN" j) :
    typeOf (strip (d ++ j)) = if upper (d ++ j) = tight ws then type else "inner" := by
  have hws := (by decide : ∀ p ∈ phrases, ∀ w ∈ p.1, IsKeyword w.toList) _ hrow
  have hwords := (upper_laid hws hd hj).1
  rw [typeOf, strip_laid hws hd hj]
  split
  case isTrue heq =>
    rw [heq]
    exact (by decide : ∀ p ∈ phrases, (types.lookup (String.ofList (tight p.1))).getD "inner" = p.2) _ hrow
  case isFalse hne =>
    rw [lookup_eq_none_iff.mpr, Option.getD_none]
    intro e he
    rw [bne_iff_ne]
    intro heq
    have hkey : e.1.toList = upper (d ++ j) := by rw [← heq, String.toList_ofList]
    rw [← hkey] at hne hwords
    exact hne ((by decide : ∀ p ∈ phrases, ∀ e ∈ types, Text.words e.1.toList =
      p.1.map String.toList ++ ["JOIN".toList] → e.1.toList = tight p.1) _ hrow e he hwords)

/-- No join begins in the text, whatever stands behind it. -/
def calm : List Char → Bool
  | [] => true
  | c :: u => words.refuses ((c :: u).map Char.toUpper) && calm u

theorem absent_of_calm {u : List Char} (hu : calm u) (v : List Char) : joinPattern.Absent u v := by
  rintro u₁ u₂ rfl hne b y hspans
  obtain ⟨z, hwords, -⟩ := spans_joinPattern.mp hspans
  induction u₁ with
  | nil =>
    obtain ⟨c, u₂, rfl⟩ := exists_cons_of_ne_nil hne
    exact not_spans_of_refuses (Bool.and_eq_true_iff.mp hu).1 ⟨c :: u₂, v, rfl, rfl⟩ hwords
  | cons c u₁ ih => exact ih (Bool.and_eq_true_iff.mp hu).2

/-! ### Joins one behind the other -/

/-- A join as it is written: its words in some layout, a table with another name, and the equality of two
fields. -/
structure LaidJoin where
  ws : List String
  type : String
  row : (ws, type) ∈ phrases
  d : List Char
  laid : Laid ws d
  j : List Char
  cased : IsCased "JOIN" j
  table : Identifier
  byname : Identifier
  named : spells "AS".toList byname.chars = false
  left : Identifier
  leftField : Identifier
  right : Identifier
  rightField : Identifier

namespace LaidJoin

def condition (q : LaidJoin) : List (List Char) :=
  equalityWords q.left q.leftField q.right q.rightField

def text (q : LaidJoin) : List Char :=
  q.d ++ q.j ++ behind (q.table.chars :: q.byname.chars :: "ON".toList :: q.condition)

/-- What it stands for at its place among the joins.  Its type is kept only with single spaces. -/
def join (q : LaidJoin) (i : Nat) : Join :=
  ⟨i, if upper (q.d ++ q.j) = tight q.ws then q.type else "inner", q.table.name, q.byname.name,
    .equality q.left.name q.leftField.name q.right.name q.rightField.name, String.ofList (unwords q.condition)⟩

/-- The joins behind another one, and what stands behind them all. -/
def more (e : List (List Char)) : List LaidJoin → List Char
  | [] => behind e
  | q :: qs => ' ' :: (q.text ++ more e qs)

variable {e : List (List Char)}

theorem head_more (e : List (List Char)) (qs : List LaidJoin) : ∀ c ∈ (more e qs).head?, isBlank c := by
  cases qs with
  | nil => exact head_behind e
  | cons q qs => simp [more]

/-- The condition of a join ends before the next one. -/
theorem spans_conditionEnd (he : Closing e) (qs : List LaidJoin) (b : Option Char) :
    ∃ y, conditionEnd.Spans ⟨b, more e qs⟩ y := by
  cases qs with
  | nil => exact he.spans_conditionEnd b
  | cons q qs =>
    obtain ⟨A, hA⟩ : ∃ A, q.text ++ more e qs = q.d ++ q.j ++ ([' '] ++ A) :=
      ⟨_, by rw [text, behind]; simp; rfl⟩
    have hwords : words.Takes (q.d ++ q.j) ([' '] ++ A) := by
      refine Prefers.takes (k := []) (l := []) ?_
      rw [append_assoc]
      exact prefers_words q.row q.laid q.cased _ []
    have hspace : ∀ r, space.Takes [' '] r := takes_many1 (by simp) (by simp)
    obtain ⟨b', hspans⟩ := ((hspace _).append hwords).append (hspace A) b
    rw [more, hA]
    exact ⟨_, .inl (by simpa using hspans)⟩

/-- **A join is matched as it is written**, and the search goes on behind it. -/
theorem findAllFrom_text (q : LaidJoin) {u r : List Char} (hu : calm u) (hr : ∀ c ∈ r.head?, isBlank c)
    (hend : ∀ b, ∃ y, conditionEnd.Spans ⟨b, r⟩ y) (start : Nat) (b : Option Char) : ∃ m start' b',
      joinPattern.findAllFrom start 0 b (u ++ (q.text ++ r)) = m :: joinPattern.findAllFrom start' 0 b' r ∧
      ofMatch m = q.join := by
  obtain ⟨A, hA⟩ : ∃ A, A = behind (q.table.chars :: q.byname.chars :: "ON".toList :: q.condition) ++ r := ⟨_, rfl⟩
  have hwords : words.Prefers (q.d ++ q.j ++ A) [] A [] := by
    rw [append_assoc]
    exact prefers_words q.row q.laid q.cased A []
  obtain ⟨m, start', b', hm, htype, htable, hname, hcondition⟩ := findAllFrom_of_joinTail
    (isTerm_equality q.left q.leftField q.right q.rightField) (by simp [equalityWords]) (calm_equality _ _ _ _) q.named
    hr hend hA (fun htail => prefers_joinPattern ((hwords.keep "type").append htail))
    (absent_of_calm hu (q.d ++ q.j ++ A)) start b
  refine ⟨m, start', b', by rw [text, append_assoc (q.d ++ q.j), ← hA, hm], funext fun i => ?_⟩
  rw [ofMatch_equality htable hname hcondition, htype, typeOf_laid q.row q.laid q.cased]
  rfl

theorem map_findAllFrom_more (he : Closing e) (hterms : ∀ w ∈ e, IsTerm w)
    (hlast : ∀ w ∈ e.dropLast, spells "ON" w = false) (qs : List LaidJoin) : ∀ (start : Nat) (b : Option Char),
      (joinPattern.findAllFrom start 0 b (more e qs)).map ofMatch = qs.map join := by
  induction qs with
  | nil =>
    intro start b
    rw [more, findAllFrom_eq_nil fun _ _ b y hr => not_spans_behind hterms hlast hr b y]
    rfl
  | cons q qs ih =>
    intro start b
    obtain ⟨m, start', b', hm, hjoin⟩ := q.findAllFrom_text (u := [' ']) (by decide) (head_more e qs)
      (spans_conditionEnd he qs) start b
    rw [more, ← singleton_append, hm, map_cons, map_cons, ih, hjoin]

end LaidJoin

/-- **The layout of joins changes nothing but their types**, which are kept only with single spaces. -/
theorem read_laid {u : List Char} {q : LaidJoin} {qs : List LaidJoin} {e : List (List Char)} (hu : calm u = true)
    (he : Closing e) (hterms : ∀ w ∈ e, IsTerm w) (hlast : ∀ w ∈ e.dropLast, spells "ON".toList w = false) :
    read (u ++ (q.text ++ LaidJoin.more e qs)) = (q :: qs).mapIdx fun i q => q.join i := by
  obtain ⟨m, start, b, hm, hjoin⟩ := q.findAllFrom_text hu (LaidJoin.head_more e qs)
    (LaidJoin.spans_conditionEnd he qs) 0 none
  have hmap : (joinPattern.findAll (u ++ (q.text ++ LaidJoin.more e qs))).map ofMatch =
      (q :: qs).map LaidJoin.join := by
    rw [findAll, hm, map_cons, map_cons, hjoin, LaidJoin.map_findAllFrom_more he hterms hlast]
  have hzip : ∀ {α : Type} (f : α → Nat → Join) (l : List α),
      l.mapIdx (fun i x => f x i) = (l.map f).zipIdx.map fun p => p.1 p.2 := by
    intro α f l
    rw [mapIdx_eq_zipIdx_map, zipIdx_map, map_map]
    rfl
  calc read (u ++ (q.text ++ LaidJoin.more e qs))
      = (joinPattern.findAll (u ++ (q.text ++ LaidJoin.more e qs))).mapIdx fun i m => ofMatch m i := by
        rw [mapIdx_eq_zipIdx_map, read]
    _ = _ := by rw [hzip, hmap, hzip]

/-- Two spaces between `LEFT` and `JOIN` make the join an inner one, and the next join keeps its type. -/
theorem read_laid_wide :
    read "SELECT a.f FROM t1 a LEFT  JOIN t2 b ON a.x = b.y RIGHT JOIN t3 c ON b.y = c.z".toList =
      [⟨0, "inner", "t2", "b", .equality "a" "x" "b" "y", "a.x = b.y"⟩,
        ⟨1, "right", "t3", "c", .equality "b" "y" "c" "z", "b.y = c.z"⟩] := by
  let a : Identifier := ⟨['a'], by decide, by decide⟩
  let b : Identifier := ⟨['b'], by decide, by decide⟩
  let c : Identifier := ⟨['c'], by decide, by decide⟩
  let x : Identifier := ⟨['x'], by decide, by decide⟩
  let y : Identifier := ⟨['y'], by decide, by decide⟩
  let z : Identifier := ⟨['z'], by decide, by decide⟩
  let q : LaidJoin :=
    { ws := ["LEFT"], type := "left", row := by decide, d := "LEFT  ".toList
      laid := .cons (k := "LEFT".toList) (g := [' ', ' ']) rfl ⟨by decide, by decide⟩ .nil
      j := "JOIN".toList, cased := rfl, table := ⟨"t2".toList, by decide, by decide⟩, byname := b
      named := by decide, left := a, leftField := x, right := b, rightField := y }
  let q' : LaidJoin :=
    { ws := ["RIGHT"], type := "right", row := by decide, d := "RIGHT ".toList
      laid := .cons (k := "RIGHT".toList) (g := [' ']) rfl ⟨by decide, by decide⟩ .nil
      j := "JOIN".toList, cased := rfl, table := ⟨"t3".toList, by decide, by decide⟩, byname := c
      named := by decide, left := b, leftField := y, right := c, rightField := z }
  have hread : read ("SELECT a.f FROM t1 a ".toList ++ (q.text ++ LaidJoin.more [] [q'])) = _ :=
    read_laid (by decide) .nothing (by simp) (by simp)
  exact hread.trans (by decide)

end SqlGateway.Sql.Join
