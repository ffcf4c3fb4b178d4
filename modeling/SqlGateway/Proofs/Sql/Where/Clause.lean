import SqlGateway.Proofs.Sql.Connective
import SqlGateway.Sql.Where

/-!
# Where the clause begins

The clause of a statement is what follows the first `WHERE` between blanks.  If what stands before that
`WHERE` is words of which none is `WHERE` itself (`Opening`), the clause does not depend on it:
`exists_clause?` says that **there is one clause for all openings**.
-/

namespace SqlGateway.Sql.Where

open Text Pattern List

variable {s : List Char} (t c : List Char)

theorem solidWord_where : SolidWord "WHERE" :=
  solidWord_of_capitals (by decide)

/-- What stands before the clause: words without parentheses, of which none is `WHERE`. -/
structure Opening (s : List Char) : Prop where
  part : Part "WHERE" s
  flat : ∀ c ∈ s, isParen c = false

theorem Opening.append {t : List Char} (hs : Opening s) (ht : Opening t) : Opening (s ++ ' ' :: t) where
  part := hs.part.append solidWord_where ht.part
  flat := by
    intro c hc
    rw [mem_append, mem_cons] at hc
    rcases hc with hc | rfl | hc
    · exact hs.flat c hc
    · rfl
    · exact ht.flat c hc

theorem Opening.ofWord (hne : s ≠ []) (hsolid : ∀ c ∈ s, isBlank c = false)
    (hflat : ∀ c ∈ s, isParen c = false) (hother : spells "WHERE" s = false) : Opening s :=
  ⟨.ofWord solidWord_where hne hsolid hflat hother, hflat⟩

/-! ### Trimming behind a word -/

theorem exists_trailing_blanks : ∃ r g, t = r ++ g ∧ (∀ c ∈ g, isBlank c) ∧
    ∀ c ∈ r.getLast?, isBlank c = false := by
  refine ⟨(t.reverse.dropWhile isBlank).reverse, (t.reverse.takeWhile isBlank).reverse, ?_, ?_, ?_⟩
  · rw [← reverse_append, takeWhile_append_dropWhile, reverse_reverse]
  · exact fun c hc => mem_takeWhile_imp (mem_reverse.mp hc)
  · intro c hc
    rw [getLast?_reverse] at hc
    exact head?_dropWhile isBlank _ c hc

theorem exists_strip_append : ∃ r, (∃ g, t = r ++ g) ∧ ∀ s, s ≠ [] → strip s = s → strip (s ++ t) = s ++ r := by
  obtain ⟨r, g, rfl, hg, hr⟩ := exists_trailing_blanks t
  refine ⟨r, ⟨g, rfl⟩, fun s hne hs => ?_⟩
  have hhead := head?_strip s
  have hlast := getLast?_strip s
  rw [hs] at hhead hlast
  rw [← append_assoc, strip_append_blanks hg]
  refine strip_eq_self ?_ ?_
  · obtain ⟨c, s, rfl⟩ := exists_cons_of_ne_nil hne
    exact hhead
  · intro c hc
    rw [getLast?_append, Option.mem_def, Option.or_eq_some_iff] at hc
    rcases hc with hc | ⟨-, hc⟩
    · exact hr c hc
    · exact hlast c hc

/-! ### The clause behind an opening -/

theorem startsConnective_of_spans {b : Option Char} {y : Cursor} (h : clausePattern.Spans ⟨b, s⟩ y) :
    startsConnective "WHERE" s := by
  obtain ⟨x₄, ⟨x₃, ⟨x₂, ⟨x₁, ⟨a, t, hs, ha, rfl⟩, hword⟩, hspace⟩, -⟩, -⟩ := h
  obtain ⟨w, hw, ht⟩ := exists_of_spans_lit hword
  obtain ⟨g, hne, hg, hrest⟩ := exists_of_spans_many1 hspace
  obtain ⟨d, g, rfl⟩ := exists_cons_of_ne_nil hne
  refine startsConnective_iff.mpr ⟨a, w, d, g ++ x₃.rest, ?_, ha, hw, hg d (by simp)⟩
  rw [show s = a :: t from hs, show t = w ++ x₂.rest from ht, hrest, cons_append]

theorem Opening.not_spans (hs : Opening s) {u₁ u₂ : List Char} (hsplit : ' ' :: s = u₁ ++ u₂) (hne : u₂ ≠ [])
    (v : List Char) (b : Option Char) (y : Cursor) : ¬ clausePattern.Spans ⟨b, u₂ ++ ' ' :: v⟩ y := by
  intro h
  have hword := startsConnective_of_spans h
  obtain ⟨c, u, rfl⟩ := exists_cons_of_ne_nil hne
  rw [startsConnective_append_blank solidWord_where isBlank_space] at hword
  have hdepth : depthOver 0 u₁ = 0 := by
    refine depthOver_of_not_isParen (fun d hd => ?_) 0
    have hmem : d ∈ ' ' :: s := by rw [hsplit]; simp [hd]
    rcases mem_cons.mp hmem with rfl | hmem
    · rfl
    · exact hs.flat d hmem
  have hjoined : joinedFrom "WHERE" 0 (spaced s) := by
    refine joinedFrom_iff.mpr ⟨u₁, c :: u ++ [' '], ?_, hdepth, hword⟩
    rw [spaced, hsplit, append_assoc]
  rw [hs.part.quiet] at hjoined
  cases hjoined

theorem takes_clausePattern : clausePattern.Takes (" WHERE" ++ ' ' :: t) [] := by
  have hend : (oneOf [space ++ phrase ["GROUP", "BY"], space ++ lit "HAVING",
      space ++ phrase ["ORDER", "BY"], space ++ lit "LIMIT", space ++ lit "OFFSET", gap ++ exactly ";",
      gap ++ finish]).Takes [] [] := by
    refine .right (.right (.right (.right (.right (.right ?_)))))
    exact Takes.append (s := []) (takes_many (by simp) []) takes_finish
  have htake : clausePattern.Takes ([' '] ++ "WHERE".toList ++ [' '] ++ t ++ []) [] :=
    ((((takes_one isBlank_space _).append (takes_lit (by decide) _)).append
      (takes_many1 (by simp) (by simp) _)).append ((takes_few (by simp [anyChar]) _).keep "clause")).append hend
  simpa using htake

/-- The clause of what follows an opening. -/
def clauseBehind (t : List Char) : Option (List Char) :=
  (clausePattern.run ⟨none, " WHERE" ++ ' ' :: t⟩ [] fun _ kept => some kept).map fun kept =>
    dropSemicolon (strip (((kept.lookup "clause").map Piece.chars).getD []))

theorem Opening.clause?_eq (hs : Opening s) {u t : List Char} (hstrip : strip u = s ++ " WHERE" ++ t)
    {t' : List Char} (ht : t ++ [' '] = ' ' :: t') : clause? u = clauseBehind t' := by
  have hspans : ∀ b, ∃ y, clausePattern.Spans ⟨b, " WHERE" ++ ' ' :: t'⟩ y := by
    intro b
    obtain ⟨b', hb'⟩ := takes_clausePattern t' b
    exact ⟨_, by simpa using hb'⟩
  have hpadded : padded u = ' ' :: s ++ (" WHERE" ++ ' ' :: t') := by
    rw [padded, hstrip, ← ht]
    simp
  obtain ⟨m, hfind, hm⟩ := find?_append
    (v := " WHERE" ++ ' ' :: t') (fun u₁ u₂ hsplit hne => hs.not_spans hsplit hne _) hspans
  have hkept := kept_matchAt? clausePattern (' ' :: s).length (' ' :: s).getLast? (" WHERE" ++ ' ' :: t')
  rw [hm] at hkept
  rw [clause?, hpadded, hfind, clauseBehind]
  have hsame : clausePattern.run ⟨none, " WHERE" ++ ' ' :: t'⟩ [] (fun _ kept => some kept) =
      some m.kept := hkept.symm
  rw [hsame]
  rfl

theorem isSome_clauseBehind : (clauseBehind t).isSome := by
  obtain ⟨b, hb⟩ := takes_clausePattern t none
  rw [clauseBehind, Option.isSome_map]
  exact run_complete (by simpa using hb) (fun _ => rfl) []

/-- **There is one clause for all openings.** -/
theorem exists_clause? : ∃ clause, ∀ s, Opening s → clause? (s ++ " WHERE " ++ c) = some clause := by
  obtain ⟨r, ⟨g, hg⟩, hstrip⟩ := exists_strip_append (' ' :: c)
  obtain ⟨t, ht⟩ : ∃ t, r ++ [' '] = ' ' :: t := by
    cases r with
    | nil => exact ⟨[], rfl⟩
    | cons d r =>
      obtain ⟨rfl, -⟩ := cons.inj hg
      exact ⟨r ++ [' '], rfl⟩
  obtain ⟨clause, hclause⟩ := Option.isSome_iff_exists.mp (isSome_clauseBehind t)
  refine ⟨clause, fun s hs => ?_⟩
  rw [← hclause]
  refine hs.clause?_eq ?_ ht
  have htrim : strip (s ++ ' ' :: "WHERE") = s ++ ' ' :: "WHERE" :=
    strip_append_space hs.part.ne_nil hs.part.trimmed (by decide) (by decide)
  have hwhere := hstrip (s ++ ' ' :: "WHERE") (by simp) htrim
  simpa using hwhere

theorem exists_filter : ∃ f, ∀ s, Opening s → filter (s ++ " WHERE " ++ c) = f := by
  obtain ⟨clause, hclause⟩ := exists_clause? c
  refine ⟨if clause.isEmpty then [] else addConditions clause [], fun s hs => ?_⟩
  rw [filter, hclause s hs]

theorem rest_of_ending {w : List Char} (hplain : ∀ c ∈ [';', '\n'], c ∉ s) (htrim : strip s = s)
    {x y : Cursor} (hx : s = w ++ x.rest) (h : ending.Spans x y) : x.rest = [] := by
  rcases h with ⟨z, hgap, hsemicolon⟩ | ⟨z, hgap, rfl, hfinish⟩
  · obtain ⟨g, -, hg⟩ := exists_of_spans_many hgap
    rw [hg, exists_of_spans_exactly hsemicolon] at hx
    exact absurd (by rw [hx]; simp) (hplain ';' (by simp))
  · obtain ⟨g, hblank, hg⟩ := exists_of_spans_many hgap
    have hend : y.rest = [] := by
      rw [Cursor.atFinish, Bool.or_eq_true, List.isEmpty_iff, beq_iff_eq] at hfinish
      refine hfinish.resolve_right fun hline => ?_
      rw [hg, hline] at hx
      exact absurd (by rw [hx]; simp) (hplain '\n' (by simp))
    rw [hend, append_nil] at hg
    rcases eq_nil_or_concat g with rfl | ⟨g, c, rfl⟩
    · exact hg
    · have hlast : s.getLast? = some c := by
        rw [hx, hg, concat_eq_append, ← append_assoc, getLast?_concat]
      have hsolid := getLast?_strip s c (by rw [htrim]; exact hlast)
      rw [hblank c (by simp)] at hsolid
      cases hsolid

end SqlGateway.Sql.Where
