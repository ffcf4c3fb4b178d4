import SqlGateway.Proofs.Sql.Where.Calm
import SqlGateway.Proofs.Sql.Where.Formula
import SqlGateway.Proofs.Text.Semicolon

/-!
# Where a clause of words stops

`GROUP BY` and `ORDER BY` have to stand as words; `HAVING`, `LIMIT` and `OFFSET` are found also at the
beginning of a longer word.  **The clause is everything before the first word that opens another one**
(`clause?_unwords`).
-/

namespace SqlGateway.Sql.Where

open Text Pattern List

variable {o r u₁ u₂ w : List Char} {ws : List (List Char)}
variable {word : List Char}

def clauseWords : List String :=
  ["HAVING", "LIMIT", "OFFSET"]

/-- Whether a word is taken for the beginning of another clause. -/
def opensClause (w : List Char) : Bool :=
  clauseWords.any fun word => opensWith word.toList w

/-- A word of a clause: it is not empty, and it has neither a blank nor a semicolon. -/
@[mk_iff] structure IsTerm (w : List Char) : Prop where
  ne_nil : w ≠ []
  solid : Solid w
  no_semicolon : ';' ∉ w

instance (w : List Char) : Decidable (IsTerm w) := decidable_of_iff _ (isTerm_iff w).symm

/-- A word with which a clause goes on. -/
@[mk_iff] structure Continues (w : List Char) : Prop where
  opens_none : opensClause w = false
  not_group : spells "GROUP" w = false
  not_order : spells "ORDER" w = false

instance (w : List Char) : Decidable (Continues w) := decidable_of_iff _ (continues_iff w).symm

theorem spells_numeral (hword : IsKeyword word) (n : Numeral) {k : List Char} (hk : ∀ c ∈ k, c ∈ n.chars) :
    spells word k = false := by
  rw [← Bool.not_eq_true]
  intro h
  obtain ⟨c, k, rfl⟩ := exists_cons_of_ne_nil (hword.of_spells h).1
  obtain ⟨l, hl, hsame⟩ := exists_of_mem_spells h (mem_cons_self)
  rw [(by decide : ∀ l ∈ capitals, ∀ c ∈ Numeral.heads, sameLetter l c = false) l (hword.letters l hl) c
    (Numeral.mem_heads_of_mem (hk c (by simp)))] at hsame
  cases hsame

theorem opensWith_numeral (hword : IsKeyword word) (n : Numeral) : opensWith word n.chars = false :=
  spells_numeral hword n fun _ => mem_of_mem_take

theorem continues_numeral (n : Numeral) : Continues n.chars where
  opens_none := any_eq_false.mpr fun K hK => by
    rw [opensWith_numeral ((by decide : ∀ K ∈ clauseWords, IsKeyword K) K hK)]
    simp
  not_group := spells_numeral (by decide) n fun _ => id
  not_order := spells_numeral (by decide) n fun _ => id

theorem isTerm_of_word (h : Word w) : IsTerm w :=
  ⟨h.ne_nil, h.solid, h.not_mem (by decide)⟩

theorem IsTerm.comma (h : IsTerm w) : IsTerm (w ++ [',']) where
  ne_nil := by simp
  solid := by simpa [Solid, or_imp, forall_and] using ⟨h.solid, (by decide : isBlank ',' = false)⟩
  no_semicolon := by simpa using h.no_semicolon

section

variable {a b : List (List Char)} (ha : ∀ w ∈ a, IsTerm w) {K : String}
include ha

theorem semicolon_not_mem_unwords : ';' ∉ unwords a := by
  intro h
  rcases mem_unwords h with h | ⟨w, hw, h⟩
  · exact absurd h (by decide)
  · exact (ha w hw).no_semicolon h

theorem dropSemicolon_unwords : dropSemicolon (unwords a) = unwords a := by
  have hlast : endsWith [';'] (unwords a) = false := by
    refine endsWith_singleton fun c hc => ?_
    rintro rfl
    exact semicolon_not_mem_unwords ha (mem_of_getLast? hc)
  rw [dropSemicolon, hlast]
  rfl

theorem unwords_trimmed (hne : a ≠ []) : unwords a ≠ [] ∧ strip (unwords a) = unwords a :=
  strip_unwords hne fun w hw => ⟨(ha w hw).ne_nil, (ha w hw).solid⟩

theorem unended_unwords : Unended (unwords a) where
  no_semicolon := semicolon_not_mem_unwords ha
  solid := by
    by_cases hne : a = []
    · simp [hne, unwords]
    · rw [← (unwords_trimmed ha hne).2]
      exact getLast?_strip _

theorem padded_unwords (hne : a ≠ []) : padded (unwords a) = unwords ([] :: (a ++ [[]])) := by
  rw [padded, (unwords_trimmed ha hne).2, unwords_cons (by simp), unwords_append hne (by simp)]
  rfl

theorem not_spans_opening (hK : IsKeyword K)
    (hno : ∀ w ∈ a.tail, opensWith K w = false) (hr : ∀ c ∈ r.head?, isBlank c)
    (hsplit : unwords a = u₁ ++ u₂) (hne : u₂ ≠ []) (b : Option Char) (y : Cursor) :
    ¬ (space ++ lit K).Spans ⟨b, u₂ ++ r⟩ y := by
  rintro ⟨z, hspace, hlit⟩
  obtain ⟨g, hg, hgblank, hrest⟩ := exists_of_spans_many1 hspace
  obtain ⟨k, x, t, hw, hk, -, -⟩ := exists_opening_of_spans hK (fun w hw => (ha w hw).solid)
    (fun w hw => (ha w (mem_of_mem_tail hw)).ne_nil) hsplit hne hr hg hgblank hrest hlit
  have hopens : opensWith K (k ++ x) := opensWith_iff.mpr ⟨k, x, rfl, hk⟩
  rw [hno _ hw] at hopens
  cases hopens

theorem not_spans_whole (hK : IsKeyword K)
    (hno : ∀ w ∈ a.tail, spells K w = false) (hr : ∀ c ∈ r.head?, isBlank c)
    (hsplit : unwords a = u₁ ++ u₂) (hne : u₂ ≠ []) (b : Option Char) (y : Cursor) :
    ¬ (space ++ (lit K ++ space)).Spans ⟨b, u₂ ++ r⟩ y := by
  rintro ⟨z, hspace, z', hlit, hspace'⟩
  obtain ⟨g, hg, hgblank, hrest⟩ := exists_of_spans_many1 hspace
  obtain ⟨w, hw, hspells⟩ := exists_whole_of_spans hK (fun w hw => (ha w hw).solid)
    (fun w hw => (ha w (mem_of_mem_tail hw)).ne_nil) hsplit hne hr hg hgblank hrest hlit
    (head_of_spans_space hspace')
  rw [hno w hw] at hspells
  cases hspells

theorem not_spans_end (hsplit : unwords a = u₁ ++ u₂) (hne : u₂ ≠ []) (b : Option Char) (y : Cursor) :
    ¬ (alt (gap ++ exactly ";") (gap ++ finish)).Spans ⟨b, u₂ ++ r⟩ y :=
  not_spans_ending ((unended_unwords ha).of_suffix ⟨u₁, hsplit.symm⟩) hne b y

theorem not_spans_clauseStop (hcalm : ∀ w ∈ a.tail, Continues w) (hr : r.head? = some ' ')
    (hsplit : unwords a = u₁ ++ u₂) (hne : u₂ ≠ []) (b : Option Char) (y : Cursor) :
    ¬ clauseStop.Spans ⟨b, u₂ ++ r⟩ y := by
  have hblank : ∀ c ∈ r.head?, isBlank c := by
    rw [hr]
    rintro c ⟨⟩
    decide
  have hlonger : ∀ {K : String}, K ∈ clauseWords → IsKeyword K →
      ¬ (space ++ lit K).Spans ⟨b, u₂ ++ r⟩ y := by
    intro K hmem hK
    refine not_spans_opening ha hK (fun w hw => ?_) hblank hsplit hne b y
    exact Bool.not_eq_true _ ▸ any_eq_false.mp (hcalm w hw).opens_none K hmem
  have hwhole : ∀ {K : String}, IsKeyword K → (∀ w ∈ a.tail, spells K w = false) →
      ¬ (space ++ phrase [K, "BY"]).Spans ⟨b, u₂ ++ r⟩ y := by
    rintro K hK hno ⟨z, hspace, z', hspans, -⟩
    exact not_spans_whole ha hK hno hblank hsplit hne b z' ⟨z, hspace, hspans⟩
  intro h
  rcases clauseStop_spans_iff.mp h with h | hfinish
  · obtain ⟨p, hp, hspans⟩ := spans_oneOf.mp h
    simp only [clauseEnds, mem_cons, not_mem_nil, or_false] at hp
    rcases hp with rfl | rfl | rfl | rfl | rfl | rfl
    · exact hwhole (by decide) (fun w hw => (hcalm w hw).not_group) hspans
    · exact hlonger (by decide) (by decide) hspans
    · exact hwhole (by decide) (fun w hw => (hcalm w hw).not_order) hspans
    · exact hlonger (by decide) (by decide) hspans
    · exact hlonger (by decide) (by decide) hspans
    · exact not_spans_end ha hsplit hne b y (.inl hspans)
  · exact not_spans_end ha hsplit hne b y (.inr hfinish)

section

variable (ho : Opening o) (hne : a ≠ []) (hcalm : ∀ w ∈ a.tail, Continues w) (hb : ∀ w ∈ b, IsTerm w) (hstop : ∀ w ∈ b.head?, opensClause w)
include ho hne hcalm hb hstop

/-- **The clause of words** is everything before the first word that opens another clause. -/
theorem clause?_unwords
    :
    clause? (o ++ " WHERE " ++ unwords (a ++ b)) = some (unwords a) := by
  -- behind the clause stands the other clause, or nothing
  obtain ⟨r, hr, hwhole, hspans⟩ : ∃ r, r.head? = some ' ' ∧ unwords (a ++ b) ++ [' '] = unwords a ++ r ∧
      ∀ d, ∃ y, clauseStop.Spans ⟨d, r⟩ y := by
    cases b with
    | nil => exact ⟨[' '], rfl, by rw [append_nil], clauseStop_spans_space⟩
    | cons w b =>
      obtain ⟨t, ht, -⟩ := exists_unwords_cons w b
      refine ⟨' ' :: (unwords (w :: b) ++ [' ']), rfl, ?_, fun d => ?_⟩
      · rw [unwords_append hne (by simp)]
        simp
      · obtain ⟨K, hK, hopens⟩ := any_eq_true.mp (hstop w rfl)
        obtain ⟨k, x, rfl, hk⟩ := opensWith_iff.mp hopens
        have htakes : (space ++ lit K).Takes ([' '] ++ k) (x ++ (t ++ [' '])) :=
          (takes_many1 (by simp) (by simp) _).append (takes_lit hk _)
        obtain ⟨d', hd'⟩ := htakes d
        refine ⟨⟨d', x ++ (t ++ [' '])⟩, clauseStop_spans_iff.mpr (.inl (spans_oneOf.mpr
          ⟨space ++ lit K, ?_, by rw [ht]; simpa using hd'⟩))⟩
        simp only [clauseWords, mem_cons, not_mem_nil, or_false] at hK
        rcases hK with rfl | rfl | rfl <;> simp [clauseEnds]
  have hall : ∀ w ∈ a ++ b, IsTerm w := fun w hw => (mem_append.mp hw).elim (ha w) (hb w)
  obtain ⟨htne, htrim⟩ := unwords_trimmed hall (by simp [hne])
  obtain ⟨u, v, huv, ⟨d, y, hv⟩, hfirst, hclause⟩ := exists_clause?_trimmed ho htne htrim
  have hu : u = unwords a := by
    rw [hwhole] at huv
    rcases append_eq_append_iff.mp huv with ⟨t, rfl, ht⟩ | ⟨t, ht, rfl⟩
    · -- a longer clause would go on over a stop
      cases t with
      | nil => exact append_nil _
      | cons c t =>
        obtain ⟨z, hz⟩ := hspans (unwords a).getLast?
        rw [ht] at hz
        exact absurd hz (hfirst _ _ rfl (unwords_trimmed ha hne).1 (by simp) z)
    · by_cases ht' : t = []
      · rw [ht, ht', append_nil]
      · exact absurd hv (not_spans_clauseStop ha hcalm hr ht ht' d y)
  rw [hclause, hu, (unwords_trimmed ha hne).2, dropSemicolon_unwords ha]

/-- The filter of words is read from the words before the first that opens another clause. -/
theorem filter_unwords
    :
    filter (o ++ " WHERE " ++ unwords (a ++ b)) = addConditions (unwords a) [] := by
  obtain ⟨htne, -⟩ := unwords_trimmed ha hne
  rw [filter, clause?_unwords ha ho hne hcalm hb hstop]
  simp [htne]

end

end

/-! ### Connectives between words -/

theorem exists_connective (hword : IsKeyword word) (hws : ∀ w ∈ ws, Solid w)
    (h : joinedBy word (unwords ws)) :
    ∃ ws₁ w ws₂, ws = ws₁ ++ w :: ws₂ ∧ ws₁ ≠ [] ∧ ws₂ ≠ [] ∧ spells word w := by
  obtain ⟨x, y, hxy, -, hy⟩ := joinedFrom_iff.mp h
  obtain ⟨a, k, b, t, rfl, ha, hk, hb⟩ := startsConnective_iff.mp hy
  obtain ⟨hkne, hsolid, -⟩ := hword.of_spells hk
  obtain ⟨ws₁, ws', rfl, hne₁, -, -, hrest⟩ := exists_of_unwords_eq ha hws hxy
  obtain ⟨ws₃, ws₂, rfl, hne₃, hne₂, hk', -⟩ := exists_of_unwords_eq hb
    (fun w hw => hws w (mem_append_right _ hw)) hrest.symm
  -- there is no blank in the connective
  obtain ⟨w, ws₃, rfl⟩ := exists_cons_of_ne_nil hne₃
  cases ws₃ with
  | nil => exact ⟨ws₁, w, ws₂, rfl, hne₁, hne₂, by rw [← unwords_singleton w, ← hk']; exact hk⟩
  | cons v ws₃ =>
    have := hsolid ' ' (by rw [hk', unwords_cons (by simp)]; simp)
    exact absurd this (by decide)

theorem joinedBy_unwords (hword : IsKeyword word) (hws : ∀ w ∈ ws, Solid w)
    (hno : ∀ w ∈ ws.tail.dropLast, spells word w = false) : joinedBy word (unwords ws) = false := by
  rw [← Bool.not_eq_true]
  intro h
  obtain ⟨ws₁, w, ws₂, rfl, hne₁, hne₂, hw⟩ := exists_connective hword hws h
  obtain ⟨v, ws₁, rfl⟩ := exists_cons_of_ne_nil hne₁
  have hinside : w ∈ (v :: ws₁ ++ w :: ws₂).tail.dropLast := by
    rw [cons_append, tail_cons, dropLast_append_of_ne_nil (cons_ne_nil w ws₂), dropLast_cons_of_ne_nil hne₂]
    simp
  rw [hno w hinside] at hw
  cases hw

theorem addConditions_simple (hws : ∀ w ∈ ws, IsTerm w) (hne : ws ≠ [])
    (hor : joinedBy ['O', 'R'] (unwords ws) = false) (hand : joinedBy ['A', 'N', 'D'] (unwords ws) = false) :
    addConditions (unwords ws) [] = (simple? (unwords ws)).toList := by
  obtain ⟨-, htrim⟩ := unwords_trimmed hws hne
  rw [addConditions, addWithin_simple (by rwa [htrim]) (by rwa [htrim]), addSimple_nil]

/-- **The filter of a comparison.**  Its field may be any word, even one that begins another clause. -/
theorem filter_comparison (sign : Sign) {field : List Char} (hfield : Word field) (hword : Word word)
    (hcalm : Continues word) (ho : Opening o) :
    filter (o ++ " WHERE " ++ comparisonText field sign word) =
      [(String.ofList field, sign.asks (literal word))] := by
  have hsign : IsTerm sign.chars ∧ Continues sign.chars ∧ spells ['O', 'R'] sign.chars = false ∧
      spells ['A', 'N', 'D'] sign.chars = false := by
    cases sign <;> decide
  have hterms : ∀ w ∈ [field, sign.chars, word], IsTerm w := by
    simpa using ⟨isTerm_of_word hfield, hsign.1, isTerm_of_word hword⟩
  have hfilter := filter_unwords hterms ho (cons_ne_nil _ _)
    (by simpa using ⟨hsign.2.1, hcalm⟩) (b := []) (by simp) (by simp)
  rw [append_nil] at hfilter
  rw [show comparisonText field sign word = unwords [field, sign.chars, word] from rfl, hfilter,
    addConditions_simple hterms (by simp)
      (joinedBy_unwords (by decide) (fun w hw => (hterms w hw).solid) (by simpa using hsign.2.2.1))
      (joinedBy_unwords (by decide) (fun w hw => (hterms w hw).solid) (by simpa using hsign.2.2.2)),
    show unwords [field, sign.chars, word] = comparisonText field sign word from rfl,
    simple?_comparisonText sign hfield hword]
  rfl

/-! ### Two comparisons -/

/-- Two comparisons that `AND` joins. -/
def conjunctionWords (field value field' value' : List Char) : List (List Char) :=
  [field, ['='], value, "AND"] ++ [field', ['='], value']

section

variable {field value field' value' : List Char} (hfield : PlainWord field) (hvalue : PlainWord value)
  (hfield' : PlainWord field') (hvalue' : PlainWord value')
include hfield hvalue hfield' hvalue'

theorem addConditions_conjunction (hne : field ≠ field') :
    addConditions (unwords (conjunctionWords field value field' value')) [] =
      [(String.ofList field, literal value), (String.ofList field', literal value')] := by
  have htext : unwords (conjunctionWords field value field' value') = joinWith ['A', 'N', 'D']
      [comparisonText field .equal value, comparisonText field' .equal value'] := by
    rw [joinWith_cons_cons, joinWith_singleton]
    simp [conjunctionWords, unwords, comparisonText, Sign.chars]
  have hparts := part_comparisonText .equal hfield hvalue
  have hparts' := part_comparisonText .equal hfield' hvalue'
  rw [htext, addConditions_joinWith_and (by simp) (by simpa using ⟨hparts.1, hparts'.1⟩)
    (by simpa using ⟨hparts.2, hparts'.2⟩)]
  simp only [filterMap_cons, filterMap_nil, simple?_comparisonText .equal hfield.toWord hvalue.toWord,
    simple?_comparisonText .equal hfield'.toWord hvalue'.toWord]
  refine Document.merge_of_nodup ?_
  simpa [Document.names, String.ofList_inj] using hne

/-- **When both comparisons are read.**  A second field that begins another clause ends this one. -/
theorem filter_conjunction_iff (hne : field ≠ field') (hcalm : Continues value)
    (hcalm' : Continues value') (hgroup : spells "GROUP" field' = false)
    (horder : spells "ORDER" field' = false) (ho : Opening o) (v v' : Value) :
    filter (o ++ " WHERE " ++ unwords (conjunctionWords field value field' value')) =
      [(String.ofList field, v), (String.ofList field', v')] ↔
    opensClause field' = false ∧ literal value = v ∧ literal value' = v' := by
  have hsign : IsTerm ['='] ∧ Continues ['='] := by decide
  have hand : IsTerm "AND" ∧ Continues "AND" := by decide
  have hfirst : ∀ w ∈ [field, ['='], value, "AND"], IsTerm w := by
    simpa using ⟨isTerm_of_word hfield.toWord, hsign.1, isTerm_of_word hvalue.toWord, hand.1⟩
  have hsecond : ∀ w ∈ [field', ['='], value'], IsTerm w := by
    simpa using ⟨isTerm_of_word hfield'.toWord, hsign.1, isTerm_of_word hvalue'.toWord⟩
  cases hopens : opensClause field' with
  | false =>
    have hall : ∀ w ∈ conjunctionWords field value field' value', IsTerm w := fun w hw =>
      (mem_append.mp hw).elim (hfirst w) (hsecond w)
    have hgoes : ∀ w ∈ (conjunctionWords field value field' value').tail, Continues w := by
      simpa [conjunctionWords] using ⟨hsign.2, hcalm, hand.2, ⟨hopens, hgroup, horder⟩, hsign.2, hcalm'⟩
    have hfilter := filter_unwords hall ho (by simp [conjunctionWords]) hgoes (forall_mem_nil _) (by simp)
    rw [append_nil] at hfilter
    rw [hfilter, addConditions_conjunction hfield hvalue hfield' hvalue' hne]
    simp
  | true =>
    -- the clause stops behind `AND`, so that one condition is left
    have hgoes : ∀ w ∈ [field, ['='], value, "AND"].tail, Continues w := by
      simpa using ⟨hsign.2, hcalm, hand.2⟩
    have hfilter := filter_unwords hfirst ho (by simp) hgoes hsecond (by simpa using hopens)
    have hsolid : ∀ w ∈ [field, ['='], value, "AND"], Solid w := fun w hw => (hfirst w hw).solid
    rw [conjunctionWords, hfilter, addConditions_simple hfirst (by simp)
      (joinedBy_unwords (by decide) hsolid (by simpa using ⟨by decide, hvalue.not_or⟩))
      (joinedBy_unwords (by decide) hsolid (by simpa using ⟨by decide, hvalue.not_and⟩))]
    cases simple? (unwords [field, ['='], value, "AND"]) <;> simp

end

end SqlGateway.Sql.Where
