import Mathlib.Data.List.DropRight
import SqlGateway.Proofs.Sql.Node.Joint
import SqlGateway.Sql.StatementKind

/-!
# The kind of a statement by its first word

A text that begins with `SELECT`, `INSERT`, `UPDATE` or `DELETE` has that kind, or none at all, if a sign
behind the keyword takes it into a group (`statementKind?_documentWord`).  Tables are created and dropped in
every layout of the words (`statementKind?_laid`).
-/

namespace SqlGateway.Sql

open Text List Node Joint

namespace Node

variable {w : Token} {kind : Kind} {p : Token → Bool} {n : Node}

/-- Neither the keyword nor a blank satisfies the test. -/
structure Spares (w : Token) (test : Node → Bool) : Prop where
  keyword : test (token w) = false
  space : ∀ n, n.isSpace → test n = false

theorem Tame.ite {f : List Node → List Node} (hf : Tame w f) (test : List Node → Bool) :
    Tame w fun ns => if test ns then ns else f ns where
  tokens h := by
    split at h
    · exact h
    · exact hf.tokens h
  fronts h := by
    split
    · exact ⟨_, _, rfl, h⟩
    · exact hf.fronts h
  led hcalm hled := by
    split
    · exact hled
    · exact hf.led hcalm hled

/-! ### The joints -/

section

variable {j : Joint}

/-- A joint that does not take the keyword and reaches at most to the next solid node is orderly. -/
theorem Joint.orderly (hkind : j.kind ≠ .comment) (hbefore : j.takesBefore = false ∨ j.before (token w) = false)
    (hreach : ∀ rest, j.reach rest = 0 ∨ j.reach rest = countToSolid rest) : j.Orderly w where
  kind := hkind
  lead htakes h := by
    rw [htakes, h] at hbefore
    simp at hbefore
  reach _ _ _ _ _ _ := hreach _

theorem Joint.orderly_of_middle (hkind : j.kind ≠ .comment)
    (hmiddle : ∀ n, Sturdy n → j.isMiddle n = false) (hreach : j.reach = countToSolid) : j.Orderly w where
  kind := hkind
  lead _ _ := hmiddle
  reach _ _ _ _ _ _ := .inr (by rw [hreach])

theorem Sturdy.isMiddle (hp : ∀ t : Token, t.Sturdy → p t = false) (h : Sturdy n) : n.isToken p = false := by
  cases n with
  | token t => exact hp t (h t rfl)
  | group => rfl

end

theorem orderly_cast : cast.Orderly w :=
  orderly_of_middle (by decide) (fun _ => Sturdy.isMiddle fun _ h => h.isSign) rfl

theorem orderly_zoned : zoned.Orderly w :=
  orderly_of_middle (by decide)
    (fun _ => Sturdy.isMiddle fun _ h => beq_eq_false_iff_ne.mpr h.not_zone) rfl

theorem orderly_assignments : assignments.Orderly w where
  kind := by decide
  lead _ _ _ := Sturdy.isMiddle fun _ h => beq_eq_false_iff_ne.mpr h.not_assignment
  reach {ns} hcalm n rest hn hrest hmiddle := by
    right
    cases n with
    | group => cases hmiddle
    | token t =>
      have hsemicolons : ∀ t, token t ∈ ns → t.isSign ";" = false := by
        refine hcalm.resolve_right fun hno => hno t hn ?_
        exact beq_iff_eq.mp hmiddle
      have hnone : (rest.drop (countToSolid rest)).findIdx? (·.isSign ";") = none := by
        rw [findIdx?_eq_none_iff]
        intro m hm
        cases m with
        | token u => exact hsemicolons u (hrest _ (mem_of_mem_drop hm))
        | group => rfl
      simp only [assignments, hnone]

theorem orderly_typedText : typedText.Orderly w :=
  orderly (by decide) (.inl rfl) fun _ => .inr rfl

theorem orderly_typedUnit : typedUnit.Orderly w :=
  orderly (by decide) (.inl rfl) fun _ => .inr rfl

section Passes

variable (hw : w.kind = .dataKeyword ∨ w.kind = .schemaKeyword)
include hw

theorem Firm.spares {test : Node → Bool} (h : Firm test) : Spares w test where
  keyword := h.keyword hw
  space _ hn := h.loose (isLoose_of_isSpace hn)

theorem spares_isComment : Spares w (isTokenOf Token.Kind.isComment) where
  keyword := by rcases hw with hw | hw <;> simp [isTokenOf, isToken, hw, Token.Kind.isComment]
  space n hn := by
    cases n with
    | group => rfl
    | token t =>
      have ht : t.kind = .blank ∨ t.kind = .newline := by simpa [isSpace, isToken, Token.isSpace] using hn
      rcases ht with ht | ht <;> simp [isTokenOf, isToken, ht, Token.Kind.isComment]

/-! ### The passes -/

/-- Gathering with followers is tame if the nodes that begin a group are neither the keyword nor blanks. -/
theorem tame_gather_next {grows : Bool} {first : Node → Bool} {test : Node → List Node → Bool}
    {count : Node → List Node → Nat} (hfirst : Spares w first)
    (htest : ∀ n rest, test n rest → first n)
    (hkind : kind = .comment → ∀ n rest, test n rest → n.isComment ∧ count n rest < rest.length) :
    Tame w (gatherNext kind grows test count) := by
  have hnone : ∀ n rest, first n = false →
      (if test n rest then some (withNext kind grows n rest (count n rest)) else none) = none := by
    intro n rest h
    refine if_neg fun hn => ?_
    rw [htest n rest hn] at h
    cases h
  exact tame_gather (isComment_keyword hw) (gathers_withNext hkind)
    (fun rest => hnone _ rest hfirst.keyword) fun n rest hn => hnone n rest (hfirst.space n hn)

theorem tame_enclose {opens closes : Node → Bool} (hkind : kind ≠ .comment)
    (hopens : Firm opens) (hcloses : Firm closes) : Tame w (enclose kind opens closes) :=
  (tame_encloseFrom (isComment_keyword hw) hkind ⟨hopens.keyword hw, hcloses.keyword hw⟩
    fun n hn => ⟨(hopens.spares hw).space n hn, (hcloses.spares hw).space n hn⟩).everywhereBut kind

theorem tame_comments : Tame w comments :=
  tame_gather_next hw (spares_isComment hw)
    (fun _ _ h => (Bool.and_eq_true_iff.mp h).1) fun _ _ _ => comment_of_test

theorem tame_encloseWords (hkind : kind ≠ .comment) (opens : List String)
    (closes : String) : Tame w (encloseWords kind opens closes) :=
  tame_enclose hw hkind (firm_any_isWord opens) (firm_isWord closes)

theorem tame_enclosures : Tame w enclosures :=
  ((((((tame_enclose hw (by decide) (firm_isSign (by decide)) (firm_isSign (by decide))).comp
    (tame_enclose hw (by decide) (firm_isSign (by decide)) (firm_isSign (by decide)))).comp
    (tame_encloseWords hw (by decide) ["CASE"] "END")).comp
    (tame_encloseWords hw (by decide) ["IF"] "END IF")).comp
    (tame_encloseWords hw (by decide) ["FOR", "FOREACH"] "END LOOP")).comp
    (tame_encloseWords hw (by decide) ["BEGIN"] "END"))

theorem tame_windows : Tame w windows :=
  (tame_gather_next hw ((firm_isWord "OVER").spares hw) (fun _ _ h => (Bool.and_eq_true_iff.mp h).1)
    (by nofun)).everywhereBut .window

theorem tame_calls : Tame w calls :=
  ((tame_gather_next hw (firm_isNaming.spares hw)
    (fun _ _ h => (Bool.and_eq_true_iff.mp h).1) (by nofun)).ite isTableDefinition).everywhereBut .call

theorem tame_condition (closed : Bool) : Tame w (gather (condition? closed)) :=
  tame_gather_next hw ((firm_isWord "WHERE").spares hw) (fun _ _ h => h) (by nofun)

theorem tame_conditions : Tame w conditions :=
  (tame_rebuildAll _ _).comp (tame_condition hw _)

theorem tame_singleNames : Tame w singleNames :=
  (tame_gather_next hw (firm_isPlainName.spares hw) (fun _ _ h => h) (by nofun)).everywhereBut .named

theorem tame_bynames : Tame w bynames :=
  (tame_rebuildAll _ _).comp (tame_gather_next hw
    (((firm_isGroupOf (by decide)).or (firm_isTokenOf (by decide))).spares hw)
    (fun _ _ h => (Bool.and_eq_true_iff.mp h).1) (by nofun))

theorem tame_directed : Tame w directed := by
  refine (tame_attach (isComment_keyword hw) attaches_directed ?_ ?_ ?_).everywhereBut .named
  · intro more
    have hnamed : Firm fun n => n.isGroupOf [.named] || n.isTokenOf Token.Kind.isNumeric :=
      (firm_isGroupOf (by decide)).or (firm_isTokenOf (by decide))
    exact if_neg (by simp [hnamed.keyword hw])
  · exact ((firm_isTokenOf (by decide)).spares hw).space
  · exact (firm_isTokenOf (by decide)).keyword hw

theorem tame_alignComments : Tame w alignComments :=
  (tame_rebuildAll _ _).comp (tame_attach (isComment_keyword hw) attaches_extended? (fun _ => rfl)
    (fun n hn => by cases n <;> first | rfl | cases hn) rfl)

omit hw in
theorem valueRows_cases (ns : List Node) : valueRows ns = ns ∨ ∃ rows tail,
    valueRows ns = ns.takeWhile (fun n => !n.isWord "VALUES") ++ group .values rows :: tail := by
  simp only [valueRows, span_eq_takeWhile_dropWhile]
  split
  · exact .inl rfl
  · exact .inr ⟨_, _, rfl⟩

omit hw in
theorem bundled_valueRows (ns : List Node) : Bundled ns (valueRows ns) := by
  obtain ⟨rows, hrows⟩ := rtakeWhile_suffix (fun n => !isGroupOf [.parens] n)
    (ns.dropWhile fun n => !n.isWord "VALUES")
  rw [rtakeWhile] at hrows
  simp only [valueRows, span_eq_takeWhile_dropWhile]
  split
  · exact .refl
  · refine .step (b := rows) ?_ (by nofun)
    rw [append_assoc, hrows, takeWhile_append_dropWhile]
    exact .refl

theorem tame_valueRows : Tame w valueRows := by
  refine .of_bundled (isComment_keyword hw) bundled_valueRows ?_
  rintro ns - ⟨blanks, m, rest, rfl, hblanks, hm⟩
  rcases valueRows_cases (token w :: (blanks ++ m :: rest)) with hsame | ⟨rows, tail, hrows⟩
  · rw [hsame]
    exact ⟨blanks, m, rest, rfl, hblanks, hm⟩
  · have hspares := (firm_isWord "VALUES").spares hw
    have hpass : ∀ n ∈ blanks, (!n.isWord "VALUES") := by
      intro n hn
      rw [hspares.space n (hblanks n hn)]
      rfl
    rw [hrows, takeWhile_cons, hspares.keyword, takeWhile_append_of_pos hpass, takeWhile_cons]
    cases m.isWord "VALUES" with
    | true => exact ⟨blanks, group .values rows, tail, by simp, hblanks, sturdy_group _ _⟩
    | false => exact ⟨blanks, m, _, by simp; rfl, hblanks, hm⟩

theorem Joint.Orderly.tame_join {j : Joint} (hj : j.Orderly w) : Tame w j.join :=
  (tame_joinFlat hj hw).everywhereBut j.kind

theorem orderly_dotted : dotted.Orderly w := by
  refine orderly (by decide) (.inr ?_) fun rest => ?_
  · exact firm_before_dotted.keyword hw
  · simp only [dotted]
    split
    · exact .inr rfl
    · exact .inl rfl

theorem orderly_indexed : indexed.Orderly w :=
  orderly (by decide) (.inr (firm_before_indexed.keyword hw)) fun _ => .inl rfl

theorem orderly_operations : operations.Orderly w :=
  orderly (by decide) (.inr (firm_isTerm.keyword hw)) fun _ => .inr rfl

theorem orderly_comparisons : comparisons.Orderly w :=
  orderly (by decide) (.inr ((firm_isOperand.or firm_isNull).keyword hw)) fun _ => .inr rfl

theorem orderly_renamed : renamed.Orderly w := by
  refine orderly (by decide) (.inr ?_) fun _ => .inr rfl
  have hnull : (token w).isNull = false := firm_isNull.keyword hw
  have hkeyword : (token w).isKeyword := by
    rcases hw with hw | hw
    · rw [isKeyword, isTokenOf, isToken, hw]
      rfl
    · rw [isKeyword, isTokenOf, isToken, hw]
      rfl
  simp only [renamed, hnull, hkeyword]
  rfl

theorem orderly_itemLists : itemLists.Orderly w :=
  orderly (by decide) (.inr (firm_isItem.keyword hw)) fun _ => .inr rfl

theorem exists_tame_outline : ∃ f, Tame w f ∧ ∀ ts : List Token, outline ts = f (ts.map token) := by
  have hjoin : ∀ {j : Joint}, j.Orderly w → Tame w j.join := fun hj => hj.tame_join hw
  have henclosed := (tame_comments hw).comp (tame_enclosures hw)
  have hconditions := ((henclosed.comp (tame_windows hw)).comp (tame_calls hw)).comp (tame_conditions hw)
  have hindexed := (hconditions.comp (hjoin (orderly_dotted hw))).comp
    (tame_joinFlat (orderly_indexed hw) hw)
  have hnames := (hindexed.comp (tame_singleNames hw)).comp (tame_directed hw)
  have htyped := (((hnames.comp (hjoin orderly_cast)).comp (hjoin orderly_zoned)).comp
    (hjoin orderly_typedText)).comp (hjoin orderly_typedUnit)
  have hcompared := ((htyped.comp (hjoin (orderly_operations hw))).comp
    (hjoin (orderly_comparisons hw))).comp (hjoin (orderly_renamed hw))
  have hassigned := (hcompared.comp (tame_bynames hw)).comp (hjoin orderly_assignments)
  have hlisted := (hassigned.comp (tame_alignComments hw)).comp (hjoin (orderly_itemLists hw))
  exact ⟨_, hlisted.comp (tame_valueRows hw), fun _ => rfl⟩

end Passes

end Node

/-! ### The kind -/

theorem kindOf_token {t : Token} (ht : t.kind = .dataKeyword ∨ t.kind = .schemaKeyword) (ns : List Node) :
    kindOf (.token t :: ns) = t.canonical := by
  have hsolid : (token t).isSpace = false := by
    rcases ht with ht | ht <;> simp [isSpace, isToken, Token.isSpace, ht]
  have hcomment : (token t).isComment = false := by
    rcases ht with ht | ht <;>
      simp [isComment, isTokenOf, isToken, isGroupOf, ht, Token.Kind.isComment]
  rcases ht with ht | ht <;> simp [kindOf, hsolid, hcomment, ht]

theorem kindOf_group {kind : Node.Kind} (hkind : kind ≠ .comment) (inside ns : List Node) :
    kindOf (.group kind inside :: ns) = "UNKNOWN" := by
  have hsolid : (group kind inside).isSpace = false := rfl
  have hcomment : (group kind inside).isComment = false := by
    simp [isComment, isTokenOf, isToken, isGroupOf, hkind]
  simp [kindOf, hsolid, hcomment]

section Openers

variable {k : Token.Kind} (hk : k = .dataKeyword ∨ k = .schemaKeyword) {w : List Char}
  (hw : w.all isBlank = false) {g : List Char} (hg : IsGap g) {c : Char} (hblank : isBlank c = false)
  {s : List Char}
  (hnext : Token.next none (w ++ (g ++ c :: s)) = ⟨k, w⟩)
include hk hw hg hblank hnext

omit hk hg hblank hnext in
theorem statementKind?_eq_kindOf (r : List Char) :
    statementKind? (w ++ r) = some (kindOf (ofText (w ++ r))) := by
  refine if_neg fun h => ?_
  rw [all_append, hw] at h
  cases h

omit hk hg hblank hnext in
theorem ne_nil_of_solid : w ≠ [] := by
  rintro rfl
  cases hw

theorem statementKind?_opener : statementKind? (w ++ (g ++ c :: s)) = some (Token.canonical ⟨k, w⟩) ∨
    statementKind? (w ++ (g ++ c :: s)) = some "UNKNOWN" := by
  rw [statementKind?_eq_kindOf hw, ofText]
  obtain ⟨ts, rest, hts, hrest⟩ := Token.firstStatement_opening hk (ne_nil_of_solid hw) hg hblank hnext
  obtain ⟨f, hf, houtline⟩ := exists_tame_outline (w := ⟨k, w⟩) hk
  rw [hrest, houtline, map_cons]
  obtain ⟨n, ns, hns, rfl | ⟨kind, inside, rfl, hkind⟩⟩ := hf.fronts (.inl rfl)
  · rw [hns, kindOf_token hk]
    exact .inl rfl
  · rw [hns, kindOf_group hkind]
    exact .inr rfl

/-- The kind is that of the keyword if a sturdy token follows, and there is no semicolon or no assignment
sign. -/
theorem statementKind?_eq_opener (hcolon : c ≠ ':') (hzone : ∀ y, ¬ Token.zonePattern.Spans ⟨g.getLast?, c :: s⟩ y)
    (hcalm : ';' ∉ w ++ (g ++ c :: s) ∨ ¬ ∃ u v, w ++ (g ++ c :: s) = u ++ ':' :: '=' :: v) :
    statementKind? (w ++ (g ++ c :: s)) = some (Token.canonical ⟨k, w⟩) := by
  rw [statementKind?_eq_kindOf hw, ofText]
  obtain ⟨ts, rest, hts, hrest⟩ := Token.firstStatement_opening hk (ne_nil_of_solid hw) hg hblank hnext
  obtain ⟨f, hf, houtline⟩ := exists_tame_outline (w := ⟨k, w⟩) hk
  have hmem : ∀ t, token t ∈ (Token.firstStatement (Token.tokens (w ++ (g ++ c :: s)))).map
      token → t ∈ Token.tokens (w ++ (g ++ c :: s)) := by
    intro t ht
    obtain ⟨u, hu, hut⟩ := mem_map.mp ht
    rw [← token.inj hut]
    exact Token.mem_of_mem_firstStatement hu
  have hcalm' : Node.Calm ((Token.firstStatement (Token.tokens (w ++ (g ++ c :: s)))).map token) := by
    refine hcalm.imp (fun hno t ht => ?_) (fun hno t ht hkind => ?_)
    · rw [Bool.eq_false_iff]
      exact fun hsign => hno (Token.mem_of_isSign_tokens (hmem t ht) hsign)
    · exact hno (Token.exists_of_assignment_tokens (hmem t ht) hkind)
  have hled : Node.Led ⟨k, w⟩ ((Token.firstStatement (Token.tokens (w ++ (g ++ c :: s)))).map token) := by
    rw [hrest]
    refine ⟨ts.map .token, .token (Token.next g.getLast? (c :: s)), rest.map .token, by simp, ?_, ?_⟩
    · intro n hn
      obtain ⟨t, ht, rfl⟩ := mem_map.mp hn
      exact hts t ht
    intro t ht
    rw [← token.inj ht]
    exact Token.sturdy_next hblank hcolon hzone
  rw [houtline]
  obtain ⟨blanks, m, ms, hns, -⟩ := hf.led hcalm' hled
  rw [hns, kindOf_token hk]

end Openers

section DocumentWords

open Token (documentWords)

variable {w : String} (hw : w ∈ documentWords)
include hw

theorem canonical_documentWord : Token.canonical ⟨.dataKeyword, w⟩ = w := by
  rcases Token.documentWords_cases hw with rfl | rfl | rfl | rfl <;> decide

theorem solid_documentWord : w.toList.all isBlank = false := by
  rcases Token.documentWords_cases hw with rfl | rfl | rfl | rfl <;> decide

variable {c : Char} (s : List Char) (hblank : isBlank c = false) (hdot : c ≠ '.')
include hblank hdot

theorem statementKind?_documentWord : statementKind? (w ++ ' ' :: c :: s) = some w ∨
    statementKind? (w ++ ' ' :: c :: s) = some "UNKNOWN" := by
  have hkind := statementKind?_opener (.inl rfl) (solid_documentWord hw) isGap_space hblank
    (Token.next_documentWord hw s hblank hdot)
  rwa [canonical_documentWord hw] at hkind

theorem statementKind?_eq_documentWord (hcolon : c ≠ ':')
    (hzone : ∀ y, ¬ Token.zonePattern.Spans ⟨some ' ', c :: s⟩ y)
    (hcalm : ';' ∉ w ++ ' ' :: c :: s ∨ ¬ ∃ u v, w ++ ' ' :: c :: s = u ++ ':' :: '=' :: v) :
    statementKind? (w ++ ' ' :: c :: s) = some w := by
  have hkind := statementKind?_eq_opener (.inl rfl) (solid_documentWord hw) isGap_space hblank
    (Token.next_documentWord hw s hblank hdot) hcolon hzone hcalm
  rwa [canonical_documentWord hw] at hkind

end DocumentWords

/-- A text that begins with `CREATE TABLE` or `DROP TABLE`, in whatever layout, has that kind if it has no semicolon
or no assignment sign, and else that kind or none. -/
theorem statementKind?_laid {word : String} (hword : word = "CREATE" ∨ word = "DROP") {ws : List String}
    (hws : ∀ w ∈ ws, IsKeyword w) {s : List Char} (hs : Laid (word :: "TABLE" :: ws) s) (r : List Char) :
    (statementKind? (s ++ r) = some word ∨ statementKind? (s ++ r) = some "UNKNOWN") ∧
    ((';' ∉ r ∨ ¬ ∃ u v, s ++ r = u ++ ':' :: '=' :: v) → statementKind? (s ++ r) = some word) := by
  have hkeyword : IsKeyword word.toList := by rcases hword with rfl | rfl <;> decide
  have hwords : ∀ w ∈ word :: "TABLE" :: ws, IsKeyword w :=
    forall_mem_cons.mpr ⟨hkeyword, forall_mem_cons.mpr ⟨by decide, hws⟩⟩
  have hsemicolon : ';' ∉ s := by
    intro h
    rcases hs.isBlank_or_isWord hwords _ h with h | h <;> cases h
  cases hs with
  | @cons _ _ k g _ hk hg htable =>
  cases htable with
  | @cons _ _ t g' s ht hg' hrest =>
  cases t with
  | nil => cases ht
  | cons c t =>
  have hc : c = 'T' ∨ c = 't' := by
    have hcase := eq_toUpper_or c
    rwa [show c.toUpper = 'T' from (cons.inj ht).1] at hcase
  have htext : k ++ (g ++ (c :: t ++ (g' ++ s))) ++ r = k ++ (g ++ c :: (t ++ (g' ++ s) ++ r)) := by simp
  rw [htext]
  have hblank : isBlank c = false := by rcases hc with rfl | rfl <;> decide
  have hsolid : k.all isBlank = false := by
    obtain ⟨hne, hk', -⟩ := hkeyword.of_spells (hk.spells hkeyword)
    obtain ⟨d, k, rfl⟩ := exists_cons_of_ne_nil hne
    rw [all_cons, hk' d (by simp)]
    rfl
  have hcanonical : Token.canonical ⟨.schemaKeyword, k⟩ = word := by
    show String.intercalate " " ((words (upper k)).map String.ofList) = word
    rw [hk.upper hkeyword]
    rcases hword with rfl | rfl <;> decide
  have hnext : Token.next none (k ++ (g ++ c :: (t ++ (g' ++ s) ++ r))) = ⟨.schemaKeyword, k⟩ :=
    Token.next_schemaWord hword hk hg hblank (by rcases hc with rfl | rfl <;> decide)
      (by rcases hc with rfl | rfl <;> decide)
  have hopener := statementKind?_opener (.inr rfl) hsolid hg hblank hnext
  rw [hcanonical] at hopener
  refine ⟨hopener, fun hcalm => ?_⟩
  have hkind := statementKind?_eq_opener (.inr rfl) hsolid hg hblank hnext
    (by rcases hc with rfl | rfl <;> decide)
    (Token.not_spans_zone_of_head (by rcases hc with rfl | rfl <;> decide)
      (by rcases hc with rfl | rfl <;> decide) _ _)
    (hcalm.imp_left fun h => by
      rw [← htext, mem_append, not_or]
      exact ⟨hsemicolon, h⟩)
  rwa [hcanonical] at hkind

theorem statementKind?_createTable {s : List Char} (h : ';' ∉ s) :
    statementKind? ("CREATE TABLE " ++ s) = some "CREATE" :=
  (statementKind?_laid (.inl rfl) (by simp) (laid_self ["CREATE", "TABLE"] (by decide)) s).2 (.inl h)

end SqlGateway.Sql
