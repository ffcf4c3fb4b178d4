import SqlGateway.Proofs.Text.Layout
import SqlGateway.Sql.Token.Extent

/-!
# The tokens at the beginning of a statement

A statement that begins with a keyword, blanks and one more character begins with the tokens one expects
(`firstStatement_opening`); the token behind the blanks is `Sturdy`.
-/

namespace SqlGateway.Sql.Token

open Text Pattern List Option

variable {b : Option Char} {g s w : List Char} {t : Token} {k : Kind} {c : Char} {ts : List Token} {r : Rule}
  {sign word : String} {y : Cursor}

/-! ### Where a token comes from -/

def earlyRules : List Rule :=
  leadingRules ++ wordRules ++ phraseRules

/-- All rules, the texts in marks and the plain words left aside. -/
def rules : List Rule :=
  leadingRules ++ wordRules ++ phraseRules ++ trailingRules

theorem Rule.spans_of_token? (h : r.token? b s = some t) :
    ∃ y, r.pattern.Spans ⟨b, s⟩ y ∧ s = t.text ++ y.rest ∧ t.kind = r.kind ∧ t.text ≠ [] := by
  rw [Rule.token?] at h
  split at h
  case isFalse => cases h
  case isTrue =>
    split at h
    case h_2 => cases h
    case h_1 m hm =>
      split at h
      case isTrue => cases h
      case isFalse hne =>
        obtain ⟨y, hy, -, htext⟩ := matchAt?_keeps hm
        obtain rfl := some.inj h
        exact ⟨y, hy.spans, htext, rfl, by simpa using hne⟩

theorem token?_of_match {p : Pattern} {m : Match} (h : p.matchAt? 0 b s = some m) (hne : m.text ≠ []) :
    (rule k p).token? b s = some ⟨k, m.text⟩ := by
  simp [Rule.token?, rule, h, hne]

/-- The kinds that only a rule can give. -/
def ruleKinds : List Kind :=
  [.blank, .newline, .lineComment, .blockComment, .assignment, .punctuation, .zoneKeyword]

theorem wordKind_notMem_ruleKinds (w : List Char) : wordKind w ∉ ruleKinds := by
  simp only [wordKind]
  repeat' split
  all_goals decide

/-- **The ways to a token**: by a rule, as a text in marks or between tags, as a word, and as a single
character where nothing else matches. -/
theorem next_cases {P : Token → Prop} (hrule : ∀ r ∈ rules,
      r ∈ earlyRules ∨ wordPattern.matchAt? 0 b s = none → ∀ t, r.token? b s = some t → P t)
    (henclosed : ∀ kind ∈ [.name, .string, .symbol], ∀ escapes, ∀ q ∈ ['`', '´', '\'', '"'], ∀ u v,
      s = q :: v → between escapes q v = some u → P ⟨kind, q :: u⟩)
    (htagged : ∀ m body, tagPattern.matchAt? 0 b s = some m →
      throughTag m.text m.rest = some body → P ⟨.tagged, m.text ++ body⟩)
    (hword : ∀ m, wordPattern.matchAt? 0 b s = some m → P ⟨wordKind m.text, m.text⟩)
    (hother : wordPattern.matchAt? 0 b s = none → P ⟨.other, s.take 1⟩) : P (next b s) := by
  have hrules : ∀ {part : List Rule} {t : Token},
      (∀ r ∈ part, r ∈ rules ∧ (r ∈ earlyRules ∨ wordPattern.matchAt? 0 b s = none)) →
      part.findSome? (·.token? b s) = some t → P t := by
    intro part t hpart hfound
    obtain ⟨r, hr, htoken⟩ := exists_of_findSome?_eq_some hfound
    exact hrule r (hpart r hr).1 (hpart r hr).2 t htoken
  have hmarks : ∀ {kind : Kind} {escapes : Bool} {q : Char} {t : Token},
      kind ∈ [.name, .string, .symbol] → q ∈ ['`', '´', '\'', '"'] → enclosed? kind escapes q s = some t → P t := by
    intro kind escapes q t hkind hq h
    cases s with
    | nil => cases h
    | cons c v =>
      rw [enclosed?] at h
      split at h
      case isTrue hc =>
        obtain ⟨u, hu, rfl⟩ := map_eq_some_iff.mp h
        obtain rfl := beq_iff_eq.mp hc
        exact henclosed kind hkind escapes c hq u v rfl hu
      case isFalse => cases h
  have htags : ∀ {t : Token}, tagged? b s = some t → P t := by
    intro t h
    rw [tagged?] at h
    split at h
    · cases h
    · obtain ⟨m, hm, h⟩ := bind_eq_some_iff.mp h
      obtain ⟨body, hbody, h⟩ := bind_eq_some_iff.mp h
      rw [← some.inj h]
      exact htagged m body hm hbody
  obtain ⟨found?, hfound, hnext⟩ : ∃ found?, (leadingRules.findSome? (·.token? b s) <|>
      enclosed? .name false '`' s <|> enclosed? .name false '´' s <|> tagged? b s <|>
      wordRules.findSome? (·.token? b s) <|> enclosed? .string true '\'' s <|>
      enclosed? .symbol true '"' s <|> phraseRules.findSome? (·.token? b s) <|>
      ((wordPattern.matchAt? 0 b s).map fun m => ⟨wordKind m.text, m.text⟩) <|>
      trailingRules.findSome? (·.token? b s)) = found? ∧
      next b s = found?.getD ⟨.other, s.take 1⟩ := ⟨_, rfl, rfl⟩
  rw [hnext]
  cases found? with
  | none =>
    simp only [orElse_eq_orElse, orElse_eq_or, or_eq_none_iff, map_eq_none_iff] at hfound
    exact hother hfound.2.2.2.2.2.2.2.2.1
  | some t =>
    simp only [orElse_eq_orElse, orElse_eq_or, or_eq_some_iff] at hfound
    rcases hfound with h | ⟨-, h | ⟨-, h | ⟨-, h | ⟨-, h | ⟨-, h | ⟨-, h | ⟨-, h | ⟨-, h | ⟨hno, h⟩⟩⟩⟩⟩⟩⟩⟩⟩
    · exact hrules (by simp +contextual [rules, earlyRules]) h
    · exact hmarks (by decide) (by decide) h
    · exact hmarks (by decide) (by decide) h
    · exact htags h
    · exact hrules (by simp +contextual [rules, earlyRules]) h
    · exact hmarks (by decide) (by decide) h
    · exact hmarks (by decide) (by decide) h
    · exact hrules (by simp +contextual [rules, earlyRules]) h
    · obtain ⟨m, hm, rfl⟩ := map_eq_some_iff.mp h
      exact hword m hm
    · exact hrules (by simp +contextual [rules, map_eq_none_iff.mp hno]) h

/-- A token of a kind that only a rule can give is what a rule of that kind matches. -/
theorem exists_rule (h : (next b s).kind = k) (hk : k ∈ ruleKinds) : ∃ r ∈ rules.filter (·.kind == k), ∃ y,
      r.pattern.Spans ⟨b, s⟩ y ∧ s = (next b s).text ++ y.rest := by
  revert h
  refine next_cases (P := fun t => t.kind = k → ∃ r ∈ rules.filter (·.kind == k), ∃ y,
    r.pattern.Spans ⟨b, s⟩ y ∧ s = t.text ++ y.rest) ?_ ?_ ?_ ?_ ?_
  · rintro r hr - t htoken rfl
    obtain ⟨y, hy, hs, hkind, -⟩ := Rule.spans_of_token? htoken
    exact ⟨r, mem_filter.mpr ⟨hr, beq_iff_eq.mpr hkind.symm⟩, y, hy, hs⟩
  · rintro kind hkind escapes q - u v - - rfl
    have hmarks : ∀ k ∈ [Kind.name, .string, .symbol], k ∉ ruleKinds := by decide
    exact absurd hk (hmarks kind hkind)
  · rintro m body - - rfl
    exact absurd hk (show Kind.tagged ∉ ruleKinds by decide)
  · rintro m - rfl
    exact absurd hk (wordKind_notMem_ruleKinds _)
  · rintro - rfl
    exact absurd hk (show Kind.other ∉ ruleKinds by decide)

theorem spans_of_next (h : (next b s).kind = k) (hk : k ∈ ruleKinds)
    (hr : rules.filter (·.kind == k) = [r]) : ∃ y, r.pattern.Spans ⟨b, s⟩ y := by
  obtain ⟨r', hr', y, hy, -⟩ := exists_rule h hk
  rw [hr, mem_singleton] at hr'
  exact ⟨y, hr' ▸ hy⟩

/-! ### Signs in the text -/

theorem exists_of_isSpace_next (h : (next b s).isSpace) :
    IsGap (next b s).text ∧ ∃ r, s = (next b s).text ++ r := by
  rw [isSpace, Bool.or_eq_true, beq_iff_eq, beq_iff_eq] at h
  rcases h with h | h
  · obtain ⟨r, hr, y, hy, hs⟩ := exists_rule h (by decide)
    rw [show rules.filter (·.kind == .blank) = [rule .blank (one isBlank)] from rfl, mem_singleton] at hr
    subst hr
    obtain ⟨d, t, hstart, hd, rfl⟩ := hy
    have htext : (next b s).text = [d] := append_cancel_right (hs.symm.trans hstart)
    rw [htext]
    exact ⟨⟨by simp, by simpa using hd⟩, t, hstart⟩
  · obtain ⟨r, hr, y, hy, hs⟩ := exists_rule h (by decide)
    rw [show rules.filter (·.kind == .newline) = [rule .newline lineEnd] from rfl, mem_singleton] at hr
    subst hr
    have hgap : IsGap (next b s).text := by
      rcases hy with hy | hy | hy
      all_goals
        rw [append_cancel_right (hs.symm.trans (exists_of_spans_exactly hy))]
        exact ⟨by decide, by decide⟩
    exact ⟨hgap, y.rest, hs⟩

theorem isBlank_of_isSpace_next (h : (next b (c :: s)).isSpace) : isBlank c := by
  obtain ⟨hgap, r, hs⟩ := exists_of_isSpace_next h
  obtain ⟨d, w, hw⟩ := exists_cons_of_ne_nil hgap.1
  obtain ⟨rfl, -⟩ := cons.inj (hs.trans (congrArg (· ++ r) hw))
  exact hgap.2 c (by rw [hw]; simp)

theorem isSpace_next (hc : isBlank c) : (next b (c :: s)).isSpace := by
  obtain ⟨t, ht⟩ : ∃ t, leadingRules.findSome? (·.token? b (c :: s)) = some t := by
    rw [← isSome_iff_exists, findSome?_isSome_iff]
    refine ⟨rule .blank (one isBlank), by simp [leadingRules], ?_⟩
    rw [token?_of_match ((prefers_one hc s []).matchAt? 0 b)
      (by rw [show c :: s = [c] ++ s from rfl, pieceBefore_append]; simp)]
    rfl
  obtain ⟨r, hr, htoken⟩ := exists_of_findSome?_eq_some ht
  obtain ⟨y, hy, -, hkind, -⟩ := Rule.spans_of_token? htoken
  obtain ⟨n, hn, rfl⟩ := exists_blankCode hc
  have hblank := (by decide +kernel : ∀ n ∈ blankCodes, (Char.ofNat n).toUpper = Char.ofNat n ∧ ∀ r ∈ leadingRules,
    r.pattern.refuses [Char.ofNat n] ∨ r.kind = .newline ∨ r.kind = .blank) n hn
  rw [next, ht]
  show t.isSpace
  rw [isSpace, Bool.or_eq_true, beq_iff_eq, beq_iff_eq, hkind]
  rcases hblank.2 r hr with hrefuses | h | h
  · exact absurd hy (not_spans_of_refuses hrefuses ⟨[Char.ofNat n], s, by rw [map_singleton, hblank.1], rfl⟩)
  · exact .inr h
  · exact .inl h

theorem exists_of_assignment_next (h : (next b s).kind = .assignment) : ∃ t, s = ':' :: '=' :: t := by
  obtain ⟨y, hy⟩ := spans_of_next h (by decide) rfl
  exact ⟨y.rest, exists_of_spans_exactly hy⟩

theorem zonePattern_spans_of_next (h : (next b s).kind = .zoneKeyword) : ∃ y, zonePattern.Spans ⟨b, s⟩ y :=
  spans_of_next (r := rule .zoneKeyword zonePattern) h (by decide) rfl

theorem exists_of_spans_zone (h : zonePattern.Spans ⟨b, s⟩ y) : ∃ w d g l r, s = w ++ d :: (g ++ l :: r) ∧
      (spells "AT" w ∨ spells "WITH'" w) ∧ isBlank d ∧
      (∀ c ∈ g, isBlank c) ∧ sameLetter 'T' l := by
  obtain ⟨x₆, ⟨x₅, ⟨x₄, ⟨x₃, ⟨x₂, ⟨x₁, hword, hspace⟩, htime⟩, -⟩, -⟩, -⟩, -⟩ := h
  obtain ⟨w, hw, hs⟩ : ∃ w, (spells "AT" w ∨ spells "WITH'" w) ∧
      s = w ++ x₁.rest := by
    rcases hword with hword | hword
    · obtain ⟨w, hw, hs⟩ := exists_of_spans_lit hword
      exact ⟨w, .inl hw, hs⟩
    · obtain ⟨w, hw, hs⟩ := exists_of_spans_lit hword
      exact ⟨w, .inr hw, hs⟩
  obtain ⟨g, hne, hg, hrest⟩ := exists_of_spans_many1 hspace
  obtain ⟨d, g, rfl⟩ := exists_cons_of_ne_nil hne
  obtain ⟨z, ⟨z', htime, -⟩, -⟩ := htime
  obtain ⟨t, ht, hrest'⟩ := exists_of_spans_lit htime
  obtain ⟨l, t, rfl, hl, -⟩ := exists_cons_of_spells ht
  refine ⟨w, d, g, l, t ++ z'.rest, ?_, hw, hg d (by simp), fun c hc => hg c (by simp [hc]), hl⟩
  rw [hs, hrest, hrest']
  simp

theorem not_spans_zone_of_head (ha : sameLetter 'A' c = false) (hw : sameLetter 'W' c = false)
    (b : Option Char) (s : List Char) (y : Cursor) : ¬ zonePattern.Spans ⟨b, c :: s⟩ y := by
  intro h
  obtain ⟨w, d, g, l, r, hs, hword, -⟩ := exists_of_spans_zone h
  cases w with
  | nil => simp [spells] at hword
  | cons e w =>
    obtain ⟨rfl, -⟩ := cons.inj hs
    simp [spells, ha, hw] at hword

theorem isSign_iff : t.isSign sign ↔ t.kind = .punctuation ∧ t.text = sign.toList := by
  rw [isSign, isOneOf, Bool.and_eq_true, beq_iff_eq, contains_cons, contains_nil,
    Bool.or_false, beq_iff_eq, canonical]
  refine and_congr_right fun hkind => ?_
  rw [hkind, if_neg (by decide)]
  exact ⟨fun h => by rw [← h, String.toList_ofList], fun h => by rw [h, String.ofList_toList]⟩

theorem exists_of_isSign_next (h : (next b s).isSign sign) : ∃ t, s = sign.toList ++ t := by
  obtain ⟨hkind, htext⟩ := isSign_iff.mp h
  obtain ⟨r, -, y, -, hs⟩ := exists_rule hkind (by decide)
  exact ⟨y.rest, htext ▸ hs⟩

/-- A blank, a comment or a semicolon. -/
def isLoose (t : Token) : Bool :=
  t.isSpace || t.kind.isComment || t.isSign ";"

/-- Neither a blank nor a sign that groups with whatever stands before it. -/
structure Sturdy (t : Token) : Prop where
  isSpace : t.isSpace = false
  isSign : t.isSign "::" = false
  not_zone : t.kind ≠ .zoneKeyword
  not_assignment : t.kind ≠ .assignment

theorem sturdy_next (hblank : isBlank c = false) (hcolon : c ≠ ':')
    (hzone : ∀ y, ¬ zonePattern.Spans ⟨b, c :: s⟩ y) : (next b (c :: s)).Sturdy where
  isSpace := by
    rw [Bool.eq_false_iff]
    intro h
    rw [isBlank_of_isSpace_next h] at hblank
    simp at hblank
  isSign := by
    rw [Bool.eq_false_iff]
    intro h
    obtain ⟨t, ht⟩ := exists_of_isSign_next h
    exact hcolon (cons.inj ht).1
  not_zone h := by
    obtain ⟨y, hy⟩ := zonePattern_spans_of_next h
    exact hzone y hy
  not_assignment h := by
    obtain ⟨t, ht⟩ := exists_of_assignment_next h
    exact hcolon (cons.inj ht).1

/-! ### The tokens of a text -/

theorem exists_of_mem_scan {s : List Char} {b : Option Char} {skip : Nat} (h : t ∈ scan b skip s) :
    ∃ u v b', s = u ++ v ∧ v ≠ [] ∧ t = next b' v := by
  induction s generalizing b skip with
  | nil => simp [scan] at h
  | cons c s ih =>
    have hlater : ∀ {k : Nat}, t ∈ scan (some c) k s → ∃ u v b', c :: s = u ++ v ∧ v ≠ [] ∧ t = next b' v := by
      intro k h
      obtain ⟨u, v, b', rfl, hv, rfl⟩ := ih h
      exact ⟨c :: u, v, b', rfl, hv, rfl⟩
    cases skip with
    | succ skip => exact hlater h
    | zero =>
      rcases mem_cons.mp h with rfl | h
      · exact ⟨[], c :: s, b, rfl, cons_ne_nil c s, rfl⟩
      · exact hlater h

theorem mem_of_isSign_tokens (h : t ∈ tokens s) (hsign : t.isSign ";") : ';' ∈ s := by
  obtain ⟨u, v, b, rfl, -, rfl⟩ := exists_of_mem_scan h
  obtain ⟨r, rfl⟩ := exists_of_isSign_next hsign
  simp

theorem exists_of_assignment_tokens (h : t ∈ tokens s) (hkind : t.kind = .assignment) :
    ∃ u v, s = u ++ ':' :: '=' :: v := by
  obtain ⟨u, v, b, rfl, -, rfl⟩ := exists_of_mem_scan h
  obtain ⟨r, rfl⟩ := exists_of_assignment_next hkind
  exact ⟨u, r, rfl⟩

theorem mem_of_mem_firstStatement (h : t ∈ firstStatement ts) : t ∈ ts := by
  have hfrom : ∀ {ts : List Token} {n : Nesting}, t ∈ firstStatementFrom n ts → t ∈ ts := by
    intro ts
    induction ts with
    | nil => intro n h; exact h
    | cons u ts ih =>
      intro n h
      rw [firstStatementFrom] at h
      split at h
      all_goals
        rcases mem_cons.mp h with rfl | h
        · exact mem_cons_self
      · exact mem_cons_of_mem _ ((takeWhile_sublist _).mem h)
      · exact mem_cons_of_mem _ (ih h)
  exact hfrom h

/-! ### A data keyword at the beginning -/

def documentWords : List String :=
  ["SELECT", "INSERT", "UPDATE", "DELETE"]

theorem documentWords_cases {w : String} (hw : w ∈ documentWords) :
    w = "SELECT" ∨ w = "INSERT" ∨ w = "UPDATE" ∨ w = "DELETE" := by
  simpa [documentWords] using hw

theorem exists_of_spans_name (hg : IsGap g) {x : Cursor}
    (h : (one isFirstLetter ++ wordTail).Spans ⟨b, w ++ (g ++ s)⟩ x) :
    ∃ u v, w = u ++ v ∧ x.rest = v ++ (g ++ s) := by
  obtain ⟨z, ⟨l, t, hz, hl, rfl⟩, htail⟩ := h
  obtain ⟨u, hu, rfl⟩ := exists_of_spans_many htail
  have hname : ∀ d ∈ l :: u, isBlank d = false := by
    refine forall_mem_cons.mpr ⟨Bool.eq_false_iff.mpr fun h => ?_, fun d hd => isBlank_of_isWord (hu d hd)⟩
    obtain ⟨n, hn, rfl⟩ := exists_blankCode h
    cases hl.symm.trans ((by decide : ∀ n ∈ blankCodes, isFirstLetter (Char.ofNat n) = false) n hn)
  obtain ⟨e, g, rfl⟩ := exists_cons_of_ne_nil hg.1
  obtain ⟨a, ha, hrest⟩ := exists_append_of_class hname (by simp [hg.2 e (by simp)])
    (show (l :: u) ++ x.rest = w ++ (e :: g ++ s) from hz.symm)
  exact ⟨l :: u, a, ha, hrest⟩

/-- A word with blanks and something else than a mark behind them is not read as a name before the mark. -/
theorem not_spans_marked {mark : String} {m : Char} (hmark : mark.toList = [m]) (hm : isBlank m = false)
    (hw : m ∉ w) (hsolid : Solid w) (hg : IsGap g) (hblank : isBlank c = false) (hc : c ≠ m) (y : Cursor) :
    ¬ (one isFirstLetter ++ wordTail ++ ahead (gap ++ exactly mark)).Spans ⟨b, w ++ (g ++ c :: s)⟩ y := by
  rintro ⟨x, hname, -, x', z, hgap, hend⟩
  obtain ⟨u, v, rfl, hx⟩ := exists_of_spans_name hg hname
  obtain ⟨g', hg', hrest⟩ := exists_of_spans_many hgap
  rw [exists_of_spans_exactly hend, hmark] at hrest
  -- The first character behind the name that is not a blank is the mark.
  have hfirst := congrArg (dropWhile isBlank) (hx.symm.trans hrest)
  rw [dropWhile_append_of_pos hg', singleton_append, dropWhile_cons_of_neg (by simp [hm])] at hfirst
  cases v with
  | nil =>
    rw [nil_append, dropWhile_append_of_pos hg.2, dropWhile_cons_of_neg (by simp [hblank])] at hfirst
    exact hc (cons.inj hfirst).1
  | cons d v =>
    rw [cons_append, dropWhile_cons_of_neg (by simp [hsolid d (by simp)])] at hfirst
    exact hw (by simp [(cons.inj hfirst).1])

def dottedRule : Rule :=
  rule .name (one isFirstLetter ++ wordTail ++ ahead (gap ++ exactly "."))

theorem dottedRule_token? (hw : '.' ∉ w) (hsolid : Solid w) (hg : IsGap g) (hblank : isBlank c = false) (hdot : c ≠ '.') :
    dottedRule.token? none (w ++ (g ++ c :: s)) = none := by
  rw [← not_isSome_iff_eq_none]
  intro h
  obtain ⟨t, ht⟩ := isSome_iff_exists.mp h
  obtain ⟨y, hy, -⟩ := Rule.spans_of_token? ht
  exact not_spans_marked rfl (by decide) hw hsolid hg hblank hdot y hy

theorem next_documentWord {w : String} (hw : w ∈ documentWords) (s : List Char)
    (hblank : isBlank c = false) (hdot : c ≠ '.') :
    next none (w ++ ' ' :: c :: s) = ⟨.dataKeyword, w⟩ := by
  have hcases := documentWords_cases hw
  have hname : dottedRule.token? none (w ++ ' ' :: c :: s) = none :=
    dottedRule_token? (by rcases hcases with rfl | rfl | rfl | rfl <;> decide)
      (by rcases hcases with rfl | rfl | rfl | rfl <;> decide) isGap_space hblank hdot
  -- All the other rules fail at the letters of the keyword.
  have hwords : wordRules.findSome? (·.token? none (w ++ ' ' :: c :: s)) = none := by
    simp only [dottedRule] at hname
    simp only [wordRules, findSome?_cons, hname]
    rcases hcases with rfl | rfl | rfl | rfl <;> rfl
  have hmatch : wordPattern.matchAt? 0 none (w ++ ' ' :: c :: s) = some
      ⟨0, pieceBefore (' ' :: c :: s) (w ++ ' ' :: c :: s), ' ' :: c :: s, []⟩ := by
    rcases hcases with rfl | rfl | rfl | rfl <;> rfl
  rw [pieceBefore_append] at hmatch
  rw [next, hwords, hmatch]
  rcases hcases with rfl | rfl | rfl | rfl <;> rfl

/-- The rules that can begin at `CREATE` or `DROP`: those of names, and the one of `CREATE`. -/
theorem rule_of_schemaWord (hword : word = "CREATE" ∨ word = "DROP") (hr : r ∈ earlyRules)
    (h : r.pattern.refuses word.toList = false) :
    r ∈ [dottedRule, ⟨.name, fun before => before == some '.', one isFirstLetter ++ wordTail⟩,
      rule .name (one isFirstLetter ++ wordTail ++ ahead (exactly "(")),
      rule .schemaKeyword (lit "CREATE" ++ opt (space ++ phrase ["OR", "REPLACE"]) ++ edge)] := by
  have hmem : r ∈ earlyRules.filter fun r => !r.pattern.refuses word.toList :=
    mem_filter.mpr ⟨hr, by rw [h]; rfl⟩
  rcases hword with rfl | rfl
  · exact hmem
  · exact mem_append_left [_] hmem

theorem rest_of_create {k : List Char} (hk : IsCased "CREATE" k) (hg : ∀ d ∈ g, isBlank d)
    (hblank : isBlank c = false) (hor : sameLetter 'O' c = false)
    (h : (lit "CREATE" ++ opt (space ++ phrase ["OR", "REPLACE"]) ++ edge).Spans ⟨b, k ++ (g ++ c :: s)⟩ y) :
    y.rest = g ++ c :: s := by
  obtain ⟨x, ⟨z, hlit, hopt⟩, rfl, -⟩ := h
  obtain ⟨w, hw, hs⟩ := exists_of_spans_lit hlit
  have hlength : k.length = w.length := (spells_length (hk.spells (by decide))).trans (spells_length hw).symm
  obtain ⟨-, hz⟩ := append_inj hs hlength
  rcases hopt with ⟨x', hspace, x'', ⟨z', hword, -⟩, -⟩ | rfl
  · -- The first character that is not blank would be an `O`.
    obtain ⟨g', -, hg', hrest⟩ := exists_of_spans_many1 hspace
    obtain ⟨o, ho, hrest'⟩ := exists_of_spans_lit hword
    cases o with
    | nil => cases ho
    | cons e o =>
      have hsame : (sameLetter 'O' e && spells "R" o) := ho
      have hsolid : isBlank e = false := (show IsKeyword "OR" by decide).solid ho e (by simp)
      have hdrop : (g ++ c :: s).dropWhile isBlank = (g' ++ (e :: o ++ z'.rest)).dropWhile isBlank := by
        rw [hz, hrest, hrest']
      rw [dropWhile_append_of_pos hg, dropWhile_append_of_pos hg', cons_append,
        dropWhile_cons_of_neg (by simp [hblank]), dropWhile_cons_of_neg (by simp [hsolid])] at hdrop
      rw [(cons.inj hdrop).1, (Bool.and_eq_true_iff.mp hsame).1] at hor
      cases hor
  · exact hz.symm

/-- **`CREATE` and `DROP`** are keywords in any case and with any blanks behind them. -/
theorem next_schemaWord (hword : word = "CREATE" ∨ word = "DROP") {k : List Char} (hk : IsCased word k)
    (hg : IsGap g) (hblank : isBlank c = false) (hmarks : c ∉ ['.', '(']) (hor : sameLetter 'O' c = false) :
    next none (k ++ (g ++ c :: s)) = ⟨.schemaKeyword, k⟩ := by
  have hkeyword : IsKeyword word.toList := by rcases hword with rfl | rfl <;> decide
  obtain ⟨hne, hsolid, hletters⟩ := hkeyword.of_spells (hk.spells hkeyword)
  have hopens : Opens word.toList (k ++ (g ++ c :: s)) := ⟨k, _, hk, rfl⟩
  have hmatch : wordPattern.matchAt? 0 none (k ++ (g ++ c :: s)) = some ⟨0, k, g ++ c :: s, []⟩ := by
    obtain ⟨d, k, rfl⟩ := exists_cons_of_ne_nil hne
    have htail : ∀ e ∈ k, (isWord e || e == '$' || e == '#') := fun e he => by
      rw [hletters e (mem_cons_of_mem _ he)]
      rfl
    have hstop : ∀ e ∈ (g ++ c :: s).head?, (isWord e || e == '$' || e == '#') = false := by
      intro e he
      obtain ⟨a, g, rfl⟩ := exists_cons_of_ne_nil hg.1
      obtain rfl := some.inj he
      obtain ⟨n, hn, rfl⟩ := exists_blankCode (hg.2 a (by simp))
      exact (by decide +kernel : ∀ n ∈ blankCodes,
        (isWord (Char.ofNat n) || Char.ofNat n == '$' || Char.ofNat n == '#') = false) n hn
    have hprefers : wordPattern.Prefers (d :: (k ++ (g ++ c :: s))) [] (g ++ c :: s) [] :=
      (prefers_one (hletters d (by simp)) _ []).append (prefers_many htail hstop [])
    have hfound := hprefers.matchAt? 0 none
    rwa [← cons_append, pieceBefore_append] at hfound
  have hkind : wordKind k = .schemaKeyword := by
    rw [wordKind, hk.upper hkeyword]
    rcases hword with rfl | rfl <;> decide
  refine next_cases (P := fun t => t = ⟨.schemaKeyword, k⟩) ?_ ?_ ?_ ?_ ?_
  · rintro r - hearly t ht
    obtain ⟨y, hy, htext, hkind', -⟩ := Rule.spans_of_token? ht
    have hr := rule_of_schemaWord hword (hearly.resolve_right (by simp [hmatch]))
      (Bool.eq_false_iff.mpr fun h => not_spans_of_refuses h hopens hy)
    simp only [mem_cons, not_mem_nil, or_false] at hr hmarks
    rw [not_or] at hmarks
    rcases hr with rfl | rfl | rfl | rfl
    · exact absurd hy (not_spans_marked rfl (by decide) (fun h => by cases hletters _ h) hsolid hg hblank
        hmarks.1 y)
    · cases ht
    · obtain ⟨x, hname, rfl, z, hz⟩ := hy
      exact absurd ⟨_, hname, rfl, z, _, .stay _, hz⟩
        (not_spans_marked (show "(" = ['('] from rfl) (by decide) (fun h => by cases hletters _ h)
          hsolid hg hblank hmarks.2 y)
    · rcases hword with rfl | rfl
      · obtain ⟨kind, text⟩ := t
        obtain rfl : kind = .schemaKeyword := hkind'
        rw [rest_of_create hk hg.2 hblank hor hy] at htext
        rw [append_cancel_right htext]
      · exact absurd hy (not_spans_of_refuses (by decide) hopens)
  · rintro kind - escapes q hq u v hs -
    obtain ⟨d, k, rfl⟩ := exists_cons_of_ne_nil hne
    obtain ⟨rfl, -⟩ := cons.inj hs
    have hmark : ∀ q ∈ ['`', '´', '\'', '"'], isWord q = false := by decide +kernel
    cases (hletters d (by simp)).symm.trans (hmark d hq)
  · rintro m body hm -
    obtain ⟨y, hy, -⟩ := matchAt?_keeps hm
    exact absurd hy.spans (not_spans_of_refuses (by rcases hword with rfl | rfl <;> decide) hopens)
  · intro m hm
    rw [hmatch] at hm
    obtain rfl := some.inj hm
    rw [hkind]
  · intro hnone
    cases hmatch.symm.trans hnone

theorem scan_skip : ∀ (u : List Char) {b : Option Char} {s : List Char},
    scan b u.length (u ++ s) = scan (u.getLast?.or b) 0 s
  | [], _, _ => rfl
  | c :: u, b, s => by
    rw [getLast?_cons_or, ← scan_skip u]
    rfl

theorem endsStatement_opener (hk : k = .dataKeyword ∨ k = .schemaKeyword) (n : Nesting) (w : List Char) :
    endsStatement n ⟨k, w⟩ = false := by
  rcases hk with rfl | rfl <;> simp [endsStatement, isSign, isOneOf]

theorem exists_scan_gap (hblank : isBlank c = false) : ∀ {g : List Char} {b : Option Char},
    (∀ d ∈ g, isBlank d) →
    ∃ ts, (∀ t ∈ ts, t.isSpace) ∧ scan b 0 (g ++ c :: s) = ts ++ scan (g.getLast?.or b) 0 (c :: s) := by
  intro g
  induction hn : g.length using Nat.strong_induction_on generalizing g with
  | _ n ih =>
    intro b hg
    cases g with
    | nil => exact ⟨[], by simp, rfl⟩
    | cons d g =>
      have hspace : (next b (d :: (g ++ c :: s))).isSpace := isSpace_next (hg d (by simp))
      obtain ⟨hgap, r, htext⟩ := exists_of_isSpace_next hspace
      obtain ⟨e, u, hu⟩ := exists_cons_of_ne_nil hgap.1
      rw [hu] at htext hgap
      obtain ⟨rfl, hrest⟩ := cons.inj htext
      -- The token ends before `c`, which is not blank.
      obtain ⟨g', rfl, rfl⟩ := exists_append_of_class (fun e he => hgap.2 e (mem_cons_of_mem d he))
        (by simp [hblank]) hrest.symm
      obtain ⟨ts, hts, hscan⟩ := ih g'.length (by simp only [← hn, length_cons, length_append]; omega) rfl
       
        fun e he => hg e (by simp [he])
      refine ⟨_ :: ts, forall_mem_cons.mpr ⟨hspace, hts⟩, ?_⟩
      rw [cons_append, scan, hu, length_cons, Nat.add_sub_cancel, append_assoc, scan_skip, hscan,
        getLast?_cons_or, getLast?_append, Option.or_assoc]
      rfl

theorem exists_firstStatementFrom (hts : ∀ t ∈ ts, t.isSpace) (t : Token) (rest : List Token) :
    ∀ n, ∃ rest', firstStatementFrom n (ts ++ t :: rest) = ts ++ t :: rest' := by
  induction ts with
  | nil =>
    intro n
    rw [nil_append, firstStatementFrom]
    split
    · exact ⟨_, rfl⟩
    · exact ⟨_, rfl⟩
  | cons u ts ih =>
    intro n
    have hends : endsStatement (n.behind u) u = false := by
      have hu := hts u (by simp)
      rw [isSpace, Bool.or_eq_true, beq_iff_eq, beq_iff_eq] at hu
      rcases hu with hu | hu <;> simp [endsStatement, isSign, isOneOf, hu]
    obtain ⟨rest', hrest⟩ := ih (forall_mem_cons.mp hts).2 (n.behind u)
    refine ⟨rest', ?_⟩
    rw [cons_append, firstStatementFrom, if_neg (by rw [hends]; decide), hrest]
    rfl

/-- The first tokens: the keyword, blanks, and the token behind them. -/
theorem firstStatement_opening (hk : k = .dataKeyword ∨ k = .schemaKeyword) (hne : w ≠ []) (hg : IsGap g)
    (hblank : isBlank c = false) (hnext : next none (w ++ (g ++ c :: s)) = ⟨k, w⟩) :
    ∃ ts rest, (∀ t ∈ ts, t.isSpace) ∧ firstStatement (tokens (w ++ (g ++ c :: s))) =
      ⟨k, w⟩ :: (ts ++ next g.getLast? (c :: s) :: rest) := by
  obtain ⟨d, u, rfl⟩ := exists_cons_of_ne_nil hne
  obtain ⟨ts, hts, hscan⟩ := exists_scan_gap hblank hg.2
  have hlast : g.getLast?.or (u.getLast?.or (some d)) = g.getLast? := by
    rw [getLast?_eq_some_getLast hg.1]
    rfl
  have htokens : tokens (d :: u ++ (g ++ c :: s)) = ⟨k, d :: u⟩ :: (ts ++ scan g.getLast? 0 (c :: s)) := by
    rw [tokens, cons_append, scan, ← cons_append, hnext, show (d :: u).length - 1 = u.length from rfl,
      scan_skip, hscan, hlast]
  obtain ⟨rest, hrest⟩ := exists_firstStatementFrom hts (next g.getLast? (c :: s)) _
    (Nesting.start.behind ⟨k, d :: u⟩)
  refine ⟨ts, rest, hts, ?_⟩
  rw [htokens, firstStatement, firstStatementFrom, if_neg (by rw [endsStatement_opener hk]; decide), scan, hrest]

end SqlGateway.Sql.Token
