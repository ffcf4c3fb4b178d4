import Mathlib.Data.List.DropRight
import SqlGateway.Proofs.Text.Semicolon
import SqlGateway.Proofs.Sql.Token.Opening

/-!
# The tokens of a text with a semicolon at its end

A rule either never takes a semicolon or needs a closing mark behind it, so a semicolon becomes a token of its
own, unless a line comment takes it (`scan_semicolon`).  **Without the loose tokens at its end, the first
statement has the same tokens** (`core_firstStatement`).
-/

namespace SqlGateway.Sql.Token

open Text Pattern List Option

variable {p : Pattern} {c q : Char} {r : Rule} {ts ts' : List Token} {t : Token}
variable {b : Option Char} {s : List Char}

/-! ### A token is the beginning of the text -/

theorem text_ne_nil_of_least {m : Match} (hleast : 1 ≤ p.least) (h : p.matchAt? 0 b s = some m) :
    m.text ≠ [] := by
  intro hnil
  obtain ⟨y, hy, -, hs⟩ := matchAt?_keeps h
  have hlength : y.rest.length + p.least ≤ s.length := least_le_of_spans hy.spans
  rw [hnil, nil_append] at hs
  rw [hs] at hlength
  omega

theorem beginning_between {escapes : Bool} {t : List Char} (h : between escapes q s = some t) : t <+: s := by
  fun_induction between escapes q s generalizing t with
  | case1 => cases h
  | case2 c =>
    obtain rfl := some.inj h
    exact prefix_refl _
  | case3 c => cases h
  | case4 c d s _ _ ih =>
    rw [orElse_eq_orElse, orElse_eq_or, or_eq_some_iff] at h
    rcases h with h | ⟨-, h⟩
    · obtain ⟨t, ht, rfl⟩ := map_eq_some_iff.mp h
      exact cons_prefix_cons.mpr ⟨rfl, cons_prefix_cons.mpr ⟨rfl, ih ht⟩⟩
    · rw [← some.inj h]
      exact ⟨d :: s, rfl⟩
  | case5 c d s =>
    rw [← some.inj h]
    exact ⟨d :: s, rfl⟩
  | case6 c d s _ _ ih =>
    rw [orElse_eq_orElse, orElse_eq_or, or_eq_some_iff] at h
    rcases h with h | ⟨-, h⟩
    · obtain ⟨t, ht, rfl⟩ := map_eq_some_iff.mp h
      exact cons_prefix_cons.mpr ⟨rfl, cons_prefix_cons.mpr ⟨rfl, ih ht⟩⟩
    · rw [← some.inj h]
      exact ⟨s, rfl⟩
  | case7 c d s _ _ ih =>
    obtain ⟨t, ht, rfl⟩ := map_eq_some_iff.mp h
    exact cons_prefix_cons.mpr ⟨rfl, ih ht⟩

theorem beginning_throughTag {tag s t : List Char} (h : throughTag tag s = some t) : t <+: s := by
  induction s generalizing t with
  | nil =>
    rw [throughTag] at h
    split at h
    · obtain rfl := some.inj h
      exact prefix_refl _
    · cases h
  | cons c s ih =>
    rw [throughTag] at h
    split at h
    · rw [← some.inj h]
      exact take_prefix _ _
    · obtain ⟨t, ht, rfl⟩ := map_eq_some_iff.mp h
      exact cons_prefix_cons.mpr ⟨rfl, ih ht⟩

theorem text_next (b : Option Char) (hs : s ≠ []) : (next b s).text ≠ [] ∧ (next b s).text <+: s := by
  refine next_cases (P := fun t => t.text ≠ [] ∧ t.text <+: s) ?_ ?_ ?_ ?_
    fun _ => ⟨by simpa using hs, take_prefix 1 s⟩
  · intro r _ _ t h
    obtain ⟨y, -, htext, -, hne⟩ := Rule.spans_of_token? h
    exact ⟨hne, y.rest, htext.symm⟩
  · rintro kind - escapes q - u v rfl h
    exact ⟨cons_ne_nil q u, cons_prefix_cons.mpr ⟨rfl, beginning_between h⟩⟩
  · intro m body hm hbody
    obtain ⟨y, -, hrest, htext⟩ := matchAt?_keeps hm
    refine ⟨append_ne_nil_of_left_ne_nil (text_ne_nil_of_least (by decide) hm) _, ?_⟩
    rw [htext, ← hrest]
    exact (prefix_append_right_inj m.text).mpr (beginning_throughTag hbody)
  · intro m hm
    obtain ⟨y, -, -, htext⟩ := matchAt?_keeps hm
    exact ⟨text_ne_nil_of_least (by decide) hm, y.rest, htext.symm⟩

/-! ### Texts in marks and between tags -/

theorem between_semicolon (hq : q ≠ ';') (escapes : Bool) (s : List Char) :
    between escapes q (s ++ [';']) = between escapes q s := by
  have hlast : (';' == q) = false := by
    rw [beq_eq_false_iff_ne]
    exact hq.symm
  have hend : between escapes q [';'] = none := by
    rw [between, if_neg (by simp [hlast])]
  fun_induction between escapes q s with
  | case1 => exact hend
  | case2 c hc =>
    show between escapes q [c, ';'] = some [c]
    rw [between, if_pos hc, if_neg (by simp [hlast])]
  | case3 c hc =>
    show between escapes q [c, ';'] = none
    rw [between, if_neg hc, if_neg (by simp [hlast]), hend]
    rfl
  | case4 c d s hc hd ih =>
    show between escapes q (c :: d :: (s ++ [';'])) = _
    rw [between, if_pos hc, if_pos hd, ih]
  | case5 c d s hc hd =>
    show between escapes q (c :: d :: (s ++ [';'])) = _
    rw [between, if_pos hc, if_neg hd]
  | case6 c d s hc hd ih =>
    show between escapes q (c :: d :: (s ++ [';'])) = _
    rw [between, if_neg hc, if_pos hd, ih]
  | case7 c d s hc hd ih =>
    show between escapes q (c :: d :: (s ++ [';'])) = _
    rw [between, if_neg hc, if_neg hd, ← ih]
    rfl

theorem enclosed?_semicolon (hq : q ≠ ';') (kind : Kind) (escapes : Bool) (hs : s ≠ []) :
    enclosed? kind escapes q (s ++ [';']) = enclosed? kind escapes q s := by
  obtain ⟨c, s, rfl⟩ := exists_cons_of_ne_nil hs
  rw [cons_append, enclosed?, enclosed?, between_semicolon hq]

theorem beginsWith_length : ∀ {tag s : List Char}, beginsWith tag s → tag.length ≤ s.length
  | [], _, _ => Nat.zero_le _
  | _ :: _, [], h => Bool.noConfusion h
  | _ :: tag, _ :: s, h => by
    rw [beginsWith, Bool.and_eq_true] at h
    exact Nat.succ_le_succ (beginsWith_length h.2)

section

variable {tag : List Char} (htag : tag.getLast? = some '$')
include htag

theorem beginsWith_semicolon (s : List Char) : beginsWith tag (s ++ [';']) = beginsWith tag s := by
  induction tag generalizing s with
  | nil => cases htag
  | cons t tag ih =>
    cases tag with
    | nil =>
      obtain rfl : t = '$' := some.inj htag
      cases s with
      | nil => decide
      | cons c s => rfl
    | cons u tag =>
      cases s with
      | nil =>
        exact Bool.and_false _
      | cons c s =>
        show (lowerChar t == lowerChar c && beginsWith (u :: tag) (s ++ [';'])) = _
        rw [ih htag]
        rfl

theorem throughTag_semicolon (s : List Char) : throughTag tag (s ++ [';']) = throughTag tag s := by
  have hne : tag ≠ [] := by
    rintro rfl
    cases htag
  have hnone : throughTag tag [] = none := by
    rw [throughTag, if_neg (by simpa using hne)]
  have hempty : beginsWith tag [] = false := by
    rw [Bool.eq_false_iff]
    intro h
    exact hne (length_eq_zero_iff.mp (Nat.le_zero.mp (beginsWith_length h)))
  induction s with
  | nil =>
    have hlast := beginsWith_semicolon htag []
    rw [nil_append, hempty] at hlast
    rw [hnone, nil_append, throughTag, hlast, hnone]
    rfl
  | cons c s ih =>
    have hhere := beginsWith_semicolon htag (c :: s)
    rw [cons_append] at hhere ⊢
    rw [throughTag, throughTag, hhere, ih]
    by_cases h : beginsWith tag (c :: s)
    · rw [if_pos h, if_pos h, ← cons_append, take_append_of_le_length (beginsWith_length h)]
    · rw [if_neg h, if_neg h]

end

/-! ### The rules -/

theorem endings_semicolon : Endings [] [';'] :=
  Semicolon.bare.endings

theorem settles_semicolon (hp : p.holdsOff ';') : Settles s [] [';'] p := by
  refine settles_of_holdsOff endings_semicolon (by simp) fun c hc => ?_
  obtain rfl := some.inj hc
  exact hp

/-- A pattern that may take the semicolon, with something behind it that cannot. -/
theorem settles_closing {q : Pattern} (hp : p.isSteady) (hq : q.holdsOff ';')
    (hleast : 1 ≤ q.least) : Settles s [] [';'] (p ++ q) := by
  have hmisses : Misses [';'] q := misses_of_least hleast
  have hbehind : Settles s [] [';'] q := settles_semicolon hq
  intro β next next'
  exact hbehind.append endings_semicolon (.inl (by simp)) (.inr ⟨hp, hmisses.fails⟩)

theorem view_semicolon (hp : Settles s [] [';'] p) (b : Option Char) :
    (p.matchAt? 0 b (s ++ [';'])).map view = (p.matchAt? 0 b s).map view := by
  have hmatch := hp.matchAt? 0 b (suffix_refl s)
  rw [append_nil] at hmatch
  exact hmatch.symm

theorem Rule.token?_eq_bind (r : Rule) (b : Option Char) (s : List Char) : r.token? b s =
    if r.after b then ((r.pattern.matchAt? 0 b s).map view).bind fun v =>
      if v.2.1.isEmpty then none else some ⟨r.kind, v.2.1⟩
    else none := by
  rw [Rule.token?]
  cases r.pattern.matchAt? 0 b s with
  | none => rfl
  | some m => rfl

/-- The rule gives the same token with and without the semicolon. -/
def Rule.Agrees (b : Option Char) (s : List Char) (r : Rule) : Prop :=
  r.token? b (s ++ [';']) = r.token? b s

section

variable {b : Option Char} {s : List Char}

theorem Rule.agrees_of_view (h : (r.pattern.matchAt? 0 b (s ++ [';'])).map view =
    (r.pattern.matchAt? 0 b s).map view) : r.Agrees b s := by
  rw [Rule.Agrees, Rule.token?_eq_bind, Rule.token?_eq_bind, h]

theorem Rule.agrees_of_settles (h : Settles s [] [';'] r.pattern) : r.Agrees b s :=
  Rule.agrees_of_view (view_semicolon h b)

theorem Rule.agrees_of_holdsOff (h : r.pattern.holdsOff ';') : r.Agrees b s :=
  Rule.agrees_of_settles (settles_semicolon h)

theorem holdsOff_many1 {p : Char → Bool} (h : p c = false) : (many1 p).holdsOff c := by
  show (!p c && !p c)
  rw [h]
  rfl

theorem agrees_wordRules : ∀ r ∈ wordRules, r.Agrees b s := by
  have hoff : ∀ r ∈ wordRules.take 9 ++ wordRules.drop 10, r.pattern.holdsOff ';' := by decide
  have hhex : (opt (exactly "-") ++ lit "0x" ++ many1 fun c => isDecimal c || "abcdefABCDEF".contains c).holdsOff
      ';' := by
    show ((opt (exactly "-") ++ lit "0x").holdsOff ';' && (many1 _).holdsOff ';')
    rw [holdsOff_many1 (by simp; decide)]
    decide
  intro r hr
  have hcases : r ∈ wordRules.take 9 ++ ((wordRules.drop 9).take 1 ++ wordRules.drop 10) := hr
  simp only [mem_append] at hcases hoff
  rcases hcases with hr | hr | hr
  · exact Rule.agrees_of_holdsOff (hoff r (.inl hr))
  · obtain rfl := mem_singleton.mp hr
    exact Rule.agrees_of_holdsOff hhex
  · exact Rule.agrees_of_holdsOff (hoff r (.inr hr))

theorem agrees_phraseRules : ∀ r ∈ phraseRules, r.Agrees b s := by
  have hoff : ∀ r ∈ phraseRules.tail.take 14 ++ phraseRules.drop 16, r.pattern.holdsOff ';' := by
    decide
  have hbracket : Settles s [] [';'] (exactly "[" ++ many1 (noneOf [']', '[']) ++ exactly "]") :=
    settles_closing (by decide) (by decide) (by decide)
  have hzone : Settles s [] [';'] zonePattern := settles_closing (by decide) (by decide) (by decide)
  intro r hr
  have hcases : r ∈ phraseRules.take 1 ++ (phraseRules.tail.take 14 ++
    ((phraseRules.drop 15).take 1 ++ phraseRules.drop 16)) := hr
  simp only [mem_append] at hcases hoff
  rcases hcases with hr | hr | hr | hr
  · obtain rfl := mem_singleton.mp hr
    exact Rule.agrees_of_settles hbracket
  · exact Rule.agrees_of_holdsOff (hoff r (.inl hr))
  · obtain rfl := mem_singleton.mp hr
    exact Rule.agrees_of_settles hzone
  · exact Rule.agrees_of_holdsOff (hoff r (.inr hr))

theorem view_one (p : Char → Bool) (c : Char) (t : List Char) : ((one p).matchAt? 0 b (c :: t)).map view =
    if p c then some (0, [c], []) else none := by
  show Option.map view (if p c then some ⟨0, pieceBefore t ([c] ++ t), t, []⟩ else none) = _
  rw [pieceBefore_append]
  split <;> rfl

theorem agrees_trailingRules (hs : s ≠ []) : ∀ r ∈ trailingRules, r.Agrees b s := by
  have hoff : ∀ r ∈ trailingRules.tail, r.pattern.holdsOff ';' :=
    forall_mem_cons.mpr ⟨by decide, forall_mem_cons.mpr ⟨holdsOff_many1 (by simp),
      forall_mem_singleton.mpr (holdsOff_many1 (by simp))⟩⟩
  obtain ⟨c, s, rfl⟩ := exists_cons_of_ne_nil hs
  refine forall_mem_cons.mpr ⟨?_, fun r hr => Rule.agrees_of_holdsOff (hoff r hr)⟩
  exact Rule.agrees_of_view ((view_one (fun d => ";:()[],.".contains d) c (s ++ [';'])).trans
    (view_one (fun d => ";:()[],.".contains d) c s).symm)

end

/-! ### Line comments -/

def commentRule : Rule :=
  rule .lineComment ((exactly "--" <|> exactly "# ") ++ few inLine ++ (lineEnd <|> finish))

/-- What follows the line end. -/
def behindLine : List Char → List Char
  | [] => []
  | c :: s =>
    if c == '\r' then if s.head? == some '\n' then s.tail else s
    else if c == '\n' then s
    else behindLine s

theorem run_line {α : Type} (b : Option Char) (s : List Char) (k : Kept) (f : List Char → Kept → α) :
    (few inLine ++ (lineEnd <|> finish)).run ⟨b, s⟩ k (fun x k => some (f x.rest k)) =
      some (f (behindLine s) k) := by
  fun_induction behindLine s generalizing b with
  | case1 => rfl
  | case2 c s hc hs =>
    obtain rfl := beq_iff_eq.mp hc
    obtain ⟨s, rfl⟩ := head?_eq_some_iff.mp (beq_iff_eq.mp hs)
    rfl
  | case3 c s hc hs =>
    obtain rfl := beq_iff_eq.mp hc
    cases s with
    | nil => rfl
    | cons d s =>
      have hd : (d == '\n') = false := by simpa using hs
      show ((((if d == '\n' then some (f s k) else none) <|> (some (f (d :: s) k) <|> none)) <|> _) <|> _) = _
      rw [hd]
      rfl
  | case4 c s hc hn =>
    obtain rfl := beq_iff_eq.mp hn
    rfl
  | case5 c s hr hn ih =>
    rw [← ih (some c)]
    have hfinish : Cursor.atFinish ⟨b, c :: s⟩ = false := by
      simp [Cursor.atFinish, beq_eq_false_iff_ne.mp (Bool.eq_false_iff.mpr hn)]
    have hline : inLine c := by simpa [inLine] using hn
    show ((((if c == '\r' then _ else none) <|> ((if c == '\r' then _ else none) <|>
      if c == '\n' then _ else none)) <|> if Cursor.atFinish ⟨b, c :: s⟩ then _ else none) <|>
        if inLine c then _ else none) = _
    rw [if_neg hr, if_neg hr, if_neg hn, hfinish, hline]
    rfl

theorem behindLine_semicolon (s : List Char) : behindLine (s ++ [';']) = behindLine s ++ [';'] ∨
    behindLine s = [] ∧ behindLine (s ++ [';']) = [] := by
  induction s with
  | nil => exact .inr ⟨rfl, rfl⟩
  | cons c s ih =>
    rw [cons_append, behindLine, behindLine]
    split
    · refine .inl ?_
      cases s with
      | nil => rfl
      | cons d s =>
        rw [cons_append, head?_cons, head?_cons, tail_cons, tail_cons]
        split <;> rfl
    · split
      · exact .inl rfl
      · exact ih

theorem commentRule_token? {w : List Char} (hw : w = ['-', '-'] ∨ w = ['#', ' ']) (b : Option Char)
    (s : List Char) : commentRule.token? b (w ++ s) =
      some ⟨.lineComment, pieceBefore (behindLine s) (w ++ s)⟩ := by
  have hrun := run_line w.getLast? s [] fun rest => Match.mk 0 (pieceBefore rest (w ++ s)) rest
  have hmatch : commentRule.pattern.matchAt? 0 b (w ++ s) =
      some ⟨0, pieceBefore (behindLine s) (w ++ s), behindLine s, []⟩ := by
    rw [← hrun]
    rcases hw with rfl | rfl
    · show ((few inLine ++ (lineEnd <|> finish)).run ⟨some '-', s⟩ [] _ <|> none) = _
      rw [orElse_eq_orElse, orElse_eq_or, or_none]
      rfl
    · rfl
  exact token?_of_match hmatch (text_ne_nil_of_least (by decide) hmatch)

/-- **A line comment** ends at the same line end, or it takes the semicolon. -/
theorem commentRule_semicolon (b : Option Char) (s : List Char) : commentRule.Agrees b s ∨
    (commentRule.token? b s = some ⟨.lineComment, s⟩ ∧
      commentRule.token? b (s ++ [';']) = some ⟨.lineComment, s ++ [';']⟩) := by
  by_cases hs : ∃ y, (exactly "--" <|> exactly "# ").Spans ⟨b, s⟩ y
  · obtain ⟨w, t, hw, rfl⟩ : ∃ w t, (w = ['-', '-'] ∨ w = ['#', ' ']) ∧ s = w ++ t := by
      obtain ⟨y, h | h⟩ := hs
      · exact ⟨_, _, .inl rfl, exists_of_spans_exactly h⟩
      · exact ⟨_, _, .inr rfl, exists_of_spans_exactly h⟩
    have hright := commentRule_token? hw b (t ++ [';'])
    rw [← append_assoc] at hright
    rw [Rule.Agrees, hright, commentRule_token? hw b t]
    rcases behindLine_semicolon t with h | ⟨h, h'⟩
    · left
      rw [h, pieceBefore_ending]
      rfl
    · right
      have hall : ∀ u : List Char, pieceBefore [] u = u := fun u => take_length
      rw [h, h', hall, hall]
      exact ⟨rfl, rfl⟩
  · left
    have hnone : ∀ {s : List Char}, (¬ ∃ y, (exactly "--" <|> exactly "# ").Spans ⟨b, s⟩ y) →
        commentRule.token? b s = none := by
      intro s hs
      rw [eq_none_iff_forall_ne_some]
      intro t ht
      obtain ⟨y, ⟨x, ⟨z, hz, -⟩, -⟩, -⟩ := Rule.spans_of_token? ht
      exact hs ⟨z, hz⟩
    rw [Rule.Agrees, hnone hs, hnone]
    rintro ⟨y, hy⟩
    exact hs (spans_of_semicolon (by decide) (by decide) hy)

/-! ### The next token -/

section

variable {b : Option Char} {s : List Char}

theorem agrees_leadingRules (hcomment : commentRule.Agrees b s) : ∀ r ∈ leadingRules, r.Agrees b s := by
  have hoff : ∀ r ∈ leadingRules.drop 2, r.pattern.holdsOff ';' := by decide
  have hblock : Settles s [] [';'] (exactly "/*" ++ few anyChar ++ exactly "*/") :=
    settles_closing (by decide) (by decide) (by decide)
  exact forall_mem_cons.mpr ⟨hcomment, forall_mem_cons.mpr
    ⟨Rule.agrees_of_settles hblock, fun r hr => Rule.agrees_of_holdsOff (hoff r hr)⟩⟩

theorem findSome?_semicolon {part : List Rule} (h : ∀ r ∈ part, r.Agrees b s) :
    part.findSome? (·.token? b (s ++ [';'])) = part.findSome? (·.token? b s) := by
  induction part with
  | nil => rfl
  | cons r part ih =>
    have hr : r.token? b (s ++ [';']) = r.token? b s := h r (by simp)
    rw [findSome?_cons, findSome?_cons, hr, ih (forall_mem_cons.mp h).2]

theorem getLast?_tag {m : Match} (h : tagPattern.matchAt? 0 b s = some m) : m.text.getLast? = some '$' := by
  obtain ⟨y, hy, -, hs⟩ := matchAt?_keeps h
  obtain ⟨x, hx, hend⟩ := hy.spans
  obtain ⟨z, hz, -⟩ := exists_of_spans_free (by decide) hx
  rw [show s = z ++ x.rest from hz, exists_of_spans_exactly hend, ← append_assoc] at hs
  rw [← append_cancel_right hs]
  simp

theorem tagged?_semicolon (b : Option Char) (s : List Char) : tagged? b (s ++ [';']) = tagged? b s := by
  have hview := view_semicolon (s := s) (settles_semicolon (p := tagPattern) (by decide)) b
  rw [tagged?, tagged?]
  split
  · rfl
  · cases hleft : tagPattern.matchAt? 0 b s with
    | none =>
      rw [hleft] at hview
      rw [map_eq_none_iff.mp hview]
    | some m =>
      rw [hleft] at hview
      obtain ⟨m', hright, hm⟩ := map_eq_some_iff.mp hview
      have htext : m'.text = m.text := congrArg (fun v => v.2.1) hm
      have hrest : m'.rest = m.rest ++ [';'] := by
        obtain ⟨y, -, hy, hs⟩ := matchAt?_keeps hleft
        obtain ⟨y', -, hy', hs'⟩ := matchAt?_keeps hright
        rw [hs, htext, append_assoc] at hs'
        rw [hy, hy', append_cancel_left hs']
      rw [hright]
      show (throughTag m'.text m'.rest).bind _ = (throughTag m.text m.rest).bind _
      rw [htext, hrest, throughTag_semicolon (getLast?_tag hleft)]

theorem wordPattern_semicolon (b : Option Char) (s : List Char) :
    ((wordPattern.matchAt? 0 b (s ++ [';'])).map fun m => mk (wordKind m.text) m.text) =
      (wordPattern.matchAt? 0 b s).map fun m => ⟨wordKind m.text, m.text⟩ := by
  have hview := view_semicolon (s := s) (settles_semicolon (p := wordPattern) (by decide)) b
  have hword : ∀ found : Option Match, (found.map fun m => mk (wordKind m.text) m.text) =
      (found.map view).map fun v => ⟨wordKind v.2.1, v.2.1⟩ := by
    intro found
    rw [Option.map_map]
    rfl
  rw [hword, hword, hview]

/-- **The next token** is the same with and without the semicolon, or it is a line comment up to the end. -/
theorem next_semicolon (b : Option Char) (hs : s ≠ []) : next b (s ++ [';']) = next b s ∨
    (next b s = ⟨.lineComment, s⟩ ∧ next b (s ++ [';']) = ⟨.lineComment, s ++ [';']⟩) := by
  rcases commentRule_semicolon b s with hcomment | ⟨hleft, hright⟩
  · left
    have htake : (s ++ [';']).take 1 = s.take 1 := by
      obtain ⟨c, s, rfl⟩ := exists_cons_of_ne_nil hs
      rfl
    rw [next, next, findSome?_semicolon (agrees_leadingRules hcomment),
      enclosed?_semicolon (by decide) _ _ hs, enclosed?_semicolon (by decide) _ _ hs,
      tagged?_semicolon, findSome?_semicolon agrees_wordRules, enclosed?_semicolon (by decide) _ _ hs,
      enclosed?_semicolon (by decide) _ _ hs, findSome?_semicolon agrees_phraseRules,
      wordPattern_semicolon, findSome?_semicolon (agrees_trailingRules hs), htake]
  · right
    have hnext : ∀ {t : List Char} {token : Token}, commentRule.token? b t = some token → next b t = token := by
      intro t token h
      have hleading : leadingRules.findSome? (·.token? b t) = some token := by
        rw [show leadingRules = commentRule :: leadingRules.tail from rfl, findSome?_cons, h]
      rw [next, hleading]
      rfl
    exact ⟨hnext hleft, hnext hright⟩

end

/-! ### All tokens -/

def semicolon : Token :=
  ⟨.punctuation, [';']⟩

theorem Rule.token?_nil (r : Rule) (b : Option Char) : r.token? b [] = none := by
  cases h : r.token? b [] with
  | none => rfl
  | some t =>
    obtain ⟨y, -, htext, -, hne⟩ := r.spans_of_token? h
    exact absurd (append_eq_nil_iff.mp htext.symm).1 hne

theorem next_lone_semicolon (b : Option Char) : next b [';'] = semicolon := by
  have hpart : ∀ {part : List Rule}, (∀ r ∈ part, r.Agrees b []) →
      part.findSome? (·.token? b [';']) = none := by
    intro part h
    rw [findSome?_eq_none_iff]
    intro r hr
    exact (h r hr).trans (r.token?_nil b)
  have hcomment : commentRule.Agrees b [] := by
    rcases commentRule_semicolon b [] with h | ⟨h, -⟩
    · exact h
    · cases h
  have htagged : tagged? b [';'] = none := by
    rw [← nil_append [';'], tagged?_semicolon, tagged?]
    split <;> rfl
  have hword : ((wordPattern.matchAt? 0 b [';']).map fun m => mk (wordKind m.text) m.text) = none :=
    wordPattern_semicolon b []
  have htrailing : trailingRules.findSome? (·.token? b [';']) = some semicolon := by
    have hmatch : (one fun c => ";:()[],.".contains c).matchAt? 0 b [';'] = some ⟨0, [';'], [], []⟩ := by
      simp [matchAt?, run, pieceBefore]
    have htoken := token?_of_match (k := .punctuation) hmatch (by simp)
    rw [trailingRules, findSome?_cons, htoken]
    rfl
  rw [next, hpart (agrees_leadingRules hcomment), htagged, hpart agrees_wordRules,
    hpart agrees_phraseRules, hword, htrailing]
  rfl

/-- Two lists of tokens, of which the second has a semicolon more: it stands at the end, or in the line
comment at the end. -/
inductive Ended : List Token → List Token → Prop
  | sign (ts : List Token) : Ended ts (ts ++ [semicolon])
  | comment (ts : List Token) {t t' : Token} (h : t.kind = .lineComment) (h' : t'.kind = .lineComment) :
    Ended (ts ++ [t]) (ts ++ [t'])

theorem Ended.cons (h : Ended ts ts') (t : Token) : Ended (t :: ts) (t :: ts') := by
  cases h with
  | sign => exact .sign (t :: ts)
  | comment ts h h' => exact .comment (t :: ts) h h'

theorem scan_semicolon {s : List Char} {b : Option Char} {skip : Nat} (hskip : skip ≤ s.length) :
    Ended (scan b skip s) (scan b skip (s ++ [';'])) := by
  induction s generalizing b skip with
  | nil =>
    obtain rfl : skip = 0 := Nat.le_zero.mp hskip
    have hlast : scan b 0 [';'] = [semicolon] := by
      rw [scan, next_lone_semicolon]
      rfl
    rw [nil_append, hlast]
    exact .sign []
  | cons c s ih =>
    cases skip with
    | succ skip => exact ih (Nat.le_of_succ_le_succ hskip)
    | zero =>
      rw [cons_append, scan, scan]
      rcases next_semicolon b (cons_ne_nil c s) with h | ⟨h, h'⟩
      · rw [cons_append] at h
        have hlength := (text_next b (cons_ne_nil c s)).2.length_le
        rw [length_cons] at hlength
        rw [h]
        exact (ih (by omega)).cons _
      · have hskip : ∀ u : List Char, scan (some c) u.length u = [] := by
          intro u
          have hu := scan_skip u (b := some c) (s := [])
          rwa [append_nil] at hu
        rw [cons_append] at h'
        rw [h, h']
        show Ended (_ :: scan (some c) s.length s) (_ :: scan (some c) (s ++ [';']).length (s ++ [';']))
        rw [hskip, hskip]
        exact .comment [] rfl rfl

theorem tokens_semicolon (s : List Char) : Ended (tokens s) (tokens (s ++ [';'])) :=
  scan_semicolon (Nat.zero_le _)

/-! ### The first statement -/

theorem takeWhile_append_of_not {p : Token → Bool} (ht : p t = false) (ts : List Token) :
    (ts ++ [t]).takeWhile p = ts.takeWhile p := by
  induction ts with
  | nil => simp [ht]
  | cons u ts ih => simp [takeWhile_cons, ih]

theorem takeWhile_concat_cases {p : Token → Bool} {t' : Token} (ht : p t) (ht' : p t')
    (ts : List Token) : (ts ++ [t']).takeWhile p = (ts ++ [t]).takeWhile p ∨
      ((ts ++ [t]).takeWhile p = ts ++ [t] ∧ (ts ++ [t']).takeWhile p = ts ++ [t']) := by
  induction ts with
  | nil => exact .inr (by simp [ht, ht'])
  | cons u ts ih =>
    by_cases hu : p u
    · simpa [takeWhile_cons, hu] using ih
    · exact .inl (by simp [hu])

/-- The semicolon comes into the first statement, or the statement has ended before. -/
theorem Ended.firstStatementFrom (h : Ended ts ts') (n : Nesting) :
    firstStatementFrom n ts' = firstStatementFrom n ts ∨
      Ended (firstStatementFrom n ts) (firstStatementFrom n ts') := by
  have hcons : ∀ {t : Token} {us us' : List Token}, us' = us ∨ Ended us us' →
      t :: us' = t :: us ∨ Ended (t :: us) (t :: us') := by
    intro t us us' h
    exact h.imp (congrArg _) fun h => h.cons t
  have hlone : ∀ (n : Nesting) (u : Token), Token.firstStatementFrom n [u] = [u] := by
    intro n u
    rw [Token.firstStatementFrom]
    split <;> rfl
  cases h with
  | sign =>
    induction ts generalizing n with
    | nil =>
      refine .inr ?_
      rw [nil_append, hlone]
      exact .sign []
    | cons t ts ih =>
      rw [cons_append, firstStatementFrom, firstStatementFrom]
      split
      · exact .inl (by rw [takeWhile_append_of_not (by decide)])
      · exact hcons (ih _)
  | comment pre ht ht' =>
    rename_i t t'
    have htrails : ∀ {u : Token}, u.kind = .lineComment → trails u := by
      intro u hu
      simp [trails, hu]
    induction pre generalizing n with
    | nil =>
      refine .inr ?_
      rw [nil_append, nil_append, hlone, hlone]
      exact .comment [] ht ht'
    | cons u pre ih =>
      rw [cons_append, cons_append, firstStatementFrom, firstStatementFrom]
      split
      · refine hcons ?_
        rcases takeWhile_concat_cases (htrails ht) (htrails ht') pre with h | ⟨h, h'⟩
        · exact .inl h
        · rw [h, h']
          exact .inr (.comment pre ht ht')
      · exact hcons (ih _)

/-- Tokens without the loose ones at their end. -/
def core (ts : List Token) : List Token :=
  ts.rdropWhile isLoose

theorem Ended.core (h : Ended ts ts') : core ts' = core ts := by
  cases h with
  | sign => exact rdropWhile_concat_pos _ _ _ (by decide)
  | comment ts h h' =>
    have hloose : ∀ {t : Token}, t.kind = .lineComment → t.isLoose := by
      intro t ht
      simp [isLoose, ht, Kind.isComment]
    rw [core, core, rdropWhile_concat_pos _ _ _ (hloose h), rdropWhile_concat_pos _ _ _ (hloose h')]

/-- **The first statement** has the same tokens, the loose ones at its end left aside. -/
theorem core_firstStatement (s : List Char) :
    core (firstStatement (tokens (s ++ [';']))) = core (firstStatement (tokens s)) := by
  rcases (tokens_semicolon s).firstStatementFrom .start with h | h
  · exact congrArg core h
  · exact h.core

/-! ### Loose tokens -/

/-- The text begins with a character that is no letter. -/
def Quiet (t : Token) : Prop :=
  ∃ c s, t.text = c :: s ∧ upperChar c = [c] ∧ c ∉ ['A', 'C', 'T']

theorem upperChar_of_isBlank (h : isBlank c) : upperChar c = [c] := by
  obtain ⟨n, hn, rfl⟩ := exists_blankCode h
  exact (by decide +kernel : ∀ n ∈ blankCodes, upperChar (Char.ofNat n) = [Char.ofNat n]) n hn

theorem head_of_isComment_next (h : (next b (c :: s)).kind.isComment) : c ∈ ['-', '#', '/'] := by
  rw [Kind.isComment, Bool.or_eq_true, beq_iff_eq, beq_iff_eq] at h
  rcases h with h | h
  · obtain ⟨y, x, ⟨z, hz | hz, -⟩, -⟩ := spans_of_next h (by decide) rfl
    all_goals
      have hstart := exists_of_spans_exactly hz
      obtain ⟨rfl, -⟩ := cons.inj hstart
      decide
  · obtain ⟨y, x, ⟨z, hz, -⟩, -⟩ := spans_of_next
      h (by decide) rfl
    have hstart := exists_of_spans_exactly hz
    obtain ⟨rfl, -⟩ := cons.inj hstart
    decide

theorem quiet_of_isLoose (ht : t ∈ tokens s) (h : t.isLoose) : t.Quiet := by
  obtain ⟨u, v, b, rfl, hv, rfl⟩ := exists_of_mem_scan ht
  obtain ⟨hne, w, hw⟩ := text_next b hv
  obtain ⟨c, r, hc⟩ := exists_cons_of_ne_nil hne
  rw [hc, cons_append] at hw
  subst hw
  refine ⟨c, r, hc, ?_⟩
  rw [isLoose, Bool.or_eq_true, Bool.or_eq_true] at h
  rcases h with (h | h) | h
  · have hblank := isBlank_of_isSpace_next h
    refine ⟨upperChar_of_isBlank hblank, ?_⟩
    have hletters : ∀ l ∈ ['A', 'C', 'T'], isBlank l = false := by decide
    intro hmem
    rw [hletters c hmem] at hblank
    cases hblank
  · have hmarks : ∀ c ∈ ['-', '#', '/'], upperChar c = [c] ∧ c ∉ ['A', 'C', 'T'] := by decide
    exact hmarks c (head_of_isComment_next h)
  · obtain ⟨t, ht⟩ := exists_of_isSign_next h
    rw [(cons.inj ht).1]
    decide

end SqlGateway.Sql.Token
