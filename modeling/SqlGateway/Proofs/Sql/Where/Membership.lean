import SqlGateway.Proofs.Sql.Where.Null

/-!
# Lists of members

The form with `IN` is looked for before the form with `NOT IN`, and the scan of the list never closes a
quote.  So **a list is kept iff all its members are numbers**, and `NOT IN` never excludes anything
(`simple?_membership`).
-/

namespace SqlGateway.Sql.Where

open Text Pattern List Numeral

variable {ms : List Member}

/-! ### Lists as they are written -/

/-- A member of a list: a number, or a text between quotes. -/
inductive Member where
  | number (n : Numeral)
  | quoted (s : List Char) (plain : ∀ c ∈ s, c ∉ ['\'', ')', '\n'])

namespace Member

def chars : Member → List Char
  | number n => n.chars
  | quoted s _ => quotedText s

def value : Member → Value
  | number n => .int n.value
  | quoted s _ => .text (String.ofList s)

def isNumber : Member → Bool
  | number _ => true
  | quoted _ _ => false

def isShort : Member → Bool
  | number n => n.digits.length ≤ 4300
  | quoted _ _ => false

theorem trimmed (m : Member) : m.chars ≠ [] ∧ strip m.chars = m.chars := by
  cases m with
  | number n => exact ⟨n.plainWord.ne_nil, strip_eq_self_of_solid n.plainWord.solid⟩
  | quoted s _ => exact ⟨cons_ne_nil _ _, strip_quoted s⟩

theorem not_mem (m : Member) : ')' ∉ m.chars ∧ '\n' ∉ m.chars := by
  cases m with
  | number n =>
    refine ⟨fun h => ?_, fun h => ?_⟩ <;> exact absurd (mem_heads_of_mem h) (by decide)
  | quoted s plain =>
    exact ⟨not_mem_quotedText (by decide) fun h => plain _ h (by decide),
      not_mem_quotedText (by decide) fun h => plain _ h (by decide)⟩

theorem operand_chars (n : Numeral) : operand (number n).chars = literal n.chars := by
  rw [operand, chars, trimLiteral_word n.plainWord.toWord]

end Member

def memberList (ms : List Member) : List Char :=
  commaList (ms.map Member.chars)

def inText (field : List Char) (ms : List Member) : List Char :=
  field ++ (" IN (" ++ (memberList ms ++ [')']))

def notInText (field : List Char) (ms : List Member) : List Char :=
  field ++ ' ' :: inText "NOT" ms

theorem strip_memberList (hne : ms ≠ []) : memberList ms ≠ [] ∧ strip (memberList ms) = memberList ms := by
  refine strip_commaList (by simpa using hne) fun s hs => ?_
  obtain ⟨m, -, rfl⟩ := mem_map.mp hs
  exact m.trimmed

theorem not_mem_memberList {c : Char} (hc : c = ')' ∨ c = '\n') (ms : List Member) : c ∉ memberList ms := by
  rcases hc with rfl | rfl
  · exact not_mem_commaList (by decide) (forall_mem_map.mpr fun m _ => m.not_mem.1)
  · exact not_mem_commaList (by decide) (forall_mem_map.mpr fun m _ => m.not_mem.2)

/-! ### The scan of the list -/

def listed (cut : Cut) : List (List Char) :=
  cut.pieces ++ if cut.ending.divides then [cut.last] else []

theorem members_open (q : Char) (d : Int) (current s : List Char) :
    listed (cutCommas .stepOpenEnded ⟨some q, d⟩ current s) = [] := by
  have hpass : cutCommas .stepOpenEnded ⟨some q, d⟩ current (s ++ []) =
      cutCommas .stepOpenEnded ⟨some q, d⟩ (s.reverse ++ current) [] :=
    cutCommas_pass [] (fun c _ => ⟨by simp [Nesting.divides], by simp [Nesting.stepOpenEnded]⟩) current
  rw [append_nil] at hpass
  rw [hpass]
  rfl

theorem cutCommas_number (n : Numeral) (current rest : List Char) :
    cutCommas .stepOpenEnded .top current (n.chars ++ rest) =
      cutCommas .stepOpenEnded .top (n.chars.reverse ++ current) rest := by
  refine cutCommas_pass rest (fun c hc => ?_) current
  exact (by decide : ∀ c ∈ heads, (c == ',' && Nesting.top.divides) = false ∧
    Nesting.top.stepOpenEnded c = .top) c (mem_heads_of_mem hc)

/-- The scan behind some blanks finds the members up to the first quoted one. -/
theorem members_commaList {ms : List Member} (hne : ms ≠ []) (blanks : List Char)
    (hblanks : ∀ c ∈ blanks, isBlank c) : listed (cutCommas .stepOpenEnded .top blanks (memberList ms)) =
      (ms.takeWhile Member.isNumber).map Member.chars := by
  induction ms generalizing blanks with
  | nil => exact absurd rfl hne
  | cons m ms ih =>
    cases m with
    | quoted s plain =>
      -- the first character opens the quote
      obtain ⟨t, ht⟩ : ∃ t, memberList (.quoted s plain :: ms) = '\'' :: t := by
        cases ms <;> exact ⟨_, rfl⟩
      rw [ht]
      exact members_open '\'' 0 ('\'' :: blanks) t
    | number n =>
      have hpiece : strip (n.chars.reverse ++ blanks).reverse = n.chars := by
        rw [reverse_append, reverse_reverse, strip_blanks_append (fun c hc => hblanks c (mem_reverse.mp hc))]
        exact (Member.number n).trimmed.2
      rw [takeWhile_cons_of_pos rfl, map_cons]
      cases ms with
      | nil =>
        have hscan := cutCommas_number n blanks []
        rw [append_nil] at hscan
        show listed (cutCommas _ _ _ n.chars) = _
        rw [hscan, cutCommas, hpiece]
        rfl
      | cons m ms =>
        have htext : memberList (.number n :: m :: ms) = n.chars ++ ',' :: ' ' :: memberList (m :: ms) := rfl
        have hrest := ih (cons_ne_nil m ms) [' '] (by simp)
        rw [← hrest, htext, cutCommas_number, cutCommas, if_pos (by decide), hpiece]
        rfl

/-- **The members up to the first quoted one are found.** -/
theorem splitMembers_commaList (hne : ms ≠ []) :
    splitMembers (memberList ms) = (ms.takeWhile Member.isNumber).map Member.chars := by
  have hempty : (memberList ms).isEmpty = false := by
    simpa using (strip_memberList hne).1
  rw [← members_commaList hne [] (by simp), splitMembers, hempty]
  rfl

/-- What is read of a list: the numbers before the first quoted text. -/
def leading (ms : List Member) : List Value :=
  (ms.takeWhile Member.isNumber).map fun m => literal m.chars

theorem operands_memberList (hne : ms ≠ []) : operands (memberList ms) = .list (leading ms) := by
  rw [operands, (strip_memberList hne).2, splitMembers_commaList hne, map_map, leading]
  refine congrArg Value.list (map_congr_left fun m hm => ?_)
  cases m with
  | number n => exact Member.operand_chars n
  | quoted s plain => exact absurd (mem_takeWhile_imp hm) (by simp [Member.isNumber])

theorem leading_eq_iff : leading ms = ms.map Member.value ↔ ∀ m ∈ ms, m.isShort := by
  induction ms with
  | nil => simp [leading]
  | cons m ms ih =>
    cases m with
    | quoted s plain => simp [leading, Member.isNumber, Member.isShort]
    | number n =>
      have hread : literal n.chars = .int n.value ↔ n.digits.length ≤ 4300 := by
        rw [literal_numeral]
        split <;> simp <;> omega
      rw [leading] at ih
      rw [leading, takeWhile_cons_of_pos rfl, map_cons, map_cons, cons.injEq, ih, forall_mem_cons]
      exact and_congr_left fun _ => by simpa [Member.isShort, Member.chars, Member.value] using hread

/-! ### The form that is found -/

theorem inPattern_prefers {field : List Char} (hne : field ≠ [])
    (hfield : ∀ c ∈ field, isFieldChar c) (ms : List Member) :
    ∃ kept, inPattern.Prefers (inText field ms) [] [] kept ∧
      kept.lookup "field" = some ⟨inText field ms, " IN (" ++ (memberList ms ++ [')'])⟩ ∧
      kept.lookup "values" = some ⟨memberList ms ++ [')'], [')']⟩ := by
  have hname := (prefers_many1 (r := " IN (" ++ (memberList ms ++ [')']))
    hne hfield (by rintro d ⟨⟩; decide) []).keep "field"
  have hspace := hname.append (prefers_many1 (p := isBlank) (s := [' '])
    (by simp) (by simp) (by rintro d ⟨⟩; decide) _)
  have hin := hspace.append (prefers_lit (w := "IN") (s := "IN") (by decide)
    (" (" ++ (memberList ms ++ [')'])) _)
  have hgap := hin.append (prefers_many1 (p := isBlank) (s := [' '])
    (by simp) (by simp) (by rintro d ⟨⟩; decide) _)
  have hopen := hgap.append (prefers_exactly "(" (memberList ms ++ [')']) _)
  refine ⟨_, prefers_few "values" hopen (fun c hc => ?_) (fun u₁ u₂ hsplit hne b y h => ?_)
    (prefers_exactly ")" [] _), rfl, rfl⟩
  · have hnewline : c ≠ '\n' := by
      rintro rfl
      exact not_mem_memberList (.inr rfl) ms hc
    simpa [inLine] using hnewline
  · -- the list holds no closing parenthesis
    obtain ⟨c, u₂, rfl⟩ := exists_cons_of_ne_nil hne
    have hrest := exists_of_spans_exactly h
    have hc : c = ')' := (cons.inj hrest).1
    refine not_mem_memberList (.inl rfl) ms ?_
    rw [hsplit, hc]
    simp

theorem find?_list {u field : List Char} (hne : field ≠ [])
    (hfield : ∀ c ∈ field, isFieldChar c) (ms : List Member)
    (hu : inPattern.Absent u (inText field ms)) :
    ∃ m, inPattern.find? (u ++ inText field ms) = some m ∧ m.get "field" = field ∧
      m.get "values" = memberList ms := by
  obtain ⟨kept, hprefers, hname, hvalues⟩ := inPattern_prefers hne hfield ms
  refine ⟨_, hprefers.find? hu, ?_, ?_⟩
  · rw [Match.get, Match.get?, hname]
    exact pieceBefore_append field _
  · rw [Match.get, Match.get?, hvalues]
    exact pieceBefore_append (memberList ms) _

theorem exists_of_spans_opening {K : String} {b : Option Char} {v : List Char} {y : Cursor}
    (h : (field ++ space ++ lit K).Spans ⟨b, v⟩ y) :
    ∃ g c bs w r, v = g ++ c :: (bs ++ (w ++ r)) ∧ (∀ d ∈ g, isFieldChar d) ∧
      isBlank c ∧ (∀ d ∈ bs, isBlank d) ∧ spells K w := by
  obtain ⟨z, hz, hlit⟩ := spans_append.mp h
  obtain ⟨z', hfield, hspace⟩ := spans_append.mp hz
  obtain ⟨g, -, hg, hv⟩ := exists_of_spans_many1 hfield
  obtain ⟨bs, hne, hblank, hz'⟩ := exists_of_spans_many1 hspace
  obtain ⟨w, hw, hrest⟩ := exists_of_spans_lit hlit
  obtain ⟨c, bs, rfl⟩ := exists_cons_of_ne_nil hne
  rw [forall_mem_cons] at hblank
  refine ⟨g, c, bs, w, y.rest, ?_, hg, hblank.1, hblank.2, hw⟩
  rw [show v = g ++ z'.rest from hv, hz', hrest, cons_append]

section

variable (f : Identifier) (ms : List Member)

theorem find?_inText : ∃ m, inPattern.find? (inText f.chars ms) = some m ∧
    m.get "field" = f.chars ∧ m.get "values" = memberList ms := by
  have hfield : ∀ c ∈ f.chars, isFieldChar c := by
    intro c hc
    rw [isFieldChar, f.isWord_of_mem hc, Bool.true_or]
  exact find?_list f.ne_nil hfield ms absent_nil

/-- **`NOT IN` is found as `IN`**, with `NOT` for the field. -/
theorem find?_notInText : ∃ m, inPattern.find? (notInText f.chars ms) = some m ∧
    m.get "field" = "NOT" ∧ m.get "values" = memberList ms := by
  have htext : notInText f.chars ms = (f.chars ++ [' ']) ++ inText "NOT" ms := by
    simp [notInText]
  rw [htext]
  refine find?_list (by decide) (by decide) ms fun u₁ u₂ hsplit hne b y h => ?_
  obtain ⟨_, ⟨_, ⟨_, ⟨_, hopening, -⟩, -⟩, -⟩, -⟩ := h
  obtain ⟨g, c, bs, w, r, hv, hg, hc, hbs, hw⟩ := exists_of_spans_opening hopening
  obtain ⟨a, e, rfl⟩ := (eq_nil_or_concat u₂).resolve_left hne
  rw [concat_eq_append, ← append_assoc, append_singleton_inj] at hsplit
  obtain ⟨hchars, rfl⟩ := hsplit
  have hwhole : f.chars ++ ' ' :: inText "NOT" ms = (u₁ ++ g) ++ c :: (bs ++ (w ++ r)) := by
    rw [append_assoc, ← hv, hchars]
    simp
  rcases eq_or_of_append_blank (fun _ hc => f.solid hc) hc hwhole with ⟨-, hrest⟩ | ⟨t, ht, -⟩
  · -- behind the field stands `NOT`, which does not begin as `IN` does
    cases bs with
    | cons d bs =>
      have hd := hbs d (by simp)
      rw [(cons.inj hrest).1] at hd
      exact absurd hd (by decide)
    | nil =>
      cases w with
      | nil => cases hw
      | cons d w =>
        rw [(cons.inj hrest).1] at hw
        cases hw
  · -- the field would reach over the space
    rw [hchars, append_assoc] at ht
    have hspace := hg ' ' (by rw [append_cancel_left ht]; simp)
    exact absurd hspace (by decide)

theorem find?_between_eq_none (h : ∀ m ∈ ms, m.isNumber) :
    betweenPattern.find? (inText f.chars ms) = none := by
  refine find?_eq_none fun u v b y huv hspans => ?_
  obtain ⟨_, ⟨_, ⟨_, ⟨_, ⟨_, ⟨_, ⟨_, hopening, -⟩, -⟩, -⟩, -⟩, -⟩, -⟩, -⟩ := hspans
  obtain ⟨g, c, bs, w, r, hv, -, hc, -, hw⟩ := exists_of_spans_opening hopening
  have hwhole : f.chars ++ ' ' :: ("IN (" ++ (memberList ms ++ [')'])) =
      (u ++ g) ++ c :: (bs ++ (w ++ r)) := by
    rw [append_assoc, ← hv, ← huv]
    rfl
  obtain ⟨d, hd, hletter⟩ := exists_mem_of_spells (l := 'B') hw (by decide)
  -- the keyword would stand behind the field and its space
  have hmem : d ∈ "IN (" ++ (memberList ms ++ [')']) := by
    rcases eq_or_of_append_blank (fun _ hc => f.solid hc) hc hwhole with ⟨-, hrest⟩ | ⟨t, -, hrest⟩
    · rw [← hrest]; simp [hd]
    · rw [hrest]; simp [hd]
  have hother : ∀ d ∈ "IN (), " ++ heads, sameLetter 'B' d = false := by decide
  have hplain : ∀ d ∈ "IN (" ++ (memberList ms ++ [')']), d ∈ "IN (), " ++ heads := by
    rw [forall_mem_append, forall_mem_append]
    refine ⟨by decide, forall_mem_commaList (by decide) (forall_mem_map.mpr fun m hm d hd => ?_), by decide⟩
    cases m with
    | number n => exact mem_append_right _ (mem_heads_of_mem hd)
    | quoted s plain => cases h _ hm
  rw [hother d (hplain d hmem)] at hletter
  cases hletter

/-! ### What is read -/

/-- The list is read for a field, unless `BETWEEN` is found in the text. -/
def ListRead (s : List Char) (field : String) (ms : List Member) : Prop :=
  if betweenPattern.occursIn s then
    ∃ g low high, simple? s = some (g, .doc [("$gte", low), ("$lte", high)])
  else simple? s = some (field, .doc [("$in", .list (leading ms))])

theorem listRead_of_found (hne : ms ≠ []) {s g : List Char} (t : List Char) (hs : s = f.chars ++ (t ++ [')']))
    (h : ∃ m, inPattern.find? s = some m ∧ m.get "field" = g ∧ m.get "values" = memberList ms) :
    ListRead s (String.ofList g) ms := by
  obtain ⟨m, hin, rfl, hvalues⟩ := h
  have hlast : endsWith [';'] s = false := endsWith_singleton (by simp [hs])
  have hbare : dropSemicolon (strip s) = s := by
    rw [hs, strip_append_append f.ne_nil f.trimmed (by simp) (by decide), ← hs, dropSemicolon, hlast]
    rfl
  unfold ListRead
  cases hbetween : betweenPattern.find? s with
  | none =>
    simp only [occursIn, simple?, hbare, hbetween, hin, hvalues, operands_memberList hne,
      Option.isSome_none, Bool.false_eq_true, if_false]
  | some m' =>
    simp only [occursIn, simple?, hbare, hbetween, Option.isSome_some, if_true]
    exact ⟨_, _, _, rfl⟩

end

/-- **Which lists are kept**: `f IN (…)` is read with all its values iff the members are numbers, none of more
than 4300 digits, and `f NOT IN (…)` is never read as an exclusion. -/
theorem simple?_membership (f : Identifier) {ms : List Member} (hne : ms ≠ []) :
    (simple? (inText f.chars ms) = some (f.name, .doc [("$in", .list (ms.map Member.value))]) ↔
      ∀ m ∈ ms, m.isShort = true) ∧ (∀ g v, simple? (notInText f.chars ms) ≠ some (g, .doc [("$nin", v)])) ∧
    (betweenPattern.occursIn (inText f.chars ms) = false →
      simple? (inText f.chars ms) = some (f.name, .doc [("$in", .list (leading ms))])) ∧
    (betweenPattern.occursIn (notInText f.chars ms) = false →
      simple? (notInText f.chars ms) = some ("NOT", .doc [("$in", .list (leading ms))])) := by
  have hin : ListRead (inText f.chars ms) f.name ms :=
    listRead_of_found f ms hne (" IN (".toList ++ memberList ms) (by simp [inText]) (find?_inText f ms)
  have hnotIn : ListRead (notInText f.chars ms) "NOT" ms :=
    listRead_of_found f ms hne (" NOT IN (".toList ++ memberList ms) (by simp [notInText, inText])
      (find?_notInText f ms)
  unfold ListRead at hin hnotIn
  refine ⟨⟨fun hread => ?_, fun hshort => ?_⟩, fun g v hread => ?_, fun h => ?_, fun h => ?_⟩
  · rw [hread] at hin
    split at hin
    · obtain ⟨g, low, high, hother⟩ := hin
      simp at hother
    · rw [← leading_eq_iff]
      simpa using hin.symm
  · have hnumber : ∀ m ∈ ms, m.isNumber := by
      intro m hm
      cases m with
      | number n => rfl
      | quoted s plain => cases hshort _ hm
    have hbetween : betweenPattern.occursIn (inText f.chars ms) = false := by
      rw [occursIn, find?_between_eq_none f ms hnumber]
      rfl
    rw [hbetween, if_neg (by simp), leading_eq_iff.mpr hshort] at hin
    exact hin
  · rw [hread] at hnotIn
    split at hnotIn
    · obtain ⟨_, _, _, hother⟩ := hnotIn
      simp at hother
    · simp at hnotIn
  · rwa [h, if_neg (by simp)] at hin
  · rwa [h, if_neg (by simp)] at hnotIn

/-- The quoted member is lost from the list, and with `NOT IN` also the field. -/
theorem simple?_membership_mixed : simple? "f IN (1, 'a, b')".toList ≠
      some ("f", .doc [("$in", .list [.int 1, .text "a, b"])]) ∧
    simple? "f IN (1, 'a, b')".toList = some ("f", .doc [("$in", .list [.int 1])]) ∧
    simple? "f NOT IN (1, 'a, b')".toList = some ("NOT", .doc [("$in", .list [.int 1])]) := by
  have h := simple?_membership ⟨['f'], by decide, by decide⟩
    (cons_ne_nil (.number ⟨.none, [1], by decide⟩) [.quoted "a, b".toList (by decide)])
  refine ⟨fun hread => ?_, h.2.2.1 (by decide), h.2.2.2 (by decide)⟩
  have hshort := h.1.mp hread
  simp [Member.isShort] at hshort

end SqlGateway.Sql.Where
