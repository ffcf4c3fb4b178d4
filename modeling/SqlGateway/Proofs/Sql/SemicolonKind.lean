import SqlGateway.Proofs.Sql.Node.Trail
import SqlGateway.Sql.StatementKind

/-!
# The kind of a statement with a semicolon

Up to the calls the passes leave a loose tail as it is (`Exact`), and from the conditions on they are
`Sound`.  So **the kind of a statement is the same with and without a semicolon**
(`statementKind?_semicolon`).
-/

namespace SqlGateway.Sql

open Text List Token

variable {j : Joint} {tail ns ms : List Node} {q : List Char}

namespace Node

/-! ### Passes up to the calls -/

theorem exact_enclose {kind : Kind} {opens closes : Node → Bool} (hkind : kind ≠ .comment) (hopens : Firm opens)
    (hcloses : Firm closes) : Exact (enclose kind opens closes) :=
  (exact_encloseFrom hkind fun _ h => ⟨hopens.loose h, hcloses.loose h⟩).everywhereBut kind

theorem exact_encloseWords {kind : Kind} (hkind : kind ≠ .comment) (opens : List String) (closes : String) :
    Exact (encloseWords kind opens closes) :=
  exact_enclose hkind (firm_any_isWord opens) (firm_isWord closes)

theorem exact_enclosures : Exact enclosures :=
  ((((((exact_enclose (by decide) (firm_isSign (by decide)) (firm_isSign (by decide))).comp
    (exact_enclose (by decide) (firm_isSign (by decide)) (firm_isSign (by decide)))).comp
    (exact_encloseWords (by decide) ["CASE"] "END")).comp (exact_encloseWords (by decide) ["IF"] "END IF")).comp
    (exact_encloseWords (by decide) ["FOR", "FOREACH"] "END LOOP")).comp
    (exact_encloseWords (by decide) ["BEGIN"] "END"))

theorem exact_windows : Exact windows :=
  (((firm_isWord "OVER").halts ((firm_isGroupOf (by decide)).or firm_isNaming)).exact .window
    false (by decide)).everywhereBut .window

theorem halts_call : Halts (fun n rest => n.isNaming && (firstSolid? rest).any (·.isGroupOf [.parens]))
    fun _ rest => countToSolid rest + if (firstSolid? (rest.drop (countToSolid rest))).any
      (·.isGroupOf [.window]) then countToSolid (rest.drop (countToSolid rest)) else 0 := by
  have hparens : Firm (isGroupOf [.parens]) := firm_isGroupOf (by decide)
  have hwindow : Firm (isGroupOf [.window]) := firm_isGroupOf (by decide)
  have hhalts := firm_isNaming.halts hparens
  refine ⟨hhalts.loose, hhalts.same, fun {n rest tail} htail h => ?_⟩
  obtain ⟨hsame, hle⟩ := hhalts.size htail h
  rw [hsame, drop_append_of_le_length hle, any_firstSolid? (fun _ => hwindow.loose) htail]
  split
  case isTrue hmore =>
    obtain ⟨hsame', hle'⟩ := countToSolid_of_any hmore tail
    rw [length_drop] at hle'
    rw [hsame']
    exact ⟨rfl, by omega⟩
  case isFalse => exact ⟨rfl, hle⟩

theorem exact_calls : Exact calls :=
  (halts_call.exact .call false (by decide)).ite.everywhereBut .call

theorem tidy_comments : Tidy comments :=
  tidy_gather_next fun _ _ _ => comment_of_test

/-! ### Passes from the conditions on -/

theorem sound_conditions : Sound conditions :=
  (sound_rebuildAll _ _).comp sound_condition

theorem sound_singleNames : Sound singleNames := by
  have hhalts : Halts (fun n _ => n.isPlainName) fun _ _ => 0 :=
    ⟨firm_isPlainName.loose, fun _ => rfl, fun _ _ => ⟨rfl, Nat.zero_le _⟩⟩
  exact (hhalts.sound (by decide) (fun n _ => firm_isPlainName.flat n) fun _ _ => rfl).everywhereBut .named

theorem sound_directed : Sound directed :=
  sound_attach_directed.everywhereBut .named

theorem sound_bynames : Sound bynames :=
  (sound_rebuildAll _ _).comp
    (((firm_isGroupOf (by decide)).or (firm_isTokenOf (by decide))).sound_gather (firm_isGroupOf (by decide))
      (by decide) true)

theorem sound_alignComments : Sound alignComments :=
  (sound_rebuildAll _ _).comp sound_attach_comments

theorem Sound.join (h : Sound j.joinFlat) : Sound j.join :=
  h.everywhereBut j.kind

variable {p : Node → Bool}

theorem Joint.blunt_of_any (hkind : j.kind ≠ .comment) (hmiddle : Firm j.isMiddle)
    (hbefore : ∀ n, j.before (flat n) = j.before n) (hp : ∀ n, p (flat n) = p n)
    (hbehind : j.behind = Option.any p) (hreach : j.reach = countToSolid) : j.Blunt where
  kind := hkind
  middle := hmiddle
  before := hbefore
  behind next? := by
    rw [hbehind, Option.any_map]
    exact congrArg (Option.any · next?) (funext hp)
  reach_flat rest := by rw [hreach, countToSolid_flat]
  reach _ h := by
    rw [hbehind] at h
    rw [hreach]
    exact countToSolid_of_any h _

theorem Firm.sound_joinFlat (hp : Firm p) (hkind : j.kind ≠ .comment)
    (hmiddle : Firm j.isMiddle) (hbefore : ∀ n, j.before (Node.flat n) = j.before n)
    (hbehind : j.behind = Option.any p) (hreach : j.reach = countToSolid) : Sound j.joinFlat := by
  refine (Joint.blunt_of_any hkind hmiddle hbefore hp.flat hbehind hreach).sound (.inl fun m hm => ?_)
  rw [hbehind]
  exact hp.loose hm

theorem sound_dotted : Sound dotted.joinFlat := by
  refine Joint.Blunt.sound ⟨by decide, ?_, ?_, fun _ => rfl, ?_, ?_⟩ (.inl fun _ _ => rfl)
  · exact (firm_isSign (by decide)).or (firm_isOneOf (by decide) _)
  · exact firm_before_dotted.flat
  · intro rest
    simp only [dotted, firm_isLinked.any_flat, countToSolid_flat]
  · intro rest tail htail _
    simp only [dotted, any_firstSolid? (fun _ => firm_isLinked.loose) htail]
    split
    case isTrue h => exact countToSolid_of_any h tail
    case isFalse => exact ⟨rfl, Nat.zero_le _⟩

theorem sound_indexed : Sound indexed.joinFlat :=
  Joint.Blunt.sound ⟨by decide, firm_isGroupOf (by decide), firm_before_indexed.flat, fun _ => rfl, fun _ => rfl,
    fun _ _ => ⟨rfl, Nat.zero_le _⟩⟩ (.inl fun _ _ => rfl)

theorem sound_cast : Sound cast.joinFlat := by
  refine Joint.Blunt.sound ⟨by decide, firm_isSign (by decide), fun _ => rfl, ?_, countToSolid_flat, ?_⟩
    (.inr fun n hn => hn.2)
  · intro next?
    cases next? <;> rfl
  · intro rest tail _ h
    obtain ⟨n, hn⟩ := Option.isSome_iff_exists.mp h
    exact countToSolid_append hn tail

theorem sound_zoned : Sound zoned.joinFlat :=
  ((firm_isWord "AS").or (firm_isTokenOf (by decide))).sound_joinFlat (by decide)
    (firm_isTokenOf (p := (· == .zoneKeyword)) (by decide)) (fun _ => rfl) rfl rfl

theorem sound_typedText : Sound typedText.joinFlat :=
  (firm_isTokenOf (p := (· == .string)) (by decide)).sound_joinFlat (by decide)
    ((firm_isTokenOf (by decide)).or (firm_isWord _)) (fun _ => rfl) rfl rfl

theorem sound_typedUnit : Sound typedUnit.joinFlat :=
  (firm_any_isWord _).sound_joinFlat (by decide) (firm_isGroupOf (by decide)) (fun _ => rfl) rfl rfl

theorem sound_operations : Sound operations.joinFlat :=
  firm_isTerm.sound_joinFlat (by decide) (firm_isTokenOf (p := fun k => k == .operator || k == .wildcard)
    (by decide)) firm_isTerm.flat rfl rfl

theorem sound_comparisons : Sound comparisons.joinFlat :=
  (firm_isOperand.or firm_isNull).sound_joinFlat (by decide)
    (firm_isTokenOf (p := (· == .comparison)) (by decide)) (firm_isOperand.or firm_isNull).flat rfl rfl

theorem sound_renamed : Sound renamed.joinFlat := by
  refine Joint.Blunt.sound (Joint.blunt_of_any (p := fun n => !n.isTokenOf fun k => k == .dataKeyword ||
    k == .schemaKeyword || k == .withKeyword) (by decide) (firm_isWord "AS") ?_ ?_ rfl rfl)
    (.inr fun n hn => hn.1)
  · intro n
    simp only [renamed, firm_isNull.flat, isKeyword, isTokenOf_flat]
  · intro n
    simp only [isTokenOf_flat]

theorem sound_assignments : Sound assignments.joinFlat :=
  Joint.sound_of_calm (by decide) rfl

theorem sound_itemLists : Sound itemLists.joinFlat :=
  firm_isItem.sound_joinFlat (by decide) (firm_isSign (by decide)) firm_isItem.flat rfl rfl

/-! ### The rows of values -/

def behindRows (ns : List Node) : List Node :=
  (ns.reverse.takeWhile fun n => !n.isGroupOf [.parens]).reverse

theorem behindRows_append (htail : ∀ n ∈ tail, n.isLoose) (ns : List Node) :
    behindRows (ns ++ tail) = behindRows ns ++ tail := by
  have hparens : Firm (isGroupOf [.parens]) := firm_isGroupOf (by decide)
  rw [behindRows, behindRows, reverse_append, takeWhile_append_of_pos, reverse_append, reverse_reverse]
  intro n hn
  rw [hparens.loose (htail n (mem_reverse.mp hn))]
  rfl

theorem valueRows_eq (ns : List Node) : valueRows ns =
    let rest := ns.dropWhile fun n => !n.isWord "VALUES"
    if (rest.take (rest.length - (behindRows rest).length)).isEmpty then ns
    else (ns.takeWhile fun n => !n.isWord "VALUES") ++
      group .values (rest.take (rest.length - (behindRows rest).length)) :: behindRows rest := by
  simp only [valueRows, span_eq_takeWhile_dropWhile]
  rfl

theorem blind_valueRows : Blind valueRows := by
  have hvalues : (fun n : Node => !n.isWord "VALUES") ∘ flat = fun n => !n.isWord "VALUES" :=
    funext fun n => congrArg (!·) (isWord_flat n _)
  have hparens : (fun n : Node => !n.isGroupOf [.parens]) ∘ flat = fun n => !n.isGroupOf [.parens] :=
    funext fun n => congrArg (!·) (isGroupOf_flat _ n)
  have hbehind : ∀ ns : List Node, behindRows (ns.map flat) = (behindRows ns).map flat := by
    intro ns
    rw [behindRows, behindRows, ← map_reverse, takeWhile_map, hparens, map_reverse]
  intro ns
  simp only [valueRows_eq, dropWhile_map, takeWhile_map, hvalues, hbehind, length_map, ← map_take, isEmpty_map]
  split
  · rw [map_map, flat_comp_flat]
  · simp only [map_append, map_cons, map_map, flat_comp_flat, flat_group]

theorem valueRows_append (htail : ∀ n ∈ tail, n.isLoose) (ns : List Node) :
    valueRows (ns ++ tail) = valueRows ns ++ tail := by
  rw [valueRows_eq, valueRows_eq]
  by_cases hvalues : ∃ n ∈ ns, (!n.isWord "VALUES") = false
  · obtain ⟨n, hn, hvalues⟩ := hvalues
    obtain ⟨hsame, -⟩ := takeWhile_append_of_mem (p := fun n => !n.isWord "VALUES") (t := tail) hn hvalues
    have hdrop := dropWhile_append_of_mem (p := fun n => !n.isWord "VALUES") (t := tail) hn hvalues
    simp only [hsame, hdrop, behindRows_append htail, length_append, Nat.add_sub_add_right]
    generalize ns.dropWhile (fun n => !n.isWord "VALUES") = rest
    rw [take_append_of_le_length (Nat.sub_le _ _)]
    split
    · rfl
    · rw [append_assoc, cons_append]
  · have hnone : ∀ n ∈ ns ++ tail, (!n.isWord "VALUES") := by
      intro n hn
      rcases mem_append.mp hn with hn | hn
      · rw [← Bool.not_eq_false]
        exact fun hno => hvalues ⟨n, hn, hno⟩
      · rw [(firm_isWord "VALUES").loose (htail n hn)]
        rfl
    have hns : ns.dropWhile (fun n => !n.isWord "VALUES") = [] :=
      dropWhile_eq_nil_iff.mpr fun n hn => hnone n (by simp [hn])
    simp only [hns, dropWhile_eq_nil_iff.mpr hnone, take_nil, isEmpty_nil, if_true]

theorem trails_valueRows (h : Trails ns ms) : Trails (valueRows ns) (valueRows ms) := by
  obtain ⟨tail, htail, hflat⟩ := h
  refine ⟨tail, htail, ?_⟩
  rw [← blind_valueRows ms, hflat, blind_valueRows, valueRows_append htail]

/-! ### The outline -/

/-- The outline comes from the tokens by a pass that leaves the tail, one that is sound, and the last. -/
theorem exists_sound_outline : ∃ f g, Exact f ∧ Sound g ∧
    ∀ ts : List Token, outline ts = valueRows (g (f (comments (ts.map token)))) := by
  have hexact := (exact_enclosures.comp exact_windows).comp exact_calls
  have hindexed := (sound_conditions.comp sound_dotted.join).comp sound_indexed
  have hnames := (hindexed.comp sound_singleNames).comp sound_directed
  have htyped := (((hnames.comp sound_cast.join).comp sound_zoned.join).comp sound_typedText.join).comp
    sound_typedUnit.join
  have hcompared := ((htyped.comp sound_operations.join).comp sound_comparisons.join).comp sound_renamed.join
  have hassigned := (hcompared.comp sound_bynames).comp sound_assignments.join
  have hlisted := (hassigned.comp sound_alignComments).comp sound_itemLists.join
  exact ⟨_, _, hexact, hlisted, fun _ => rfl⟩

/-- **The outline of tokens with a loose tail** has a loose tail. -/
theorem trails_outline {ts tail : List Token} (hts : Fit (ts.map token))
    (htail : ∀ t ∈ tail, t.isLoose ∧ t.Quiet) : Trails (outline ts) (outline (ts ++ tail)) := by
  obtain ⟨f, g, hexact, hsound, houtline⟩ := exists_sound_outline
  have htrailing := trailing_comments htail
  have htrails : Trails (f (comments (ts.map token))) (f (comments ((ts ++ tail).map token))) := by
    rw [map_append, comments_append hts.solid, hexact.append htrailing]
    exact trails_append fun n hn => (htrailing n hn).isLoose
  rw [houtline, houtline]
  exact trails_valueRows (hsound.trails (hexact.tidy.fit (tidy_comments.fit hts)) htrails)

end Node

/-! ### The kind -/

open Node (Trails)

theorem kindBehind_flat (ns : List Node) : kindBehind (ns.map Node.flat) = kindBehind ns := by
  induction ns using kindBehind.induct with
  | case1 => rfl
  | case2 n => rfl
  | case3 n rest hn t ht =>
    simp only [map_cons, Node.flat_token, kindBehind, Node.isGroupOf_flat, hn, ht, if_true]
  | case4 n rest hn t ht ih =>
    simp only [map_cons, Node.flat_token, kindBehind, Node.isGroupOf_flat, hn, if_true, if_neg ht, ih]
  | case5 n rest hn kind inside ih =>
    simp only [map_cons, Node.flat_group, kindBehind, Node.isGroupOf_flat, hn, if_true, ih]
  | case6 n next rest hn ih =>
    rw [map_cons] at ih
    simp only [map_cons, kindBehind, Node.isGroupOf_flat, if_neg hn, ih]

theorem kindBehind_loose (h : ∀ n ∈ ns, n.isLoose) : kindBehind ns = none := by
  have hnamed : Node.Firm (Node.isGroupOf [.named, .items]) := Node.firm_isGroupOf (by decide)
  induction ns using kindBehind.induct with
  | case1 => rfl
  | case2 n => rfl
  | case3 n rest hn | case4 n rest hn | case5 n rest hn =>
    rw [hnamed.loose (h n (by simp))] at hn
    cases hn
  | case6 n next rest hn ih =>
    simp only [kindBehind, if_neg hn]
    exact ih fun m hm => h m (mem_cons_of_mem n hm)

theorem kindBehind_append (htail : ∀ n ∈ tail, n.isLoose) (ns : List Node) :
    kindBehind (ns ++ tail) = kindBehind ns := by
  induction ns using kindBehind.induct with
  | case1 => exact kindBehind_loose htail
  | case2 n =>
    cases tail with
    | nil => rfl
    | cons m tail =>
      have hrest : kindBehind tail = none := kindBehind_loose fun x hx => htail x (by simp [hx])
      have hm := Node.isTokenOf_of_isLoose (p := (· == .dataKeyword)) (by decide) (htail m (by simp))
      cases m with
      | token t =>
        simp only [cons_append, nil_append, kindBehind, show (t.kind == .dataKeyword) = false from hm,
          hrest, kindBehind_loose htail, Bool.false_eq_true, if_false, ite_self]
      | group =>
        simp only [cons_append, nil_append, kindBehind, hrest, kindBehind_loose htail, ite_self]
  | case3 n rest hn t ht =>
    simp only [cons_append, kindBehind, hn, ht, if_true]
  | case4 n rest hn t ht ih =>
    simp only [cons_append, kindBehind, hn, if_true, if_neg ht, ih]
  | case5 n rest hn kind inside ih =>
    simp only [cons_append, kindBehind, hn, if_true, ih]
  | case6 n next rest hn ih =>
    rw [cons_append] at ih
    simp only [cons_append, kindBehind, if_neg hn, ih]

theorem kindOf_flat (ns : List Node) : kindOf (ns.map Node.flat) = kindOf ns := by
  have hspace : (fun n : Node => !n.isSpace) ∘ Node.flat = fun n => !n.isSpace :=
    funext fun n => congrArg (!·) (Node.isSpace_flat n)
  have hcomment : Node.isComment ∘ Node.flat = Node.isComment := by
    funext n
    rw [Function.comp_apply, Node.isComment, Node.isComment, Node.isTokenOf_flat, Node.isGroupOf_flat]
  rw [kindOf, kindOf, filter_map, hspace, dropWhile_map, hcomment]
  cases (ns.filter fun n => !n.isSpace).dropWhile Node.isComment with
  | nil => rfl
  | cons n rest =>
    cases n with
    | token t => simp only [map_cons, Node.flat_token, kindBehind_flat]
    | group => rfl

theorem kindOf_append (htail : ∀ n ∈ tail, n.isLoose) (ns : List Node) :
    kindOf (ns ++ tail) = kindOf ns := by
  have hsolid : ∀ n ∈ tail.filter fun n => !n.isSpace, n.isLoose :=
    fun n hn => htail n (mem_filter.mp hn).1
  rw [kindOf, kindOf, filter_append, dropWhile_append]
  generalize (tail.filter fun n => !n.isSpace) = tail at hsolid
  cases (ns.filter fun n => !n.isSpace).dropWhile Node.isComment with
  | nil =>
    simp only [isEmpty_nil, if_true]
    cases hrest : tail.dropWhile Node.isComment with
    | nil => rfl
    | cons m rest =>
      have hm : m.isLoose := hsolid m ((dropWhile_sublist _).mem (hrest ▸ mem_cons_self))
      cases m with
      | group => rfl
      | token t =>
        have hkind := Node.isTokenOf_of_isLoose (p := fun k => k == .dataKeyword || k == .schemaKeyword ||
          k == .withKeyword) (by decide) hm
        simp only [Node.isTokenOf, Node.isToken, Bool.or_eq_false_iff] at hkind
        simp only [hkind, Bool.or_self, Bool.false_eq_true, if_false]
  | cons n rest =>
    cases n with
    | group => rfl
    | token t =>
      simp only [isEmpty_cons, Bool.false_eq_true, if_false, cons_append, kindBehind_append hsolid]

theorem kindOf_trails (h : Trails ns ms) : kindOf ms = kindOf ns := by
  obtain ⟨tail, htail, hflat⟩ := h
  rw [← kindOf_flat ms, hflat, kindOf_flat, kindOf_append htail]

/-! ### Texts -/

namespace Token

theorem exists_core (ts : List Token) : ∃ tail, ts = core ts ++ tail ∧ ∀ t ∈ tail, t.isLoose :=
  ⟨ts.rtakeWhile isLoose, rdropWhile_append_rtakeWhile.symm, fun _ ht => mem_rtakeWhile_imp ht⟩

theorem not_isLoose_core {ts : List Token} {t : Token} (h : (core ts).getLast? = some t) :
    t.isLoose = false := by
  have hne : core ts ≠ [] := by
    intro hnil
    rw [hnil] at h
    cases h
  rw [getLast?_eq_some_getLast hne] at h
  rw [← Option.some.inj h]
  exact Bool.eq_false_iff.mpr (rdropWhile_last_not isLoose ts hne)

/-- The tokens of the first statement of a text, without the loose ones at its end. -/
def coreOf (q : List Char) : List Token :=
  core (firstStatement (tokens q))

theorem mem_of_mem_coreOf {t : Token} (h : t ∈ coreOf q) : t ∈ tokens q :=
  mem_of_mem_firstStatement (( rdropWhile_prefix _ _).subset h)

end Token

/-- A text that does not break off behind `AS` or `::`, and in which there is no assignment. -/
structure Complete (q : List Char) : Prop where
  complete : ∀ t ∈ (coreOf q).getLast?, t.isReserved "AS" = false ∧ t.isSign "::" = false
  calm : ∀ t ∈ tokens q, t.kind ≠ .assignment

theorem Complete.fit (h : Complete q) : Node.Fit ((coreOf q).map Node.token) where
  solid n hn := by
    rw [getLast?_map] at hn
    obtain ⟨t, ht, rfl⟩ := Option.map_eq_some_iff.mp hn
    show (t.isLoose || false) = false
    rw [not_isLoose_core ht]
    rfl
  complete n hn := by
    rw [getLast?_map] at hn
    obtain ⟨t, ht, rfl⟩ := Option.map_eq_some_iff.mp hn
    exact h.complete t ht
  calm t ht := by
    obtain ⟨u, hu, hsame⟩ := mem_map.mp ht
    rw [← Node.token.inj hsame]
    exact h.calm u (mem_of_mem_coreOf hu)

theorem kindOf_coreOf {s : List Char} (h : Complete q) (hs : coreOf s = coreOf q) :
    kindOf (Node.ofText s) = kindOf (Node.outline (coreOf q)) := by
  obtain ⟨tail, hsplit, htail⟩ := exists_core (firstStatement (tokens s))
  have hquiet : ∀ t ∈ tail, t.isLoose ∧ t.Quiet := by
    intro t ht
    have hmem : t ∈ firstStatement (tokens s) := by
      rw [hsplit]
      exact mem_append_right _ ht
    exact ⟨htail t ht, quiet_of_isLoose (mem_of_mem_firstStatement hmem) (htail t ht)⟩
  rw [Node.ofText, hsplit, show core _ = coreOf q from hs]
  exact kindOf_trails (Node.trails_outline h.fit hquiet)

/-- **The kind of a statement** is the same with and without a semicolon. -/
theorem statementKind?_semicolon (hq : Unended q) (hne : q ≠ []) (h : Complete q) :
    statementKind? (q ++ [';']) = statementKind? q := by
  have hq' : ¬ q.all isBlank := by
    intro hblank
    exact hne (hq.eq_nil_of_blank (all_eq_true.mp hblank))
  have hsign : ¬ (q ++ [';']).all isBlank := by
    intro hblank
    exact absurd (all_eq_true.mp hblank ';' (by simp)) (by decide)
  rw [statementKind?, statementKind?, if_neg hsign, if_neg hq',
    kindOf_coreOf h (core_firstStatement q), kindOf_coreOf h rfl]

end SqlGateway.Sql
