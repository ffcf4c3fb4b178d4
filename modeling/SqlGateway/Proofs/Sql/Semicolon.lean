import SqlGateway.Proofs.Text.Semicolon
import SqlGateway.Proofs.Text.Words
import SqlGateway.Statement

/-!
# Reading a statement with a semicolon

A statement that is not ended yet (`Unended`) is read with a semicolon behind it.  Every clause has an end of
its own, and most take the semicolon for the end.
-/

namespace SqlGateway.Sql

open Text Pattern List Where Join

/-! ### Searches in the text as it is -/

section

variable {s : List Char} {p p' e : Pattern}

theorem texts_find?_bare (hp : Closes s [] [';'] p) (hleast : 1 ≤ p.least) :
    (p.find? (s ++ [';'])).map (fun m => texts m.kept) = (p.find? s).map fun m => texts m.kept := by
  have hfound := texts_find? hp (misses_of_least (Nat.zero_le _)) (misses_of_least hleast)
  rw [append_nil] at hfound
  exact hfound.symm

theorem occursIn_bare (hp : Closes s [] [';'] p) (hleast : 1 ≤ p.least) :
    p.occursIn (s ++ [';']) = p.occursIn s := by
  have hfound := congrArg Option.isSome (texts_find?_bare hp hleast)
  rwa [Option.isSome_map, Option.isSome_map] at hfound

theorem closes_bare (hp : p.holdsOff ';') : Closes s [] [';'] p :=
  closes_of_holdsOff Semicolon.bare.endings (by simp) (by simpa using hp)

theorem closes_bare_append (hp : p.isSteady) (hp' : p'.holdsOff ';') (hleast : 1 ≤ p'.least) :
    Closes s [] [';'] (p ++ p') :=
  (closes_bare hp').append Semicolon.bare.endings (.inl (by simp))
    (.inr ⟨hp, Misses.fails (misses_of_least hleast)⟩)

theorem closes_assoc {r a b : List Char} (h : Closes r a b (p ++ (p' ++ e))) : Closes r a b (p ++ p' ++ e) :=
  h

theorem settles_assoc {r a b : List Char} (h : Settles r a b (p ++ (p' ++ e))) : Settles r a b (p ++ p' ++ e) :=
  h

theorem isSteady_foldr {f : Char → Pattern} (hf : ∀ c, (f c).isSteady) : ∀ w : List Char,
    (w.foldr (fun c p => f c ++ p) nothing).isSteady
  | [] => rfl
  | c :: w => by
    show ((f c).isSteady && _)
    rw [hf, isSteady_foldr hf w]
    rfl

theorem closes_clauseEnd {r a b : List Char} (hr : Unended r) (h : Semicolon a b) (ps : List Pattern)
    (hps : ∀ p ∈ ps, Closes r a b p) : Closes r a b (oneOf (ps ++ [gap ++ exactly ";", gap ++ finish])) := by
  induction ps with
  | nil => exact closes_ending hr h
  | cons p ps ih =>
    obtain ⟨p', ps', hcons⟩ : ∃ p' ps', ps ++ [gap ++ exactly ";", gap ++ finish] = p' :: ps' :=
      exists_cons_of_ne_nil (by simp)
    have hrest := ih fun p hp => hps p (by simp [hp])
    rw [cons_append, hcons, oneOf]
    · rw [← hcons]
      exact (hps p (by simp)).alt hrest
    · simp

theorem ends_clauseEnd {a b : List Char} (h : Semicolon a b) (ps : List Pattern) :
    Ends a (oneOf (ps ++ [gap ++ exactly ";", gap ++ finish])) ∧
      Ends b (oneOf (ps ++ [gap ++ exactly ";", gap ++ finish])) := by
  have hends : ∀ {t : List Char}, Ends t (alt (gap ++ exactly ";") (gap ++ finish)) →
      Ends t (oneOf (ps ++ [gap ++ exactly ";", gap ++ finish])) := by
    intro t ht c
    obtain ⟨y, hy | hy⟩ := ht c
    · exact ⟨y, spans_oneOf.mpr ⟨_, by simp, hy⟩⟩
    · exact ⟨y, spans_oneOf.mpr ⟨gap ++ finish, by simp, hy⟩⟩
  exact ⟨hends (ends_ending h).1, hends (ends_ending h).2⟩

end

/-! ### The words of a clause -/

theorem exists_of_takes_word {w : String} {v t : List Char} (h : (one isBlank ++ lit w).Takes v t) :
    ∃ c s, v = c :: s ∧ isBlank c ∧ spells w s := by
  obtain ⟨d, x, ⟨c, s, hx, hc, rfl⟩, hlit⟩ := h none
  obtain ⟨l, hl, hs⟩ := exists_of_spans_lit hlit
  have hv : v ++ t = c :: l ++ t := by
    rw [show v ++ t = c :: s from hx, show s = l ++ t from hs]
    rfl
  exact ⟨c, l, append_cancel_right hv, hc, hl⟩

theorem exists_of_spans_phrase {w w' : String} {x y : Cursor} (h : (phrase [w, w']).Spans x y) :
    ∃ s g s', x.rest = s ++ (g ++ (s' ++ y.rest)) ∧ spells w s ∧ IsGap g ∧
      spells w'.toList s' := by
  obtain ⟨z, ⟨z', hlit, hspace⟩, hlit'⟩ := h
  obtain ⟨s, hs, hx⟩ := exists_of_spans_lit hlit
  obtain ⟨g, hne, hg, hz'⟩ := exists_of_spans_many1 hspace
  obtain ⟨s', hs', hz⟩ := exists_of_spans_lit hlit'
  exact ⟨s, g, s', by rw [hx, hz', hz], hs, ⟨hne, hg⟩, hs'⟩

theorem exists_of_takes_phrase {w w' : String} {v t : List Char}
    (h : (one isBlank ++ phrase [w, w']).Takes v t) : ∃ c s g s', v = c :: (s ++ (g ++ s')) ∧
      isBlank c ∧ spells w s ∧ IsGap g ∧ spells w'.toList s' := by
  obtain ⟨d, x, ⟨c, r, hx, hc, rfl⟩, hphrase⟩ := h none
  obtain ⟨s, g, s', hr, hwords⟩ := exists_of_spans_phrase hphrase
  have hv : v ++ t = c :: (s ++ (g ++ s')) ++ t := by
    rw [show v ++ t = c :: r from hx, show r = s ++ (g ++ (s' ++ t)) from hr]
    simp
  exact ⟨c, s, g, s', append_cancel_right hv, hc, hwords⟩

theorem heading_where : Heading (one isBlank ++ lit "WHERE") where
  free := by decide
  plain := by decide
  steady := by decide
  sign := by decide
  nonempty := by decide
  alone {v z y} hv hzy hz := by
    obtain ⟨c, s, rfl, -, hs⟩ := exists_of_takes_word (hv [])
    obtain ⟨c', s', rfl, -, hs'⟩ := exists_of_takes_word (hz [])
    have hlength := hzy.length_le
    rw [length_append, length_cons, length_cons, spells_length hs, spells_length hs'] at hlength
    exact length_eq_zero_iff.mp (by omega)

theorem heading_orderBy : Heading (one isBlank ++ phrase ["ORDER", "BY"]) where
  free := by decide
  plain := by decide
  steady := by decide
  sign := by decide
  nonempty := by decide
  alone {v z y} hv hzy hz := by
    have hend : ∀ {c : Char} {s g s' y : List Char}, isBlank c → spells "ORDER" s →
        IsGap g → spells "BY" s' →
        behindBlanks (behindBlanks (c :: (s ++ (g ++ (s' ++ y))))) = s' ++ y := by
      intro c s g s' y hc hs hg hs'
      have hfirst : behindBlanks (c :: (s ++ (g ++ (s' ++ y)))) = s ++ (g ++ (s' ++ y)) :=
        behindBlanks_append (w := []) (g := [c]) (by simp) ⟨by simp, by simpa using hc⟩
          (IsKeyword.head? (by decide) hs _)
      rw [hfirst, behindBlanks_append (IsKeyword.solid (by decide) hs) hg (IsKeyword.head? (by decide) hs' _)]
    obtain ⟨c, s, g, s', rfl, hc, hs, hg, hs'⟩ := exists_of_takes_phrase (hv [])
    obtain ⟨d, l, f, l', rfl, hd, hl, hf, hl'⟩ := exists_of_takes_phrase (hz [])
    have hsuffix := behindBlanks_suffix (behindBlanks_suffix hzy)
    have hleft := hend (y := y) hd hl hf hl'
    have hright := hend (y := []) hc hs hg hs'
    rw [append_nil] at hright
    rw [cons_append, append_assoc, append_assoc, hleft, hright] at hsuffix
    have hlength := hsuffix.length_le
    rw [length_append, spells_length hs', spells_length hl'] at hlength
    exact length_eq_zero_iff.mp (by omega)

/-! ### Clauses of the padded text -/

section

variable {q r : List Char} {v w : Pattern}

theorem closes_padded_word (hspace : w.holdsOff ' ') (hsign : w.holdsOff ';')
    (hleast : 2 ≤ w.least) : Closes r [' '] [';', ' '] (space ++ w) :=
  closes_word Semicolon.padded rfl hspace hsign hleast

theorem closes_padded_phrase (hv : v.isSteady) (hspace : w.holdsOff ' ')
    (hsign : w.holdsOff ';') (hleast : 2 ≤ w.least) : Closes r [' '] [';', ' '] (space ++ (v ++ w)) := by
  refine closes_space Semicolon.padded (closes_word Semicolon.padded hv hspace hsign hleast) ?_
  show 1 ≤ v.least + w.least
  omega

theorem heading_padded_eq (hw : Heading w) (hr : Unended r) (ps : List Pattern)
    (hps : ∀ p ∈ ps, Closes r [' '] [';', ' '] p)
    (hplain : (oneOf (ps ++ [gap ++ exactly ";", gap ++ finish])).isPlain) :
    (((w ++ space ++ keep "clause" (few anyChar) ++ oneOf (ps ++ [gap ++ exactly ";", gap ++ finish])).find?
      (r ++ [' '])).map (·.get "clause")).getD [] =
    (((w ++ space ++ keep "clause" (few anyChar) ++ oneOf (ps ++ [gap ++ exactly ";", gap ++ finish])).find?
      (r ++ [';', ' '])).map (·.get "clause")).getD [] := by
  have hends := ends_clauseEnd Semicolon.padded ps
  exact hw.clause_eq hr ((closes_clauseEnd hr Semicolon.padded ps hps).few hends.1 hends.2 _ _) hplain
    (ends_clauseEnd Semicolon.bare ps).1

theorem closes_limitEnd (hr : Unended r) :
    Closes r [' '] [';', ' '] (oneOf [one isBlank, exactly ";", finish]) := by
  intro c y k k' hy hk
  cases y with
  | nil => exact congrArg some hk
  | cons d y =>
    have hopen := hr.of_suffix hy
    have hsign : d ≠ ';' := fun h => hopen.no_semicolon (by simp [h])
    have hfinish : ∀ t, Cursor.atFinish ⟨c, d :: (y ++ t)⟩ = false := fun t => not_atFinish hopen (by simp) c
    simp [oneOf, exactly, run, hfinish, hsign, hk, show ∀ a b : Pattern, a ++ b = seq a b from fun _ _ => rfl]

theorem filter_of_clause {q q' : List Char}
    (h : ((clausePattern.find? (padded q)).map (·.get "clause")).getD [] =
      ((Where.clausePattern.find? (Where.padded q')).map (·.get "clause")).getD []) :
    Where.filter q = Where.filter q' := by
  -- A statement without a clause is read like one with an empty clause.
  have hfilter : ∀ q, Where.filter q =
      (fun clause => if clause.isEmpty then [] else Where.addConditions clause []) (Where.dropSemicolon
        (strip (((Where.clausePattern.find? (Where.padded q)).map (·.get "clause")).getD []))) := by
    intro q
    rw [Where.filter, Where.clause?]
    cases Where.clausePattern.find? (Where.padded q) with
    | none => rfl
    | some m => rfl
  rw [hfilter, hfilter, h]

theorem order_of_clause {q q' : List Char}
    (h : ((OrderBy.clausePattern.find? (padded q)).map (·.get "clause")).getD [] =
      ((OrderBy.clausePattern.find? (padded q')).map (·.get "clause")).getD []) :
    OrderBy.read q = OrderBy.read q' := by
  have horder : ∀ q, OrderBy.read q = OrderBy.readKeys
      (strip (((OrderBy.clausePattern.find? (padded q)).map (·.get "clause")).getD [])) := by
    intro q
    rw [OrderBy.read]
    cases OrderBy.clausePattern.find? (padded q) with
    | none => rfl
    | some m => rfl
  rw [horder, horder, h]

variable (hq : Unended q)
include hq

theorem padded_semicolon : padded (q ++ [';']) = ' ' :: strip q ++ [';', ' '] := by
  rw [padded, hq.exists_strip.1]
  simp

variable (hne : q ≠ [])
include hne

theorem filter_semicolon : filter (q ++ [';']) = filter q := by
  refine filter_of_clause ?_
  rw [padded_semicolon hq, clausePattern, padded]
  refine (heading_padded_eq heading_where (hq.padded hne) [space ++ phrase ["GROUP", "BY"], space ++ lit "HAVING",
    space ++ phrase ["ORDER", "BY"], space ++ lit "LIMIT", space ++ lit "OFFSET"] ?_ (by decide)).symm
  simp only [forall_mem_cons, not_mem_nil, false_implies, implies_true, and_true]
  exact ⟨closes_padded_phrase (by decide) (by decide) (by decide) (by decide),
    closes_padded_word (by decide) (by decide) (by decide),
    closes_padded_phrase (by decide) (by decide) (by decide) (by decide),
    closes_padded_word (by decide) (by decide) (by decide),
    closes_padded_word (by decide) (by decide) (by decide)⟩

theorem order_semicolon : OrderBy.read (q ++ [';']) = OrderBy.read q := by
  refine order_of_clause ?_
  rw [padded_semicolon hq, OrderBy.clausePattern, padded]
  refine (heading_padded_eq heading_orderBy (hq.padded hne) [space ++ lit "LIMIT"] ?_ (by decide)).symm
  simp only [forall_mem_cons, not_mem_nil, false_implies, implies_true, and_true]
  exact closes_padded_word (by decide) (by decide) (by decide)

theorem limit_semicolon : Limit.read? (q ++ [';']) = Limit.read? q := by
  have hlimit : ∀ q, Limit.read? q = ((Limit.clausePattern.find? (padded q)).map
      (·.get "count")).bind fun count => (Number.readInt count).toOption := by
    intro q
    rw [Limit.read?]
    cases Limit.clausePattern.find? (padded q) with
    | none => rfl
    | some m => rfl
  have hcount : Closes (' ' :: strip q) [' '] [';', ' ']
      (keep "count" (many1 isDecimal) ++ oneOf [one isBlank, exactly ";", finish]) :=
    (closes_limitEnd (hq.padded hne)).append Semicolon.padded.endings
      (.inl fun c hc => by obtain rfl := Option.some.inj hc; decide)
      (.inl fun c hc => by obtain rfl := Option.some.inj hc; decide)
  have hmisses := misses_many1 Semicolon.padded (c := isDecimal) (by decide) "count"
  have hcloses : Closes (' ' :: strip q) [' '] [';', ' '] Limit.clausePattern := by
    refine closes_assoc (hcount.append Semicolon.padded.endings ?_ ?_)
    · exact .inr ⟨by decide, (hmisses.1.append _).fails⟩
    · exact .inr ⟨by decide, (hmisses.2.append _).fails⟩
  have hwhole := misses_of_two_le Semicolon.padded (q := Limit.clausePattern) (by decide)
  have hfound := map_get_of_texts (texts_find? hcloses hwhole.1 hwhole.2) "count"
  rw [hlimit, hlimit, padded_semicolon hq, ← hfound]
  rfl

omit hne in
theorem fields_semicolon : SelectList.read (q ++ [';']) = SelectList.read q := by
  have hread : ∀ q, SelectList.read q = (((SelectList.listPattern.find? (strip q)).map
      (·.get "items")).map fun items => SelectList.readItems (strip items)).getD [.everything] := by
    intro q
    rw [SelectList.read]
    cases SelectList.listPattern.find? (strip q) with
    | none => rfl
    | some m => rfl
  have hfound := map_get_of_texts (texts_find?_bare (s := strip q) (p := SelectList.listPattern)
    (closes_bare_append (by decide) (by decide) (by decide)) (by decide)) "items"
  rw [hread, hread, hq.exists_strip.1, hfound]

end

/-! ### Features of a query -/

section

variable (q : List Char)

theorem upper_semicolon : upper (q ++ [';']) = upper q ++ [';'] := by
  rw [upper, flatMap_append]
  rfl

theorem calls_occur_semicolon : Call.occurs (q ++ [';']) = Call.occurs q := by
  simp only [Call.occurs, upper_semicolon]
  congr 1
  funext f
  refine occursIn_bare (closes_bare_append ?_ (by decide) (by decide)) ?_
  · have hname : (exactly f.name).isSteady := isSteady_foldr (fun _ => rfl) f.name.toList
    show (true && (exactly f.name).isSteady && true)
    rw [hname]
    rfl
  · show 1 ≤ 0 + (exactly f.name).least + 0 + 1
    omega

theorem view_calls (name : String) : ((Call.callPattern name).findAll (q ++ [';'])).map view =
    ((Call.callPattern name).findAll q).map view := by
  have hname : (lit name).isSteady := isSteady_foldr (fun _ => rfl) name.toList
  have hsettles : Settles q [] [';'] (Call.callPattern name) := by
    refine Settles.append Semicolon.bare.endings
      (settles_of_holdsOff Semicolon.bare.endings (by simp) (by simp; decide)) (.inl (by simp)) (.inr ⟨?_, ?_⟩)
    · show (true && (lit name).isSteady && true && true && true)
      rw [hname]
      rfl
    · exact Misses.fails (misses_of_least (by decide))
  refine (view_findAll hsettles (misses_of_least ?_)).symm
  show 1 ≤ 0 + (lit name).least + 0 + 1 + 0 + 1
  omega

theorem calls_semicolon : Call.find (q ++ [';']) = Call.find q := by
  have hone : ∀ family f s, Call.findOne family f s = (((Call.callPattern f.name).findAll s).map view).map
      fun v => ⟨family, f, v.2.1, strip ((v.2.2.lookup "args").getD [])⟩ := by
    intro family f s
    rw [Call.findOne, map_map]
    refine map_congr_left fun m _ => ?_
    rw [Match.get, get?_eq_lookup]
    rfl
  simp only [Call.find, Call.findFamily, hone, view_calls]

theorem distinct_occurs_semicolon : Distinct.occurs (q ++ [';']) = Distinct.occurs q :=
  occursIn_bare (closes_bare (by decide)) (by decide)

theorem distinct_semicolon : Distinct.read? (q ++ [';']) = Distinct.read? q := by
  have hread : ∀ q, Distinct.read? q = ((Distinct.listPattern.find? q).map (·.get "items")).map
      fun items => SelectList.readItems (strip items) := by
    intro q
    rw [Distinct.read?, Option.map_map]
    rfl
  have hfound := map_get_of_texts (texts_find?_bare (s := q) (p := Distinct.listPattern)
    (closes_bare_append (by decide) (by decide) (by decide)) (by decide)) "items"
  rw [hread, hread, hfound]

theorem union_occurs_semicolon : Union.occurs (q ++ [';']) = Union.occurs q :=
  occursIn_bare (closes_bare (by decide)) (by decide)

theorem joins_occur_semicolon : occurs (q ++ [';']) = occurs q :=
  occursIn_bare (closes_bare (by decide)) (by decide)

end

section

variable {q : List Char} (hq : Unended q)
include hq

theorem closes_having (p : Char → Bool) : Closes q [] [';'] (Having.clausePattern p) := by
  have hends := ends_clauseEnd Semicolon.bare
    [space ++ phrase ["ORDER", "BY"], space ++ lit "LIMIT", space ++ lit "UNION"]
  refine closes_assoc (((closes_clauseEnd hq Semicolon.bare _ ?_).few hends.1 hends.2 p "clause").append
    Semicolon.bare.endings (.inl (by simp)) (.inl (by simp; decide)))
  simp only [forall_mem_cons, not_mem_nil, false_implies, implies_true, and_true]
  exact ⟨closes_bare (by decide), closes_bare (by decide), closes_bare (by decide)⟩

theorem having_occurs_semicolon : Having.occurs (q ++ [';']) = Having.occurs q :=
  occursIn_bare (closes_having hq inLine) (by decide)

theorem having_semicolon : Having.filter (q ++ [';']) = Having.filter q := by
  have hfilter : ∀ q, Having.filter q = ((((Having.clausePattern anyChar).find? q).map
      (·.get "clause")).map fun clause => Having.conditions (strip clause)).getD [] := by
    intro q
    rw [Having.filter]
    cases (Having.clausePattern anyChar).find? q with
    | none => rfl
    | some m => rfl
  have hfound := map_get_of_texts (texts_find?_bare (closes_having hq anyChar) (by decide)) "clause"
  rw [hfilter, hfilter, hfound]

theorem view_joins : (joinPattern.findAll (q ++ [';'])).map view =
    (Join.joinPattern.findAll q).map view := by
  have hends := ends_clauseEnd Semicolon.bare [space ++ Join.words ++ space, space ++ lit "WHERE" ++ space,
    space ++ phrase ["GROUP", "BY"] ++ space, space ++ phrase ["ORDER", "BY"] ++ space,
    space ++ lit "HAVING" ++ space, space ++ lit "LIMIT" ++ space]
  have hcloses : Closes q [] [';'] Join.conditionEnd := by
    refine closes_clauseEnd hq Semicolon.bare [space ++ Join.words ++ space,
      space ++ lit "WHERE" ++ space, space ++ phrase ["GROUP", "BY"] ++ space,
      space ++ phrase ["ORDER", "BY"] ++ space, space ++ lit "HAVING" ++ space,
      space ++ lit "LIMIT" ++ space] fun p hp => closes_bare ?_
    revert p
    decide
  refine (view_findAll (settles_assoc (Settles.append Semicolon.bare.endings
    (settles_few_ahead hcloses hends.1 hends.2 anyChar "condition") (.inl (by simp))
    (.inl fun c hc => ?_))) (misses_of_least (by decide))).symm
  obtain rfl := Option.some.inj hc
  decide

theorem joins_semicolon : read (q ++ [';']) = read q := by
  have hmatch : ∀ {m m' : Match}, view m = view m' → ∀ i, ofMatch m i = ofMatch m' i := by
    intro m m' hview i
    have hget : ∀ name, m.get? name = m'.get? name := by
      intro name
      rw [get?_eq_lookup, get?_eq_lookup]
      exact congrArg (fun v => v.2.2.lookup name) hview
    simp only [ofMatch, Match.get, hget]
  have hall : ∀ {ms ms' : List Match}, ms.map view = ms'.map view → ∀ k,
      (ms.zipIdx k).map (fun x => ofMatch x.1 x.2) = (ms'.zipIdx k).map fun x => ofMatch x.1 x.2 := by
    intro ms
    induction ms with
    | nil =>
      intro ms' h k
      rw [map_eq_nil_iff.mp h.symm]
    | cons m ms ih =>
      intro ms' h k
      obtain ⟨m', ms', rfl, hm, hms⟩ := map_eq_cons_iff.mp h.symm
      rw [zipIdx_cons, zipIdx_cons, map_cons, map_cons, ih hms.symm, hmatch hm.symm]
  exact hall (view_joins hq) 0

end

/-! ### Tables -/

variable {ps : List Pattern}

theorem tableOfKind?_first {kind : String} {p : Pattern} {s name : List Char}
    (hkind : tablePatterns kind = p :: ps) (h : (p.find? (padded s)).map (·.get "table") = some name) :
    tableOfKind? (some kind) s = some (String.ofList (lower (bareName name))) := by
  obtain ⟨m, hm, rfl⟩ := Option.map_eq_some_iff.mp h
  have hm' : p.find? (' ' :: strip s ++ [' ']) = some m := hm
  simp only [tableOfKind?, Option.bind_some, hkind, findSome?_cons, hm', Option.map_some]
  rfl

section

variable {q : List Char} (hq : Unended q) {p : Pattern} {stops : List Char} (hp : p.isSteady)
  (hstops : solid stops ';' = false)
include hq hp hstops

theorem get_table_padded (hleast : 1 ≤ p.least) :
    ((p ++ tableName stops).find? (padded (q ++ [';']))).map (·.get "table") =
      ((p ++ tableName stops).find? (padded q)).map (·.get "table") := by
  have hcloses : Closes (' ' :: strip q) [' '] [';', ' '] (p ++ tableName stops) :=
    closes_name Semicolon.padded hp rfl hstops "table"
  have hmisses : Misses [' '] (p ++ tableName stops) ∧ Misses [';', ' '] (p ++ tableName stops) := by
    refine misses_of_two_le Semicolon.padded ?_
    show 2 ≤ p.least + 1
    omega
  rw [padded_semicolon hq]
  exact (map_get_of_texts (texts_find? hcloses hmisses.1 hmisses.2) "table").symm

theorem table_semicolon {kind : String} (hleast : 1 ≤ p.least)
    (hkind : tablePatterns kind = (p ++ tableName stops) :: ps)
    (hfound : (p ++ tableName stops).occursIn (padded q)) :
    tableOfKind? (some kind) (q ++ [';']) = tableOfKind? (some kind) q := by
  obtain ⟨m, hm⟩ := Option.isSome_iff_exists.mp hfound
  have hname : ((p ++ tableName stops).find? (padded q)).map (·.get "table") = some (m.get "table") := by
    rw [hm]
    rfl
  rw [tableOfKind?_first hkind hname, tableOfKind?_first hkind
    ((get_table_padded hq hp hstops hleast).trans hname)]

omit hq in
theorem get_table_bare (hleast : 1 ≤ p.least) :
    ((p ++ tableName stops).find? (strip q ++ [';'])).map (·.get "table") =
      ((p ++ tableName stops).find? (strip q)).map (·.get "table") := by
  refine map_get_of_texts (texts_find?_bare (closes_name Semicolon.bare hp rfl hstops "table") ?_) "table"
  show 1 ≤ p.least + 1
  omega

end

end SqlGateway.Sql
