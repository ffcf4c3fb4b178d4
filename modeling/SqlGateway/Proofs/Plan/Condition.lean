import SqlGateway.Proofs.Plan.Pipeline

/-!
# One condition in three statements

A deletion, an update and a selection with the same condition carry the same filter
(`carries_filter_of_condition`).
-/

namespace SqlGateway.Plan

open Text Pattern Sql List Document Where Change Token

/-! ### The statements -/

/-- The name of a table, without signs that end a name, that is not `WHERE`. -/
structure TableName where
  chars : List Char
  ne_nil : chars ≠ []
  plain : ∀ c ∈ chars, solid (':' :: nameStops) c
  begins : '.' ∉ chars.head?
  not_where : spells "WHERE" chars = false

variable {c : Char}

namespace TableName

variable (t : TableName)

theorem solid (h : c ∈ t.chars) : isBlank c = false := by
  have := t.plain c h
  simp only [Pattern.solid, Bool.and_eq_true, Bool.not_eq_true'] at this
  exact this.1

theorem not_mem (h : c ∈ ':' :: nameStops) : c ∉ t.chars := by
  intro hc
  have := t.plain c hc
  simp only [Pattern.solid, Bool.and_eq_true, Bool.not_eq_true'] at this
  rw [contains_iff_mem.mpr h] at this
  cases this.2

theorem opening : Where.Opening t.chars := by
  refine .ofWord t.ne_nil (fun c hc => t.solid hc) (fun c hc => ?_) t.not_where
  rw [isParen, Bool.or_eq_false_iff, beq_eq_false_iff_ne, beq_eq_false_iff_ne]
  exact ⟨fun h => t.not_mem (by decide) (h ▸ hc), fun h => t.not_mem (by decide) (h ▸ hc)⟩

end TableName

def deletionHead (t : TableName) : List Char :=
  "DELETE FROM " ++ t.chars

def updateHead (t : TableName) : List Char :=
  "UPDATE " ++ t.chars ++ " SET a = 1"

def selectionHead (t : TableName) : List Char :=
  "SELECT * FROM " ++ t.chars

def withCondition (head condition : List Char) : List Char :=
  head ++ " WHERE " ++ condition

theorem opening_word {w : List Char} (hne : w ≠ [])
    (h : ∀ c ∈ w, isBlank c = false ∧ isParen c = false) (hw : spells "WHERE" w = false) :
    Where.Opening w :=
  .ofWord hne (fun c hc => (h c hc).1) (fun c hc => (h c hc).2) hw

theorem opening_from : Where.Opening "FROM" :=
  opening_word (by decide) (by decide) (by decide)

variable (t : TableName)

theorem opening_deletionHead : Where.Opening (deletionHead t) := by
  have hdelete : Where.Opening "DELETE" := opening_word (by decide) (by decide) (by decide)
  have hhead := (hdelete.append opening_from).append t.opening
  exact hhead

theorem opening_updateHead : Where.Opening (updateHead t) := by
  have hupdate : Where.Opening "UPDATE" := opening_word (by decide) (by decide) (by decide)
  have hset : Where.Opening "SET" := opening_word (by decide) (by decide) (by decide)
  have hfield : Where.Opening ['a'] := opening_word (by decide) (by decide) (by decide)
  have hsign : Where.Opening ['='] := opening_word (by decide) (by decide) (by decide)
  have hvalue : Where.Opening ['1'] := opening_word (by decide) (by decide) (by decide)
  have hhead := (hupdate.append t.opening).append (((hset.append hfield).append hsign).append hvalue)
  exact hhead

theorem opening_selectionHead : Where.Opening (selectionHead t) := by
  have hselect : Where.Opening "SELECT" := opening_word (by decide) (by decide) (by decide)
  have hstar : Where.Opening ['*'] := opening_word (by decide) (by decide) (by decide)
  have hhead := ((hselect.append hstar).append opening_from).append t.opening
  exact hhead

/-! ### Changes -/

/-- The change carries the filter, or it is refused, for which the condition needs two signs. -/
def ChangesBy (f : Document) (condition : List Char) (answer : Except Fault Value) : Prop :=
  (∃ plan, answer = .ok plan ∧ changeFilter? plan = some (.doc f)) ∨
    (answer = .error (.refused (.unsupportedStatement "UNKNOWN")) ∧
      ';' ∈ condition ∧ hasPiece [':', '='] condition)

theorem plan_of_unknown {text : List Char} (h : statementKind? text = some "UNKNOWN") (p : Planner) :
    (p.plan text).1 = .error (.refused (.unsupportedStatement "UNKNOWN")) := by
  rw [plan_of_kind (by simp [h]), ofStatement_ofText, h]
  rfl

/-- A text that begins with a keyword is a change by its filter if it can be planned whenever its kind is
known. -/
theorem changesBy_of_keyword {w : String} (hw : w = "UPDATE" ∨ w = "DELETE") {s : List Char}
    {condition : List Char} (hblank : isBlank c = false) (hdot : c ≠ '.') (hcolon : c ≠ ':')
    (hzone : ∀ y, ¬ zonePattern.Spans ⟨some ' ', c :: s⟩ y)
    (hsemicolon : ';' ∈ w ++ ' ' :: c :: s → ';' ∈ condition)
    (hassign : ∀ u v, w ++ ' ' :: c :: s = u ++ ':' :: '=' :: v →
      hasPiece [':', '='] condition) (p : Planner)
    (hplan : statementKind? (w ++ ' ' :: c :: s) = some w →
      ∃ plan, (p.plan (w ++ ' ' :: c :: s)).1 = .ok plan) :
    ChangesBy (filter (w ++ ' ' :: c :: s)) condition (p.plan (w ++ ' ' :: c :: s)).1 := by
  have hmem : w ∈ documentWords := by
    rcases hw with rfl | rfl <;> decide
  rcases statementKind?_documentWord hmem s hblank hdot with hkind | hkind
  · obtain ⟨plan, hok⟩ := hplan hkind
    have hkind' : statementKind? (w ++ ' ' :: c :: s) = some "DELETE" ∨
        statementKind? (w ++ ' ' :: c :: s) = some "UPDATE" := by
      rcases hw with rfl | rfl
      · exact .inr hkind
      · exact .inl hkind
    refine .inl ⟨plan, hok, ?_⟩
    rw [plan_of_kind (by simp [hkind])] at hok
    exact yields_changeFilter hkind' [] plan hok
  · refine .inr ⟨plan_of_unknown hkind p, ?_⟩
    -- With one of the two signs missing, the kind would be the keyword.
    have hunknown : some w ≠ some "UNKNOWN" := by
      rcases hw with rfl | rfl <;> decide
    by_contra hno
    refine hunknown ((statementKind?_eq_documentWord hmem s hblank hdot hcolon hzone ?_).symm.trans hkind)
    by_cases hs : ';' ∈ w ++ ' ' :: c :: s
    · right
      rintro ⟨u, v, huv⟩
      exact hno ⟨hsemicolon hs, hassign u v huv⟩
    · exact .inl hs

theorem hasPiece_of_append {a c : List Char} (ha : ':' ∉ a) {u v : List Char}
    (h : a ++ c = u ++ ':' :: '=' :: v) : hasPiece [':', '='] c := by
  rw [hasPiece, isSome_cutAt?_iff]
  rcases append_eq_append_iff.mp h with ⟨r, rfl, hr⟩ | ⟨r, rfl, hr⟩
  · exact ⟨r, v, by simpa using hr⟩
  · cases r with
    | nil => exact ⟨[], v, by simpa using hr.symm⟩
    | cons d r =>
      obtain ⟨rfl, -⟩ := cons.inj hr
      exact absurd (by simp) ha

theorem not_mem_head {u v : List Char} (huv : ∀ d ∈ [':', ';'], d ∉ u ++ v) :
    ∀ d ∈ [':', ';'], d ∉ u ++ t.chars ++ v := by
  intro d hd
  have ht : d ∉ t.chars := t.not_mem ((by decide : ∀ d ∈ [':', ';'], d ∈ ':' :: nameStops) d hd)
  have hothers := huv d hd
  simp only [mem_append, not_or] at hothers ⊢
  exact ⟨⟨hothers.1, ht⟩, hothers.2⟩

theorem not_mem_deletionHead : ∀ d ∈ [':', ';'], d ∉ deletionHead t ++ " WHERE " :=
  not_mem_head t (u := "DELETE FROM ") (by decide)

theorem not_mem_updateHead : ∀ d ∈ [':', ';'], d ∉ updateHead t ++ " WHERE " := by
  unfold updateHead
  rw [append_assoc]
  exact not_mem_head t (by decide)

theorem changesBy_deletion (c : List Char) (p : Planner) :
    ChangesBy (filter (withCondition (deletionHead t) c)) c
      (p.plan (withCondition (deletionHead t) c)).1 := by
  have htext : withCondition (deletionHead t) c =
      "DELETE" ++ ' ' :: 'F' :: ("ROM " ++ t.chars ++ " WHERE " ++ c) := rfl
  rw [htext]
  refine changesBy_of_keyword (.inr rfl) (by decide) (by decide) (by decide) ?_ ?_ ?_ p
    fun hkind => exists_plan_of_deletion hkind p
  · exact fun y => not_spans_zone_of_head (by decide) (by decide) _ _ y
  · intro hmem
    rw [← htext, withCondition, mem_append] at hmem
    exact hmem.resolve_left (not_mem_deletionHead t ';' (by simp))
  · intro u v huv
    rw [← htext, withCondition] at huv
    exact hasPiece_of_append (not_mem_deletionHead t ':' (by simp)) huv

/-! ### Updates -/

theorem isSome_find?_of_takes {p : Pattern} {u s r : List Char} (h : p.Takes s r) :
    (p.find? (u ++ (s ++ r))).isSome := by
  obtain ⟨b, hb⟩ := h u.getLast?
  exact occursIn_iff.mpr ⟨u, s ++ r, ⟨b, r⟩, rfl, hb⟩

theorem exists_values_updateHead (c : List Char) : ∃ table values condition,
    describeUpdate (withCondition (updateHead t) c) = [("operation", .text "UPDATE"),
      ("table", .text table), ("values", values), ("condition", condition)] := by
  obtain ⟨r, -, hstrip⟩ := exists_strip_append (' ' :: c)
  have hopening := opening_updateHead t
  have htrim : strip (updateHead t ++ ' ' :: "WHERE") = updateHead t ++ ' ' :: "WHERE" :=
    strip_append_space hopening.part.ne_nil hopening.part.trimmed (by decide) (by decide)
  have htext : strip (withCondition (updateHead t) c) = updateHead t ++ ' ' :: "WHERE" ++ r := by
    rw [← hstrip _ (by simp) htrim, withCondition, append_assoc, append_assoc]
    rfl
  have hname : ∀ d ∈ t.chars, solid nameStops d := by
    intro d hd
    have := t.plain d hd
    simp only [solid, contains_cons, Bool.not_or, Bool.and_eq_true] at this ⊢
    exact ⟨this.1, this.2.2⟩
  have htable : (lit "UPDATE" ++ space ++ tableName nameStops).Takes
      ("UPDATE" ++ [' '] ++ t.chars) (" SET a = 1 WHERE" ++ r) :=
    ((takes_lit (by decide) _).append (takes_many1 (by simp) (by simp) _)).append
      ((takes_many1 t.ne_nil hname _).keep "table")
  have hset : assignmentsPattern.Takes
      ("SET" ++ [' '] ++ "a = 1" ++ ([' '] ++ "WHERE")) r :=
    (((takes_lit (by decide) _).append (takes_many1 (by simp) (by simp) _)).append
      ((takes_few (by simp [anyChar]) _).keep "assignments")).append
      (.left ((takes_one (by decide) _).append (takes_lit (by decide) _)))
  obtain ⟨m, hm⟩ := Option.isSome_iff_exists.mp (isSome_find?_of_takes htable)
  obtain ⟨m', hm'⟩ := Option.isSome_iff_exists.mp
    (isSome_find?_of_takes hset)
  have hassoc : ∀ u v w x y : List Char, u ++ v ++ (w ++ x ++ y) = u ++ v ++ w ++ x ++ y := by
    intro u v w x y
    simp
  have hassoc' : ∀ (u v w x y : List Char) (d : Char),
      u ++ v ++ [d] ++ (w ++ x ++ y) = u ++ v ++ d :: w ++ x ++ y := by
    intro u v w x y d
    simp
  have hsame : [] ++ ("UPDATE".toList ++ [' '] ++ t.chars ++ (" SET a = 1 WHERE".toList ++ r)) =
      strip (withCondition (updateHead t) c) := by
    rw [htext]
    exact hassoc "UPDATE " t.chars " SET a = 1" " WHERE" r
  have hsame' : "UPDATE " ++ t.chars ++ [' '] ++
      ("SET" ++ [' '] ++ "a = 1" ++ ([' '] ++ "WHERE") ++ r) =
      strip (withCondition (updateHead t) c) := by
    rw [htext]
    exact hassoc' "UPDATE " t.chars "SET a = 1" " WHERE" r ' '
  rw [hsame] at hm
  rw [hsame'] at hm'
  rw [describeUpdate, tableBy?, hm]
  simp only [Option.map_some, hm']
  exact ⟨_, _, _, rfl⟩

theorem exists_plan_of_update (c : List Char)
    (hkind : statementKind? (withCondition (updateHead t) c) = some "UPDATE") (p : Planner) :
    ∃ plan, (p.plan (withCondition (updateHead t) c)).1 = .ok plan := by
  obtain ⟨table, htable⟩ := exists_table (withCondition (updateHead t) c)
  obtain ⟨name, values, condition, hdescribe⟩ := exists_values_updateHead t c
  rw [plan_of_kind (by simp [hkind]), ofStatement_ofText, hkind]
  have hupdate : Statement.update (.ofText (withCondition (updateHead t) c)) =
      .ok (.doc (describeUpdate (withCondition (updateHead t) c))) := rfl
  refine ⟨.doc [("operation", .text "update"), ("collection", table),
    ("query", .doc [("query", orEmpty (.doc (filter (withCondition (updateHead t) c)))),
      ("update", .doc [("$set", values)])])], ?_⟩
  rw [update, htable, hupdate, hdescribe]
  rfl

/-- The table of an update is not the word before a time zone, since `SET` follows it. -/
theorem not_spans_zone {s : List Char} (hs : ∀ c ∈ s, isBlank c = false) (r : List Char)
    (b : Option Char) (y : Cursor) : ¬ zonePattern.Spans ⟨b, s ++ ' ' :: 'S' :: r⟩ y := by
  intro h
  obtain ⟨w, d, g, l, r', htext, hw, hd, hg, hl⟩ := exists_of_spans_zone h
  have hsolid : ' ' ∉ w := by
    intro hmem
    rcases hw with hw | hw
    · exact absurd (exists_of_mem_spells hw hmem) (by decide)
    · exact absurd (exists_of_mem_spells hw hmem) (by decide)
  rcases eq_or_of_append_blank hs hd htext with ⟨rfl, hrest⟩ | ⟨v, rfl, -⟩
  · cases g with
    | nil =>
      obtain ⟨rfl, -⟩ := cons.inj hrest
      exact absurd hl (by decide)
    | cons e g =>
      obtain ⟨rfl, -⟩ := cons.inj hrest
      exact absurd (hg 'S' (by simp)) (by decide)
  · exact hsolid (by simp)

theorem changesBy_update (c : List Char) (p : Planner) :
    ChangesBy (filter (withCondition (updateHead t) c)) c
      (p.plan (withCondition (updateHead t) c)).1 := by
  obtain ⟨d, s, hchars⟩ := exists_cons_of_ne_nil t.ne_nil
  have htext : withCondition (updateHead t) c =
      "UPDATE" ++ ' ' :: d :: (s ++ " SET a = 1" ++ " WHERE " ++ c) :=
    congrArg (fun name => "UPDATE " ++ name ++ " SET a = 1" ++ " WHERE " ++ c) hchars
  have hd : d ∈ t.chars := by simp [hchars]
  have hplan := exists_plan_of_update t c
  rw [htext] at hplan ⊢
  refine changesBy_of_keyword (.inl rfl) (t.solid hd) ?_ ?_ ?_ ?_ ?_ p fun hkind => hplan hkind p
  · rintro rfl
    exact t.begins (by simp [hchars])
  · rintro rfl
    exact t.not_mem (by simp) hd
  · intro y hy
    have hassoc : ∀ u v w : List Char, d :: (s ++ u ++ v ++ w) = t.chars ++ (u ++ (v ++ w)) := by
      intro u v w
      rw [hchars]
      simp
    rw [hassoc] at hy
    exact not_spans_zone (fun c hc => t.solid hc) _ _ y hy
  · intro hmem
    rw [← htext, withCondition, mem_append] at hmem
    exact hmem.resolve_left (not_mem_updateHead t ';' (by simp))
  · intro u v huv
    rw [← htext, withCondition] at huv
    exact hasPiece_of_append (not_mem_updateHead t ':' (by simp)) huv

/-! ### Selections -/

/-- A search carries the filter, and an aggregation begins with it unless it is empty. -/
def SelectsBy (f : Document) (plan : Value) : Prop :=
  ∃ members, plan = .doc members ∧ (get? members "operation" = some (.text "find") →
      get? members "query" = some (.doc f)) ∧
    (get? members "operation" = some (.text "aggregate") →
      ∃ stages, get? members "pipeline" = some (.list stages) ∧
        (f ≠ [] → stages.head? = some (stage "$match" (.doc f))))

section

open Planning

variable (text : List Char) {plan : Value}

theorem selectsBy_aggregate {f members : Document} {stages : List Value} {table : Value}
    (h : f ≠ [] → stages.head? = some (stage "$match" (.doc f))) :
    SelectsBy f (.doc (("operation", .text "aggregate") :: ("collection", table) ::
      ("pipeline", .list stages) :: members)) := by
  refine ⟨_, rfl, fun hfind => ?_, fun _ => ⟨stages, rfl, h⟩⟩
  simp [get?] at hfind

theorem head?_stage? {f : Document} (hf : f ≠ []) (stages : List Value) :
    (stage? "$match" (.doc f) ++ stages).head? = some (stage "$match" (.doc f)) := by
  cases f with
  | nil => exact absurd rfl hf
  | cons => rfl

theorem selectsBy_of_selects (h : Selects (.ofText text) plan) : SelectsBy (filter text) plan := by
  cases h with
  | union => exact ⟨_, rfl, fun h => by simp [get?] at h, fun h => by simp [get?] at h⟩
  | find members hfilter =>
    cases hfilter
    refine ⟨_, rfl, fun _ => ?_, fun h => ?_⟩
    · rw [orEmpty_doc]
      rfl
    · simp [get?] at h
  | aggregate table members hstages =>
    obtain rfl := gives_pipeline text _ hstages
    refine selectsBy_aggregate fun hne => ?_
    simp only [pipelineOf, append_assoc]
    exact head?_stage? hne _
  | joined table members hfilter =>
    cases hfilter
    refine selectsBy_aggregate fun hne => ?_
    simp only [append_assoc]
    exact head?_stage? hne _

theorem selectsBy_of_plan (p : Planner) (hkind : statementKind? text ≠ none)
    (hplan : (p.plan text).1 = .ok plan) : SelectsBy (filter text) plan := by
  rw [plan_of_kind hkind] at hplan
  rcases yields_selects_or [] plan hplan with h | ⟨members, operation, rfl, hoperation, hfind, haggregate⟩
  · exact selectsBy_of_selects text h
  · refine ⟨members, rfl, fun h => ?_, fun h => ?_⟩
    · exact absurd (by simpa using hoperation.symm.trans h) hfind
    · exact absurd (by simpa using hoperation.symm.trans h) haggregate

end

/-- **The filter depends on the condition only.** -/
theorem carries_filter_of_condition (t : TableName) (c : List Char) (p : Planner) :
    let f := filter (withCondition (deletionHead t) c)
    ChangesBy f c (p.plan (withCondition (deletionHead t) c)).1 ∧
    ChangesBy f c (p.plan (withCondition (updateHead t) c)).1 ∧
    ∀ plan, (p.plan (withCondition (selectionHead t) c)).1 = .ok plan → SelectsBy f plan := by
  obtain ⟨f, hf⟩ := exists_filter c
  have hsame : ∀ {head : List Char}, Where.Opening head →
      filter (withCondition head c) = filter (withCondition (deletionHead t) c) :=
    fun hhead => (hf _ hhead).trans (hf _ (opening_deletionHead t)).symm
  refine ⟨changesBy_deletion t c p, ?_, ?_⟩
  · rw [← hsame (opening_updateHead t)]
    exact changesBy_update t c p
  · intro plan hplan
    have hkind : statementKind? (withCondition (selectionHead t) c) ≠ none := by
      have hblank : (withCondition (selectionHead t) c).all isBlank = false := rfl
      rw [statementKind?, hblank]
      simp
    rw [← hsame (opening_selectionHead t)]
    exact selectsBy_of_plan _ p hkind hplan

end SqlGateway.Plan
