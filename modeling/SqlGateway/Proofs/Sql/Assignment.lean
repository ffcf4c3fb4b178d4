import SqlGateway.Proofs.Sql.Insert
import SqlGateway.Proofs.Sql.Where.Stop
import SqlGateway.Sql.Change

/-!
# The assignments of an update

The assignments begin behind the first `SET` that a blank follows, and this may be the end of a longer word. 
**The values of an update are the written assignments, unless the name of the table ends with `SET`**
(`values_update`).
-/

namespace SqlGateway.Sql.Change

open Text Pattern Where List

/-! ### Where the assignments are found -/

theorem prefers_ending {a b : List (List Char)} (hne : a ≠ [])
    (hstop : ∀ w ∈ b.head?, opensWith "WHERE" w) : ∃ r, unwords (a ++ b) = unwords a ++ r ∧
      (∀ c ∈ r.head?, isBlank c) ∧ ∀ k : Kept, ∃ t, (oneOf [one isBlank ++ lit "WHERE",
        one isBlank ++ exactly ";", last]).Prefers r k t k := by
  cases b with
  | nil =>
    refine ⟨[], by simp, by simp, fun k => ⟨[], ?_⟩⟩
    have hnone : ∀ {p : Pattern} (b : Option Char) (y : Cursor), ¬ (one isBlank ++ p).Spans ⟨b, []⟩ y := by
      rintro p b y ⟨z, ⟨c, s, h, -⟩, -⟩
      cases h
    exact (Prefers.right (fun b => ⟨b, fun _ _ => rfl⟩) hnone).right hnone
  | cons w b =>
    obtain ⟨i, x, rfl, hi⟩ := opensWith_iff.mp (hstop w rfl)
    obtain ⟨t, ht, -⟩ := exists_unwords_cons (i ++ x) b
    refine ⟨' ' :: unwords ((i ++ x) :: b), unwords_append hne (by simp), by simp, fun k =>
      ⟨x ++ t, ?_⟩⟩
    rw [ht, append_assoc]
    exact ((prefers_one (by decide) _ k).append (prefers_lit hi _ k)).left _

/-- **Where the assignments are found**: behind the first word that ends with `SET`. -/
theorem find?_assignments {ws a b : List (List Char)} (hws : ∀ w ∈ ws, Solid w) (hwsne : ws ≠ [])
    (hno : ∀ w ∈ ws, closesWith "SET" w = false) {w : List Char} (hw : Solid w)
    (hset : closesWith "SET" w) (ha : ∀ w ∈ a, IsTerm w) (hne : a ≠ [])
    (hcalm : ∀ w ∈ a.tail, opensWith "WHERE" w = false)
    (hstop : ∀ w ∈ b.head?, opensWith "WHERE" w) :
    ∃ m, assignmentsPattern.find? (unwords (ws ++ w :: (a ++ b))) = some m ∧
      m.get "assignments" = unwords a := by
  obtain ⟨x, k, rfl, hk⟩ := closesWith_iff.mp hset
  obtain ⟨r, hr, hblank, hending⟩ := prefers_ending hne hstop
  have hwords : ∀ w ∈ a, w ≠ [] ∧ Solid w := fun w hw => ⟨(ha w hw).ne_nil, (ha w hw).solid⟩
  have htext : unwords (ws ++ (x ++ k) :: (a ++ b)) =
      (unwords ws ++ ' ' :: x) ++ (k ++ ([' '] ++ (unwords a ++ r))) := by
    rw [unwords_append hwsne (by simp), unwords_cons (by simp [hne]), hr]
    simp
  have hfirst := head_unwords hwords hne r
  obtain ⟨t, ht⟩ := hending [("assignments", ⟨unwords a ++ r, r⟩)]
  have hprefers : assignmentsPattern.Prefers (k ++ ([' '] ++ (unwords a ++ r))) [] t
      [("assignments", ⟨unwords a ++ r, r⟩)] := by
    refine prefers_few "assignments" ((prefers_lit hk _ []).append
      (prefers_many1 (by simp) (by simp) hfirst [])) (fun _ _ => rfl) ?_ ht
    intro u₁ u₂ hsplit hne₂ d y h
    rcases h with ⟨z, ⟨c, s, hs, hc, rfl⟩, hword⟩ | ⟨z, ⟨c, s, hs, hc, rfl⟩, hsign⟩ | ⟨-, h⟩
    · exact not_spans_opening ha (by decide) hcalm hblank hsplit hne₂ d y
        ⟨⟨some c, s⟩, ⟨⟨some c, s⟩, ⟨c, s, hs, hc, rfl⟩, .stay _⟩, hword⟩
    · refine not_spans_end ha (r := r) hsplit hne₂ d y (.inl ?_)
      rw [show u₂ ++ r = c :: s from hs]
      exact ⟨_, .step hc (.stay _), hsign⟩
    · have hempty : (u₂ ++ r).isEmpty := h
      simp [hne₂] at hempty
  refine ⟨_, (congrArg _ htext).trans (hprefers.find? fun u₁ u₂ hsplit hne₂ d y h => ?_),
    pieceBefore_append (unwords a) r⟩
  obtain ⟨z, ⟨z', ⟨z'', hlit, hspace⟩, -⟩, -⟩ := h
  exact not_spans_before_closing (by decide) hws hno hw hk hsplit hne₂ (head_of_spans_space hspace) hlit

/-! ### What they are read as -/

/-- A word of an assignment on either side of its sign. -/
structure IsOperand (w : List Char) : Prop extends IsTerm w where
  plain : ∀ c ∈ w, c ∉ '=' :: listMarks

theorem isOperand_identifier (i : Identifier) : IsOperand i.chars where
  ne_nil := i.ne_nil
  solid := fun _ h => i.solid h
  no_semicolon := i.not_mem (by decide)
  plain := i.avoids (by decide)

theorem isOperand_numeral (n : Numeral) : IsOperand n.chars where
  ne_nil := n.plainWord.ne_nil
  solid := n.plainWord.solid
  no_semicolon := fun h => absurd (Numeral.mem_heads_of_mem h) (by decide)
  plain := fun c hc =>
    (by decide : ∀ c ∈ Numeral.heads, c ∉ '=' :: listMarks) c (Numeral.mem_heads_of_mem hc)

/-- **An assignment** of words gives the field in small letters its value. -/
theorem assignments_unwords {l : List (List Char)} (hl : ∀ w ∈ l, IsOperand w) (hne : l ≠ [])
    {v : List Char} (hv : IsOperand v) :
    assignments (unwords (l ++ [['='], v])) = [(String.ofList (lower (unwords l)), literal v)] := by
  have htext : unwords (l ++ [['='], v]) = (unwords l ++ [' ']) ++ (['='] ++ ' ' :: v) := by
    rw [unwords_append hne (by simp)]
    simp [unwords]
  have hterms : ∀ w ∈ l ++ [['='], v], IsTerm w := forall_mem_append.mpr ⟨fun w hw => (hl w hw).toIsTerm,
      forall_mem_cons.mpr ⟨by decide, forall_mem_singleton.mpr hv.toIsTerm⟩⟩
  have hplain : ∀ {c : Char}, c ∈ '=' :: listMarks → c ∉ unwords l := by
    intro c hc hmem
    rcases mem_unwords hmem with rfl | ⟨w, hw, hmem⟩
    · exact absurd hc (by decide)
    · exact (hl w hw).plain c hmem hc
  -- nothing divides the text
  have hitem : IsItem (unwords (l ++ [['='], v])) := by
    refine ⟨whole_of_plain fun c hc hmark => ?_, (unwords_trimmed hterms (by simp)).2⟩
    rw [htext] at hc
    simp only [mem_append, mem_cons, not_mem_nil, or_false] at hc
    rcases hc with (hc | rfl) | rfl | rfl | hc
    · exact hplain (mem_cons_of_mem _ hmark) hc
    · exact absurd hmark (by decide)
    · exact absurd hmark (by decide)
    · exact absurd hmark (by decide)
    · exact hv.plain c hc (mem_cons_of_mem _ hmark)
  have hsplit : splitValues (unwords (l ++ [['='], v])) = [unwords (l ++ [['='], v])] :=
    splitValues_commaList (cons_ne_nil _ []) (forall_mem_singleton.mpr hitem)
  have hleft : '=' ∉ unwords l ++ [' '] := by
    simpa using hplain (mem_cons_self)
  have hcut : cutAt? ['='] (unwords (l ++ [['='], v])) = some (unwords l ++ [' '], ' ' :: v) := by
    rw [htext]
    exact cutAt?_of_not_mem (' ' :: v) hleft
  have hstrip : strip (unwords l ++ [' ']) = unwords l ∧ strip (' ' :: v) = v := by
    refine ⟨?_, ?_⟩
    · rw [strip_append_blanks (by simp), (unwords_trimmed (fun w hw => (hl w hw).toIsTerm) hne).2]
    · exact (strip_blanks_append (u := [' ']) (by simp) v).trans (strip_eq_self_of_solid hv.solid)
  have hequality : equality? (unwords (l ++ [['='], v])) =
      some (String.ofList (lower (unwords l)), literal v) := by
    simp only [equality?, hcut, Option.map_some, hstrip.1, hstrip.2]
  rw [assignments, hsplit, filterMap_cons_some hequality]
  rfl

/-! ### The values of an update -/

def assigned (table : List Char) (a : List (List Char)) : List (List Char) :=
  if closesWith "SET" table then
    "SET" :: if a.head?.any (opensWith "WHERE") then [] else a
  else a

def assignmentWords (field value : List Char) : List (List Char) :=
  [field, ['='], value]

theorem isTerm_assignmentWords {field value : List Char} (hfield : IsOperand field)
    (hvalue : IsOperand value) : ∀ w ∈ assignmentWords field value, IsTerm w := by
  have hsign : IsTerm ['='] := by decide
  simpa [assignmentWords] using ⟨hfield.toIsTerm, hsign, hvalue.toIsTerm⟩

/-- **A field behind a table whose name ends with `SET` is not the one that is set.** -/
theorem assignments_assigned (table : List Char) {field value : List Char} (hfield : IsOperand field)
    (hvalue : IsOperand value) : assignments (unwords (assigned table (assignmentWords field value))) =
      if closesWith "SET" table then
        if opensWith "WHERE" field then []
        else [(String.ofList (lower ("SET " ++ field)), literal value)]
      else [(String.ofList (lower field), literal value)] := by
  have hset : IsOperand "SET" := ⟨by decide, by decide⟩
  rw [assigned]
  split
  · rw [assignmentWords, head?_cons, Option.any_some]
    split
    · rfl
    · exact assignments_unwords (l := ["SET", field]) (by simpa using ⟨hset, hfield⟩) (by simp) hvalue
  · exact assignments_unwords (l := [field]) (by simpa using hfield) (by simp) hvalue

section

variable (t : Identifier) {a b : List (List Char)}

def updateWords (table : List Char) (a b : List (List Char)) : List (List Char) :=
  ["UPDATE".toList, table] ++ "SET".toList :: (a ++ b)

theorem prefers_updateTable (r : List Char) : (lit "UPDATE" ++ space ++ tableName nameStops).Prefers
    ("UPDATE" ++ ([' '] ++ (t.chars ++ ' ' :: r))) [] (' ' :: r)
    [("table", ⟨t.chars ++ ' ' :: r, ' ' :: r⟩)] := by
  have hhead := head_solid_append t.ne_nil (fun _ => t.solid) (' ' :: r)
  exact ((prefers_lit (by decide) _ []).append (prefers_many1 (by simp) (by simp) hhead [])).append
    ((prefers_many1 t.ne_nil (fun _ => t.unstopped) (by rintro c ⟨⟩; decide) []).keep "table")

theorem isTerm_updateWords (ha : ∀ w ∈ a, IsTerm w) (hb : ∀ w ∈ b, IsTerm w) :
    ∀ w ∈ updateWords t.chars a b, IsTerm w :=
  forall_mem_append.mpr ⟨forall_mem_cons.mpr ⟨by decide,
    forall_mem_singleton.mpr (isOperand_identifier t).toIsTerm⟩,
    forall_mem_cons.mpr ⟨by decide, forall_mem_append.mpr ⟨ha, hb⟩⟩⟩

theorem isTerm_assigned (ha : ∀ w ∈ a, IsTerm w) : ∀ w ∈ assigned t.chars a, IsTerm w := by
  have hset : IsTerm "SET" := by decide
  rw [assigned]
  split
  · refine forall_mem_cons.mpr ⟨hset, ?_⟩
    split
    · simp
    · exact ha
  · exact ha

variable (ha : ∀ w ∈ a, IsTerm w) (hne : a ≠ [])
  (hcalm : ∀ w ∈ a.tail, opensWith "WHERE" w = false)
  (hstop : ∀ w ∈ b.head?, opensWith "WHERE" w)
include ha hne hcalm hstop

/-- The assignments of an update begin too early if the name of its table ends with `SET`. -/
theorem find?_updateWords : ∃ m, assignmentsPattern.find? (unwords (updateWords t.chars a b)) = some m ∧
    m.get "assignments" = unwords (assigned t.chars a) := by
  have hsolid : Solid t.chars := fun _ h => t.solid h
  have hupdate : Solid "UPDATE".toList ∧ closesWith "SET".toList "UPDATE".toList = false := by decide
  have hset : Solid "SET".toList ∧ closesWith "SET".toList "SET".toList := by decide
  rw [assigned]
  cases hcloses : closesWith "SET".toList t.chars with
  | false =>
    have hws : ∀ w ∈ ["UPDATE".toList, t.chars], Solid w := by
      simpa using ⟨hupdate.1, hsolid⟩
    exact find?_assignments hws (by simp) (by simpa using ⟨hupdate.2, hcloses⟩) hset.1 hset.2 ha hne
      hcalm hstop
  | true =>
    have hterm : IsTerm "SET".toList := by decide
    have hws : (∀ w ∈ ["UPDATE".toList], Solid w) ∧
        ∀ w ∈ ["UPDATE".toList], closesWith "SET".toList w = false := by
      simpa using hupdate
    obtain ⟨v, a, rfl⟩ := exists_cons_of_ne_nil hne
    rw [if_pos rfl, head?_cons, Option.any_some]
    cases hopens : opensWith "WHERE".toList v with
    | false =>
      exact find?_assignments hws.1 (by simp) hws.2 hsolid hcloses
        (forall_mem_cons.mpr ⟨hterm, ha⟩) (by simp) (forall_mem_cons.mpr ⟨hopens, hcalm⟩) hstop
    | true =>
      exact find?_assignments hws.1 (by simp) hws.2 hsolid hcloses
        (forall_mem_singleton.mpr hterm) (by simp) (by simp) (by rintro w ⟨⟩; exact hopens)

/-- **The values of an update.** -/
theorem values_update (hb : ∀ w ∈ b, IsTerm w) :
    Document.get? (describeUpdate (unwords (updateWords t.chars a b))) "values" =
    some (.doc (assignments (unwords (assigned t.chars a)))) := by
  have hterms := isTerm_updateWords t ha hb
  obtain ⟨-, htrim⟩ := unwords_trimmed hterms (by simp [updateWords])
  have htable : ∃ table, tableBy? (lit "UPDATE" ++ space ++ tableName nameStops)
      (unwords (updateWords t.chars a b)) = some table := by
    have hfound := (prefers_updateTable t (unwords ("SET".toList :: (a ++ b)))).find?_here
    have htext : unwords (updateWords t.chars a b) = "UPDATE".toList ++ ([' '] ++ (t.chars ++
        ' ' :: unwords ("SET".toList :: (a ++ b)))) := by
      rw [updateWords, unwords_append (by simp) (by simp)]
      simp [unwords]
    rw [tableBy?, htext, hfound]
    exact ⟨_, rfl⟩
  obtain ⟨table, htable⟩ := htable
  obtain ⟨m, hm, hget⟩ := find?_updateWords t ha hne hcalm hstop
  obtain ⟨-, hassigned⟩ := unwords_trimmed (isTerm_assigned t ha)
    (by rw [assigned]; split <;> simp [hne])
  simp only [describeUpdate, htrim, htable, hm, hget, hassigned]
  rfl

end

end SqlGateway.Sql.Change
