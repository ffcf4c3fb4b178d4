import SqlGateway.Proofs.Sql.Insert
import SqlGateway.Proofs.Sql.Semicolon
import SqlGateway.Proofs.Sql.StatementKind

/-!
# The name of a table that is created or dropped

Two readers look for the table in `CREATE TABLE` and `DROP TABLE`, in every layout.  Only the reader of
schemas knows `IF NOT EXISTS` and `IF EXISTS`: **the readers agree unless the statement says `IF`**
(`tables_agree_iff`).
-/

namespace SqlGateway.Sql

open Text Pattern Where List

variable {word v : String} {vs : List String} {guarded : Bool} {stops w s g r : List Char}

/-! ### Words before a name -/

/-- The words of a condition, where one is written. -/
def guardWords (words : List String) : Bool → List String
  | true => words
  | false => []

theorem prefers_tableName (hw : IsName w) (hstops : ∀ c ∈ stops, isNameChar c = false)
    (hr : ∀ c ∈ r.head?, solid stops c = false) (k : Kept) :
    (tableName stops).Prefers (w ++ r) k r (("table", ⟨w ++ r, r⟩) :: k) :=
  (prefers_many1 hw.ne_nil (fun _ => hw.unstopped hstops) hr k).keep "table"

theorem isName_of_cased (hword : IsKeyword word.toList) (hw : IsCased word w) : IsName w := by
  refine ⟨fun hnil => hword.ne_nil (by rw [← hw, hnil]; rfl), fun c hc => ?_⟩
  have hletter : c.toUpper ∈ capitals := hword.letters _ (by rw [← hw]; exact mem_map_of_mem hc)
  have hname := (by decide : ∀ l ∈ capitals, isNameChar l ∧ isNameChar l.toLower) _ hletter
  rcases eq_toUpper_or c with h | h <;> rw [h]
  · exact hname.1
  · exact hname.2

theorem prefers_guarded (hword : IsKeyword word.toList) (hguard : ∀ w ∈ "IF" :: v :: vs, IsKeyword w)
    (hs : Laid ([word, "TABLE"] ++ guardWords ("IF" :: v :: vs) guarded) s) (hw : IsName w)
    (hg : ∀ c ∈ g, isBlank c) (hr : ∀ c ∈ r.head?, isBlank c = false ∧ isWord c = false) :
    (phrase [word, "TABLE"] ++ space ++ opt (phrase ("IF" :: v :: vs) ++ space)).Prefers
      (s ++ (w ++ (g ++ r))) [] (w ++ (g ++ r)) [] := by
  obtain ⟨s₁, s₂, rfl, h₁, h₂⟩ := hs.exists_append
  have hwords : ∀ w ∈ [word, "TABLE"], IsKeyword w := by simpa using ⟨hword, by decide⟩
  have hname := head_solid_append hw.ne_nil hw.solid (g ++ r)
  rw [append_assoc]
  cases guarded with
  | false =>
    cases h₂
    refine (h₁.prefers hwords (by simp) hname []).append (.right (fun b => ⟨b, fun _ _ => rfl⟩) fun b y => ?_)
    exact not_spans_phrase (hguard _ (by simp)) (hguard _ (by simp)) hw.solid hg hr
  | true =>
    have hhead := h₂.head? (hguard _ (by simp)) (w ++ (g ++ r))
    exact (h₁.prefers hwords (by simp) hhead []).append
      ((h₂.prefers hguard (cons_ne_nil _ _) hname []).left nothing)

/-- **The table of a statement in any layout** is the word behind the keywords. -/
theorem tableOfKind?_laid {kind : String} {words : List String} {ps : List Pattern}
    (hkind : tablePatterns kind = (phrase words ++ space ++ tableName stops) :: ps)
    (hspace : (phrase words ++ space ++ tableName stops).refuses [' ']) (hne : words ≠ [])
    (hwords : ∀ w ∈ words, IsKeyword w) (hs : Laid words s) (hw : IsName w)
    (hstops : ∀ c ∈ stops, isNameChar c = false) (hr : ∀ c ∈ r.head?, solid stops c = false)
    (hlast : ∀ c ∈ (w ++ r).getLast?, isBlank c = false) :
    tableOfKind? (some kind) (s ++ (w ++ r)) = some (String.ofList (lower w)) := by
  have hstrip : strip (s ++ (w ++ r)) = s ++ (w ++ r) := by
    refine strip_eq_self ?_ ?_
    · cases words with
      | nil => exact absurd rfl hne
      | cons => exact hs.head? (hwords _ (by simp)) _
    · rw [getLast?_append_of_ne_nil _ (by simp [hw.ne_nil])]
      exact hlast
  have hpadded : padded (s ++ (w ++ r)) = [' '] ++ (s ++ (w ++ (r ++ [' ']))) := by
    rw [padded, hstrip]
    simp
  have hr' : ∀ c ∈ (r ++ [' ']).head?, solid stops c = false := by
    cases r with
    | nil => rintro c ⟨⟩; rfl
    | cons d r => exact hr
  have hprefers := (hs.prefers hwords hne (head_solid_append hw.ne_nil hw.solid (r ++ [' '])) []).append
    (prefers_tableName hw hstops hr' [])
  have hfound := hprefers.find? (by
    intro u₁ u₂ hsplit hne b y
    obtain ⟨rfl, rfl⟩ | ⟨rfl, rfl⟩ := singleton_eq_append_iff.mp hsplit
    · exact not_spans_of_refuses hspace ⟨[' '], _, rfl, rfl⟩
    · exact absurd rfl hne)
  have hname : ((phrase words ++ space ++ tableName stops).find? (padded (s ++ (w ++ r)))).map (·.get "table") =
      some w := by
    rw [hpadded, hfound, Option.map_some, get_kept]
  rw [tableOfKind?_first hkind hname, hw.bareName_eq]

/-! ### The reader of schemas -/

namespace Schema

/-- What is read of a table and the text of its columns. -/
def created (table : String) (columns : List Char) : Except Fault Document := do
  let read := (← readColumns (strip columns)).map Value.doc
  return [("operation", .text "CREATE_TABLE"), ("table", .text table), ("columns", .list read),
    ("constraints", .doc (constraints (strip columns))), ("schema", .doc (← schema read))]

variable {t : Identifier}

theorem solid_behind_name (hg : ∀ c ∈ g, isBlank c) (r : List Char) :
    ∀ c ∈ (g ++ '(' :: r).head?, solid ['('] c = false := by
  cases g with
  | nil => rintro c ⟨⟩; rfl
  | cons d g =>
    rintro c ⟨⟩
    rw [solid, hg d (by simp)]
    rfl

/-- **The table of a creation**, whatever its layout and its columns. -/
theorem readCreate_laid (hs : Laid (["CREATE", "TABLE"] ++ guardWords ["IF", "NOT", "EXISTS"] guarded) s)
    (hg : ∀ c ∈ g, isBlank c) (columns : List Char) :
    readCreate (s ++ (t.chars ++ (g ++ '(' :: (columns ++ [')'])))) = created t.table columns := by
  have hwords := prefers_guarded (by decide) (by decide) hs t.isName hg (r := '(' :: (columns ++ [')']))
    (by rintro c ⟨⟩; decide)
  have hstop := solid_behind_name hg (columns ++ [')'])
  have hcreated : createdPattern.find? _ = _ :=
    (hwords.append (prefers_tableName t.isName (by decide) hstop [])).find?_here
  have hopen : (createWords ++ many1 (solid ['(']) ++ gap ++ exactly "(").Prefers
      (s ++ (t.chars ++ (g ++ '(' :: (columns ++ [')'])))) [] (columns ++ [')']) [] :=
    ((hwords.append (prefers_many1 t.ne_nil (fun _ => t.isName.unstopped (by decide)) hstop [])).append
      (prefers_many hg (by rintro c ⟨⟩; decide) [])).append (prefers_exactly "(" _ [])
  have hclose : Misses [')'] (exactly ")") := by
    intro v₁ v₂ hsplit hne b y h
    obtain ⟨rfl, -⟩ | ⟨-, rfl⟩ := singleton_eq_append_iff.mp hsplit
    · exact hne rfl
    · cases exists_of_spans_exactly h
  have hdefinitions : definitionsPattern.find? _ = _ :=
    (prefers_many_kept "definitions" hopen (fun _ _ => rfl) hclose (prefers_exactly ")" [] _)).find?_here
  rw [readCreate, hcreated, hdefinitions]
  simp only [get_kept, t.bareName_chars]
  rfl

theorem readDrop_laid (hs : Laid (["DROP", "TABLE"] ++ guardWords ["IF", "EXISTS"] guarded) s) :
    readDrop (s ++ t.chars) = .ok [("operation", .text "DROP_TABLE"), ("table", .text t.table)] := by
  have hdropped : droppedPattern.find? (s ++ (t.chars ++ [])) = _ :=
    ((prefers_guarded (by decide) (by decide) hs t.isName (g := []) (by simp) (by simp)).append
      (prefers_tableName t.isName (by decide) (by simp) [])).find?_here
  rw [← append_nil t.chars, readDrop, hdropped]
  simp only [get_kept, t.bareName_chars]
  rfl

end Schema

/-! ### The readers together -/

def foundTable (t : Identifier) : Bool → String
  | true => "if"
  | false => t.table

theorem tableOfKind?_guarded {ps : List Pattern} {t : Identifier} (hword : IsKeyword word.toList)
    (hkind : tablePatterns word = (phrase [word, "TABLE"] ++ space ++ tableName stops) :: ps)
    (hspace : (phrase [word, "TABLE"] ++ space ++ tableName stops).refuses [' '])
    (hs : Laid ([word, "TABLE"] ++ guardWords ("IF" :: vs) guarded) s)
    (hstops : ∀ c ∈ stops, isNameChar c = false) (hr : ∀ c ∈ r.head?, solid stops c = false)
    (hlast : ∀ c ∈ (t.chars ++ r).getLast?, isBlank c = false) :
    tableOfKind? (some word) (s ++ (t.chars ++ r)) = some (foundTable t guarded) := by
  have hwords : ∀ w ∈ [word, "TABLE"], IsKeyword w := by simpa using ⟨hword, by decide⟩
  obtain ⟨s₁, s₂, rfl, h₁, h₂⟩ := hs.exists_append
  cases guarded with
  | false =>
    cases h₂
    rw [append_nil]
    exact tableOfKind?_laid hkind hspace (by simp) hwords h₁ t.isName hstops hr hlast
  | true =>
    cases h₂ with
    | @cons _ _ k g s hk hg _ =>
      have hif : IsKeyword "IF" := by decide
      have htext : s₁ ++ (k ++ (g ++ s)) ++ (t.chars ++ r) = s₁ ++ (k ++ (g ++ (s ++ (t.chars ++ r)))) := by simp
      rw [htext, tableOfKind?_laid hkind hspace (by simp) hwords h₁ (isName_of_cased hif hk) hstops, hk.lower hif]
      · rfl
      · obtain ⟨d, g, rfl⟩ := exists_cons_of_ne_nil hg.1
        rintro c ⟨⟩
        rw [solid, hg.2 d (by simp)]
        rfl
      · rw [← append_assoc, ← append_assoc, getLast?_append_of_ne_nil _ (by simp [t.ne_nil])]
        exact hlast

/-- **The readers agree on the table unless the statement says `IF`**, whatever its layout. -/
theorem tables_agree_iff (t : Identifier) (guarded : Bool) :
    (∀ s g columns, Laid (["CREATE", "TABLE"] ++ guardWords ["IF", "NOT", "EXISTS"] guarded) s →
      (∀ c ∈ g, isBlank c = true) → ∀ text, text = s ++ (t.chars ++ (g ++ '(' :: (columns ++ [')']))) →
        Schema.readCreate text = Schema.created t.table columns ∧ (table? text = some (foundTable t guarded) ∨
          statementKind? text = some "UNKNOWN" ∧ table? text = none) ∧
        (';' ∉ columns → table? text = some (foundTable t guarded))) ∧
    (∀ s, Laid (["DROP", "TABLE"] ++ guardWords ["IF", "EXISTS"] guarded) s →
      Schema.readDrop (s ++ t.chars) = .ok [("operation", .text "DROP_TABLE"), ("table", .text t.table)] ∧
        table? (s ++ t.chars) = some (foundTable t guarded)) ∧
    (foundTable t guarded = t.table ↔ guarded = false ∨ t.table = "if") := by
  refine ⟨?_, ?_, ?_⟩
  · rintro s g columns hs hg text rfl
    have hkind := statementKind?_laid (.inl rfl) (by cases guarded <;> decide) hs
      (t.chars ++ (g ++ '(' :: (columns ++ [')'])))
    have hfound : tableOfKind? (some "CREATE") (s ++ (t.chars ++ (g ++ '(' :: (columns ++ [')'])))) =
        some (foundTable t guarded) := by
      refine tableOfKind?_guarded (by decide) rfl (by decide) hs (by decide) (Schema.solid_behind_name hg _) ?_
      rw [show t.chars ++ (g ++ '(' :: (columns ++ [')'])) = t.chars ++ (g ++ '(' :: columns) ++ [')'] by simp,
        getLast?_concat]
      rintro c ⟨⟩
      decide
    refine ⟨Schema.readCreate_laid hs hg columns, ?_, fun hcalm => ?_⟩
    · refine hkind.1.imp (fun h => ?_) fun h => ⟨h, ?_⟩
      · rw [table?, h, hfound]
      · rw [table?, h]
        rfl
    · have hsemicolon : ';' ∉ t.chars ++ (g ++ '(' :: (columns ++ [')'])) := by
        have hblanks : ';' ∉ g := fun h => by cases hg _ h
        simp [t.not_mem (c := ';') (by decide), hblanks, hcalm]
      rw [table?, hkind.2 (.inl hsemicolon), hfound]
  · intro s hs
    have hkind := (statementKind?_laid (.inr rfl) (by cases guarded <;> decide) hs t.chars).2
      (.inl (t.not_mem (by decide)))
    have hfound := tableOfKind?_guarded (r := []) (by decide) rfl (by decide) hs
      (by decide) (by simp) (fun c hc => t.solid (by simpa using mem_of_getLast? hc))
    rw [append_nil] at hfound
    exact ⟨Schema.readDrop_laid hs, by rw [table?, hkind, hfound]⟩
  · cases guarded with
    | false => simp [foundTable]
    | true => simp [foundTable, eq_comm]

/-- `DROP TABLE IF EXISTS t` names `t` for one reader and `if` for the other. -/
theorem dropped_table_guarded : Schema.readDrop "DROP TABLE IF EXISTS t".toList =
      .ok [("operation", .text "DROP_TABLE"), ("table", .text "t")] ∧
    table? "DROP TABLE IF EXISTS t".toList = some "if" ∧ ¬ "if" = "t" := by
  obtain ⟨-, hdropped, -⟩ := tables_agree_iff ⟨['t'], by decide, by decide⟩ true
  obtain ⟨hdrop, htable⟩ := hdropped "DROP TABLE IF EXISTS ".toList (laid_self _ (by decide))
  exact ⟨hdrop, htable, by decide⟩

end SqlGateway.Sql
