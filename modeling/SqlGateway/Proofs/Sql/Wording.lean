import SqlGateway.Proofs.Sql.Insert
import SqlGateway.Proofs.Sql.Semicolon
import SqlGateway.Proofs.Sql.StatementKind
import SqlGateway.Proofs.Sql.Where.Stop

/-!
# Statements in words

A statement of words has the kind of its first word (`statementKind?_of_head`), and its table is **the word
behind the first word that ends with the keyword** (`tableOfKind?_unwords`).
-/

namespace SqlGateway.Sql

open Text Pattern Where List Token

variable {v w : List Char} {ws ws' : List (List Char)} {ps : List Pattern}

/-! ### The kind -/

theorem not_spans_zone_of_word (hquote : '\'' ∉ v) (hterms : ∀ w ∈ v :: ws, IsTerm w)
    (hzone : spells "AT" v = false ∨ ∀ w ∈ ws.head?, opensWith ['T'] w = false)
    (b : Option Char) (y : Cursor) : ¬ zonePattern.Spans ⟨b, unwords (v :: ws)⟩ y := by
  intro h
  obtain ⟨w, d, g, l, r, hs, hword, hd, hg, hl⟩ := exists_of_spans_zone h
  obtain ⟨ws₁, ws₂, hlist, hne₁, hne₂, rfl, hrest⟩ :=
    exists_of_unwords_eq hd (fun w hw => (hterms w hw).solid) hs
  obtain ⟨v', ws₁, rfl⟩ := exists_cons_of_ne_nil hne₁
  obtain ⟨rfl, hws⟩ := cons.inj hlist
  have hsolid : ' ' ∉ unwords (v :: ws₁) := by
    intro hmem
    rcases hword with hword | hword
    · exact absurd (exists_of_mem_spells hword hmem) (by decide)
    · exact absurd (exists_of_mem_spells hword hmem) (by decide)
  cases ws₁ with
  | cons u ws₁ => exact hsolid (by rw [unwords_cons (by simp)]; simp)
  | nil =>
    rw [unwords_singleton] at hword
    rcases hword with hword | hword
    · rw [hword] at hzone
      obtain ⟨u, ws₂, rfl⟩ := exists_cons_of_ne_nil hne₂
      have hu := hterms u (by rw [hws]; simp)
      obtain ⟨t, ht, -⟩ := exists_unwords_cons u ws₂
      obtain ⟨c, u, rfl⟩ := exists_cons_of_ne_nil hu.ne_nil
      rw [ht, cons_append] at hrest
      cases g with
      | nil =>
        obtain ⟨rfl, -⟩ := cons.inj hrest
        have hopens : opensWith ['T'] (l :: u) := opensWith_iff.mpr ⟨[l], u, rfl, by simp [spells, hl]⟩
        rw [(hzone.resolve_left (by simp)) (l :: u) (by rw [hws]; rfl)] at hopens
        cases hopens
      | cons e g =>
        obtain ⟨rfl, -⟩ := cons.inj hrest
        have := hu.solid e (by simp)
        rw [hg e (by simp)] at this
        cases this
    · obtain ⟨c, hc, hsame⟩ := exists_mem_of_spells hword (l := '\'') (by decide)
      obtain rfl : c = '\'' := by simpa [sameLetter] using hsame
      exact hquote hc

/-- **The kind of a statement of words** is its first word. -/
theorem statementKind?_of_head {w : String} (hw : w ∈ documentWords)
    (hterms : ∀ w ∈ v :: ws, IsTerm w) (hhead : ∀ c ∈ v.head?, c ∉ ['.', ':']) (hquote : '\'' ∉ v)
    (hzone : spells "AT" v = false ∨ ∀ w ∈ ws.head?, opensWith ['T'] w = false) :
    statementKind? (unwords (w :: v :: ws)) = some w := by
  have hspans := not_spans_zone_of_word hquote hterms hzone (some ' ')
  have hsemicolon := semicolon_not_mem_unwords hterms
  obtain ⟨t, ht, -⟩ := exists_unwords_cons v ws
  have hv := hterms v (by simp)
  obtain ⟨c, v, rfl⟩ := exists_cons_of_ne_nil hv.ne_nil
  have hc := hhead c rfl
  simp only [mem_cons, not_mem_nil, or_false, not_or] at hc
  rw [ht] at hspans hsemicolon
  rw [unwords_cons (by simp), ht]
  refine statementKind?_eq_documentWord hw (v ++ t) (hv.solid c (by simp)) hc.1 hc.2 hspans (.inl ?_)
  have hword : ';' ∉ w.toList := by
    rcases documentWords_cases hw with rfl | rfl | rfl | rfl <;> decide
  intro hmem
  rcases mem_append.mp hmem with hmem | hmem
  · exact hword hmem
  · rcases mem_cons.mp hmem with h | hmem
    · exact absurd h (by decide)
    · exact hsemicolon hmem

theorem statementKind?_unwords {w : String} (hw : w ∈ documentWords)
    (hterms : ∀ w ∈ v :: ws, IsTerm w) (hplain : ∀ c ∈ v, c ∉ ['.', ':', '\''])
    (hzone : spells "AT" v = false ∨ ∀ w ∈ ws.head?, opensWith ['T'] w = false) :
    statementKind? (unwords (w :: v :: ws)) = some w :=
  statementKind?_of_head hw hterms
    (fun c hc hmark => hplain c (mem_of_mem_head? hc) (by simp at hmark ⊢; tauto))
    (fun hmem => hplain _ hmem (by decide)) hzone

/-! ### The table -/

/-- **The table of a statement of words** is the word behind the first that ends with the keyword. -/
theorem tableOfKind?_unwords {kind K : String}
    (hkind : tablePatterns kind = (lit K ++ space ++ tableName nameStops) :: ps) (hK : IsKeyword K)
    (hterms : ∀ u ∈ ws ++ w :: v :: ws', IsTerm u) (hno : ∀ u ∈ ws, closesWith K u = false)
    (hw : closesWith K w) (hv : ∀ c ∈ v, solid nameStops c) :
    tableOfKind? (some kind) (unwords (ws ++ w :: v :: ws')) = some (String.ofList (lower (bareName v))) := by
  obtain ⟨x, k, rfl, hk⟩ := closesWith_iff.mp hw
  have hvterm := hterms v (by simp)
  obtain ⟨r, hr, hblank⟩ := exists_unwords_cons v (ws' ++ [[]])
  have hpadded : padded (unwords (ws ++ (x ++ k) :: v :: ws')) =
      (unwords ([] :: ws) ++ ' ' :: x) ++ (k ++ ([' '] ++ (v ++ r))) := by
    have hall : [] :: ((ws ++ (x ++ k) :: v :: ws') ++ [[]]) =
        ([] :: ws) ++ (x ++ k) :: v :: (ws' ++ [[]]) := by simp
    have hcons : unwords ((x ++ k) :: v :: (ws' ++ [[]])) =
        (x ++ k) ++ ' ' :: unwords (v :: (ws' ++ [[]])) := rfl
    rw [padded_unwords hterms (by simp), hall, unwords_append (by simp) (by simp), hcons, hr]
    simp
  have hhead := head_solid_append hvterm.ne_nil hvterm.solid r
  have hprefers : (lit K ++ space ++ tableName nameStops).Prefers (k ++ ([' '] ++ (v ++ r))) [] r
      [("table", ⟨v ++ r, r⟩)] :=
    ((prefers_lit hk _ []).append (prefers_many1 (by simp) (by simp) hhead [])).append
      ((prefers_many1 hvterm.ne_nil hv (fun c hc => by simp [solid, hblank c hc]) []).keep "table")
  refine tableOfKind?_first hkind ?_
  have hfound := hprefers.find? (u := unwords ([] :: ws) ++ ' ' :: x) (by
    rintro u₁ u₂ hsplit hne₂ b y ⟨z, ⟨z', hlit, hspace⟩, -⟩
    refine not_spans_before_closing hK ?_ ?_ (hterms (x ++ k) (by simp)).solid hk hsplit
      hne₂ (head_of_spans_space hspace) hlit
    · exact forall_mem_cons.mpr ⟨solid_nil, fun u hu => (hterms u (by simp [hu])).solid⟩
    · exact forall_mem_cons.mpr ⟨hK.closesWith_nil, hno⟩)
  rw [hpadded, hfound, Option.map_some]
  exact congrArg some (pieceBefore_append v r)

theorem tableOfKind?_name {kind K : String}
    (hkind : tablePatterns kind = (lit K ++ space ++ tableName nameStops) :: ps) (hK : IsKeyword K)
    {i : Identifier} (hterms : ∀ u ∈ ws ++ w :: i.chars :: ws', IsTerm u)
    (hno : ∀ u ∈ ws, closesWith K u = false) (hw : closesWith K w) :
    tableOfKind? (some kind) (unwords (ws ++ w :: i.chars :: ws')) = some i.table := by
  rw [tableOfKind?_unwords hkind hK hterms hno hw fun _ => i.unstopped, i.bareName_chars, Identifier.table]

end SqlGateway.Sql
