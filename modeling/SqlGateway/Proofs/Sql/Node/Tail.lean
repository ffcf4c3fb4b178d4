import SqlGateway.Proofs.Sql.Node.Joint
import SqlGateway.Proofs.Sql.Token.Semicolon

/-!
# What grouping leaves at the end

Loose nodes are blanks, semicolons and comments.  Behind nodes that are `Fit` they stay at the end through all
the passes, except that a condition may take all of them in; `Trails` says so, if one does not look into
groups (`flat`).
-/

namespace SqlGateway.Sql.Node

open Text List

variable {n x : Node} {p closes : Node → Bool} {ns rest t : List Node}
  {take : Node → List Node → Option (Node × Nat)} {kind : Kind}
variable {tail : List Node}

/-! ### Loose nodes -/

theorem isSpace_comp_flat : isSpace ∘ flat = isSpace :=
  funext isSpace_flat

theorem flat_bundle (kind : Kind) (grows : Bool) (ns : List Node) : flat (bundle kind grows ns) = group kind [] := by
  obtain ⟨inside, h⟩ := exists_bundle kind grows ns
  rw [h, flat_group]

theorem firstSolid?_flat (ns : List Node) : firstSolid? (ns.map flat) = (firstSolid? ns).map flat := by
  rw [firstSolid?, find?_map]
  congr 2
  funext n
  rw [Function.comp_apply, isSpace_flat]

theorem countToSolid_flat (ns : List Node) : countToSolid (ns.map flat) = countToSolid ns := by
  rw [countToSolid, countToSolid, takeWhile_map, length_map, isSpace_comp_flat]

/-! ### Solid nodes before a loose tail -/

theorem any_firstSolid? (hp : ∀ n, n.isLoose → p n = false) (htail : ∀ n ∈ tail, n.isLoose) :
    (firstSolid? (rest ++ tail)).any p = (firstSolid? rest).any p := by
  rw [firstSolid?, firstSolid?, find?_append]
  cases hrest : rest.find? fun n => !n.isSpace with
  | some n => rfl
  | none =>
    cases hfound : tail.find? fun n => !n.isSpace with
    | none => rfl
    | some n => exact hp n (htail n (mem_of_find?_eq_some hfound))

theorem countToSolid_append (h : firstSolid? rest = some n) (tail : List Node) :
    countToSolid (rest ++ tail) = countToSolid rest ∧ countToSolid rest ≤ rest.length := by
  obtain ⟨hn, u, v, rfl, hu⟩ := find?_eq_some_iff_append.mp h
  have hspace : n.isSpace = false := by simpa using hn
  have hblanks : ∀ m ∈ u, m.isSpace := fun m hm => by simpa using hu m hm
  rw [append_assoc, countToSolid, countToSolid, cons_append, Joint.takeWhile_isSpace hblanks hspace,
    Joint.takeWhile_isSpace hblanks hspace]
  simp

theorem countToSolid_of_any (h : (firstSolid? rest).any p) (tail : List Node) :
    countToSolid (rest ++ tail) = countToSolid rest ∧ countToSolid rest ≤ rest.length := by
  cases hrest : firstSolid? rest with
  | none =>
    rw [hrest] at h
    cases h
  | some n => exact countToSolid_append hrest tail

/-! ### What a pass keeps -/

/-- Nodes behind which a loose tail can stand by itself. -/
structure Fit (ns : List Node) : Prop where
  solid : ∀ n, ns.getLast? = some n → n.isLoose = false
  complete : ∀ n, ns.getLast? = some n → n.isWord "AS" = false ∧ n.isSign "::" = false
  calm : ∀ t, token t ∈ ns → t.kind ≠ .assignment

/-- A pass that invents no tokens and ends with the last node or with a group that is no comment. -/
structure Tidy (f : List Node → List Node) : Prop where
  tokens {ns : List Node} {t : Token} : token t ∈ f ns → token t ∈ ns
  last {ns : List Node} {n : Node} : (f ns).getLast? = some n →
    (∃ m, ns.getLast? = some m ∧ flat n = flat m) ∨ ∃ kind inside, n = group kind inside ∧ kind ≠ .comment

variable {f g : List Node → List Node} (enters : Kind → Bool)

theorem Tidy.fit (hf : Tidy f) (h : Fit ns) : Fit (f ns) where
  solid n hn := by
    rcases hf.last hn with ⟨m, hm, hflat⟩ | ⟨kind, inside, rfl, hkind⟩
    · rw [← isLoose_flat, hflat, isLoose_flat]
      exact h.solid m hm
    · show (false || [Kind.comment].contains kind) = false
      simpa using hkind
  complete n hn := by
    rcases hf.last hn with ⟨m, hm, hflat⟩ | ⟨kind, inside, rfl, -⟩
    · rw [← isWord_flat, ← isSign_flat, hflat, isWord_flat, isSign_flat]
      exact h.complete m hm
    · exact ⟨rfl, rfl⟩
  calm t ht := h.calm t (hf.tokens ht)

theorem Tidy.comp (hf : Tidy f) (hg : Tidy g) : Tidy fun ns => g (f ns) where
  tokens h := hf.tokens (hg.tokens h)
  last h := by
    rcases hg.last h with ⟨m, hm, hflat⟩ | hgroup
    · rcases hf.last hm with ⟨l, hl, hflat'⟩ | ⟨kind, inside, rfl, hkind⟩
      · exact .inl ⟨l, hl, hflat.trans hflat'⟩
      · rename_i n
        cases n with
        | token => cases hflat
        | group kind' inside' =>
          exact .inr ⟨kind', inside', rfl, (group.inj hflat).1 ▸ hkind⟩
    · exact .inr hgroup

theorem flat_rebuild (f : Option Kind → List Node → List Node) (n : Node) :
    flat (n.rebuild enters f) = flat n := by
  cases n with
  | token t => rw [rebuild_token]
  | group kind inside =>
    obtain ⟨inside', h⟩ := exists_rebuild_group enters f kind inside
    rw [h, flat_group, flat_group]

theorem map_flat_rebuildAll (f : Option Kind → List Node → List Node)
    (ns : List Node) : (rebuildAll enters f ns).map flat = ns.map flat := by
  rw [rebuildAll_eq_map, map_map]
  exact map_congr_left fun n _ => flat_rebuild enters f n

theorem tidy_rebuildAll (f : Option Kind → List Node → List Node) : Tidy (rebuildAll enters f) where
  tokens {ns t} := (tame_rebuildAll (w := t) enters f).tokens
  last h := by
    rw [rebuildAll_eq_map, getLast?_map] at h
    obtain ⟨m, hm, rfl⟩ := Option.map_eq_some_iff.mp h
    exact .inl ⟨m, hm, flat_rebuild enters f m⟩

theorem Tidy.everywhereBut (hf : Tidy f) (kind : Kind) : Tidy (everywhereBut kind f) :=
  (tidy_rebuildAll _ _).comp hf

theorem Tidy.ite (hf : Tidy f) (test : List Node → Bool) : Tidy fun ns => if test ns then ns else f ns where
  tokens h := by
    split at h
    · exact h
    · exact hf.tokens h
  last h := by
    split at h
    · exact .inl ⟨_, h, rfl⟩
    · exact hf.last h

/-- The last node is left, or it went into a group; a comment that ends with a comment looks as its last node
did. -/
theorem Bundled.last {ms : List Node} (h : Bundled ns ms) (hx : ms.getLast? = some x) :
    (∃ m, ns.getLast? = some m ∧ flat x = flat m) ∨ ∃ kind inside, x = group kind inside ∧ kind ≠ .comment := by
  induction h generalizing x with
  | refl => exact .inl ⟨x, hx, rfl⟩
  | @step kind inside a b c _ hcomment ih =>
    rw [getLast?_append, getLast?_cons] at hx
    cases hc : c.getLast? with
    | some y =>
      rw [hc] at hx
      exact ih (by rw [getLast?_append, hc]; exact hx)
    | none =>
      rw [hc] at hx
      obtain rfl : group kind inside = x := Option.some.inj hx
      by_cases hkind : kind = .comment
      · obtain ⟨-, hnil | ⟨z, hz, hflat⟩⟩ := hcomment hkind
        · exact absurd (getLast?_eq_none_iff.mp hc) hnil
        · rcases ih (by rw [getLast?_append, getLast?_append, hc, hz]; rfl) with
            ⟨m, hm, hsame⟩ | ⟨kind', inside', rfl, hne⟩
          · exact .inl ⟨m, hm, by rw [← hsame, hflat, hkind, flat_group]⟩
          · exact absurd (group.inj hflat).1 hne
      · exact .inr ⟨kind, inside, rfl, hkind⟩

theorem Tidy.of_bundled (h : ∀ ns, Bundled ns (f ns)) : Tidy f where
  tokens := (h _).tokens
  last := (h _).last

theorem tidy_gather_next {grows : Bool} {test : Node → List Node → Bool}
    {count : Node → List Node → Nat} (hkind : kind = .comment → ∀ n rest, test n rest →
      n.isComment ∧ count n rest < rest.length) : Tidy (gatherNext kind grows test count) :=
  .of_bundled (bundled_gather (gathers_withNext hkind))

/-! ### Passes that leave the tail as it is -/

/-- What can stand at the end of a statement: a loose token, or loose tokens that begin with a comment. -/
inductive Trailing : Node → Prop
  | token {t : Token} (hloose : t.isLoose) (hquiet : t.Quiet) : Trailing (token t)
  | comment {ts : List Token} (hne : ts ≠ []) (h : ∀ t ∈ ts, t.isLoose ∧ t.Quiet) :
    Trailing (group .comment (ts.map token))

theorem Trailing.isLoose (h : Trailing n) : n.isLoose := by
  cases h with
  | token hloose =>
    rw [isLoose, isToken, hloose]
    rfl
  | comment => rfl

theorem tokensOf_map_token : ∀ ts : List Token, tokensOf (ts.map token) = ts
  | [] => by rw [map_nil, tokensOf]
  | t :: ts => by
    rw [map_cons, tokensOf, tokens, tokensOf_map_token ts]
    rfl

theorem Trailing.text (h : Trailing n) : ∃ c s, n.text = c :: s ∧ upperChar c = [c] ∧ c ∉ ['A', 'C', 'T'] := by
  cases h with
  | token hloose hquiet =>
    obtain ⟨c, s, ht, hc⟩ := hquiet
    refine ⟨c, s, ?_, hc⟩
    rw [text, tokens, flatMap_singleton, ht]
  | @comment ts hne h =>
    obtain ⟨t, ts, rfl⟩ := exists_cons_of_ne_nil hne
    obtain ⟨c, s, ht, hc⟩ := (h t (by simp)).2
    refine ⟨c, s ++ ts.flatMap Token.text, ?_, hc⟩
    rw [text, tokens, tokensOf_map_token, flatMap_cons, ht]
    rfl

theorem isTableDefinition_append (htail : ∀ n ∈ tail, Trailing n) (ns : List Node) :
    isTableDefinition (ns ++ tail) = isTableDefinition ns := by
  have hupper : ∀ word : String, word.toList.head? ∈ [some 'C', some 'T'] →
      (tail.any fun n => upper n.text == word.toList) = false := by
    intro word hword
    rw [any_eq_false]
    intro n hn heq
    obtain ⟨c, s, htext, hc, hne⟩ := (htail n hn).text
    rw [beq_iff_eq, htext, upper, flatMap_cons, hc] at heq
    rw [← heq] at hword
    simp at hword hne
    tauto
  have has : (tail.any fun n => n.text == ['A', 'S']) = false := by
    rw [any_eq_false]
    intro n hn heq
    obtain ⟨c, s, htext, -, hne⟩ := (htail n hn).text
    rw [beq_iff_eq, htext] at heq
    rw [(cons.inj heq).1] at hne
    simp at hne
  simp only [isTableDefinition, any_append, hupper "CREATE" (by decide), hupper "TABLE" (by decide),
    has, Bool.or_false]

/-- A pass that leaves a tail as it is. -/
structure Exact (f : List Node → List Node) : Prop where
  tidy : Tidy f
  nil : f [] = []
  append {ns tail : List Node} : (∀ n ∈ tail, Trailing n) → f (ns ++ tail) = f ns ++ tail

theorem Exact.comp (hf : Exact f) (hg : Exact g) : Exact fun ns => g (f ns) where
  tidy := hf.tidy.comp hg.tidy
  nil := by rw [hf.nil, hg.nil]
  append h := by rw [hf.append h, hg.append h]

theorem Exact.ite (hf : Exact f) : Exact fun ns => if isTableDefinition ns then ns else f ns where
  tidy := hf.tidy.ite isTableDefinition
  nil := by rw [hf.nil, ite_self]
  append h := by
    rw [isTableDefinition_append h, hf.append h]
    split <;> rfl

theorem Exact.rebuild (hf : Exact f) (enters : Kind → Bool) (h : Trailing n) :
    n.rebuild enters (fun _ => f) = n := by
  cases h with
  | token => rw [rebuild_token]
  | @comment ts hne h =>
    have htokens : rebuildAll enters (fun _ => f) (ts.map token) = ts.map token := by
      rw [rebuildAll_eq_map, map_map]
      exact map_congr_left fun t _ => rebuild_token _ _ t
    have hsame : f (ts.map token) = ts.map token := by
      have happend : f ([] ++ ts.map token) = f [] ++ ts.map token := by
        refine hf.append fun n hn => ?_
        obtain ⟨t, ht, rfl⟩ := mem_map.mp hn
        exact .token (h t ht).1 (h t ht).2
      rwa [hf.nil] at happend
    rw [rebuild, htokens, hsame, ite_self]

theorem Exact.everywhereBut (hf : Exact f) (kind : Kind) : Exact (everywhereBut kind f) where
  tidy := hf.tidy.everywhereBut kind
  nil := by rw [Node.everywhereBut, rebuildAll, hf.nil]
  append {ns tail} h := by
    have htail : tail.map (Node.rebuild (· != kind) fun _ => f) = tail := by
      rw [map_congr_left fun n hn => hf.rebuild _ (h n hn)]
      exact map_id tail
    rw [Node.everywhereBut, Node.everywhereBut, rebuildAll_eq_map, rebuildAll_eq_map, map_append, htail,
      hf.append h]

theorem exact_encloseFrom {opens : Node → Bool} (hkind : kind ≠ .comment)
    (h : ∀ n, n.isLoose → opens n = false ∧ closes n = false) :
    Exact (encloseFrom kind opens closes [] []) where
  tidy := .of_bundled (bundled_encloseFrom hkind)
  nil := rfl
  append {ns tail} htail := by
    have hfrom : ∀ (ns done : List Node) (outer : List (List Node)),
        encloseFrom kind opens closes done outer (ns ++ tail) =
          encloseFrom kind opens closes done outer ns ++ tail := by
      intro ns
      induction ns with
      | nil =>
        intro done outer
        rw [nil_append, ← append_nil tail,
          encloseFrom_append fun n hn => h n (htail n hn).isLoose, encloseFrom, encloseFrom]
        simp
      | cons n ns ih =>
        intro done outer
        rw [cons_append, encloseFrom_cons, encloseFrom_cons]
        split
        · exact ih _ _
        · split
          · cases outer <;> exact ih _ _
          · exact ih _ _
    exact hfrom ns [] []

theorem gatherFrom_append {ns : List Node} {skip : Nat} (hskip : skip ≤ ns.length)
    (htake : ∀ n rest, n :: rest <:+ ns → take n (rest ++ tail) = take n rest ∧
      ∀ made count, take n rest = some (made, count) → count ≤ rest.length) :
    gatherFrom take skip (ns ++ tail) = gatherFrom take skip ns ++ gatherFrom take 0 tail := by
  induction ns generalizing skip with
  | nil =>
    obtain rfl : skip = 0 := Nat.le_zero.mp hskip
    rfl
  | cons n ns ih =>
    have hlater : ∀ {skip : Nat}, skip ≤ ns.length →
        gatherFrom take skip (ns ++ tail) = gatherFrom take skip ns ++ gatherFrom take 0 tail := by
      intro skip hskip
      exact ih hskip fun m rest hm => htake m rest (hm.trans (suffix_cons n ns))
    cases skip with
    | succ skip => exact hlater (Nat.le_of_succ_le_succ hskip)
    | zero =>
      obtain ⟨hsame, hcount⟩ := htake n ns (suffix_refl _)
      rw [cons_append, gatherFrom, gatherFrom, hsame]
      cases hmade : take n ns with
      | none => exact congrArg (n :: ·) (hlater (Nat.zero_le _))
      | some made =>
        obtain ⟨made, count⟩ := made
        exact congrArg (made :: ·) (hlater (hcount made count hmade))

theorem gatherFrom_of_none (h : ∀ n ∈ ns, ∀ rest, take n rest = none) : gatherFrom take 0 ns = ns := by
  simpa [gatherFrom] using gatherFrom_pass h []

/-- Whether a group begins, and how far it goes, does not depend on loose nodes at the end. -/
structure Halts (begins : Node → List Node → Bool) (size : Node → List Node → Nat) : Prop where
  loose {n : Node} {rest : List Node} : n.isLoose → begins n rest = false
  same {n : Node} {rest tail : List Node} : (∀ m ∈ tail, m.isLoose) →
    begins n (rest ++ tail) = begins n rest
  size {n : Node} {rest tail : List Node} : (∀ m ∈ tail, m.isLoose) → begins n rest →
    size n (rest ++ tail) = size n rest ∧ size n rest ≤ rest.length

section

variable {begins : Node → List Node → Bool} {size : Node → List Node → Nat} (h : Halts begins size)
  (kind : Kind) (grows : Bool)
include h

theorem Halts.gather_append (htail : ∀ n ∈ tail, n.isLoose) (ns : List Node) :
    gatherNext kind grows begins size (ns ++ tail) = gatherNext kind grows begins size ns ++ tail := by
  refine (gatherFrom_append (Nat.zero_le _) fun n rest _ => ?_).trans
    (congrArg _ (gatherFrom_of_none fun n hn rest => ?_))
  · rw [h.same htail]
    by_cases hn : begins n rest
    · obtain ⟨hsame, hle⟩ := h.size htail hn
      rw [if_pos hn, if_pos hn, hsame, withNext, withNext, take_append_of_le_length hle]
      refine ⟨rfl, fun made count hmade => ?_⟩
      obtain ⟨-, rfl⟩ := Prod.mk.inj (Option.some.inj hmade)
      exact hle
    · rw [if_neg hn, if_neg hn]
      refine ⟨rfl, fun made count hmade => ?_⟩
      cases hmade
  · rw [h.loose (htail n hn)]
    rfl

theorem Halts.exact (hkind : kind ≠ .comment) : Exact (gatherNext kind grows begins size) where
  tidy := tidy_gather_next fun h => absurd h hkind
  nil := rfl
  append htail := h.gather_append kind grows (fun n hn => (htail n hn).isLoose) _

end

/-! ### Comments -/

theorem takeWhile_append_of_mem (hx : x ∈ ns) (hp : p x = false) :
    (ns ++ t).takeWhile p = ns.takeWhile p ∧ (ns.takeWhile p).length < ns.length := by
  induction ns with
  | nil => cases hx
  | cons n ns ih =>
    by_cases hn : p n
    · rcases mem_cons.mp hx with rfl | hx
      · rw [hp] at hn
        cases hn
      · obtain ⟨hsame, hlt⟩ := ih hx
        simp [hn, hsame, hlt]
    · simp [hn]

theorem dropWhile_append_of_mem (hx : x ∈ ns) (hp : p x = false) :
    (ns ++ t).dropWhile p = ns.dropWhile p ++ t := by
  have hne : ns.dropWhile p ≠ [] := fun h => absurd (dropWhile_eq_nil_iff.mp h x hx) (by simp [hp])
  rw [dropWhile_append, if_neg (by simpa using hne)]

theorem comments_append (hns : ∀ n, ns.getLast? = some n → n.isLoose = false) (tail : List Node) :
    comments (ns ++ tail) = comments ns ++ comments tail := by
  have hloose : ∀ {n : Node}, (n.isTokenOf Token.Kind.isComment || n.isSpace) → n.isLoose := by
    intro n hn
    cases n with
    | group => cases hn
    | token t =>
      have ht : (t.kind.isComment || t.isSpace) := hn
      show (t.isLoose || false)
      rw [Token.isLoose, Bool.or_false, Bool.or_comm t.isSpace, ht]
      rfl
  refine gatherFrom_append (Nat.zero_le _) fun n rest hsuffix => ?_
  obtain ⟨pre, rfl⟩ := hsuffix
  by_cases hn : n.isTokenOf Token.Kind.isComment
  · obtain ⟨x, hx⟩ : ∃ x, rest.getLast? = some x := by
      cases hrest : rest.getLast? with
      | some x => exact ⟨x, rfl⟩
      | none =>
        have hlast := hns n (by rw [getLast?_append, getLast?_cons, hrest]; rfl)
        rw [hloose (by rw [hn]; rfl)] at hlast
        cases hlast
    have hlast := hns x (by rw [getLast?_append, getLast?_cons, hx]; rfl)
    have hstop : (x.isTokenOf Token.Kind.isComment || x.isSpace) = false := by
      rw [Bool.eq_false_iff]
      intro h
      rw [hloose h] at hlast
      cases hlast
    obtain ⟨hsame, hlt⟩ := takeWhile_append_of_mem (p := fun m => m.isTokenOf Token.Kind.isComment ||
      m.isSpace) (mem_of_getLast? hx) hstop
    have hlt' : ((rest ++ tail).takeWhile fun m => m.isTokenOf Token.Kind.isComment || m.isSpace).length <
        (rest ++ tail).length := by
      rw [hsame, length_append]
      omega
    simp only [hn, Bool.true_and, decide_eq_true_eq]
    rw [if_pos hlt', if_pos hlt, hsame, withNext, withNext, take_append_of_le_length (Nat.le_of_lt hlt)]
    refine ⟨rfl, fun made count hmade => ?_⟩
    obtain ⟨-, rfl⟩ := Prod.mk.inj (Option.some.inj hmade)
    exact Nat.le_of_lt hlt
  · simp only [hn, Bool.false_and]
    refine ⟨rfl, fun made count hmade => ?_⟩
    cases hmade

theorem trailing_comments {ts : List Token} (hts : ∀ t ∈ ts, t.isLoose ∧ t.Quiet) :
    ∀ n ∈ comments (ts.map token), Trailing n := by
  have hfrom : ∀ {take : Node → List Node → Option (Node × Nat)}, (∀ t rest made count,
      take (token t) rest = some (made, count) → made = group .comment (token t :: rest.take count)) →
      ∀ {ts : List Token}, (∀ t ∈ ts, t.isLoose ∧ t.Quiet) → ∀ {skip : Nat},
        ∀ n ∈ gatherFrom take skip (ts.map token), Trailing n := by
    intro take htake ts
    induction ts with
    | nil => intro _ skip n hn; cases hn
    | cons t ts ih =>
      intro hts skip n hn
      have hts' : ∀ u ∈ ts, u.isLoose ∧ u.Quiet := fun u hu => hts u (by simp [hu])
      rw [map_cons] at hn
      cases skip with
      | succ skip => exact ih hts' n hn
      | zero =>
        rw [gatherFrom] at hn
        split at hn
        case h_1 made count hmade =>
          rcases mem_cons.mp hn with rfl | hn
          · rw [htake t _ _ count hmade, ← map_take, ← map_cons]
            exact .comment (cons_ne_nil _ _) (forall_mem_cons.mpr
              ⟨hts t (by simp), fun u hu => hts' u (mem_of_mem_take hu)⟩)
          · exact ih hts' n hn
        case h_2 =>
          rcases mem_cons.mp hn with rfl | hn
          · exact .token (hts t (by simp)).1 (hts t (by simp)).2
          · exact ih hts' n hn
  refine hfrom (fun t rest made count h => ?_) hts
  simp only at h
  split at h
  · obtain ⟨rfl, rfl⟩ := Prod.mk.inj (Option.some.inj h)
    rfl
  · cases h

end SqlGateway.Sql.Node
