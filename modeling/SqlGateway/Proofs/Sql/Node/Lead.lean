import Mathlib.Data.List.TakeDrop
import SqlGateway.Proofs.Sql.Node.Test

/-!
# What grouping leaves at the front

A pass is `Tame` for a data keyword at the front if it invents no tokens, leaves there the keyword or a group
that is no comment, and leaves the keyword alone if a sturdy node follows.  All ways to make groups bundle
consecutive nodes (`Bundled`).  Where an assignment reaches over a semicolon, joining counts wrong places, so
the last property asks for nodes that are `Calm`.
-/

namespace SqlGateway.Sql.Node

open List

variable {done done' : List Node} {outer outer' : List (List Node)}
variable {t : Token} {g ns : List Node} {kind : Kind} {closes follows opens : Node → Bool}
  {join : Node → List Node → Option Node}
variable {n made : Node} {ms : List Node} {f : List Node → List Node}

/-- Not a token that can be taken into the group of whatever stands before it. -/
def Sturdy (n : Node) : Prop :=
  ∀ t, n = token t → t.Sturdy

theorem sturdy_group (kind : Kind) (inside : List Node) : Sturdy (group kind inside) :=
  fun _ h => nomatch h

theorem Sturdy.isSpace (h : Sturdy n) : n.isSpace = false := by
  cases n with
  | token t => exact (h t rfl).isSpace
  | group => rfl

/-- No semicolon stands among the nodes, or no assignment sign. -/
def Calm (ns : List Node) : Prop :=
  (∀ t, token t ∈ ns → t.isSign ";" = false) ∨ (∀ t, token t ∈ ns → t.kind ≠ .assignment)

theorem Calm.mono {ns : List Node} (h : Calm ns) (hsub : ∀ t, token t ∈ ms → token t ∈ ns) : Calm ms :=
  h.imp (fun h t ht => h t (hsub t ht)) (fun h t ht => h t (hsub t ht))

section Front

variable (w : Token) {rest more : List Node} {last : Node}

/-- What may stand at the front: the keyword, or a group that is no comment. -/
def Fronts (n : Node) : Prop :=
  n = token w ∨ ∃ kind inside, n = group kind inside ∧ kind ≠ .comment

/-- The keyword stands first, and the first solid node behind it is sturdy. -/
def Led (ns : List Node) : Prop :=
  ∃ blanks m rest, ns = token w :: (blanks ++ m :: rest) ∧ (∀ n ∈ blanks, n.isSpace) ∧ Sturdy m

/-- What a pass does to nodes with the keyword `w` at the front. -/
structure Tame (f : List Node → List Node) : Prop where
  tokens {ns : List Node} {t : Token} : token t ∈ f ns → token t ∈ ns
  fronts {n : Node} {ns : List Node} : Fronts w n → ∃ m ms, f (n :: ns) = m :: ms ∧ Fronts w m
  led {ns : List Node} : Calm ns → Led w ns → Led w (f ns)

variable {w}

theorem Tame.comp {g : List Node → List Node} (hf : Tame w f) (hg : Tame w g) : Tame w fun ns => g (f ns) where
  tokens h := hf.tokens (hg.tokens h)
  fronts h := by
    obtain ⟨m, ms, hm, hfront⟩ := hf.fronts h
    rw [hm]
    exact hg.fronts hfront
  led hcalm hled := hg.led (hcalm.mono fun _ h => hf.tokens h) (hf.led hcalm hled)

/-! ### Bundling -/

/-- The nodes come from `ns` by making groups of consecutive ones.  A comment is made of nodes that begin with
a comment, and before other nodes only, unless the last of them is a comment too. -/
inductive Bundled (ns : List Node) : List Node → Prop
  | refl : Bundled ns ns
  | step {kind : Kind} {inside a b c : List Node} (h : Bundled ns (a ++ b ++ c))
      (hcomment : kind = .comment → (∃ n, b.head? = some n ∧ n.isComment) ∧
        (c ≠ [] ∨ ∃ n, b.getLast? = some n ∧ flat n = group .comment [])) :
      Bundled ns (a ++ group kind inside :: c)

theorem Bundled.tokens (h : Bundled ns ms) (ht : token t ∈ ms) : token t ∈ ns := by
  induction h with
  | refl => exact ht
  | step _ _ ih =>
    simp only [mem_append, mem_cons, reduceCtorEq, false_or] at ht ih
    exact ih (ht.imp_left .inl)

theorem Bundled.front (h : Bundled (n :: ns) ms) : ∃ m rest, ms = m :: rest ∧
    (m = n ∨ ∃ kind inside, m = group kind inside ∧ (kind = .comment → n.isComment)) := by
  induction h with
  | refl => exact ⟨n, ns, rfl, .inl rfl⟩
  | @step kind inside a b c _ hcomment ih =>
    obtain ⟨m, rest, hm, hfront⟩ := ih
    cases a with
    | cons x a =>
      obtain ⟨rfl, -⟩ := cons.inj hm
      exact ⟨x, _, rfl, hfront⟩
    | nil =>
      refine ⟨_, c, rfl, .inr ⟨kind, inside, rfl, fun hkind => ?_⟩⟩
      obtain ⟨⟨x, hx, hcom⟩, -⟩ := hcomment hkind
      obtain ⟨b, rfl⟩ := head?_eq_some_iff.mp hx
      obtain ⟨rfl, -⟩ := cons.inj hm
      rcases hfront with rfl | ⟨kind', inside', rfl, hkind'⟩
      · exact hcom
      · exact hkind' (by simpa [isComment, isTokenOf, isToken, isGroupOf] using hcom)

theorem Tame.of_bundled (hw : (token w).isComment = false) (h : ∀ ns, Bundled ns (f ns))
    (hled : ∀ {ns}, Calm ns → Led w ns → Led w (f ns)) : Tame w f where
  tokens := (h _).tokens
  fronts {n ns} hn := by
    obtain ⟨m, rest, hm, rfl | ⟨kind, inside, rfl, hkind⟩⟩ := (h (n :: ns)).front
    · exact ⟨m, rest, hm, hn⟩
    · refine ⟨_, rest, hm, .inr ⟨kind, inside, rfl, fun hcomment => ?_⟩⟩
      have hcom := hkind hcomment
      rcases hn with rfl | ⟨kind', inside', rfl, hne⟩
      · rw [hw] at hcom
        cases hcom
      · simp [isComment, isTokenOf, isToken, isGroupOf, hne] at hcom
  led := hled

/-! ### Inside groups -/

theorem rebuild_token (enters : Kind → Bool) (f : Option Kind → List Node → List Node) (t : Token) :
    (token t).rebuild enters f = token t := by
  rw [rebuild]

theorem exists_rebuild_group (enters : Kind → Bool) (f : Option Kind → List Node → List Node)
    (kind : Kind) (inside : List Node) :
    ∃ inside', (group kind inside).rebuild enters f = group kind inside' := by
  rw [rebuild]
  split
  · exact ⟨_, rfl⟩
  · exact ⟨_, rfl⟩

theorem rebuildAll_eq_map (enters : Kind → Bool) (f : Option Kind → List Node → List Node) :
    ∀ ns : List Node, rebuildAll enters f ns = ns.map (rebuild enters f)
  | [] => by rw [rebuildAll]; rfl
  | n :: ns => by rw [rebuildAll, rebuildAll_eq_map enters f ns, map_cons]

theorem tame_rebuildAll (enters : Kind → Bool) (f : Option Kind → List Node → List Node) :
    Tame w (rebuildAll enters f) where
  tokens {ns t} h := by
    rw [rebuildAll_eq_map, mem_map] at h
    obtain ⟨n, hn, hnt⟩ := h
    cases n with
    | token u =>
      rwa [← hnt]
    | group kind inside =>
      obtain ⟨inside', h'⟩ := exists_rebuild_group enters f kind inside
      rw [h'] at hnt
      cases hnt
  fronts {n ns} h := by
    refine ⟨_, _, rfl, ?_⟩
    rcases h with rfl | ⟨kind, inside, rfl, hkind⟩
    · exact .inl rfl
    · obtain ⟨inside', h'⟩ := exists_rebuild_group enters f kind inside
      rw [h']
      exact .inr ⟨kind, inside', rfl, hkind⟩
  led {ns} _ hled := by
    obtain ⟨blanks, m, rest, rfl, hblanks, hm⟩ := hled
    rw [rebuildAll_eq_map, map_cons, map_append, map_cons, rebuild_token]
    refine ⟨_, _, _, rfl, ?_, ?_⟩
    · intro n' hn'
      obtain ⟨n, hn, rfl⟩ := mem_map.mp hn'
      cases n with
      | token t =>
        exact hblanks _ hn
      | group => exact absurd (hblanks _ hn) (by simp [isSpace, isToken])
    · cases m with
      | token t => rwa [rebuild_token]
      | group kind inside =>
        obtain ⟨inside', h'⟩ := exists_rebuild_group enters f kind inside
        rw [h']
        exact sturdy_group _ _

theorem Tame.everywhereBut (hf : Tame w f) (kind : Kind) : Tame w (everywhereBut kind f) :=
  (tame_rebuildAll _ _).comp hf

/-! ### Nodes with their followers -/

section Gather

variable {take : Node → List Node → Option (Node × Nat)}

/-- What is taken is made a group, and a comment is not made of all the nodes that are left. -/
def Gathers (take : Node → List Node → Option (Node × Nat)) : Prop :=
  ∀ ⦃n rest made count⦄, take n rest = some (made, count) → ∃ kind inside, made = group kind inside ∧
    (kind = .comment → n.isComment ∧ count < rest.length)

theorem bundled_gather (hmade : Gathers take) (ns : List Node) : Bundled ns (gather take ns) := by
  have hfrom : ∀ {rest : List Node} {skip : Nat} {pre : List Node}, Bundled ns (pre ++ rest.drop skip) →
      Bundled ns (pre ++ gatherFrom take skip rest) := by
    intro rest
    induction rest with
    | nil => intro skip pre h; rwa [drop_nil] at h
    | cons n rest ih =>
      intro skip pre h
      cases skip with
      | succ skip => exact ih h
      | zero =>
        rw [gatherFrom]
        split
        case h_2 =>
          rw [append_cons]
          exact ih (by simpa using h)
        case h_1 made count htake =>
          obtain ⟨kind, inside, rfl, hcomment⟩ := hmade htake
          rw [append_cons]
          refine ih ?_
          rw [append_assoc]
          refine .step (b := n :: rest.take count) (c := rest.drop count) ?_ fun hkind => ?_
          · rwa [append_assoc, cons_append, take_append_drop]
          · obtain ⟨hn, hlt⟩ := hcomment hkind
            exact ⟨⟨n, rfl, hn⟩, .inl (by rw [ne_eq, drop_eq_nil_iff]; omega)⟩
  exact @hfrom ns 0 [] .refl

theorem gatherFrom_pass {pre : List Node} (h : ∀ n ∈ pre, ∀ rest, take n rest = none) (ns : List Node) :
    gatherFrom take 0 (pre ++ ns) = pre ++ gatherFrom take 0 ns := by
  induction pre with
  | nil => rfl
  | cons n pre ih =>
    rw [cons_append, gatherFrom, h n (by simp), ih fun m hm => h m (by simp [hm]), cons_append]

theorem tame_gather (hcomment : (token w).isComment = false) (hmade : Gathers take)
    (hw : ∀ rest, take (token w) rest = none)
    (hspace : ∀ n rest, n.isSpace → take n rest = none) : Tame w (gather take) := by
  refine .of_bundled hcomment (bundled_gather hmade) ?_
  rintro ns - ⟨blanks, m, rest, rfl, hblanks, hm⟩
  have hpre : ∀ n ∈ token w :: blanks, ∀ rest, take n rest = none :=
    forall_mem_cons.mpr ⟨hw, fun n hn rest => hspace n rest (hblanks n hn)⟩
  rw [gather, ← cons_append, gatherFrom_pass hpre, gatherFrom]
  cases htake : take m rest with
  | none => exact ⟨blanks, m, _, rfl, hblanks, hm⟩
  | some made =>
    obtain ⟨made, count⟩ := made
    obtain ⟨kind, inside, rfl, -⟩ := hmade htake
    exact ⟨blanks, _, _, rfl, hblanks, sturdy_group _ _⟩

end Gather

theorem exists_bundle (kind : Kind) (grows : Bool) (ns : List Node) :
    ∃ inside, bundle kind grows ns = group kind inside := by
  rw [bundle.eq_def]
  split
  · split
    · exact ⟨_, rfl⟩
    · exact ⟨_, rfl⟩
  · exact ⟨_, rfl⟩

/-- Groups the nodes that pass a test with some of those behind them. -/
abbrev gatherNext (kind : Kind) (grows : Bool) (test : Node → List Node → Bool)
    (count : Node → List Node → Nat) : List Node → List Node :=
  gather fun n rest => if test n rest then some (withNext kind grows n rest (count n rest)) else none

theorem gathers_withNext {grows : Bool} {test : Node → List Node → Bool} {count : Node → List Node → Nat}
    (hkind : kind = .comment → ∀ n rest, test n rest → n.isComment ∧ count n rest < rest.length) :
    Gathers fun n rest => if test n rest then some (withNext kind grows n rest (count n rest)) else none := by
  intro n rest made taken h
  simp only at h
  split at h
  case isFalse => cases h
  case isTrue hn =>
    obtain ⟨inside, hinside⟩ := exists_bundle kind grows (n :: rest.take (count n rest))
    obtain ⟨rfl, rfl⟩ := Prod.mk.inj (Option.some.inj h)
    exact ⟨kind, inside, hinside, fun hcomment => hkind hcomment n rest hn⟩

theorem comment_of_test {count : Nat}
    (h : (n.isTokenOf Token.Kind.isComment && decide (count < rest.length))) :
    n.isComment ∧ count < rest.length := by
  rw [Bool.and_eq_true, decide_eq_true_eq] at h
  exact ⟨by rw [isComment, h.1]; rfl, h.2⟩

/-! ### Enclosed nodes -/

theorem encloseFrom_cons (kind : Kind) (opens closes : Node → Bool) (done : List Node)
    (outer : List (List Node)) (n : Node) (rest : List Node) :
    encloseFrom kind opens closes done outer (n :: rest) =
      if opens n then encloseFrom kind opens closes [n] (done :: outer) rest
      else if closes n then
        match outer with
        | [] => encloseFrom kind opens closes (n :: done) [] rest
        | around :: outer =>
          encloseFrom kind opens closes (group kind (n :: done).reverse :: around) outer rest
      else encloseFrom kind opens closes (n :: done) outer rest :=
  encloseFrom.eq_def kind opens closes done outer (n :: rest)

/-- Two states of enclosing that differ in the nodes `g` at the bottom only. -/
inductive Grounded (g : List Node) : List Node → List (List Node) → List Node → List (List Node) → Prop
  | bottom (done : List Node) : Grounded g done [] (done ++ g) []
  | above {around around' : List Node} {outer outer' : List (List Node)} (done : List Node) :
      Grounded g around outer around' outer' →
      Grounded g done (around :: outer) done (around' :: outer')

theorem Grounded.cons
    (h : Grounded g done outer done' outer') (n : Node) : Grounded g (n :: done) outer (n :: done') outer' := by
  cases h with
  | bottom => exact .bottom (n :: done)
  | above done h => exact .above (n :: done) h

theorem Grounded.flatten
    (h : Grounded g done outer done' outer') : done' ++ outer'.flatten = done ++ outer.flatten ++ g := by
  induction h with
  | bottom => simp
  | above done h ih => rw [flatten_cons, flatten_cons, ih, ← append_assoc]

theorem encloseFrom_grounded {ns : List Node}
    (h : Grounded g done outer done' outer') : encloseFrom kind opens closes done' outer' ns =
      g.reverse ++ encloseFrom kind opens closes done outer ns := by
  induction ns generalizing done done' outer outer' with
  | nil =>
    rw [encloseFrom, encloseFrom, h.flatten, reverse_append]
  | cons n ns ih =>
    rw [encloseFrom_cons, encloseFrom_cons]
    by_cases ho : opens n
    · rw [if_pos ho, if_pos ho]
      exact ih (.above [n] h)
    · rw [if_neg ho, if_neg ho]
      by_cases hc : closes n
      · rw [if_pos hc, if_pos hc]
        cases h with
        | bottom => exact ih (.bottom (n :: done))
        | above done h => exact ih (h.cons _)
      · rw [if_neg hc, if_neg hc]
        exact ih (h.cons n)

theorem bundled_encloseFrom (hkind : kind ≠ .comment) (ns : List Node) :
    Bundled ns (encloseFrom kind opens closes [] [] ns) := by
  have hfrom : ∀ {rest done : List Node} {outer : List (List Node)},
      Bundled ns ((done ++ outer.flatten).reverse ++ rest) →
        Bundled ns (encloseFrom kind opens closes done outer rest) := by
    intro rest
    induction rest with
    | nil => intro done outer h; rwa [append_nil] at h
    | cons n rest ih =>
      intro done outer h
      rw [encloseFrom_cons]
      split
      · exact ih (by simpa using h)
      · split
        · cases outer with
          | nil => exact ih (by simpa using h)
          | cons around outer =>
            refine ih ?_
            rw [cons_append, reverse_cons, append_assoc]
            exact .step (b := (n :: done).reverse) (by simpa using h) fun h => absurd h hkind
        · exact ih (by simpa using h)
  exact hfrom .refl

theorem encloseFrom_append {pre : List Node} (h : ∀ n ∈ pre, opens n = false ∧ closes n = false)
    (done : List Node) (outer : List (List Node)) (ns : List Node) :
    encloseFrom kind opens closes done outer (pre ++ ns) =
      encloseFrom kind opens closes (pre.reverse ++ done) outer ns := by
  induction pre generalizing done with
  | nil => rfl
  | cons n pre ih =>
    obtain ⟨ho, hc⟩ := h n (by simp)
    rw [cons_append, encloseFrom_cons, ho, hc, if_neg Bool.false_ne_true,
      if_neg Bool.false_ne_true, ih fun m hm => h m (by simp [hm]), reverse_cons, append_assoc]
    rfl

theorem tame_encloseFrom (hcomment : (token w).isComment = false) (hkind : kind ≠ .comment)
    (hw : opens (token w) = false ∧ closes (token w) = false)
    (hspace : ∀ n, n.isSpace → opens n = false ∧ closes n = false) :
    Tame w (encloseFrom kind opens closes [] []) := by
  refine .of_bundled hcomment (bundled_encloseFrom hkind) ?_
  rintro ns - ⟨blanks, m, rest, rfl, hblanks, hm⟩
  have hpre : ∀ n ∈ token w :: blanks, opens n = false ∧ closes n = false :=
    forall_mem_cons.mpr ⟨hw, fun n hn => hspace n (hblanks n hn)⟩
  have hbundled : Bundled (m :: rest) (encloseFrom kind opens closes [] [] (m :: rest)) :=
    bundled_encloseFrom hkind _
  obtain ⟨m', ms, hms, hm'⟩ := hbundled.front
  have hground : encloseFrom kind opens closes (token w :: blanks).reverse [] (m :: rest) =
      token w :: blanks ++ encloseFrom kind opens closes [] [] (m :: rest) := by
    rw [← nil_append (token w :: blanks).reverse, encloseFrom_grounded (.bottom []), reverse_reverse]
  rw [← cons_append, encloseFrom_append hpre, append_nil, hground, hms]
  refine ⟨blanks, m', ms, rfl, hblanks, ?_⟩
  rcases hm' with rfl | ⟨kind', inside, rfl, -⟩
  · exact hm
  · exact sturdy_group _ _

/-! ### Nodes with the one before them -/

def attachStep (follows : Node → Bool) (join : Node → List Node → Option Node) (done : List Node)
    (n : Node) : List Node :=
  if follows n then attachTo join done n else n :: done

/-- A node is put before the others, or goes into a group with the solid node before it. -/
theorem attachStep_cases (follows : Node → Bool) (join : Node → List Node → Option Node)
    (done : List Node) (n : Node) : attachStep follows join done n = n :: done ∨
      ∃ blanks last others made, follows n ∧ done = blanks ++ last :: others ∧
        (∀ b ∈ blanks, b.isSpace) ∧ last.isSpace = false ∧
        join last (blanks.reverse ++ [n]) = some made ∧ attachStep follows join done n = made :: others := by
  rw [attachStep]
  split
  case isFalse => exact .inl rfl
  case isTrue hn =>
    rw [attachTo, span_eq_takeWhile_dropWhile]
    cases hdrop : done.dropWhile isSpace with
    | nil => exact .inl rfl
    | cons last others =>
      cases hjoin : join last ((done.takeWhile isSpace).reverse ++ [n]) with
      | none => exact .inl (by simp only [hjoin])
      | some made =>
        refine .inr ⟨done.takeWhile isSpace, last, others, made, hn, ?_, ?_, ?_, hjoin, ?_⟩
        · rw [← hdrop, takeWhile_append_dropWhile]
        · exact fun b hb => all_eq_true.mp all_takeWhile b hb
        · exact Text.head?_dropWhile isSpace done last (by rw [hdrop]; rfl)
        · simp only [hjoin]

theorem attach_eq (follows : Node → Bool) (join : Node → List Node → Option Node) (ns : List Node) :
    attach follows join ns = (ns.foldl (attachStep follows join) []).reverse :=
  rfl

/-- What is attached goes into a group, and a comment is made of comments only. -/
def Attaches (follows : Node → Bool) (join : Node → List Node → Option Node) : Prop :=
  ∀ ⦃n last more made⦄, follows n → join last (more ++ [n]) = some made → ∃ kind inside,
    made = group kind inside ∧ (kind = .comment → last.isComment ∧ flat n = group .comment [])

theorem bundled_attach (hmade : Attaches follows join) (ns : List Node) : Bundled ns (attach follows join ns) := by
  have hsteps : ∀ {rest done : List Node}, Bundled ns (done.reverse ++ rest) →
      Bundled ns (rest.foldl (attachStep follows join) done).reverse := by
    intro rest
    induction rest with
    | nil => intro done h; rwa [append_nil] at h
    | cons n rest ih =>
      intro done h
      refine ih ?_
      rcases attachStep_cases follows join done n with hstep |
        ⟨blanks, last, others, made, hn, rfl, -, -, hjoin, hstep⟩
      · rw [hstep]
        simpa using h
      · obtain ⟨kind, inside, rfl, hcomment⟩ := hmade hn hjoin
        rw [hstep, reverse_cons, append_assoc]
        refine .step (b := last :: (blanks.reverse ++ [n])) (by simpa using h) fun hkind => ?_
        obtain ⟨hlast, hflat⟩ := hcomment hkind
        exact ⟨⟨last, rfl, hlast⟩, .inr ⟨n, by rw [getLast?_cons, getLast?_concat]; rfl, hflat⟩⟩
  exact @hsteps ns [] .refl

theorem attaches_directed : Attaches follows fun last more =>
    if last.isGroupOf [.named] || last.isTokenOf Token.Kind.isNumeric then some (bundle .named false (last :: more))
    else none := by
  intro n last more made _ h
  simp only at h
  split at h
  case isFalse => cases h
  case isTrue =>
    obtain ⟨inside, hinside⟩ := exists_bundle .named false (last :: (more ++ [n]))
    exact ⟨.named, inside, (Option.some.inj h).symm.trans hinside, nofun⟩

theorem attaches_extended? : Attaches (·.isGroupOf [.comment]) fun last more => extended? more last := by
  intro n last more made hn h
  cases last with
  | token => cases h
  | group kind inside =>
    refine ⟨kind, inside ++ (more ++ [n]), (Option.some.inj h).symm, ?_⟩
    rintro rfl
    cases n with
    | token => cases hn
    | group kind inside' =>
      obtain rfl : kind = .comment := by simpa [isGroupOf] using hn
      exact ⟨rfl, rfl⟩

theorem attachSteps_pass {ns : List Node} (h : ∀ n ∈ ns, follows n = false) :
    ns.foldl (attachStep follows join) done = ns.reverse ++ done := by
  induction ns generalizing done with
  | nil => rfl
  | cons n ns ih =>
    rw [foldl_cons, attachStep, h n (by simp), if_neg Bool.false_ne_true,
      ih fun x hx => h x (by simp [hx]), reverse_cons, append_assoc]
    rfl

theorem attachSteps_ground (hmade : Attaches follows join) (h : ∃ top m, done = top ++ m :: g ∧ Sturdy m) :
    ∃ top m, ns.foldl (attachStep follows join) done = top ++ m :: g ∧ Sturdy m := by
  induction ns generalizing done with
  | nil => exact h
  | cons n ns ih =>
    obtain ⟨top, m, rfl, hm⟩ := h
    apply ih
    rcases attachStep_cases follows join (top ++ m :: g) n with hstep |
      ⟨blanks, last, others, made, hn, hdone, hblanks, -, hjoin, hstep⟩
    · exact ⟨n :: top, m, hstep, hm⟩
    · obtain ⟨kind, inside, rfl, -⟩ := hmade hn hjoin
      -- The solid node that is looked for stands no deeper than `m`, which is solid itself.
      rcases append_eq_append_iff.mp hdone with ⟨a, rfl, hrest⟩ | ⟨a, rfl, hrest⟩
      · cases a with
        | nil =>
          obtain ⟨rfl, rfl⟩ := cons.inj hrest
          exact ⟨[], _, hstep, sturdy_group _ _⟩
        | cons b a =>
          obtain ⟨rfl, -⟩ := cons.inj hrest
          have := hblanks m (by simp)
          rw [hm.isSpace] at this
          cases this
      · cases a with
        | nil =>
          obtain ⟨rfl, rfl⟩ := cons.inj hrest
          exact ⟨[], _, hstep, sturdy_group _ _⟩
        | cons b a =>
          obtain ⟨rfl, rfl⟩ := cons.inj hrest
          exact ⟨_ :: a, m, hstep, hm⟩

theorem tame_attach (hcomment : (token w).isComment = false) (hmade : Attaches follows join)
    (hw : ∀ more, join (token w) more = none) (hspace : ∀ n, n.isSpace → follows n = false)
    (hfollows : follows (token w) = false) : Tame w (attach follows join) := by
  refine .of_bundled hcomment (bundled_attach hmade) ?_
  rintro ns - ⟨blanks, m, rest, rfl, hblanks, hm⟩
  have hpre : ∀ n ∈ token w :: blanks, follows n = false :=
    forall_mem_cons.mpr ⟨hfollows, fun n hn => hspace n (hblanks n hn)⟩
  have hm' : attachStep follows join (token w :: blanks).reverse m = m :: (token w :: blanks).reverse := by
    rcases attachStep_cases follows join (token w :: blanks).reverse m with hstep |
      ⟨blanks', last, others, made, -, hdone, -, hlast, hjoin, -⟩
    · exact hstep
    · have hmem : last ∈ token w :: blanks := by
        rw [← mem_reverse, hdone]
        simp
      rcases mem_cons.mp hmem with rfl | hmem
      · rw [hw] at hjoin
        cases hjoin
      · rw [hblanks last hmem] at hlast
        cases hlast
  obtain ⟨top, m'', hfold, hm''⟩ : ∃ top m'', rest.foldl (attachStep follows join)
      (m :: (token w :: blanks).reverse) = top ++ m'' :: (token w :: blanks).reverse ∧ Sturdy m'' :=
    attachSteps_ground hmade ⟨[], m, rfl, hm⟩
  rw [attach_eq, ← cons_append, foldl_append, attachSteps_pass hpre, append_nil, foldl_cons, hm', hfold]
  refine ⟨blanks, m'', top.reverse, ?_, hblanks, hm''⟩
  simp

end Front

end SqlGateway.Sql.Node
