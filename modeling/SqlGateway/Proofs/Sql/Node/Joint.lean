import SqlGateway.Proofs.Sql.Node.Lead

/-!
# Joining leaves the front alone

Joining counts the places of the nodes ahead and corrects them by how far they have moved.  As long as
a group reaches no further than to the next solid node, the corrected places are right (`Ahead`), and so
a joint that does not take the keyword leaves it where it is (`tame_joinFlat`).
-/

namespace SqlGateway.Sql.Node.Joint

open List

variable {w : Token} {j : Joint} {pre todo ns : List Node} {s : Joining} {place : Nat} {n : Node}

theorem step_cases (j : Joint) (s : Joining) (n : Node) (place : Nat) :
    ((n.isSpace ∨ place < s.moved) ∧ j.step s (n, place) = s) ∨ (n.isSpace = false ∧ s.moved ≤ place ∧
      j.step s (n, place) = { s with last := some (place - s.moved, n) }) ∨
    (n.isSpace = false ∧ s.moved ≤ place ∧ j.isMiddle n ∧ ∃ i l start size made,
      s.last = some (i, l) ∧ j.before l ∧
      j.behind (firstSolid? (s.nodes.drop (place - s.moved + 1))) ∧
      start = (if j.takesBefore then i else place - s.moved) ∧
      size = place - s.moved + 1 + j.reach (s.nodes.drop (place - s.moved + 1)) - start ∧
      (∃ inside, made = group j.kind inside) ∧
      j.step s (n, place) = ⟨s.nodes.take start ++ made :: s.nodes.drop (start + size),
        s.moved + (size - 1), some (start, made)⟩) := by
  by_cases hskip : (n.isSpace || decide (place < s.moved))
  · refine .inl ⟨by simpa using hskip, ?_⟩
    rw [step, if_pos hskip]
  · have hsolid : n.isSpace = false ∧ s.moved ≤ place := by simpa using hskip
    rw [step, if_neg hskip]
    by_cases hmiddle : j.isMiddle n
    · rw [if_pos hmiddle]
      cases hlast : s.last with
      | none => exact .inr (.inl ⟨hsolid.1, hsolid.2, rfl⟩)
      | some last =>
        obtain ⟨i, l⟩ := last
        rw [Option.bind_some, around]
        split
        case isFalse => exact .inr (.inl ⟨hsolid.1, hsolid.2, rfl⟩)
        case isTrue hjoin =>
          rw [Bool.and_eq_true] at hjoin
          exact .inr (.inr ⟨hsolid.1, hsolid.2, hmiddle, i, l, _, _, _, rfl, hjoin.1, hjoin.2, rfl,
            rfl, exists_bundle _ _ _, rfl⟩)
    · rw [if_neg hmiddle]
      exact .inr (.inl ⟨hsolid.1, hsolid.2, rfl⟩)

theorem bundled_joinFlat (hkind : j.kind ≠ .comment) (ns : List Node) : Bundled ns (j.joinFlat ns) := by
  have hsteps : ∀ {entries : List (Node × Nat)} {s : Joining}, Bundled ns s.nodes →
      Bundled ns (entries.foldl j.step s).nodes := by
    intro entries
    induction entries with
    | nil => intro s h; exact h
    | cons entry entries ih =>
      intro s h
      refine ih ?_
      rcases step_cases j s entry.1 entry.2 with ⟨-, hstep⟩ | ⟨-, -, hstep⟩ |
        ⟨-, -, -, i, l, start, size, made, -, -, -, -, -, ⟨inside, rfl⟩, hstep⟩
      · rwa [hstep]
      · rwa [hstep]
      · rw [hstep]
        refine .step (b := (s.nodes.drop start).take size) ?_ fun h => absurd h hkind
        rwa [append_assoc, ← drop_drop, take_append_drop, take_append_drop]
  exact hsteps .refl

/-! ### Places ahead -/

/-- What a joint has to satisfy for its places to be right behind the keyword `w`. -/
structure Orderly (w : Token) (j : Joint) : Prop where
  kind : j.kind ≠ .comment
  lead : j.takesBefore → j.before (token w) → ∀ n, Sturdy n → j.isMiddle n = false
  reach : ∀ {ns : List Node}, Calm ns → ∀ {n : Node} {rest : List Node}, n ∈ ns →
    (∀ m ∈ rest, m ∈ ns) → j.isMiddle n → j.reach rest = 0 ∨ j.reach rest = countToSolid rest

/-- The nodes `pre` still stand at the front, with a sturdy node behind them.  Of the nodes `todo`, which
stood from `place` on, the first solid one is where its place says, or went into the group there; the
nodes behind it follow.  The solid node that was looked at last stands between it and the front. -/
structure Ahead (w : Token) (pre : List Node) (s : Joining) (place : Nat) (todo : List Node) : Prop where
  front : ∃ m rest, s.nodes = pre ++ m :: rest ∧ Sturdy m
  ahead : ∀ {b : List Node} {x : Node} {more : List Node}, todo = b ++ x :: more →
    (∀ n ∈ b, n.isSpace) → x.isSpace = false → ∃ here i l,
      here + s.moved = place + b.length ∧ here < s.nodes.length ∧ s.nodes.drop (here + 1) = more ∧
      s.last = some (i, l) ∧ i ≤ here ∧ pre.length ≤ here ∧ (pre.length ≤ i ∨ l = token w ∧ Sturdy x)

theorem takeWhile_isSpace {b more : List Node} {x : Node} (hb : ∀ n ∈ b, n.isSpace)
    (hx : x.isSpace = false) : (b ++ x :: more).takeWhile isSpace = b := by
  rw [takeWhile_append_of_pos hb, takeWhile_cons, hx]
  simp

theorem Ahead.join {here start reach size : Nat} {made : Node}
    (hfront : ∃ m rest, s.nodes = pre ++ m :: rest ∧ Sturdy m) (hmade : Sturdy made)
    (hplace : here + s.moved = place) (hhere : here < s.nodes.length)
    (htodo : s.nodes.drop (here + 1) = todo) (hpre : pre.length ≤ start) (hstart : start ≤ here)
    (hreach : reach = 0 ∨ reach = countToSolid todo) (hsize : size = here + 1 + reach - start) :
    Ahead w pre ⟨s.nodes.take start ++ made :: s.nodes.drop (start + size), s.moved + (size - 1),
      some (start, made)⟩ (place + 1) todo := by
  have hlength : (s.nodes.take start).length = start := by
    rw [length_take]
    omega
  refine ⟨?_, ?_⟩
  · obtain ⟨m, rest, hnodes, hm⟩ := hfront
    rw [hnodes, take_append, take_of_length_le hpre, append_assoc]
    cases hd : start - pre.length with
    | zero => exact ⟨made, _, rfl, hmade⟩
    | succ d => exact ⟨m, _, rfl, hm⟩
  · intro b x more hmore hb hx
    have hbehind : ∀ k, s.nodes.drop (here + 1 + k) = todo.drop k := by
      intro k
      rw [← htodo, drop_drop]
    have hdrop : ∀ k, (s.nodes.take start ++ made :: s.nodes.drop (start + size)).drop (start + 1 + k) =
        todo.drop (reach + k) := by
      intro k
      rw [drop_append, hlength, drop_of_length_le (by omega), nil_append,
        show start + 1 + k - start = k + 1 by omega, drop_succ_cons, drop_drop,
        show start + size + k = here + 1 + (reach + k) by omega, hbehind]
    have hmore' : todo.drop (b.length + 1) = more := by
      rw [hmore, drop_append, drop_of_length_le (by omega)]
      simp
    rcases hreach with hreach | hreach
    · refine ⟨start + 1 + b.length, start, made, ?_, ?_, ?_, rfl, by omega, by omega, .inl hpre⟩
      · simp only
        omega
      · have hend : (s.nodes.drop (here + 1)).length = todo.length := by rw [htodo]
        rw [length_drop] at hend
        have htodo' : todo.length = b.length + (more.length + 1) := by
          rw [hmore, length_append, length_cons]
        simp only [length_append, length_cons, length_drop, hlength]
        omega
      · rw [show start + 1 + b.length + 1 = start + 1 + (b.length + 1) by omega, hdrop, hreach,
          Nat.zero_add, hmore']
    · have hcount : reach = b.length + 1 := by
        rw [hreach, countToSolid, hmore, takeWhile_isSpace hb hx]
      refine ⟨start, start, made, ?_, ?_, ?_, rfl, Nat.le_refl _, hpre, .inl hpre⟩
      · simp only
        omega
      · simp only [length_append, length_cons, hlength]
        omega
      · have hbehind' := hdrop 0
        rwa [Nat.add_zero, Nat.add_zero, hcount, hmore'] at hbehind'

theorem Ahead.pass {here : Nat}
    (hfront : ∃ m rest, s.nodes = pre ++ m :: rest ∧ Sturdy m) (hplace : here + s.moved = place)
    (hhere : here < s.nodes.length) (htodo : s.nodes.drop (here + 1) = todo) (hpre : pre.length ≤ here) :
    Ahead w pre { s with last := some (here, n) } (place + 1) todo := by
  refine ⟨hfront, ?_⟩
  intro b x more hmore hb hx
  have hend : (s.nodes.drop (here + 1)).length = b.length + (more.length + 1) := by
    rw [htodo, hmore, length_append, length_cons]
  rw [length_drop] at hend
  refine ⟨here + 1 + b.length, here, n, ?_, ?_, ?_, rfl, by omega, by omega, .inl hpre⟩
  · simp only
    omega
  · simp only
    omega
  · rw [show here + 1 + b.length + 1 = here + 1 + (b.length + 1) by omega, ← drop_drop, htodo,
      hmore, drop_append, drop_of_length_le (by omega)]
    simp

theorem Ahead.step (hj : Orderly w j) (hcalm : Calm ns)
    (hsub : ∀ m ∈ n :: todo, m ∈ ns) (h : Ahead w pre s place (n :: todo)) :
    Ahead w pre (j.step s (n, place)) (place + 1) todo := by
  by_cases hn : n.isSpace
  · have hstay : j.step s (n, place) = s := by
      rw [Joint.step, hn]
      rfl
    rw [hstay]
    refine ⟨h.front, ?_⟩
    intro b x more hmore hb hx
    have hb' : ∀ m ∈ n :: b, m.isSpace := by simpa [hn] using hb
    obtain ⟨here, i, l, hplace, hrest⟩ := h.ahead (by rw [hmore, cons_append]) hb' hx
    exact ⟨here, i, l, by rw [hplace, length_cons]; omega, hrest⟩
  · rw [Bool.not_eq_true] at hn
    obtain ⟨here, i, l, hplace, hhere, htodo, hlast, hi, hpre, hlead⟩ :=
      h.ahead (nil_append _).symm (by simp) hn
    rw [length_nil, Nat.add_zero] at hplace
    have hhere' : place - s.moved = here := by omega
    rcases step_cases j s n place with ⟨hskip, -⟩ | ⟨-, -, hstep⟩ |
      ⟨-, -, hmiddle, i', l', start, size, made, hlast', hbefore, -, hstart, hsize, ⟨inside, rfl⟩, hstep⟩
    · rcases hskip with hskip | hskip
      · rw [hn] at hskip
        cases hskip
      · omega
    · rw [hstep, hhere']
      exact Ahead.pass h.front hplace hhere htodo hpre
    · rw [hstep]
      rw [hhere'] at hstart hsize
      obtain ⟨rfl, rfl⟩ : i = i' ∧ l = l' := by simpa using hlast.symm.trans hlast'
      have hbounds : pre.length ≤ start ∧ start ≤ here := by
        rw [hstart]
        split
        case isFalse => exact ⟨hpre, Nat.le_refl _⟩
        case isTrue htakes =>
          rcases hlead with hlead | ⟨rfl, hsturdy⟩
          · exact ⟨hlead, hi⟩
          · rw [hj.lead htakes hbefore n hsturdy] at hmiddle
            cases hmiddle
      refine Ahead.join h.front (sturdy_group _ _) hplace hhere htodo hbounds.1 hbounds.2 ?_ hsize
      rw [htodo]
      exact hj.reach hcalm (hsub n (by simp)) (fun m hm => hsub m (by simp [hm])) hmiddle

theorem isComment_keyword (hw : w.kind = .dataKeyword ∨ w.kind = .schemaKeyword) :
    (token w).isComment = false := by
  rcases hw with hw | hw <;> simp [isComment, isTokenOf, isToken, isGroupOf, hw, Token.Kind.isComment]

theorem Ahead.steps (hj : Orderly w j) (hcalm : Calm ns) {todo : List Node} {s : Joining} {place : Nat}
    (hsub : ∀ m ∈ todo, m ∈ ns) (h : Ahead w pre s place todo) :
    Ahead w pre ((todo.zipIdx place).foldl j.step s) (place + todo.length) [] := by
  induction todo generalizing s place with
  | nil => exact h
  | cons n todo ih =>
    rw [zipIdx_cons, foldl_cons, length_cons, show place + (todo.length + 1) = place + 1 + todo.length by omega]
    exact ih (fun m hm => hsub m (by simp [hm])) (h.step hj hcalm hsub)

/-- **A joint that is orderly is tame.** -/
theorem tame_joinFlat (hj : Orderly w j) (hw : w.kind = .dataKeyword ∨ w.kind = .schemaKeyword) :
    Tame w j.joinFlat := by
  refine .of_bundled (isComment_keyword hw) (bundled_joinFlat hj.kind) ?_
  rintro ns hcalm ⟨blanks, m, rest, rfl, hblanks, hm⟩
  have hsolid : (token w).isSpace = false := by
    rcases hw with hw | hw <;> simp [isSpace, isToken, Token.isSpace, hw]
  -- The keyword has nothing before it, so it is passed.
  have hfirst : j.step ⟨token w :: (blanks ++ m :: rest), 0, none⟩ (token w, 0) =
      ⟨token w :: (blanks ++ m :: rest), 0, some (0, token w)⟩ := by
    rcases step_cases j ⟨token w :: (blanks ++ m :: rest), 0, none⟩ (token w) 0 with ⟨hskip, -⟩ |
      ⟨-, -, hstep⟩ | ⟨-, -, -, i, l, start, size, made, hlast, -⟩
    · rw [hsolid] at hskip
      simp at hskip
    · exact hstep
    · cases hlast
  have hstart : Ahead w (token w :: blanks) ⟨token w :: (blanks ++ m :: rest), 0, some (0, token w)⟩ 1
      (blanks ++ m :: rest) := by
    refine ⟨⟨m, rest, rfl, hm⟩, ?_⟩
    intro b x more hmore hb hx
    obtain ⟨rfl, rfl, rfl⟩ : b = blanks ∧ x = m ∧ more = rest := by
      have hlead := congrArg (takeWhile isSpace) hmore
      rw [takeWhile_isSpace hblanks hm.isSpace, takeWhile_isSpace hb hx] at hlead
      subst hlead
      have hsame := append_cancel_left hmore
      simpa using hsame.symm
    refine ⟨b.length + 1, 0, token w, ?_, ?_, ?_, rfl, by omega, ?_, .inr ⟨rfl, hm⟩⟩
    · simp only
      omega
    · simp
    · simp [drop_append]
    · simp
  have hend := Ahead.steps hj hcalm (fun x hx => by simp [hx]) hstart
  obtain ⟨m', rest', hnodes, hm'⟩ := hend.front
  rw [joinFlat, zipIdx_cons, foldl_cons, hfirst]
  exact ⟨blanks, m', rest', hnodes, hblanks, hm'⟩

end SqlGateway.Sql.Node.Joint
