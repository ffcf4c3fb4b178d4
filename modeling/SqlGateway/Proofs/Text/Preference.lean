import SqlGateway.Proofs.Text.Match

/-!
# The match that is taken

`p.Prefers s k r l` names the way that `p` tries first of those that come into question: it leaves `r` of the
text `s`, and is taken whenever what follows can go on from there.  Preferences are put together along a
pattern; only a lazy repetition needs what stands behind it (`prefers_few`).
-/

namespace SqlGateway.Text.Pattern

open List Option

variable {a : Pattern} {c : Char} {u v : List Char} {b : Option Char} {start : Nat}

/-- Unless what follows fails there, the pattern is matched at the beginning of `s` so that `r` is left,
and of the kept pieces `k` it makes `l`. -/
def Prefers (p : Pattern) (s : List Char) (k : Kept) (r : List Char) (l : Kept) : Prop :=
  ∀ b, ∃ b', ∀ {α : Type} (next : Cursor → Kept → Option α), (next ⟨b', r⟩ l).isSome →
    p.run ⟨b, s⟩ k next = next ⟨b', r⟩ l

variable {p q : Pattern} {s t r : List Char} {k l m : Kept} (name : String)

/-- A pattern may know the one behind it: it stops where that one goes on. -/
theorem Prefers.before (hq : q.Prefers t l r m)
    (hp : ∀ b, ∃ b', ∀ {α : Type} (next : Cursor → Kept → Option α), (q.run ⟨b', t⟩ l next).isSome →
      p.run ⟨b, s⟩ k (fun there kept => q.run there kept next) = q.run ⟨b', t⟩ l next) :
    (p ++ q).Prefers s k r m := by
  intro b
  obtain ⟨b', hp⟩ := hp b
  obtain ⟨b'', hq⟩ := hq b'
  refine ⟨b'', fun {α} next hnext => ?_⟩
  have hq' := hq next hnext
  exact (hp next (by rw [hq']; exact hnext)).trans hq'

theorem Prefers.append (hp : p.Prefers s k t l) (hq : q.Prefers t l r m) : (p ++ q).Prefers s k r m :=
  hq.before fun b => (hp b).imp fun _ hp _ _ hnext => hp _ hnext

theorem prefers_assoc {b c : Pattern} : (a ++ b ++ c).Prefers s k r l ↔ (a ++ (b ++ c)).Prefers s k r l :=
  Iff.rfl

theorem Prefers.keep (h : p.Prefers s k r l) (name : String) :
    (keep name p).Prefers s k r ((name, ⟨s, r⟩) :: l) := by
  intro b
  obtain ⟨b', h⟩ := h b
  exact ⟨b', fun next hnext => h _ hnext⟩

theorem Prefers.left (h : p.Prefers s k r l) (q : Pattern) : (alt p q).Prefers s k r l := by
  intro b
  obtain ⟨b', h⟩ := h b
  refine ⟨b', fun next hnext => ?_⟩
  rw [run, h next hnext]
  obtain ⟨a, ha⟩ := isSome_iff_exists.mp hnext
  rw [ha]
  rfl

theorem Prefers.right (h : q.Prefers s k r l) (hp : ∀ b y, ¬ p.Spans ⟨b, s⟩ y) : (alt p q).Prefers s k r l := by
  intro b
  obtain ⟨b', h⟩ := h b
  refine ⟨b', fun next hnext => ?_⟩
  rw [run, run_eq_none (hp b), h next hnext]
  rfl

theorem prefers_one {p : Char → Bool} (h : p c) (r : List Char) (k : Kept) :
    (one p).Prefers (c :: r) k r k :=
  fun _ => ⟨some c, fun _ _ => if_pos h⟩

theorem passes_append {p : Char → Bool} (v : List Char) {u : List Char} (b : Option Char)
    (hu : ∀ c ∈ u, p c) : ∃ l, passes p b (u ++ v) = l ++ passes p (u.getLast?.or b) v ∧
      ∀ y ∈ l, ∃ u₁ u₂, u = u₁ ++ u₂ ∧ u₂ ≠ [] ∧ y = ⟨u₁.getLast?.or b, u₂ ++ v⟩ := by
  induction u generalizing b with
  | nil => exact ⟨[], rfl, by simp⟩
  | cons c u ih =>
    obtain ⟨l, hl, hbefore⟩ := ih (some c) (forall_mem_cons.mp hu).2
    refine ⟨⟨b, c :: (u ++ v)⟩ :: l, ?_, fun y hy => ?_⟩
    · rw [cons_append, passes, if_pos (hu c (by simp)), hl, getLast?_cons_or, cons_append]
    · rcases mem_cons.mp hy with rfl | hy
      · exact ⟨[], c :: u, rfl, by simp, rfl⟩
      · obtain ⟨u₁, u₂, hsplit, hne, rfl⟩ := hbefore y hy
        exact ⟨c :: u₁, u₂, by rw [hsplit, cons_append], hne, by rw [getLast?_cons_or]⟩

theorem passes_eq_cons (p : Char → Bool) (b : Option Char) (s : List Char) :
    ∃ l, passes p b s = ⟨b, s⟩ :: l ∧ ((∀ c ∈ s.head?, p c = false) → l = []) ∧
      ∀ y ∈ l, ∃ s₁, s₁ ≠ [] ∧ s = s₁ ++ y.rest := by
  cases s with
  | nil => exact ⟨[], rfl, fun _ => rfl, by simp⟩
  | cons c s =>
    refine ⟨_, rfl, fun h => if_neg (by simp [h c rfl]), fun y hy => ?_⟩
    split at hy
    case isTrue =>
      obtain ⟨z, -, hz⟩ := (mem_passes.mp hy).exists_append
      exact ⟨c :: z, by simp, congrArg (c :: ·) hz⟩
    case isFalse => cases hy

theorem prefers_many {p : Char → Bool} {r : List Char} (hs : ∀ c ∈ s, p c)
    (hr : ∀ c ∈ r.head?, p c = false) (k : Kept) : (many p).Prefers (s ++ r) k r k := by
  intro b
  obtain ⟨l, hl, -⟩ := passes_append r b hs
  obtain ⟨l', hl', hend, -⟩ := passes_eq_cons p (s.getLast?.or b) r
  refine ⟨s.getLast?.or b, fun next hnext => ?_⟩
  rw [run, longest_eq, hl, hl', hend hr, reverse_append, reverse_singleton, singleton_append]
  exact findSome?_cons_of_isSome hnext

theorem prefers_many1 {p : Char → Bool} {r : List Char} (hne : s ≠ []) (hs : ∀ c ∈ s, p c)
    (hr : ∀ c ∈ r.head?, p c = false) (k : Kept) : (many1 p).Prefers (s ++ r) k r k := by
  obtain ⟨c, s, rfl⟩ := exists_cons_of_ne_nil hne
  exact (prefers_one (hs c (by simp)) (s ++ r) k).append
    (prefers_many (forall_mem_cons.mp hs).2 hr k)

theorem prefers_lit {w : String} (h : spells w s) (r : List Char)
    (k : Kept) : (lit w).Prefers (s ++ r) k r k := by
  rw [lit]
  replace h := spells_iff.mp h
  generalize w.toList = letters at h
  induction h with
  | nil => exact fun b => ⟨b, fun _ _ => rfl⟩
  | cons hl _ ih => exact (prefers_one hl _ k).append ih

theorem prefers_exactly (w : String) (r : List Char) (k : Kept) :
    (exactly w).Prefers (w.toList ++ r) k r k := by
  rw [exactly]
  generalize w.toList = letters
  induction letters with
  | nil => exact fun b => ⟨b, fun _ _ => rfl⟩
  | cons l word ih => exact (prefers_one (by simp) (word ++ r) k).append ih

/-- What is preferred can be taken. -/
theorem Prefers.takes (h : p.Prefers (s ++ r) k r l) : p.Takes s r := by
  intro b
  obtain ⟨b', h⟩ := h b
  obtain ⟨y, -, hy, hsame⟩ := run_sound (h (fun y _ => some y) rfl)
  exact ⟨b', some.inj hsame ▸ hy⟩

theorem takes_lit {w : String} (h : spells w s) (r : List Char) : (lit w).Takes s r :=
  (prefers_lit h r []).takes

theorem takes_exactly (w : String) (r : List Char) : (exactly w).Takes w r :=
  (prefers_exactly w r []).takes

theorem prefers_finish (k : Kept) : finish.Prefers [] k [] k :=
  fun b => ⟨b, fun _ _ => rfl⟩

theorem shortest_eq_run {p : Char → Bool} (b : Option Char) (hu : ∀ c ∈ u, p c) (hstop : q.Absent u v) :
    ∃ b', ∀ {α : Type} (keeping : Cursor → Kept) (next : Cursor → Kept → Option α),
      (q.run ⟨b', v⟩ (keeping ⟨b', v⟩) next).isSome →
      shortest p (fun there => q.run there (keeping there) next) b (u ++ v) =
        q.run ⟨b', v⟩ (keeping ⟨b', v⟩) next := by
  obtain ⟨l, hl, hbefore⟩ := passes_append v b hu
  obtain ⟨l', hl', -⟩ := passes_eq_cons p (u.getLast?.or b) v
  refine ⟨u.getLast?.or b, fun keeping next hnext => ?_⟩
  have hnone : l.findSome? (fun there => q.run there (keeping there) next) = none := by
    refine findSome?_eq_none_iff.mpr fun y hy => ?_
    obtain ⟨u₁, u₂, hsplit, hne, rfl⟩ := hbefore y hy
    exact run_eq_none (hstop u₁ u₂ hsplit hne _)
  rw [shortest_eq, hl, hl', findSome?_append, hnone, none_or]
  exact findSome?_cons_of_isSome hnext

/-- A lazy repetition stops at the first place where the pattern behind it can match. -/
theorem prefers_few_first {p : Char → Bool} (hu : ∀ c ∈ u, p c)
    (hstop : q.Absent u v) (hq : q.Prefers v ((name, ⟨u ++ v, v⟩) :: k) r m) :
    (keep name (few p) ++ q).Prefers (u ++ v) k r m :=
  hq.before fun b => (shortest_eq_run b hu hstop).imp fun _ h _ next =>
    h (fun there => (name, ⟨u ++ v, there.rest⟩) :: k) next

theorem prefers_few {p : Char → Bool} (ha : a.Prefers s k (u ++ v) l)
    (hu : ∀ c ∈ u, p c) (hstop : q.Absent u v) (hq : q.Prefers v ((name, ⟨u ++ v, v⟩) :: l) r m) :
    (a ++ keep name (few p) ++ q).Prefers s k r m :=
  prefers_assoc.mpr (ha.append (prefers_few_first name hu hstop hq))

/-- The pattern matches nowhere inside the ending. -/
def Misses (a : List Char) (p : Pattern) : Prop :=
  ∀ z t : List Char, a = z ++ t → z ≠ [] → ∀ c y, ¬ p.Spans ⟨c, t⟩ y

/-- A greedy repetition goes back no further than to the last place where the pattern behind it can match. -/
theorem longest_eq_run {p : Char → Bool} (b : Option Char) (hu : ∀ c ∈ u, p c) (hstop : Misses v q) :
    ∃ b', ∀ {α : Type} (keeping : Cursor → Kept) (next : Cursor → Kept → Option α),
      (q.run ⟨b', v⟩ (keeping ⟨b', v⟩) next).isSome →
      longest p (fun there => q.run there (keeping there) next) b (u ++ v) =
        q.run ⟨b', v⟩ (keeping ⟨b', v⟩) next := by
  obtain ⟨l, hl, -⟩ := passes_append v b hu
  obtain ⟨l', hl', -, hbehind⟩ := passes_eq_cons p (u.getLast?.or b) v
  refine ⟨u.getLast?.or b, fun keeping next hnext => ?_⟩
  have hnone : l'.reverse.findSome? (fun there => q.run there (keeping there) next) = none := by
    refine findSome?_eq_none_iff.mpr fun y hy => ?_
    obtain ⟨v₁, hne, hsplit⟩ := hbehind y (mem_reverse.mp hy)
    exact run_eq_none (hstop v₁ y.rest hsplit hne _)
  rw [longest_eq, hl, hl', reverse_append, reverse_cons, append_assoc, findSome?_append,
    hnone, none_or, singleton_append]
  exact findSome?_cons_of_isSome hnext

theorem prefers_many_kept {p : Char → Bool} (ha : a.Prefers s k (u ++ v) l)
    (hu : ∀ c ∈ u, p c) (hstop : Misses v q) (hq : q.Prefers v ((name, ⟨u ++ v, v⟩) :: l) r m) :
    (a ++ keep name (many p) ++ q).Prefers s k r m :=
  prefers_assoc.mpr (ha.append (hq.before fun b =>
    (longest_eq_run b hu hstop).imp fun _ h _ next =>
      h (fun there => (name, ⟨u ++ v, there.rest⟩) :: l) next))

/-! ### Where a lazy repetition stops -/

theorem shortest_first {α : Type} {p : Char → Bool} {next : Cursor → Option α} {a : α} {s : List Char}
    {b : Option Char} (h : shortest p next b s = some a) :
    ∃ u v, s = u ++ v ∧ next ⟨u.getLast?.or b, v⟩ = some a ∧
      ∀ u₁ u₂, u = u₁ ++ u₂ → u₂ ≠ [] → next ⟨u₁.getLast?.or b, u₂ ++ v⟩ = none := by
  induction s generalizing b with
  | nil =>
    exact ⟨[], [], rfl, h, fun u₁ u₂ hsplit hne =>
      absurd (append_eq_nil_iff.mp hsplit.symm).2 hne⟩
  | cons c s ih =>
    rw [shortest, orElse_eq_orElse, orElse_eq_or, or_eq_some_iff] at h
    rcases h with h | ⟨hnone, h⟩
    · exact ⟨[], c :: s, rfl, h, fun u₁ u₂ hsplit hne =>
        absurd (append_eq_nil_iff.mp hsplit.symm).2 hne⟩
    · split at h
      case isTrue hc =>
        obtain ⟨u, v, rfl, hv, hfirst⟩ := ih h
        refine ⟨c :: u, v, rfl, by rw [getLast?_cons_or]; exact hv, fun u₁ u₂ hsplit hne => ?_⟩
        cases u₁ with
        | nil =>
          rw [nil_append] at hsplit
          rw [← hsplit]
          exact hnone
        | cons d u₁ =>
          obtain ⟨rfl, hu⟩ := cons.inj hsplit
          rw [getLast?_cons_or]
          exact hfirst u₁ u₂ hu hne
      case isFalse => cases h

/-- **What a last lazy repetition keeps**: everything up to the first place where the pattern behind it
can match. -/
theorem exists_kept_few (ha : a.Prefers s [] t []) (hq : q.isPlain)
    (hend : ∃ u v, t = u ++ v ∧ ∀ b, ∃ y, q.Spans ⟨b, v⟩ y) (b : Option Char) :
    ∃ u v, t = u ++ v ∧ (∃ b y, q.Spans ⟨b, v⟩ y) ∧
      (∀ u₁ u₂, u = u₁ ++ u₂ → u₁ ≠ [] → u₂ ≠ [] → ∀ y, ¬ q.Spans ⟨u₁.getLast?, u₂ ++ v⟩ y) ∧
      (a ++ keep name (few anyChar) ++ q).run ⟨b, s⟩ [] (fun _ k => some k) = some [(name, ⟨t, v⟩)] := by
  obtain ⟨b', ha⟩ := ha b
  let next : Cursor → Option Kept := fun there =>
    q.run there [(name, ⟨t, there.rest⟩)] fun _ k => some k
  have hsome : (shortest anyChar next b' t).isSome := by
    obtain ⟨u, v, rfl, hv⟩ := hend
    obtain ⟨b'', hpass⟩ := takes_passes v (fun _ _ => rfl) b'
    obtain ⟨y, hy⟩ := hv b''
    have hfew : ((few anyChar).run ⟨b', u ++ v⟩ [] fun there _ => next there).isSome :=
      run_complete (p := few anyChar) hpass (fun _ => run_complete hy (fun _ => rfl) _) []
    exact hfew
  have hrun : (a ++ keep name (few anyChar) ++ q).run ⟨b, s⟩ [] (fun _ k => some k) =
      shortest anyChar next b' t :=
    ha (fun here kept => (keep name (few anyChar)).run here kept fun there kept =>
      q.run there kept fun _ k => some k) hsome
  obtain ⟨k, hk⟩ := isSome_iff_exists.mp hsome
  obtain ⟨u, v, huv, hv, hfirst⟩ := shortest_first hk
  obtain ⟨y, l, hkeeps, hl⟩ := run_keeps q _ _ _ _ hv
  obtain ⟨hspans, rfl⟩ := hkeeps.of_isPlain hq
  refine ⟨u, v, huv, ⟨_, y, hspans⟩, fun u₁ u₂ hsplit hne₁ hne₂ z hz => ?_, ?_⟩
  · have hnone := hfirst u₁ u₂ hsplit hne₂
    rw [getLast?_eq_some_getLast hne₁] at hz hnone
    have hfound : (next ⟨some (u₁.getLast hne₁), u₂ ++ v⟩).isSome := run_complete hz (fun _ => rfl) _
    rw [show next ⟨some (u₁.getLast hne₁), u₂ ++ v⟩ = none from hnone] at hfound
    cases hfound
  · rw [hrun, hk, ← hl]

/-! ### Searches -/

theorem Prefers.matchAt? (h : p.Prefers s [] r l) (start : Nat) (b : Option Char) :
    p.matchAt? start b s = some ⟨start, pieceBefore r s, r, l⟩ := by
  obtain ⟨b', h⟩ := h b
  exact h _ rfl

/-- The match that is found behind a stretch in which the pattern does not match. -/
theorem Prefers.find? (h : p.Prefers s [] r l) (hu : p.Absent u s) :
    p.find? (u ++ s) = some ⟨u.length, pieceBefore r s, r, l⟩ := by
  have hspans : ∀ b, ∃ y, p.Spans ⟨b, s⟩ y := by
    intro b
    exact isSome_matchAt?_iff.mp (isSome_iff_exists.mpr ⟨_, h.matchAt? 0 b⟩)
  obtain ⟨m, hm, hat⟩ := find?_append hu hspans
  rw [hm, ← hat, h.matchAt?]

theorem Prefers.find?_here (h : p.Prefers s [] r l) : p.find? s = some ⟨0, pieceBefore r s, r, l⟩ :=
  h.find? absent_nil

theorem findAllFrom_skip (p : Pattern) (r s : List Char) (start : Nat) (b : Option Char) :
    ∃ b', p.findAllFrom start s.length b (s ++ r) = p.findAllFrom (start + s.length) 0 b' r := by
  induction s generalizing start b with
  | nil => exact ⟨b, rfl⟩
  | cons c s ih =>
    obtain ⟨b', h⟩ := ih (start + 1) (some c)
    refine ⟨b', ?_⟩
    rw [length_cons, cons_append, findAllFrom, h]
    congr 1
    omega

theorem findAllFrom_pass (h : ∀ y, ¬ p.Spans ⟨b, c :: r⟩ y) :
    p.findAllFrom start 0 b (c :: r) = p.findAllFrom (start + 1) 0 (some c) r := by
  have hnone : p.matchAt? start b (c :: r) = none := run_eq_none h
  rw [findAllFrom, hnone]

theorem exists_of_mem_findAllFrom {x : Match} {s : List Char} {start skip : Nat} {b : Option Char}
    (h : x ∈ p.findAllFrom start skip b s) : ∃ u v start' b', s = u ++ v ∧ p.matchAt? start' b' v = some x := by
  induction s generalizing start skip b with
  | nil =>
    rw [findAllFrom] at h
    split at h
    · exact ⟨[], [], start, b, rfl, mem_toList.mp h⟩
    · cases h
  | cons c s ih =>
    have hlater : ∀ {skip : Nat}, x ∈ p.findAllFrom (start + 1) skip (some c) s →
        ∃ u v start' b', c :: s = u ++ v ∧ p.matchAt? start' b' v = some x := by
      intro skip h
      obtain ⟨u, v, start', b', rfl, hx⟩ := ih h
      exact ⟨c :: u, v, start', b', rfl, hx⟩
    cases skip with
    | succ skip => exact hlater h
    | zero =>
      rw [findAllFrom] at h
      split at h
      case h_1 y hy =>
        rcases mem_cons.mp h with rfl | h
        · exact ⟨[], c :: s, start, b, rfl, hy⟩
        · exact hlater h
      case h_2 => exact hlater h

theorem findAllFrom_eq_nil {skip : Nat}
    (h : ∀ u v b y, s = u ++ v → ¬ p.Spans ⟨b, v⟩ y) : p.findAllFrom start skip b s = [] := by
  refine eq_nil_iff_forall_not_mem.mpr fun m hm => ?_
  obtain ⟨u, v, start', b', hsplit, hat⟩ := exists_of_mem_findAllFrom hm
  obtain ⟨y, hy⟩ := isSome_matchAt?_iff.mp (isSome_iff_exists.mpr ⟨m, hat⟩)
  exact h u v b' y hsplit hy

theorem findAllFrom_of_prefers (h : p.Prefers (c :: s ++ r) [] r l) (start : Nat)
    (b : Option Char) : ∃ b', p.findAllFrom start 0 b (c :: s ++ r) =
      ⟨start, c :: s, r, l⟩ :: p.findAllFrom (start + 1 + s.length) 0 b' r := by
  obtain ⟨b', hskip⟩ := findAllFrom_skip p r s (start + 1) (some c)
  refine ⟨b', ?_⟩
  have hat := h.matchAt? start b
  rw [pieceBefore_append] at hat
  rw [cons_append] at hat ⊢
  rw [findAllFrom, hat]
  simp only [length_cons, Nat.add_sub_cancel, hskip]

end SqlGateway.Text.Pattern
