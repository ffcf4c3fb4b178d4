import SqlGateway.Proofs.Text.Words

/-!
# Places in words

At a place in a text of words there is the rest of a word before the words that follow (`exists_place`), so a
pattern of several words is followed word by word.  Where it is clear at which place a part of a pattern has
to end, `prefers_keep_of_unique` gives the preference of the whole.
-/

namespace SqlGateway.Text

open Pattern List

namespace Pattern

variable {s : List Char} {p : Pattern}

/-! ### Parts whose end is clear -/

theorem run_of_isPlain (hp : p.isPlain) {α : Type} (x : Cursor) (k : Kept)
    (next : Cursor → Kept → Option α) : p.run x k next = p.run x k fun y _ => next y k :=
  run_congr fun y l h => by rw [(h.of_isPlain hp).2]

theorem At.eq_of_rest {x y : Cursor} (hx : At s x) (hy : At s y) (h : x.rest = y.rest) : x = y := by
  obtain ⟨b, r⟩ := x
  obtain ⟨c, t⟩ := y
  obtain ⟨u, rfl, rfl⟩ := hx
  obtain ⟨v, hv, rfl⟩ := hy
  obtain rfl : r = t := h
  rw [append_cancel_right hv]

/-- **A part whose end is clear.**  If what follows can only match where `t` is left, the part is matched up
to there. -/
theorem prefers_keep_of_unique {q : Pattern} (name : String) {z t r : List Char} {k l : Kept}
    (hplain : p.isPlain) (hp : p.Takes z t)
    (hunique : ∀ b y w, p.Spans ⟨b, z ++ t⟩ y → q.Spans y w → y.rest = t)
    (hq : q.Prefers t ((name, ⟨z ++ t, t⟩) :: k) r l) : (keep name p ++ q).Prefers (z ++ t) k r l := by
  intro b
  obtain ⟨b₁, hspans⟩ := hp b
  obtain ⟨b₂, hq⟩ := hq b₁
  refine ⟨b₂, fun {α} next hnext => ?_⟩
  have hat : At (b.toList ++ (z ++ t)) ⟨b, z ++ t⟩ := ⟨b.toList, rfl, by cases b <;> rfl⟩
  have hthere := hq next hnext
  let after : Cursor → Option α := fun y => q.run y ((name, ⟨z ++ t, y.rest⟩) :: k) next
  have hrun : (keep name p ++ q).run ⟨b, z ++ t⟩ k next = p.run ⟨b, z ++ t⟩ k fun y _ => after y :=
    run_of_isPlain hplain _ _ _
  have hsome : (p.run ⟨b, z ++ t⟩ k fun y _ => after y).isSome :=
    run_complete hspans (fun _ => by rw [show after ⟨b₁, t⟩ = _ from hthere]; exact hnext) k
  obtain ⟨a, ha⟩ := Option.isSome_iff_exists.mp hsome
  obtain ⟨y, -, hy, hay⟩ := run_sound ha
  obtain ⟨w, -, hw, -⟩ := run_sound hay
  obtain rfl := At.eq_of_rest (hat.spans hy) (hat.spans hspans) (hunique b y w hy hw)
  rw [hrun, ha, ← hay]
  exact hthere

theorem prefers_ahead (hplain : p.isPlain) (h : ∀ b, ∃ y, p.Spans ⟨b, s⟩ y) (k : Kept) :
    (ahead p).Prefers s k s k := by
  refine fun b => ⟨b, fun next _ => ?_⟩
  obtain ⟨y, hy⟩ := h b
  have hsome : (p.run ⟨b, s⟩ k fun _ _ => some k).isSome := run_complete hy (fun _ => rfl) k
  obtain ⟨l, hl⟩ := Option.isSome_iff_exists.mp hsome
  obtain ⟨_, _, -, hlk⟩ := run_sound hl
  rw [run, run_of_isPlain hplain, hl, ← Option.some.inj hlk]

/-! ### One match after another -/

theorem findAllFrom_stretch {v : List Char} : ∀ (u : List Char) (start : Nat) (b : Option Char),
    p.Absent u v → ∃ b', p.findAllFrom start 0 b (u ++ v) = p.findAllFrom (start + u.length) 0 b' v
  | [], start, b, _ => ⟨b, rfl⟩
  | c :: u, start, b, h => by
    obtain ⟨b', hrest⟩ := findAllFrom_stretch u (start + 1) (some c) h.tail
    refine ⟨b', ?_⟩
    have hpass : p.findAllFrom start 0 b (c :: (u ++ v)) = p.findAllFrom (start + 1) 0 (some c) (u ++ v) :=
      findAllFrom_pass (h.head b)
    rw [cons_append, hpass, hrest, length_cons]
    congr 1
    omega

/-- **The next match**, where the pattern matches nowhere before it. -/
theorem findAllFrom_step {u r : List Char} {l : Kept} (h : p.Prefers (s ++ r) [] r l) (hne : s ≠ [])
    (hu : p.Absent u (s ++ r)) (start : Nat) (b : Option Char) : ∃ start' b',
      p.findAllFrom start 0 b (u ++ (s ++ r)) =
        ⟨start + u.length, s, r, l⟩ :: p.findAllFrom start' 0 b' r := by
  obtain ⟨c, s, rfl⟩ := exists_cons_of_ne_nil hne
  obtain ⟨b₁, hstretch⟩ := findAllFrom_stretch u start b hu
  obtain ⟨b₂, hmatch⟩ := findAllFrom_of_prefers h (start + u.length) b₁
  exact ⟨_, b₂, hstretch.trans hmatch⟩

end Pattern

/-! ### Places -/

/-- **At every place the rest of a word and the words behind it are left.** -/
theorem exists_place : ∀ {ws : List (List Char)} {u v : List Char}, ws ≠ [] → unwords ws = u ++ v →
    ∃ a x y b, ws = a ++ (x ++ y) :: b ∧ u = unwords (a ++ [x]) ∧ v = unwords (y :: b)
  | [], _, _, hne, _ => absurd rfl hne
  | [w], u, v, _, h => ⟨[], u, v, [], by rw [unwords_singleton] at h; rw [h]; rfl, rfl, rfl⟩
  | w :: w' :: ws, u, v, _, h => by
    rcases append_eq_append_iff.mp h with ⟨t, rfl, ht⟩ | ⟨t, rfl, rfl⟩
    · cases t with
      | nil => exact ⟨[], w, [], w' :: ws, by simp, by simp, ht.symm⟩
      | cons c t =>
        obtain ⟨rfl, hrest⟩ := cons.inj ht
        obtain ⟨a, x, y, b, hws, rfl, rfl⟩ := exists_place (cons_ne_nil _ _) hrest
        refine ⟨w :: a, x, y, b, by rw [hws, cons_append], ?_, rfl⟩
        rw [cons_append, unwords_cons (by simp)]
    · exact ⟨[], u, t, w' :: ws, rfl, rfl, rfl⟩

/-- What is left at a place: only the first word may be empty. -/
structure IsPlace (ws : List (List Char)) : Prop where
  ne_nil : ws ≠ []
  solid : ∀ w ∈ ws, Solid w
  filled : ∀ w ∈ ws.tail, w ≠ []

theorem IsPlace.of_append {a b : List (List Char)} (h : IsPlace (a ++ b)) (hb : b ≠ []) : IsPlace b where
  ne_nil := hb
  solid := fun w hw => h.solid w (mem_append_right _ hw)
  filled := fun w hw => h.filled w (by
    cases a with
    | nil => exact hw
    | cons v a => exact mem_append_right _ (mem_of_mem_tail hw))

theorem IsPlace.of_rest {a b : List (List Char)} {x y : List Char} (h : IsPlace (a ++ (x ++ y) :: b)) :
    IsPlace (y :: b) := by
  have hb := h.of_append (cons_ne_nil _ _)
  refine ⟨cons_ne_nil _ _, ?_, hb.filled⟩
  refine forall_mem_cons.mpr ⟨fun c hc => ?_, (forall_mem_cons.mp hb.solid).2⟩
  exact hb.solid (x ++ y) (by simp) c (mem_append_right _ hc)

section

variable {w : List Char} {ws : List (List Char)} (hplace : IsPlace (w :: ws)) {x y z : Cursor}
  (hx : x.rest = unwords (w :: ws))
include hplace hx

/-- **A piece that goes on to a blank is the rest of the word.** -/
theorem exists_of_solid_space {g : List Char} (hg : Solid g) (hz : x.rest = g ++ z.rest)
    (hspace : space.Spans z y) : g = w ∧ IsPlace ws ∧ y.rest = unwords ws := by
  obtain ⟨s, hne, hblank, hs⟩ := exists_of_spans_many1 hspace
  obtain ⟨c, s, rfl⟩ := exists_cons_of_ne_nil hne
  have hc := hblank c (by simp)
  rw [hx, hs, cons_append] at hz
  obtain ⟨ws₁, ws₂, hsplit, hne₁, hne₂, rfl, hrest⟩ := exists_of_unwords_eq hc hplace.solid hz
  obtain ⟨v, ws₁, rfl⟩ := exists_cons_of_ne_nil hne₁
  obtain ⟨rfl, hws⟩ := cons.inj hsplit
  -- one word only, because the piece has no blank
  obtain rfl : ws₁ = [] := by
    cases ws₁ with
    | nil => rfl
    | cons v ws₁ =>
      rw [unwords_cons (cons_ne_nil _ _)] at hg
      exact absurd (hg ' ' (by simp)) (by decide)
  obtain rfl : ws = ws₂ := hws
  have hwords : ∀ v ∈ ws, v ≠ [] ∧ Solid v := fun v hv =>
    ⟨hplace.filled v hv, hplace.solid v (mem_cons_of_mem _ hv)⟩
  refine ⟨unwords_singleton _, IsPlace.of_append (a := [w]) hplace hne₂, ?_⟩
  cases s with
  | nil => exact hrest
  | cons d s =>
    have hd := head_unwords hwords hne₂ [] d (by rw [append_nil, ← hrest]; rfl)
    rw [hblank d (by simp)] at hd
    cases hd

theorem exists_of_lit_space {K : String} (hK : IsKeyword K) (h : (lit K ++ space).Spans x y) :
    spells K w ∧ IsPlace ws ∧ y.rest = unwords ws := by
  obtain ⟨z, hlit, hspace⟩ := h
  obtain ⟨k, hk, hz⟩ := exists_of_spans_lit hlit
  obtain ⟨rfl, hws⟩ := exists_of_solid_space hplace hx (hK.of_spells hk).2.1 hz hspace
  exact ⟨hk, hws⟩

theorem exists_of_class_space {p : Char → Bool} (hp : ∀ c, p c → isBlank c = false)
    (h : (many1 p ++ space).Spans x y) : IsPlace ws ∧ y.rest = unwords ws := by
  obtain ⟨z, hmany, hspace⟩ := h
  obtain ⟨g, -, hg, hz⟩ := exists_of_spans_many1 hmany
  exact (exists_of_solid_space hplace hx (fun c hc => hp c (hg c hc)) hz hspace).2

end

end SqlGateway.Text
