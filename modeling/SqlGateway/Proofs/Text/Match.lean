import SqlGateway.Proofs.Text.Search

/-!
# What a match keeps

`Keeps p x k y l`: between two places the pattern makes the kept pieces `l` of `k`, as a search does
(`matchAt?_keeps`). `Takes p s r`: it can match all of `s` where `r` follows, which makes a search succeed
(`find?_append`).
-/

namespace SqlGateway.Text.Pattern

open List

variable {α : Type} {x y : Cursor} {p : Char → Bool} {r s : List Char} {name w : String} {m : Match}

/-! ### Kept pieces -/

/-- The pattern can match from one place to another, and of the pieces that are kept before it makes
those that are kept behind. -/
def Keeps : Pattern → Cursor → Kept → Cursor → Kept → Prop
  | seq a b, x, k, z, m => ∃ y l, a.Keeps x k y l ∧ b.Keeps y l z m
  | alt a b, x, k, y, l => a.Keeps x k y l ∨ b.Keeps x k y l
  | keep name a, x, k, y, m => ∃ l, a.Keeps x k y l ∧ m = (name, ⟨x.rest, y.rest⟩) :: l
  | ahead a, x, k, y, l => y = x ∧ ∃ z, a.Keeps x k z l
  | p, x, k, y, l => p.Spans x y ∧ l = k

theorem Keeps.spans {p : Pattern} : ∀ {x y : Cursor} {k l : Kept}, p.Keeps x k y l → p.Spans x y := by
  induction p with
  | seq a b iha ihb => rintro x z k m ⟨y, l, ha, hb⟩; exact ⟨y, iha ha, ihb hb⟩
  | alt a b iha ihb => intro x y k l h; exact h.imp iha ihb
  | keep name a iha => rintro x y k m ⟨l, ha, -⟩; exact iha ha
  | ahead a iha => rintro x y k l ⟨rfl, z, hz⟩; exact ⟨rfl, z, iha hz⟩
  | nothing | one | many | few | notAhead | edge | finish | last => intro x y k l h; exact h.1

theorem keeps_of_mem_ways {p : Pattern} {x : Cursor} {k : Kept} {w : Cursor × Kept}
    (h : w ∈ p.ways x k) : p.Keeps x k w.1 w.2 := by
  induction p generalizing x k w with
  | seq a b iha ihb =>
    obtain ⟨v, ha, hb⟩ := mem_flatMap.mp h
    exact ⟨v.1, v.2, iha ha, ihb hb⟩
  | alt a b iha ihb =>
    exact (mem_append.mp h).imp iha ihb
  | keep name a iha =>
    obtain ⟨v, ha, rfl⟩ := mem_map.mp h
    exact ⟨v.2, iha ha, rfl⟩
  | ahead a iha =>
    obtain ⟨v, ha, rfl⟩ := mem_map.mp h
    exact ⟨rfl, v.1, iha (mem_of_mem_head? (Option.mem_toList.mp ha))⟩
  | nothing | one | many | few | notAhead | edge | finish | last =>
    exact ⟨mem_ways.mp (mem_map_of_mem h), by grind [ways]⟩

/-- **What a match keeps.** -/
theorem run_keeps (p : Pattern) (x : Cursor) (k : Kept) (next : Cursor → Kept → Option α) (a : α)
    (h : p.run x k next = some a) : ∃ y l, p.Keeps x k y l ∧ next y l = some a := by
  rw [run_eq] at h
  obtain ⟨w, hw, ha⟩ := exists_of_findSome?_eq_some h
  exact ⟨w.1, w.2, keeps_of_mem_ways hw, ha⟩

theorem run_congr {p : Pattern} {k : Kept} {next next' : Cursor → Kept → Option α}
    (h : ∀ y l, p.Keeps x k y l → next y l = next' y l) : p.run x k next = p.run x k next' := by
  have hways : ∀ w ∈ p.ways x k, next w.1 w.2 = next' w.1 w.2 := fun w hw => h w.1 w.2 (keeps_of_mem_ways hw)
  rw [run_eq, run_eq]
  generalize p.ways x k = ws at hways
  induction ws with
  | nil => rfl
  | cons w ws ih =>
    rw [findSome?_cons, findSome?_cons, hways w (by simp), ih (forall_mem_cons.mp hways).2]

theorem pieceBefore_append (u v : List Char) : pieceBefore v (u ++ v) = u := by
  rw [pieceBefore, length_append, Nat.add_sub_cancel_right, take_left]

theorem get_kept (name : String) (u v : List Char) (start : Nat) (text r : List Char) :
    Match.get ⟨start, text, r, [(name, ⟨u ++ v, v⟩)]⟩ name = u := by
  simp [Match.get, Match.get?, Piece.chars, pieceBefore_append]

theorem matchAt?_keeps {p : Pattern} {start : Nat} {b : Option Char} (h : p.matchAt? start b s = some m) :
    ∃ y, p.Keeps ⟨b, s⟩ [] y m.kept ∧ m.rest = y.rest ∧ s = m.text ++ y.rest := by
  obtain ⟨y, l, hy, hm⟩ := run_keeps p _ _ _ _ h
  obtain rfl := Option.some.inj hm
  obtain ⟨z, rfl⟩ : y.rest <:+ s := suffix_of_spans hy.spans
  exact ⟨y, hy, rfl, congrArg (· ++ y.rest) (pieceBefore_append z y.rest).symm⟩

theorem find?_keeps {p : Pattern} (h : p.find? s = some m) :
    ∃ u v b y, s = u ++ v ∧ p.Keeps ⟨b, v⟩ [] y m.kept := by
  obtain ⟨u, v, start, hs, hat⟩ := exists_of_findFrom? h
  obtain ⟨y, hy, -⟩ := matchAt?_keeps hat
  exact ⟨u, v, _, y, hs, hy⟩

def isPlain : Pattern → Bool
  | seq a b => a.isPlain && b.isPlain
  | alt a b => a.isPlain && b.isPlain
  | keep _ _ => false
  | ahead a => a.isPlain
  | _ => true

theorem Keeps.of_isPlain {p : Pattern} {x y : Cursor} {k l : Kept} (hp : p.isPlain)
    (h : p.Keeps x k y l) : p.Spans x y ∧ l = k := by
  refine ⟨h.spans, ?_⟩
  induction p generalizing x y k l with
  | seq a b iha ihb =>
    rw [isPlain, Bool.and_eq_true] at hp
    obtain ⟨y, l, ha, hb⟩ := h
    rw [ihb hp.2 hb, iha hp.1 ha]
  | alt a b iha ihb =>
    rw [isPlain, Bool.and_eq_true] at hp
    exact h.elim (iha hp.1) (ihb hp.2)
  | keep name a => cases hp
  | ahead a iha => obtain ⟨-, z, hz⟩ := h; exact iha hp hz
  | nothing | one | many | few | notAhead | edge | finish | last => exact h.2

theorem keeps_keep {a : Pattern} {k l : Kept} (ha : a.isPlain) (h : (keep name a).Keeps x k y l) :
    a.Spans x y ∧ l = (name, ⟨x.rest, y.rest⟩) :: k := by
  obtain ⟨m, hm, rfl⟩ := h
  obtain ⟨hspans, rfl⟩ := hm.of_isPlain ha
  exact ⟨hspans, rfl⟩

theorem isPlain_foldr {f : Char → Pattern} (hf : ∀ c, (f c).isPlain) : ∀ s : List Char,
    (s.foldr (fun c p => f c ++ p) nothing).isPlain
  | [] => rfl
  | c :: s => by
    show ((f c).isPlain && _)
    rw [hf c, isPlain_foldr hf s]
    rfl

@[simp] theorem isPlain_exactly (w : String) : (exactly w).isPlain :=
  isPlain_foldr (fun _ => rfl) w

def forgets (name : String) : Pattern → Bool
  | seq a b => a.forgets name && b.forgets name
  | alt a b => a.forgets name && b.forgets name
  | keep other a => name != other && a.forgets name
  | ahead a => a.forgets name
  | _ => true

theorem Keeps.lookup_of_forgets {p : Pattern} : ∀ {x y : Cursor} {k l : Kept},
    p.forgets name → p.Keeps x k y l → l.lookup name = k.lookup name := by
  induction p with
  | seq a b iha ihb =>
    intro x z k m hp h
    rw [forgets, Bool.and_eq_true] at hp
    obtain ⟨y, l, ha, hb⟩ := h
    rw [ihb hp.2 hb, iha hp.1 ha]
  | alt a b iha ihb =>
    intro x y k l hp h
    rw [forgets, Bool.and_eq_true] at hp
    rcases h with h | h
    · exact iha hp.1 h
    · exact ihb hp.2 h
  | keep other a iha =>
    intro x y k m hp h
    rw [forgets, Bool.and_eq_true, bne_iff_ne] at hp
    obtain ⟨l, h, rfl⟩ := h
    rw [lookup_cons, beq_false_of_ne hp.1, iha hp.2 h]
  | ahead a iha =>
    intro x y k l hp h
    obtain ⟨-, z, hz⟩ := h
    exact iha hp hz
  | nothing | one | many | few | notAhead | edge | finish | last =>
    rintro x y k l - ⟨-, rfl⟩
    rfl

/-! ### What is done with a match -/

theorem run_map {β : Type} (p : Pattern) (f : α → β) (x : Cursor) (k : Kept) (next : Cursor → Kept → Option α) :
    p.run x k (fun y l => (next y l).map f) = (p.run x k next).map f := by
  rw [run_eq, run_eq, map_findSome?]
  rfl

theorem kept_matchAt? (p : Pattern) (start : Nat) (b : Option Char) (s : List Char) :
    (p.matchAt? start b s).map Match.kept = p.run ⟨b, s⟩ [] fun _ k => some k :=
  (run_map p Match.kept ⟨b, s⟩ [] _).symm

/-! ### More spans of common patterns -/

theorem exists_of_spans_exactly (h : (exactly w).Spans x y) : x.rest = w.toList ++ y.rest := by
  rw [exactly] at h
  generalize w.toList = letters at h ⊢
  induction letters generalizing x with
  | nil =>
    obtain rfl : y = x := h
    rfl
  | cons l word ih =>
    obtain ⟨z, ⟨c, s, hx, hc, rfl⟩, hz⟩ := spans_append.mp h
    obtain rfl : c = l := by simpa using hc
    rw [hx, cons_append, ← ih hz]

theorem exists_of_spans_many (h : (many p).Spans x y) : ∃ s, (∀ c ∈ s, p c) ∧ x.rest = s ++ y.rest :=
  Passes.exists_append h

theorem exists_of_spans_few (h : (few p).Spans x y) : ∃ s, (∀ c ∈ s, p c) ∧ x.rest = s ++ y.rest :=
  Passes.exists_append h

/-! ### Matching a given text -/

/-- The pattern can match all of `s` where `r` follows. -/
def Takes (p : Pattern) (s r : List Char) : Prop :=
  ∀ b, ∃ b', p.Spans ⟨b, s ++ r⟩ ⟨b', r⟩

theorem Takes.append {p q : Pattern} {t : List Char} (hp : p.Takes s (t ++ r)) (hq : q.Takes t r) :
    (p ++ q).Takes (s ++ t) r := by
  intro b
  obtain ⟨b', hp⟩ := hp b
  obtain ⟨b'', hq⟩ := hq b'
  rw [append_assoc]
  exact ⟨b'', ⟨b', t ++ r⟩, hp, hq⟩

theorem Takes.keep {p : Pattern} (h : p.Takes s r) (name : String) : (keep name p).Takes s r := h

theorem Takes.left {p q : Pattern} (h : p.Takes s r) : (alt p q).Takes s r :=
  fun b => (h b).imp fun _ => .inl

theorem Takes.right {p q : Pattern} (h : q.Takes s r) : (alt p q).Takes s r :=
  fun b => (h b).imp fun _ => .inr

theorem takes_one {c : Char} (h : p c) (r : List Char) : (one p).Takes [c] r :=
  fun _ => ⟨some c, c, r, rfl, h, rfl⟩

theorem takes_passes (r : List Char) {s : List Char} (h : ∀ c ∈ s, p c) (b : Option Char) :
    ∃ b', Passes p ⟨b, s ++ r⟩ ⟨b', r⟩ := by
  induction s generalizing b with
  | nil => exact ⟨b, .stay _⟩
  | cons c s ih =>
    obtain ⟨b', hs⟩ := ih (forall_mem_cons.mp h).2 (some c)
    exact ⟨b', .step (h c (by simp)) hs⟩

theorem takes_many (h : ∀ c ∈ s, p c) (r : List Char) : (many p).Takes s r :=
  takes_passes r h

theorem takes_few (h : ∀ c ∈ s, p c) (r : List Char) : (few p).Takes s r :=
  takes_passes r h

theorem takes_many1 (hne : s ≠ []) (h : ∀ c ∈ s, p c) (r : List Char) : (many1 p).Takes s r := by
  obtain ⟨c, s, rfl⟩ := exists_cons_of_ne_nil hne
  exact (takes_one (h c (by simp)) (s ++ r)).append
    (takes_many (forall_mem_cons.mp h).2 r)

theorem takes_finish : finish.Takes [] [] :=
  fun b => ⟨b, rfl, rfl⟩

/-! ### Patterns that look at nothing else -/

/-- Whether a pattern looks at nothing but the piece that it matches. -/
def isFree : Pattern → Bool
  | seq a b => a.isFree && b.isFree
  | alt a b => a.isFree && b.isFree
  | keep _ a => a.isFree
  | ahead _ | notAhead _ | edge | finish | last => false
  | _ => true

/-- Whether a character belongs to no class of a pattern. -/
def avoids (c : Char) : Pattern → Bool
  | one p | many p | few p => !p c
  | seq a b => a.avoids c && b.avoids c
  | alt a b => a.avoids c && b.avoids c
  | keep _ a => a.avoids c
  | _ => true

theorem takes_of_passes {q : Pattern}
    (hq : ∀ s : List Char, (∀ c ∈ s, p c) → ∀ r, q.Takes s r) (h : Passes p x y) :
    ∃ z, x.rest = z ++ y.rest ∧ (∀ r, q.Takes z r) ∧ ∀ c, (!p c) → c ∉ z := by
  obtain ⟨z, hz, hx⟩ := h.exists_append
  refine ⟨z, hx, hq z hz, fun c hc hmem => ?_⟩
  rw [hz c hmem] at hc
  cases hc

/-- **The piece that is matched** can be matched anywhere. -/
theorem exists_of_spans_free {p : Pattern} : ∀ {x y : Cursor}, p.isFree → p.Spans x y →
    ∃ z, x.rest = z ++ y.rest ∧ (∀ r, p.Takes z r) ∧ ∀ c, p.avoids c → c ∉ z := by
  induction p with
  | nothing =>
    intro x y _ h
    obtain rfl : y = x := h
    exact ⟨[], rfl, fun r b => ⟨b, rfl⟩, fun c _ => not_mem_nil⟩
  | one p =>
    intro x y _ h
    obtain ⟨c, s, hx, hc, rfl⟩ := h
    refine ⟨[c], hx, fun r => takes_one hc r, fun d hd hmem => ?_⟩
    obtain rfl := mem_singleton.mp hmem
    rw [avoids, hc] at hd
    cases hd
  | many p => intro x y _ h; exact takes_of_passes (fun _ hs r => takes_many hs r) h
  | few p => intro x y _ h; exact takes_of_passes (fun _ hs r => takes_few hs r) h
  | seq a b iha ihb =>
    intro x z hfree h
    rw [isFree, Bool.and_eq_true] at hfree
    obtain ⟨y, hxy, hyz⟩ := h
    obtain ⟨s, hx, hs, hs'⟩ := iha hfree.1 hxy
    obtain ⟨t, hy, ht, ht'⟩ := ihb hfree.2 hyz
    refine ⟨s ++ t, by rw [hx, hy, append_assoc], fun r => (hs (t ++ r)).append (ht r), ?_⟩
    intro c hc
    rw [avoids, Bool.and_eq_true] at hc
    rw [mem_append, not_or]
    exact ⟨hs' c hc.1, ht' c hc.2⟩
  | alt a b iha ihb =>
    intro x y hfree h
    rw [isFree, Bool.and_eq_true] at hfree
    rcases h with h | h
    · obtain ⟨z, hx, hz, hz'⟩ := iha hfree.1 h
      refine ⟨z, hx, fun r => (hz r).left, fun c hc => ?_⟩
      rw [avoids, Bool.and_eq_true] at hc
      exact hz' c hc.1
    · obtain ⟨z, hx, hz, hz'⟩ := ihb hfree.2 h
      refine ⟨z, hx, fun r => (hz r).right, fun c hc => ?_⟩
      rw [avoids, Bool.and_eq_true] at hc
      exact hz' c hc.2
  | keep name a iha =>
    intro x y hfree h
    obtain ⟨z, hx, hz, hz'⟩ := iha hfree h
    exact ⟨z, hx, fun r => (hz r).keep name, hz'⟩
  | ahead | notAhead | edge | finish | last => intro x y hfree; cases hfree

/-! ### Searches -/

variable {q : Pattern} {u v : List Char} {c : Char}

/-- The pattern matches nowhere in `u` where `v` follows. -/
def Absent (q : Pattern) (u v : List Char) : Prop :=
  ∀ u₁ u₂, u = u₁ ++ u₂ → u₂ ≠ [] → ∀ b y, ¬ q.Spans ⟨b, u₂ ++ v⟩ y

theorem absent_nil : q.Absent [] v :=
  fun _ _ hsplit hne => absurd (append_eq_nil_iff.mp hsplit.symm).2 hne

theorem Absent.tail (h : q.Absent (c :: u) v) : q.Absent u v :=
  fun u₁ u₂ hsplit => h (c :: u₁) u₂ (by rw [hsplit, cons_append])

theorem Absent.head (h : q.Absent (c :: u) v) (b : Option Char) (y : Cursor) : ¬ q.Spans ⟨b, c :: (u ++ v)⟩ y :=
  h [] (c :: u) rfl (by simp) b y

theorem Absent.findFrom? : ∀ {u : List Char} (start : Nat) (b : Option Char), q.Absent u v →
    q.findFrom? start b (u ++ v) = q.findFrom? (start + u.length) (u.getLast?.or b) v
  | [], _, _, _ => rfl
  | c :: u, start, b, h => by
    have hnone : q.matchAt? start b (c :: (u ++ v)) = none := run_eq_none (h.head b)
    rw [cons_append, Pattern.findFrom?, hnone, h.tail.findFrom?, getLast?_cons_or, length_cons,
      Nat.add_right_comm]
    rfl

section

variable {P : List Char → Prop}

theorem exists_first_suffix {s : List Char} (h : ∃ v, v <:+ s ∧ P v) :
    ∃ u v, s = u ++ v ∧ P v ∧ ∀ v', v' <:+ s → P v' → v' <:+ v := by
  induction s with
  | nil =>
    obtain ⟨v, hv, hP⟩ := h
    rw [suffix_nil.mp hv] at hP
    exact ⟨[], [], rfl, hP, fun v' hv' _ => hv'⟩
  | cons c s ih =>
    obtain ⟨v, hv, hP⟩ := h
    by_cases hhere : P (c :: s)
    · exact ⟨[], c :: s, rfl, hhere, fun v' hv' _ => hv'⟩
    · have hlater : ∀ v', v' <:+ c :: s → P v' → v' <:+ s := by
        intro v' hv' hP'
        rcases suffix_cons_iff.mp hv' with rfl | hv'
        · exact absurd hP' hhere
        · exact hv'
      obtain ⟨u, w, rfl, hw, hfirst⟩ := ih ⟨v, hlater v hv hP, hP⟩
      exact ⟨c :: u, w, rfl, hw, fun v' hv' hP' => hfirst v' (hlater v' hv' hP') hP'⟩

theorem not_before_first (hfirst : ∀ v', v' <:+ u ++ v → P v' → v' <:+ v) {u₁ u₂ : List Char}
    (hu : u = u₁ ++ u₂) (hne : u₂ ≠ []) : ¬ P (u₂ ++ v) := by
  intro hP
  have hlength := (hfirst (u₂ ++ v) ⟨u₁, by rw [hu, append_assoc]⟩ hP).length_le
  have hpos := length_pos_iff.mpr hne
  rw [length_append] at hlength
  omega

end

theorem absent_of_first (h : ∀ v', v' <:+ u ++ v → (∃ b y, q.Spans ⟨b, v'⟩ y) → v' <:+ v) : q.Absent u v :=
  fun _ _ hsplit hne b y hy => not_before_first h hsplit hne ⟨b, y, hy⟩

/-- **Searching past a stretch.**  If the pattern matches nowhere in `u` and can match where `u` ends,
it is found there. -/
theorem find?_append (hu : q.Absent u v) (hv : ∀ b, ∃ y, q.Spans ⟨b, v⟩ y) :
    ∃ m, q.find? (u ++ v) = some m ∧ q.matchAt? u.length u.getLast? v = some m := by
  obtain ⟨m, hm⟩ := Option.isSome_iff_exists.mp
    (isSome_matchAt?_iff.mpr (hv u.getLast?))
  refine ⟨m, ?_, hm⟩
  rw [find?, hu.findFrom?, Nat.zero_add, Option.or_none]
  exact findFrom?_of_matchAt? hm

end SqlGateway.Text.Pattern
