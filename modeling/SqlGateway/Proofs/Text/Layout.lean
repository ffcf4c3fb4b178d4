import SqlGateway.Proofs.Text.Words

/-!
# Phrases in any layout

A phrase can be written in capital and small letters, and with any blanks between its words (`Laid`).

* `Laid.prefers`: **a phrase is found in every layout**;
* `exists_of_lit_gap`: where a keyword with blanks behind it is found, it is a whole word.
-/

namespace SqlGateway.Text

open Pattern List

variable {c : Char} {b : Option Char} {k g s r t : List Char} {y : Cursor}

theorem isGap_space : IsGap [' '] :=
  ⟨by simp, by simp⟩

theorem words_blanks_append (hb : ∀ c ∈ g, isBlank c) (s : List Char) : words (g ++ s) = words s := by
  induction g with
  | nil => rfl
  | cons c g ih =>
    rw [forall_mem_cons] at hb
    exact (words_append_blank hb.1 [] (g ++ s)).trans (ih hb.2)

theorem words_append_gap (hg : IsGap g) (x y : List Char) : words (x ++ (g ++ y)) = words x ++ words y := by
  obtain ⟨hne, hblank⟩ := hg
  obtain ⟨c, g, rfl⟩ := exists_cons_of_ne_nil hne
  rw [forall_mem_cons] at hblank
  rw [cons_append, words_append_blank hblank.1, words_blanks_append hblank.2]

theorem words_append_blanks (he : ∀ c ∈ g, isBlank c) (s : List Char) : words (s ++ g) = words s := by
  cases g with
  | nil => rw [append_nil]
  | cons c g =>
    have hwords := words_append_gap ⟨cons_ne_nil c g, he⟩ s []
    rwa [append_nil, show words [] = [] from rfl, append_nil] at hwords

variable {word : String} {words : List String}

/-- A word in any case. -/
def IsCased (word : String) (k : List Char) : Prop :=
  k.map Char.toUpper = word.toList

theorem ascii_of_toUpper (h : c.toUpper.toNat < 128) : c.toNat < 128 := by
  delta Char.toUpper at h
  split at h
  case isTrue hsmall =>
    have hlast := hsmall.2
    exact Nat.lt_of_le_of_lt hlast (by decide)
  case isFalse => exact h

section

variable (hword : IsKeyword word.toList) (hk : IsCased word k)
include hword hk

theorem IsCased.ascii : ∀ c ∈ k, c.toNat < 128 := by
  intro c hc
  have hmem : c.toUpper ∈ word.toList := hk ▸ mem_map_of_mem hc
  exact ascii_of_toUpper ((by decide : ∀ l ∈ capitals, l.toNat < 128) _ (hword.letters _ hmem))

theorem IsCased.upper : upper k = word.toList := by
  rw [upper_of_ascii (hk.ascii hword), hk]

theorem IsCased.lower : lower k = word.toList.map Char.toLower := by
  rw [lower_of_ascii (hk.ascii hword), ← hk, map_map]
  refine map_congr_left fun c hc => ?_
  have hsmall := (by decide +kernel : ∀ n < 128, (Char.ofNat n).toLower = (Char.ofNat n).toUpper.toLower) c.toNat
    (hk.ascii hword c hc)
  rwa [Char.ofNat_toNat] at hsmall

theorem IsCased.spells : spells word.toList k :=
  spells_of_lower hword (hk.ascii hword) (hk.lower hword)

end

/-- The words of a phrase, each with blanks behind it. -/
inductive Laid : List String → List Char → Prop
  | nil : Laid [] []
  | cons {word : String} {words : List String} {k g s : List Char} (hk : IsCased word k) (hg : IsGap g)
      (hs : Laid words s) : Laid (word :: words) (k ++ (g ++ s))

theorem laid_self : ∀ words : List String, (∀ w ∈ words, IsKeyword w.toList) →
    Laid words (words.flatMap fun w => w.toList ++ [' '])
  | [], _ => .nil
  | word :: words, h => by
    have hcapital : ∀ l ∈ word.toList, l.toUpper = l := fun l hl =>
      (by decide : ∀ l ∈ capitals, l.toUpper = l) l ((h word (by simp)).letters l hl)
    have hcased : IsCased word word.toList := (map_congr_left hcapital).trans (map_id' _)
    rw [flatMap_cons, append_assoc]
    exact .cons hcased isGap_space (laid_self words (forall_mem_cons.mp h).2)

theorem Laid.exists_append {v : List String} (h : Laid (words ++ v) s) :
    ∃ s₁ s₂, s = s₁ ++ s₂ ∧ Laid words s₁ ∧ Laid v s₂ := by
  induction words generalizing s with
  | nil => exact ⟨[], s, rfl, .nil, h⟩
  | cons word words ih =>
    cases h with
    | @cons _ _ k g s hk hg hs =>
      obtain ⟨s₁, s₂, rfl, h₁, h₂⟩ := ih hs
      exact ⟨k ++ (g ++ s₁), s₂, by simp, .cons hk hg h₁, h₂⟩

theorem Laid.isBlank_or_isWord (h : Laid words s) (hwords : ∀ w ∈ words, IsKeyword w) :
    ∀ c ∈ s, isBlank c ∨ isWord c := by
  induction h with
  | nil => simp
  | @cons word words k g s hk hg hs ih =>
    have hword := hwords word (by simp)
    intro c hc
    simp only [mem_append] at hc
    rcases hc with hc | hc | hc
    · exact .inr ((hword.of_spells (hk.spells hword)).2.2 c hc)
    · exact .inl (hg.2 c hc)
    · exact ih (forall_mem_cons.mp hwords).2 c hc

theorem Laid.head? (h : Laid (word :: words) s) (hword : IsKeyword word.toList) (r : List Char) :
    ∀ c ∈ (s ++ r).head?, isBlank c = false := by
  cases h with
  | cons hk _ _ =>
    rw [append_assoc]
    exact hword.head? (hk.spells hword) _

/-- **A phrase is found in every layout.** -/
theorem Laid.prefers (h : Laid words s) (hwords : ∀ w ∈ words, IsKeyword w) (hne : words ≠ [])
    (hr : ∀ c ∈ r.head?, isBlank c = false) (l : Kept) : (phrase words ++ space).Prefers (s ++ r) l r l := by
  induction h with
  | nil => exact absurd rfl hne
  | @cons word words k g s hk hg hs ih =>
    have hword := hwords word (by simp)
    have htail : ∀ w ∈ words, IsKeyword w := (forall_mem_cons.mp hwords).2
    rw [append_assoc, append_assoc]
    cases words with
    | nil =>
      cases hs
      exact (prefers_lit (hk.spells hword) _ l).append (prefers_many1 hg.1 hg.2 hr l)
    | cons word' words =>
      have hhead := hs.head? (htail word' (by simp)) r
      exact ((prefers_lit (hk.spells hword) _ l).append (prefers_many1 hg.1 hg.2 hhead l)).append
        (ih htail (by simp))

/-- A keyword that is found with blanks behind it is the word that stands there. -/
theorem exists_of_lit_gap (hword : IsKeyword word.toList) (ht : Solid t) (hg : ∀ c ∈ g, isBlank c)
    (hs : ∀ c ∈ s.head?, isBlank c = false ∧ (isWord c → g ≠ []))
    (h : (lit word ++ space).Spans ⟨b, t ++ (g ++ s)⟩ y) :
    spells word.toList t ∧ ∃ g', (∀ c ∈ g', isBlank c) ∧ y.rest = g' ++ s := by
  obtain ⟨z, hlit, hspace⟩ := h
  obtain ⟨w, hw, hz⟩ := exists_of_spans_lit hlit
  obtain ⟨g₁, hne, hblank, hrest⟩ := exists_of_spans_many1 hspace
  obtain ⟨-, -, hletters⟩ := hword.of_spells hw
  obtain ⟨c, g₁, rfl⟩ := exists_cons_of_ne_nil hne
  rw [hrest] at hz
  have hbehind : ∀ d ∈ (g ++ s).head?, ¬ isWord d := by
    cases g with
    | nil => exact fun d hd h => (hs d hd).2 h rfl
    | cons d g => simp [isWord_of_isBlank (hg d (by simp))]
  obtain ⟨m, rfl, hm⟩ := exists_append_of_class hletters hbehind hz.symm
  cases m with
  | cons d m =>
    obtain ⟨rfl, -⟩ := cons.inj hm
    cases (hblank c (by simp)).symm.trans (ht c (by simp))
  | nil =>
    obtain ⟨m, rfl, hrest⟩ := exists_append_of_class (w := g) hblank (fun d hd => by simp [(hs d hd).1]) hm
    exact ⟨by rwa [append_nil], m, fun d hd => hg d (mem_append_right _ hd), hrest⟩

/-- A phrase of several words does not begin at a word behind which the text ends or a sign stands. -/
theorem not_spans_phrase {v w : String} (hv : IsKeyword v) (hw : IsKeyword w) (ht : Solid t)
    (hg : ∀ c ∈ g, isBlank c) (hs : ∀ c ∈ s.head?, isBlank c = false ∧ isWord c = false) {q : Pattern} :
    ¬ (phrase (v :: w :: words) ++ q).Spans ⟨b, t ++ (g ++ s)⟩ y := by
  rintro ⟨x, ⟨z, hv', hrest⟩, -⟩
  obtain ⟨-, g', hg', hz⟩ := exists_of_lit_gap hv ht hg
    (fun c hc => ⟨(hs c hc).1, fun h => by cases h.symm.trans (hs c hc).2⟩) hv'
  have hword : ∃ z', (lit w).Spans z z' := by
    cases words with
    | nil => exact ⟨x, hrest⟩
    | cons =>
      obtain ⟨-, ⟨z', h, -⟩, -⟩ := hrest
      exact ⟨z', h⟩
  obtain ⟨z', hlit⟩ := hword
  obtain ⟨k, hk, hk'⟩ := exists_of_spans_lit hlit
  obtain ⟨hne, hsolid, hletters⟩ := hw.of_spells hk
  obtain ⟨c, k, rfl⟩ := exists_cons_of_ne_nil hne
  rw [hz] at hk'
  cases g' with
  | nil => cases (hletters c (by simp)).symm.trans (hs c (by rw [show s = _ from hk']; rfl)).2
  | cons d g' =>
    obtain ⟨rfl, -⟩ := cons.inj hk'
    cases (hg' d (by simp)).symm.trans (hsolid d (by simp))

/-! ### Where a word stands in the way -/

theorem eq_toUpper_or (c : Char) : c = c.toUpper ∨ c = c.toUpper.toLower := by
  by_cases hc : c.toNat < 128
  · have hcase := (by decide +kernel : ∀ n < 128, Char.ofNat n = (Char.ofNat n).toUpper ∨
      Char.ofNat n = (Char.ofNat n).toUpper.toLower) c.toNat hc
    rwa [Char.ofNat_toNat] at hcase
  · left
    delta Char.toUpper
    split
    case isTrue hsmall =>
      have hlast := hsmall.2
      exact absurd (Nat.lt_of_le_of_lt hlast (by decide)) hc
    case isFalse => rfl

namespace Pattern

/-- What a pattern can leave of a word at which it begins, whatever the case of the letters; the empty word
stands for everything behind it. -/
def leavings : Pattern → List Char → List (List Char)
  | one _, [] => [[]]
  | one p, l :: w => if p l || p l.toLower then [w] else []
  | many p, w | few p, w => if w.head?.any fun l => !(p l || p l.toLower) then [w] else [[]]
  | seq a b, w => (a.leavings w).flatMap b.leavings
  | alt a b, w => a.leavings w ++ b.leavings w
  | keep _ a, w => a.leavings w
  | _, w => [w]

/-- A text begins with a word in some case. -/
def Opens (w s : List Char) : Prop :=
  ∃ k r, k.map Char.toUpper = w ∧ s = k ++ r

theorem opens_nil (s : List Char) : Opens [] s :=
  ⟨[], s, rfl, rfl⟩

variable {p : Pattern} {q : Char → Bool} {x : Cursor} {w : List Char}

theorem Opens.tail {l : Char} (h : Opens (l :: w) (c :: s)) :
    (q c → (q l || q l.toLower)) ∧ Opens w s := by
  obtain ⟨k, r, hk, hs⟩ := h
  cases k with
  | nil => cases hk
  | cons d k =>
    obtain ⟨rfl, hrest⟩ := cons.inj hs
    obtain ⟨rfl, hword⟩ := cons.inj hk
    refine ⟨fun hq => ?_, k, r, hword, hrest⟩
    rw [Bool.or_eq_true]
    rcases eq_toUpper_or c with h | h
    · exact .inl (h ▸ hq)
    · exact .inr (h ▸ hq)

theorem exists_leaving_of_passes (h : Passes q x y) (hx : Opens w x.rest) :
    ∃ w' ∈ (many q).leavings w, Opens w' y.rest := by
  rw [leavings]
  split
  case isFalse => exact ⟨[], mem_singleton_self _, opens_nil _⟩
  case isTrue hfirst =>
    refine ⟨w, mem_singleton_self _, ?_⟩
    cases h with
    | stay => exact hx
    | @step b c s y hc h =>
      cases w with
      | nil => cases hfirst
      | cons l w =>
        rw [head?_cons, Option.any_some, hx.tail.1 hc] at hfirst
        cases hfirst

theorem exists_leaving (h : p.Spans x y) (hx : Opens w x.rest) : ∃ w' ∈ p.leavings w, Opens w' y.rest := by
  induction p generalizing x y w with
  | one q =>
    obtain ⟨c, s, hc, hq, rfl⟩ := h
    rw [hc] at hx
    cases w with
    | nil => exact ⟨[], mem_singleton_self _, opens_nil _⟩
    | cons l w =>
      obtain ⟨hl, htail⟩ := hx.tail
      rw [leavings, if_pos (hl hq)]
      exact ⟨w, mem_singleton_self _, htail⟩
  | many | few => exact exists_leaving_of_passes h hx
  | seq a b iha ihb =>
    obtain ⟨z, ha, hb⟩ := h
    obtain ⟨w₁, hw₁, hz⟩ := iha ha hx
    obtain ⟨w₂, hw₂, hy⟩ := ihb hb hz
    exact ⟨w₂, mem_flatMap.mpr ⟨w₁, hw₁, hw₂⟩, hy⟩
  | alt a b iha ihb =>
    rcases h with h | h
    · obtain ⟨w', hw', hy⟩ := iha h hx
      exact ⟨w', mem_append_left _ hw', hy⟩
    · obtain ⟨w', hw', hy⟩ := ihb h hx
      exact ⟨w', mem_append_right _ hw', hy⟩
  | keep name a iha => exact iha h hx
  | nothing => exact ⟨w, mem_singleton_self _, (show y = x from h) ▸ hx⟩
  | _ => exact ⟨w, mem_singleton_self _, h.1 ▸ hx⟩

/-- The pattern does not begin at a word. -/
def refuses (p : Pattern) (w : List Char) : Bool :=
  (p.leavings w).isEmpty

theorem not_spans_of_refuses (hp : p.refuses w) (hs : Opens w s) : ¬ p.Spans ⟨b, s⟩ y := by
  intro h
  obtain ⟨w', hw', -⟩ := exists_leaving h hs
  rw [isEmpty_iff.mp hp] at hw'
  cases hw'

end Pattern

end SqlGateway.Text
