import Mathlib.Data.List.TakeWhile
import SqlGateway.Text.Basic

/-!
# Trimmed texts

A text is what `strip` leaves of it between two runs of blanks (`exists_strip`), and blanks around it do not
matter (`strip_append_blanks`).
-/

namespace SqlGateway.Text

open List Option

variable {c : Char} {s t u : List Char} {p : Char → Bool}

/-! ### Characters of a text -/

-- There are finitely many characters, but what holds of those of a text is decided along the text.

instance (priority := 1100) decidableForallMem (p : Char → Prop) [DecidablePred p] (s : List Char) :
    Decidable (∀ c, c ∈ s → p c) :=
  decidableBAll p s

instance (priority := 1100) decidableExistsMem (p : Char → Prop) [DecidablePred p] (s : List Char) :
    Decidable (∃ c, c ∈ s ∧ p c) :=
  decidableBEx p s

/-! ### Blanks -/

theorem isBlank_iff : isBlank c ↔
    (9 ≤ c.toNat ∧ c.toNat ≤ 13) ∨ (28 ≤ c.toNat ∧ c.toNat ≤ 32) ∨ c.toNat = 133 ∨
      c.toNat = 160 ∨ c.toNat = 5760 ∨ (8192 ≤ c.toNat ∧ c.toNat ≤ 8202) ∨
      (8232 ≤ c.toNat ∧ c.toNat ≤ 8233) ∨ c.toNat = 8239 ∨ c.toNat = 8287 ∨ c.toNat = 12288 := by
  simp only [isBlank, blankRanges, Ranges.has, any_cons, any_nil, Bool.or_eq_true,
    Bool.and_eq_true, decide_eq_true_eq, Bool.or_false]
  omega

def blankCodes : List Nat :=
  [9, 10, 11, 12, 13, 28, 29, 30, 31, 32, 133, 160, 5760, 8192, 8193, 8194, 8195, 8196, 8197, 8198, 8199,
    8200, 8201, 8202, 8232, 8233, 8239, 8287, 12288]

theorem exists_blankCode (h : isBlank c) : ∃ n ∈ blankCodes, c = Char.ofNat n := by
  refine ⟨c.toNat, ?_, (Char.ofNat_toNat c).symm⟩
  rw [isBlank_iff] at h
  simp only [blankCodes, mem_cons, not_mem_nil, or_false]
  omega

/-- Blanks, at least one. -/
def IsGap (g : List Char) : Prop :=
  g ≠ [] ∧ ∀ c ∈ g, isBlank c

@[simp] theorem isBlank_space : isBlank ' ' := by decide

theorem isBlank_of_printable (h : 33 ≤ c.toNat) (h' : c.toNat ≤ 126) : isBlank c = false := by
  rw [Bool.eq_false_iff, ne_eq, isBlank_iff]
  omega

/-! ### Trimming -/

theorem dropWhile_eq_self (s : List Char) (h : ∀ c ∈ s.head?, p c = false) : s.dropWhile p = s := by
  cases s with
  | nil => rfl
  | cons c r => rw [dropWhile_cons_of_neg (by simp [h c (by simp)])]

theorem head?_dropWhile {α : Type} (p : α → Bool) (l : List α) : ∀ a ∈ (l.dropWhile p).head?, p a = false := by
  intro a ha
  have hfirst := head?_dropWhile_not p l
  rw [mem_def.mp ha] at hfirst
  simpa using hfirst

theorem stripBy_eq_self (hhead : ∀ c ∈ s.head?, p c = false)
    (hlast : ∀ c ∈ s.getLast?, p c = false) : stripBy p s = s := by
  rw [stripBy, dropWhile_eq_self s hhead, dropWhile_eq_self, reverse_reverse]
  simpa using hlast

theorem strip_eq_self (hhead : ∀ c ∈ s.head?, isBlank c = false)
    (hlast : ∀ c ∈ s.getLast?, isBlank c = false) : strip s = s :=
  stripBy_eq_self hhead hlast

theorem strip_eq_self_of_solid (h : ∀ c ∈ s, isBlank c = false) : strip s = s :=
  strip_eq_self (fun c hc => h c (mem_of_head? hc)) (fun c hc => h c (mem_of_getLast? hc))

/-- **What trimming takes away.**  A text is its trimmed form between two runs of blanks. -/
theorem exists_strip (s : List Char) : ∃ u v, s = u ++ strip s ++ v ∧
    (∀ c ∈ u, isBlank c) ∧ ∀ c ∈ v, isBlank c := by
  have hleft : s = s.takeWhile isBlank ++ s.dropWhile isBlank := takeWhile_append_dropWhile.symm
  have hright : s.dropWhile isBlank = strip s ++ ((s.dropWhile isBlank).reverse.takeWhile isBlank).reverse := by
    rw [strip, stripBy, ← reverse_append, takeWhile_append_dropWhile, reverse_reverse]
  refine ⟨s.takeWhile isBlank, ((s.dropWhile isBlank).reverse.takeWhile isBlank).reverse, ?_, ?_, ?_⟩
  · rw [append_assoc, ← hright, ← hleft]
  · intro c hc
    exact mem_takeWhile_imp hc
  · intro c hc
    exact mem_takeWhile_imp (mem_reverse.mp hc)

theorem mem_of_mem_strip (h : c ∈ strip s) : c ∈ s := by
  obtain ⟨u, v, hs, -⟩ := exists_strip s
  rw [hs]
  exact mem_append_left v (mem_append_right u h)

theorem exists_strip_cons (hc : isBlank c = false) (s : List Char) :
    ∃ t v, strip (c :: s) = c :: t ∧ s = t ++ v := by
  obtain ⟨u, v, hs, hu, hv⟩ := exists_strip (c :: s)
  have hsolid : ∀ {w : List Char}, (∀ d ∈ w, isBlank d) → ∀ t, c :: s = w ++ t → w = [] := by
    intro w hw t h
    cases w with
    | nil => rfl
    | cons d w =>
      obtain ⟨rfl, -⟩ := cons.inj h
      rw [hw c (by simp)] at hc
      cases hc
  obtain rfl := hsolid hu (strip (c :: s) ++ v) (by rw [← append_assoc]; exact hs)
  cases hstrip : strip (c :: s) with
  | nil =>
    rw [hstrip] at hs
    have hv' := hsolid hv [] (by simpa using hs)
    rw [hv'] at hs
    cases hs
  | cons d t =>
    rw [hstrip] at hs
    obtain ⟨rfl, hrest⟩ := cons.inj hs
    exact ⟨t, v, rfl, hrest⟩

theorem getLast?_append_eq_some (h : (s ++ t).getLast? = some c) :
    t.getLast? = some c ∨ t = [] ∧ s.getLast? = some c := by
  cases t with
  | nil => exact .inr ⟨rfl, by rwa [append_nil] at h⟩
  | cons d t =>
    rw [getLast?_append, getLast?_cons, some_or] at h
    exact .inl (by rw [getLast?_cons, h])

theorem getLast?_strip_of_solid (h : s.getLast? = some c) (hc : isBlank c = false) :
    (strip s).getLast? = some c := by
  obtain ⟨u, v, hs, hu, hv⟩ := exists_strip s
  have hlast : ∀ {w : List Char}, (∀ d ∈ w, isBlank d) → w.getLast? ≠ some c := by
    intro w hw hlast
    rw [hw c (mem_of_getLast? hlast)] at hc
    cases hc
  rw [hs] at h
  rcases getLast?_append_eq_some h with h | ⟨-, h⟩
  · exact absurd h (hlast hv)
  · exact (getLast?_append_eq_some h).resolve_right fun h => hlast hu h.2

theorem length_strip_le (s : List Char) : (strip s).length ≤ s.length := by
  obtain ⟨u, v, hs, -⟩ := exists_strip s
  have hlength := congrArg length hs
  rw [length_append, length_append] at hlength
  omega

theorem strip_blanks_append (hu : ∀ c ∈ u, isBlank c) (s : List Char) : strip (u ++ s) = strip s := by
  rw [strip, strip, stripBy, stripBy, dropWhile_append_of_pos hu]

theorem strip_append_blanks {v : List Char} (hv : ∀ c ∈ v, isBlank c) (s : List Char) :
    strip (s ++ v) = strip s := by
  have hv' : ∀ c ∈ v.reverse, isBlank c := fun c hc => hv c (mem_reverse.mp hc)
  rw [strip, strip, stripBy, stripBy, dropWhile_append]
  split
  case isTrue hs =>
    rw [isEmpty_iff.mp hs, ← append_nil v, dropWhile_append_of_pos hv]
    rfl
  case isFalse => rw [reverse_append, dropWhile_append_of_pos hv']

theorem head?_strip (s : List Char) : ∀ c ∈ (strip s).head?, isBlank c = false := by
  intro c hc
  have hprefix : strip s <+: s.dropWhile isBlank := by
    rw [strip, stripBy, ← reverse_suffix, reverse_reverse]
    exact dropWhile_suffix isBlank
  obtain ⟨t, ht⟩ := hprefix
  refine head?_dropWhile isBlank s c ?_
  rw [← ht, head?_append, mem_def.mp hc, some_or]
  rfl

theorem getLast?_strip (s : List Char) : ∀ c ∈ (strip s).getLast?, isBlank c = false := by
  intro c hc
  rw [strip, stripBy, getLast?_reverse] at hc
  exact head?_dropWhile isBlank _ c hc

@[simp] theorem strip_strip (s : List Char) : strip (strip s) = strip s :=
  strip_eq_self (head?_strip s) (getLast?_strip s)

theorem endsWith_singleton (h : ∀ d ∈ s.getLast?, d ≠ c) : endsWith [c] s = false := by
  rw [endsWith, reverse_singleton]
  cases hs : s.reverse with
  | nil => rfl
  | cons d r =>
    have hd : d ≠ c := h d (by rw [mem_def, ← head?_reverse, hs, head?_cons])
    simp [isPrefixOf, Ne.symm hd]

theorem getLast?_append_cons (ht : t ≠ []) (s : List Char) (c : Char) :
    (s ++ c :: t).getLast? = t.getLast? := by
  obtain ⟨d, t, rfl⟩ := exists_cons_of_ne_nil ht
  rw [getLast?_append, getLast?_cons_cons, getLast?_cons, some_or]

theorem strip_append_append (hs : s ≠ []) (hs' : strip s = s) (ht : t ≠ []) (ht' : strip t = t)
    (u : List Char) : strip (s ++ (u ++ t)) = s ++ (u ++ t) := by
  have hhead := head?_strip s
  have hlast := getLast?_strip t
  rw [hs'] at hhead
  rw [ht'] at hlast
  refine strip_eq_self ?_ ?_
  · obtain ⟨c, s, rfl⟩ := exists_cons_of_ne_nil hs
    exact hhead
  · obtain ⟨c, t, rfl⟩ := exists_cons_of_ne_nil ht
    rw [← append_assoc, getLast?_append, getLast?_cons, some_or]
    rwa [getLast?_cons] at hlast

theorem strip_append_space (hs : s ≠ []) (hs' : strip s = s) (ht : t ≠ []) (ht' : strip t = t) :
    strip (s ++ ' ' :: t) = s ++ ' ' :: t :=
  strip_append_append hs hs' ht ht' [' ']

/-- A beginning of a class lies in what stands before a character outside the class. -/
theorem exists_append_of_class {P : Char → Prop} {r x w : List Char} (hs : ∀ c ∈ s, P c)
    (hr : ∀ c ∈ r.head?, ¬ P c) (h : s ++ x = w ++ r) : ∃ v, w = s ++ v ∧ x = v ++ r := by
  rcases append_eq_append_iff.mp h with ⟨v, rfl, hv⟩ | ⟨v, rfl, rfl⟩
  · exact ⟨v, rfl, hv⟩
  · cases v with
    | nil => exact ⟨[], by simp, by simp⟩
    | cons c v => exact absurd (hs c (by simp)) (hr c rfl)

/-- A blank of a text that begins with a word and a space is that space or comes later. -/
theorem eq_or_of_append_blank {r : List Char} {b : Char} (hs : ∀ c ∈ s, isBlank c = false)
    (hb : isBlank b) (h : s ++ ' ' :: t = u ++ b :: r) :
    (u = s ∧ r = t) ∨ ∃ v, u = s ++ ' ' :: v ∧ t = v ++ b :: r := by
  obtain ⟨v, rfl, hv⟩ := exists_append_of_class hs (by simp [hb]) h
  cases v with
  | nil => exact .inl ⟨append_nil s, (cons.inj hv).2.symm⟩
  | cons c v =>
    obtain ⟨rfl, rfl⟩ := cons.inj hv
    exact .inr ⟨v, rfl, rfl⟩

end SqlGateway.Text
