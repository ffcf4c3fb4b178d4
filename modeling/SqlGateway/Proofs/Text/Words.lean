import SqlGateway.Proofs.Text.Case
import SqlGateway.Proofs.Text.Preference
import SqlGateway.Proofs.Text.Trim

/-!
# Texts made of words

`unwords` writes words with one space between them, and every blank of such a text divides its words.  So a
keyword next to a blank is the end or the beginning of a word, and **with blanks on both sides it is a word of
the text** (`exists_word_of_spans`).
-/

namespace SqlGateway.Text

open List

variable {k v u₁ u₂ w t u : List Char} {b : Option Char} {x y : Pattern.Cursor} {l : Char}
variable {ws : List (List Char)} {c : Char} {s word : List Char}

/-! ### Words -/

/-- Words with one space between them. -/
def unwords : List (List Char) → List Char
  | [] => []
  | [w] => w
  | w :: v :: ws => w ++ ' ' :: unwords (v :: ws)

/-- A text without blanks. -/
def Solid (s : List Char) : Prop :=
  ∀ c ∈ s, isBlank c = false

instance (s : List Char) : Decidable (Solid s) := inferInstanceAs (Decidable (∀ c ∈ s, isBlank c = false))

theorem solid_nil : Solid [] := by
  simp [Solid]

@[simp] theorem unwords_singleton (w : List Char) : unwords [w] = w := rfl

theorem unwords_cons (h : ws ≠ []) (w : List Char) : unwords (w :: ws) = w ++ ' ' :: unwords ws := by
  obtain ⟨v, ws, rfl⟩ := exists_cons_of_ne_nil h
  rfl

theorem unwords_append {a b : List (List Char)} (ha : a ≠ []) (hb : b ≠ []) :
    unwords (a ++ b) = unwords a ++ ' ' :: unwords b := by
  induction a with
  | nil => exact absurd rfl ha
  | cons w a ih =>
    cases a with
    | nil => rw [singleton_append, unwords_cons hb, unwords_singleton]
    | cons v a =>
      rw [cons_append, unwords_cons (by simp), unwords_cons (by simp), ih (by simp), append_assoc, cons_append]

theorem mem_unwords : ∀ {ws : List (List Char)}, c ∈ unwords ws → c = ' ' ∨ ∃ w ∈ ws, c ∈ w
  | [], h => by simp [unwords] at h
  | [w], h => .inr ⟨w, by simp, h⟩
  | w :: v :: ws, h => by
    rw [unwords, mem_append, mem_cons] at h
    rcases h with h | h | h
    · exact .inr ⟨w, by simp, h⟩
    · exact .inl h
    · exact (mem_unwords h).imp id fun ⟨x, hx, hc⟩ => ⟨x, mem_cons_of_mem _ hx, hc⟩

theorem strip_unwords : ∀ {ws : List (List Char)}, ws ≠ [] → (∀ w ∈ ws, w ≠ [] ∧ Solid w) →
    unwords ws ≠ [] ∧ strip (unwords ws) = unwords ws
  | [], h, _ => absurd rfl h
  | [w], _, h => ⟨(h w (by simp)).1, strip_eq_self_of_solid (h w (by simp)).2⟩
  | w :: v :: ws, _, h => by
    obtain ⟨hne, hsolid⟩ := h w (by simp)
    obtain ⟨hne', htrim⟩ := strip_unwords (cons_ne_nil v ws)
      (forall_mem_cons.mp h).2
    exact ⟨by simp [unwords], strip_append_space hne (strip_eq_self_of_solid hsolid) hne' htrim⟩

/-- **The words of a text made of words** are these. -/
theorem words_unwords (h : ∀ w ∈ ws, w ≠ [] ∧ Solid w) : words (unwords ws) = ws := by
  have hword : ∀ (w current s : List Char), Solid w →
      wordsFrom current (w ++ s) = wordsFrom (w.reverse ++ current) s := by
    intro w
    induction w with
    | nil => intro current s _; rfl
    | cons c w ih =>
      intro current s hw
      rw [cons_append, wordsFrom, hw c (by simp), if_neg (by simp), ih _ _ (forall_mem_cons.mp hw).2]
      simp
  rw [words]
  induction ws with
  | nil => rfl
  | cons w ws ih =>
    obtain ⟨hne, hsolid⟩ := h w (by simp)
    have ih := ih (forall_mem_cons.mp h).2
    cases ws with
    | nil =>
      have hlast := hword w [] [] hsolid
      simp only [append_nil] at hlast
      rw [unwords_singleton, hlast, wordsFrom]
      simp [hne]
    | cons v ws =>
      rw [unwords_cons (by simp), hword w [] _ hsolid, wordsFrom, if_pos (by decide), ih]
      simp [hne]

theorem words_solid (hne : w ≠ []) (hw : Solid w) : words w = [w] :=
  words_unwords (show ∀ v ∈ [w], v ≠ [] ∧ Solid v from forall_mem_singleton.mpr ⟨hne, hw⟩)

theorem words_append_blank {b : Char} (hb : isBlank b) (x y : List Char) :
    words (x ++ b :: y) = words x ++ words y := by
  have hfrom : ∀ x current : List Char,
      wordsFrom current (x ++ b :: y) = wordsFrom current x ++ wordsFrom [] y := by
    intro x
    induction x with
    | nil =>
      intro current
      rw [nil_append, wordsFrom, wordsFrom, if_pos hb]
      split <;> rfl
    | cons c x ih =>
      intro current
      rw [cons_append, wordsFrom, wordsFrom]
      split
      · split
        · exact ih []
        · rw [ih [], cons_append]
      · exact ih (c :: current)
  exact hfrom x []

/-- **A blank divides the words.** -/
theorem exists_of_unwords_eq (hc : isBlank c) {ws : List (List Char)} {u : List Char}
    (hws : ∀ w ∈ ws, Solid w) (h : unwords ws = u ++ c :: v) :
    ∃ ws₁ ws₂, ws = ws₁ ++ ws₂ ∧ ws₁ ≠ [] ∧ ws₂ ≠ [] ∧ u = unwords ws₁ ∧ v = unwords ws₂ := by
  induction ws generalizing u with
  | nil => simp [unwords] at h
  | cons w ws ih =>
    have hw := hws w (by simp)
    cases ws with
    | nil =>
      have hmem : c ∈ w := by
        rw [unwords_singleton] at h
        simp [h]
      rw [hw c hmem] at hc
      cases hc
    | cons x ws =>
      rcases eq_or_of_append_blank hw hc h with ⟨rfl, rfl⟩ | ⟨t, rfl, ht⟩
      · exact ⟨[u], x :: ws, rfl, by simp, by simp, rfl, rfl⟩
      · obtain ⟨ws₁, ws₂, hsplit, hne₁, hne₂, rfl, hv⟩ :=
          ih (forall_mem_cons.mp hws).2 ht
        exact ⟨w :: ws₁, ws₂, by rw [hsplit, cons_append], by simp, hne₂,
          (unwords_cons hne₁ w).symm, hv⟩

theorem exists_of_solid_append (hk : Solid k) (ht : ∀ c ∈ t.head?, isBlank c) (h : k ++ v = w ++ t) :
    ∃ x, w = k ++ x ∧ v = x ++ t :=
  exists_append_of_class hk (fun c hc => by simp [ht c hc]) h

theorem hasPiece_space (hne : k ≠ []) (hk : Solid k) (a b : List Char) :
    hasPiece k (a ++ ' ' :: b) = (hasPiece k a || hasPiece k b) := by
  rw [Bool.eq_iff_iff, Bool.or_eq_true, hasPiece, hasPiece, hasPiece, isSome_cutAt?_iff,
    isSome_cutAt?_iff, isSome_cutAt?_iff]
  constructor
  · rintro ⟨u, v, h⟩
    rw [append_assoc] at h
    rcases append_eq_append_iff.mp h with ⟨t, rfl, ht⟩ | ⟨t, rfl, ht⟩
    · cases t with
      | nil =>
        obtain ⟨c, k, rfl⟩ := exists_cons_of_ne_nil hne
        obtain ⟨rfl, -⟩ := cons.inj ht
        exact absurd (hk ' ' (by simp)) (by decide)
      | cons c t => exact .inr ⟨t, v, (cons.inj ht).2.trans (append_assoc t k v).symm⟩
    · obtain ⟨x, rfl, -⟩ := exists_of_solid_append hk (by simp) ht
      exact .inl ⟨u, x, by rw [append_assoc]⟩
  · rintro (⟨u, v, rfl⟩ | ⟨u, v, rfl⟩)
    · exact ⟨u, v ++ ' ' :: b, by simp⟩
    · exact ⟨a ++ ' ' :: u, v, by simp⟩

theorem exists_of_append_solid (hk : Solid k) (hs : ∀ c ∈ s.getLast?, isBlank c) (h : u ++ k = s ++ w) :
    ∃ x, w = x ++ k ∧ u = s ++ x := by
  rcases append_eq_append_iff.mp h with ⟨a, rfl, rfl⟩ | ⟨a, rfl, hw⟩
  · rcases eq_nil_or_concat a with rfl | ⟨a, c, rfl⟩
    · exact ⟨[], by simp, by simp⟩
    · have := hk c (by simp)
      rw [hs c (by simp)] at this
      cases this
  · exact ⟨a, hw, rfl⟩

theorem exists_unwords_concat (ws : List (List Char)) (w : List Char) :
    ∃ s, unwords (ws ++ [w]) = s ++ w ∧ ∀ c ∈ s.getLast?, isBlank c := by
  cases ws with
  | nil => exact ⟨[], rfl, by simp⟩
  | cons v ws =>
    refine ⟨unwords (v :: ws) ++ [' '], ?_, by simp⟩
    rw [unwords_append (by simp) (by simp), unwords_singleton]
    simp

theorem exists_unwords_cons (w : List Char) (ws : List (List Char)) :
    ∃ t, unwords (w :: ws) = w ++ t ∧ ∀ c ∈ t.head?, isBlank c := by
  cases ws with
  | nil => exact ⟨[], by simp, by simp⟩
  | cons v ws => exact ⟨' ' :: unwords (v :: ws), rfl, by simp⟩

theorem head_solid_append (hne : s ≠ []) (hs : Solid s) (r : List Char) :
    ∀ c ∈ (s ++ r).head?, isBlank c = false := by
  obtain ⟨c, s, rfl⟩ := exists_cons_of_ne_nil hne
  rintro d ⟨⟩
  exact hs c (by simp)

theorem head_unwords (h : ∀ w ∈ ws, w ≠ [] ∧ Solid w) (hne : ws ≠ []) (r : List Char) :
    ∀ c ∈ (unwords ws ++ r).head?, isBlank c = false := by
  obtain ⟨w, ws, rfl⟩ := exists_cons_of_ne_nil hne
  obtain ⟨t, ht, -⟩ := exists_unwords_cons w ws
  obtain ⟨hwne, hsolid⟩ := h w (by simp)
  rw [ht, append_assoc]
  exact head_solid_append hwne hsolid _

theorem exists_of_append_blank (hws : ∀ w ∈ ws, Solid w) (hk : Solid k)
    (hc : isBlank c) (h : unwords ws = u ++ (k ++ c :: v)) :
    ∃ ws₁ w ws₂ s x, ws = ws₁ ++ w :: ws₂ ∧ ws₂ ≠ [] ∧ w = x ++ k ∧ u = s ++ x ∧
      (∀ d ∈ s.getLast?, isBlank d) ∧ v = unwords ws₂ := by
  rw [← append_assoc] at h
  obtain ⟨ws₁, ws₂, rfl, hne₁, hne₂, hu, hv⟩ := exists_of_unwords_eq hc hws h
  obtain ⟨ws₁, w, rfl⟩ := (eq_nil_or_concat ws₁).resolve_left hne₁
  obtain ⟨s, hs, hblank⟩ := exists_unwords_concat ws₁ w
  rw [concat_eq_append, hs] at hu
  obtain ⟨x, hw, hux⟩ := exists_of_append_solid hk hblank hu
  exact ⟨ws₁, w, ws₂, s, x, by simp, hne₂, hw, hux, hblank, hv⟩

/-! ### Keywords -/

/-- The letters of keywords. -/
def capitals : List Char :=
  "ABCDEFGHIJKLMNOPQRSTUVWXYZ"

theorem isWord_of_sameCapital (hl : l ∈ capitals) (h : sameLetter l c) :
    isWord c ∧ isBlank c = false := by
  have hcode : ∀ n : Nat, c.toNat = n → c = Char.ofNat n := fun n hn => by
    rw [← hn, Char.ofNat_toNat]
  have hplain : ∀ l ∈ capitals, (isWord l.toLower ∧ isBlank l.toLower = false) ∧
      isWord l.toUpper ∧ isBlank l.toUpper = false := by decide
  simp only [sameLetter, Bool.or_eq_true, Bool.and_eq_true, beq_iff_eq] at h
  rcases h with (((rfl | rfl) | ⟨-, h⟩) | ⟨-, h⟩) | ⟨-, h | h⟩
  · exact (hplain l hl).1
  · exact (hplain l hl).2
  all_goals
    rw [hcode _ h]
    decide +kernel

theorem isWord_of_isBlank (h : isBlank c) : isWord c = false := by
  obtain ⟨n, hn, rfl⟩ := exists_blankCode h
  exact (by decide +kernel : ∀ n ∈ blankCodes, isWord (Char.ofNat n) = false) n hn

theorem isBlank_of_isWord (h : isWord c) : isBlank c = false := by
  by_contra hblank
  rw [isWord_of_isBlank (Bool.not_eq_false _ ▸ hblank)] at h
  cases h

/-- A keyword: letters, and not empty. -/
@[mk_iff] structure IsKeyword (word : List Char) : Prop where
  ne_nil : word ≠ []
  letters : ∀ l ∈ word, l ∈ capitals

instance (word : List Char) : Decidable (IsKeyword word) := decidable_of_iff _ (isKeyword_iff word).symm

theorem IsKeyword.of_spells (h : IsKeyword word) (hk : spells word k) :
    k ≠ [] ∧ Solid k ∧ ∀ c ∈ k, isWord c := by
  have hchar : ∀ c ∈ k, isWord c ∧ isBlank c = false := by
    intro c hc
    obtain ⟨l, hl, hsame⟩ := exists_of_mem_spells hk hc
    exact isWord_of_sameCapital (h.letters l hl) hsame
  refine ⟨?_, fun c hc => (hchar c hc).2, fun c hc => (hchar c hc).1⟩
  rintro rfl
  exact h.ne_nil (length_eq_zero_iff.mp (spells_length hk).symm)

theorem IsKeyword.solid (h : IsKeyword word) (hk : spells word k) : Solid k :=
  (h.of_spells hk).2.1

theorem IsKeyword.head? (h : IsKeyword word) (hk : spells word k) (r : List Char) :
    ∀ c ∈ (k ++ r).head?, isBlank c = false :=
  head_solid_append (h.of_spells hk).1 (h.solid hk) r

theorem IsKeyword.spells_self (h : IsKeyword word) : spells word word :=
  spells_iff.mpr (forall₂_same.mpr fun l hl =>
    (by decide : ∀ l ∈ capitals, sameLetter l l) l (h.letters l hl))

theorem spells_of_lower (hword : IsKeyword word) (hs : ∀ c ∈ s, c.toNat < 128)
    (h : lower s = word.map Char.toLower) : spells word s := by
  have hcode : ∀ l ∈ capitals, ∀ n < 128, (Char.ofNat n).toLower = l.toLower →
      sameLetter l (Char.ofNat n) := by decide +kernel
  rw [lower_of_ascii hs] at h
  have hletters := hword.letters
  clear hword
  induction word generalizing s with
  | nil =>
    rw [map_eq_nil_iff.mp h]
    rfl
  | cons l word ih =>
    obtain ⟨c, s, rfl, hc, hrest⟩ := map_eq_cons_iff.mp h
    have hl := hcode l (hletters l (by simp)) c.toNat (hs c (by simp)) (by rw [Char.ofNat_toNat, hc])
    rw [Char.ofNat_toNat] at hl
    rw [spells, hl, ih (forall_mem_cons.mp hs).2 hrest (forall_mem_cons.mp hletters).2]
    rfl

/-- Whether a text begins with a keyword, its case left aside. -/
def opensWith (word s : List Char) : Bool :=
  spells word (s.take word.length)

/-- Whether a text ends with a keyword, its case left aside. -/
def closesWith (word s : List Char) : Bool :=
  spells word (s.drop (s.length - word.length))

theorem opensWith_iff : opensWith word s ↔ ∃ k x, s = k ++ x ∧ spells word k := by
  constructor
  · exact fun h => ⟨_, s.drop word.length, (take_append_drop _ s).symm, h⟩
  · rintro ⟨k, x, rfl, hk⟩
    rw [opensWith, ← spells_length hk, take_left]
    exact hk

theorem closesWith_iff : closesWith word s ↔ ∃ x k, s = x ++ k ∧ spells word k := by
  constructor
  · exact fun h => ⟨s.take (s.length - word.length), _, (take_append_drop _ s).symm, h⟩
  · rintro ⟨x, k, rfl, hk⟩
    rw [closesWith, ← spells_length hk, length_append, Nat.add_sub_cancel, drop_left]
    exact hk

theorem IsKeyword.closesWith_nil (h : IsKeyword word) : closesWith word [] = false := by
  rw [← Bool.not_eq_true, closesWith_iff]
  rintro ⟨x, k, hxk, hk⟩
  exact (h.of_spells hk).1 (append_eq_nil_iff.mp hxk.symm).2

/-- Whether no edge lies in a text before a keyword at its end. -/
def seamless (word s : List Char) : Bool :=
  !closesWith word s || (s.take (s.length - word.length)).getLast?.all isWord

theorem seamless_iff : seamless word s ↔
      ∀ x k, s = x ++ k → spells word k → ∀ c ∈ x.getLast?, isWord c := by
  rw [seamless, Bool.or_eq_true, Bool.not_eq_true', ← Bool.not_eq_true, Option.all_eq_true, closesWith]
  constructor
  · rintro h x k rfl hk
    rw [length_append, spells_length hk, Nat.add_sub_cancel, drop_left, take_left] at h
    exact fun c hc => h.resolve_left (not_not_intro hk) c hc
  · intro h
    by_cases hk : spells word (s.drop (s.length - word.length))
    · exact .inr (h _ _ (take_append_drop _ s).symm hk)
    · exact .inl hk

theorem seamless_of_word (h : ∀ c ∈ s, isWord c) : seamless word s := by
  refine seamless_iff.mpr ?_
  rintro x k rfl _ c hc
  exact h c (mem_append_left _ (mem_of_getLast? hc))

theorem seamless_of_not_closesWith (h : closesWith word s = false) : seamless word s := by
  rw [seamless, h]
  rfl

theorem closesWith_of_spells (h : spells word s) : closesWith word s :=
  closesWith_iff.mpr ⟨[], s, rfl, h⟩

section

variable {word : List Char} (hword : IsKeyword word) {c : Char}
  (hc : ∀ l ∈ capitals, sameLetter l c = false) (s : List Char)
include hword hc

theorem not_mem_of_spells (hk : spells word k) : c ∉ k := by
  intro hmem
  obtain ⟨l, hl, hsame⟩ := exists_of_mem_spells hk hmem
  rw [hc l (hword.letters l hl)] at hsame
  cases hsame

theorem closesWith_concat : closesWith word (s ++ [c]) = false := by
  rw [← Bool.not_eq_true, closesWith_iff]
  rintro ⟨x, k, hxk, hk⟩
  obtain ⟨k, d, rfl⟩ := (eq_nil_or_concat k).resolve_left (hword.of_spells hk).1
  rw [concat_eq_append, ← append_assoc] at hxk
  obtain rfl : c = d := by simpa using (append_inj' hxk rfl).2
  exact not_mem_of_spells hword hc hk (by simp)

theorem spells_concat : spells word (s ++ [c]) = false := by
  rw [← Bool.not_eq_true]
  intro h
  cases (closesWith_of_spells h).symm.trans (closesWith_concat hword hc s)

theorem opensWith_concat : opensWith word (s ++ [c]) = opensWith word s := by
  rw [Bool.eq_iff_iff, opensWith_iff, opensWith_iff]
  constructor
  · rintro ⟨k, x, hkx, hk⟩
    rcases eq_nil_or_concat x with rfl | ⟨x, d, rfl⟩
    · exact absurd (by rw [← append_nil k, ← hkx]; simp) (not_mem_of_spells hword hc hk)
    · rw [concat_eq_append, ← append_assoc] at hkx
      exact ⟨k, x, (append_inj' hkx rfl).1, hk⟩
  · rintro ⟨k, x, rfl, hk⟩
    exact ⟨k, x ++ [c], by simp, hk⟩

end

/-! ### Keywords in a search -/

namespace Pattern

/-- A place in a text. -/
def At (s : List Char) (x : Cursor) : Prop :=
  ∃ u, s = u ++ x.rest ∧ x.before = u.getLast?

theorem At.next (h : At s ⟨b, c :: t⟩) : At s ⟨some c, t⟩ := by
  obtain ⟨u, rfl, -⟩ := h
  exact ⟨u ++ [c], by simp, by simp⟩

theorem At.spans {p : Pattern} (h : p.Spans x y) : At s x → At s y :=
  h.steps (R := fun x y => At s x → At s y) (fun _ => id) (fun hxy hyz hx => hyz (hxy hx)) fun _ _ _ => At.next

theorem before_of_spans_space (h : space.Spans x y) : ∃ c, y.before = some c ∧ isBlank c := by
  obtain ⟨z, ⟨c, t, -, hc, rfl⟩, hpass⟩ := spans_append.mp h
  have hlast : ∀ {x y : Cursor}, Passes isBlank x y → (∃ c, x.before = some c ∧ isBlank c) →
      ∃ c, y.before = some c ∧ isBlank c := by
    intro x y h
    induction h with
    | stay => exact id
    | @step b c s y hc _ ih => exact fun _ => ih ⟨c, rfl, hc⟩
  exact hlast hpass ⟨c, rfl, hc⟩

theorem head_of_spans_space (h : space.Spans x y) : ∃ c r, x.rest = c :: r ∧ isBlank c := by
  obtain ⟨z, ⟨c, t, hx, hc, -⟩, -⟩ := spans_append.mp h
  exact ⟨c, t, hx, hc⟩

theorem prefers_phrase (r : List Char) (k : Kept) : ∀ {words : List String}, (∀ w ∈ words, IsKeyword w) →
      (phrase words).Prefers (unwords (words.map String.toList) ++ r) k r k
  | [], _ => fun b => ⟨b, fun _ _ => rfl⟩
  | [w], h => prefers_lit (h w (by simp)).spells_self r k
  | w :: v :: words, h => by
    have hhead := head_unwords (r := r) (by
      intro u hu
      obtain ⟨K, hK, rfl⟩ := mem_map.mp hu
      have hkeyword := h K (mem_cons_of_mem _ hK)
      exact ⟨hkeyword.ne_nil, (hkeyword.of_spells hkeyword.spells_self).2.1⟩) (by simp)
    have hwords := ((prefers_lit (h w (by simp)).spells_self _ k).append (prefers_many1 (s := [' '])
      (by simp) (by simp) hhead k)).append
      (prefers_phrase r k (forall_mem_cons.mp h).2)
    have htext : unwords ((w :: v :: words).map String.toList) ++ r =
        w ++ ([' '] ++ (unwords ((v :: words).map String.toList) ++ r)) := by
      rw [map_cons, unwords_cons (by simp)]
      simp
    rw [htext]
    exact hwords

section

variable {K : String} (hK : IsKeyword K) {ws : List (List Char)} {g : List Char}
include hK

section

variable (hws : ∀ w ∈ ws, Solid w)
include hws

/-- **A keyword between an edge and a blank is a word**, if no word has an edge before the keyword at its
end. -/
theorem exists_word_of_spans
    (hseam : ∀ w ∈ ws, seamless K w) (hx : At (unwords ws) x)
    (hedge : ∀ c ∈ x.before, isWord c = false) (h : (lit K).Spans x y)
    (hy : ∃ c r, y.rest = c :: r ∧ isBlank c) : ∃ w ∈ ws, spells K w := by
  obtain ⟨u, hu, hbefore⟩ := hx
  obtain ⟨k, hk, hrest⟩ := exists_of_spans_lit h
  obtain ⟨c, r, hcr, hc⟩ := hy
  rw [hrest, hcr] at hu
  obtain ⟨ws₁, w, ws₂, s, t, rfl, -, rfl, rfl, -, -⟩ :=
    exists_of_append_blank hws (hK.of_spells hk).2.1 hc hu
  have hword := seamless_iff.mp (hseam (t ++ k) (by simp)) t k rfl hk
  -- no word character stands before the keyword
  have ht : t = [] := by
    rcases eq_nil_or_concat t with rfl | ⟨t, d, rfl⟩
    · rfl
    · have hd := hedge d (by rw [hbefore]; simp)
      rw [hword d (by simp)] at hd
      cases hd
  exact ⟨t ++ k, by simp, by rw [ht]; exact hk⟩

theorem exists_closing_of_spans (hsplit : unwords ws ++ [' '] = u₁ ++ u₂)
    (hne : u₂ ≠ []) (h : (lit K).Spans ⟨b, u₂ ++ v⟩ y) (hy : ∃ c r, y.rest = c :: r ∧ isBlank c) :
    ∃ w ∈ ws, closesWith K w := by
  obtain ⟨k, hk, hrest⟩ := exists_of_spans_lit h
  obtain ⟨hkne, hsolid, -⟩ := hK.of_spells hk
  obtain ⟨c, r, hcr, hc⟩ := hy
  -- the stretch ends with a blank, so the keyword and the blank behind it lie inside
  obtain ⟨t, rfl⟩ : ∃ t, u₂ = t ++ [' '] := by
    obtain ⟨t, d, rfl⟩ := (eq_nil_or_concat u₂).resolve_left hne
    rw [concat_eq_append, ← append_assoc] at hsplit
    exact ⟨t, by rw [concat_eq_append, (append_inj' hsplit rfl).2]⟩
  have hk' : k ++ c :: r = t ++ ' ' :: v := by
    rw [← hcr, ← hrest]
    simp
  obtain ⟨a, rfl, ha⟩ : ∃ a, t = k ++ a ∧ c :: r = a ++ ' ' :: v :=
    exists_of_solid_append hsolid (by simp) hk'
  have hwhole : unwords (ws ++ [[]]) = u₁ ++ (k ++ (a ++ [' '])) := by
    cases ws with
    | nil =>
      have := congrArg length hsplit
      have hpos := length_pos_iff.mpr hkne
      simp [unwords] at this
      omega
    | cons w ws =>
      rw [unwords_append (by simp) (by simp), unwords_singleton, hsplit]
      simp
  have hhead : ∃ d a', a ++ [' '] = d :: a' ∧ isBlank d := by
    cases a with
    | nil => exact ⟨' ', [], rfl, by decide⟩
    | cons d a => exact ⟨d, a ++ [' '], rfl, (cons.inj ha).1 ▸ hc⟩
  obtain ⟨d, a', ha', hd⟩ := hhead
  rw [ha'] at hwhole
  have hws' : ∀ w ∈ ws ++ [[]], Solid w := by
    intro w hw
    rcases mem_append.mp hw with hw | hw
    · exact hws w hw
    · rw [mem_singleton.mp hw]; exact solid_nil
  obtain ⟨ws₁, w, ws₂, s, x, hlist, hne₂, rfl, -, -, -⟩ :=
    exists_of_append_blank hws' hsolid hd hwhole
  have hmem : x ++ k ∈ ws := by
    obtain ⟨ws₂, e, rfl⟩ := (eq_nil_or_concat ws₂).resolve_left hne₂
    have hinit : ws = ws₁ ++ (x ++ k) :: ws₂ := by
      have := (append_inj' (hlist.trans (by simp : _ = (ws₁ ++ (x ++ k) :: ws₂) ++ [e])) rfl).1
      exact this
    simp [hinit]
  exact ⟨x ++ k, hmem, closesWith_iff.mpr ⟨x, k, rfl, hk⟩⟩

/-- **The first word that ends with a keyword** is where a search for the keyword and a blank stops. -/
theorem not_spans_before_closing
    (hno : ∀ w ∈ ws, closesWith K w = false) {x : List Char} (hx : Solid (x ++ k))
    (hk : spells K k) {r : List Char} (hsplit : unwords ws ++ ' ' :: x = u₁ ++ u₂)
    (hne : u₂ ≠ []) (hy : ∃ c r, y.rest = c :: r ∧ isBlank c) :
    ¬ (lit K).Spans ⟨b, u₂ ++ (k ++ ' ' :: r)⟩ y := by
  intro h
  -- inside the word itself the keyword would have to be longer
  have hinside : ∀ t, x ≠ t ++ u₂ := by
    rintro t rfl
    obtain ⟨k', hk', hrest⟩ := exists_of_spans_lit h
    obtain ⟨c, s, hcs, hc⟩ := hy
    have hend : (u₂ ++ k) ++ ' ' :: r = k' ++ c :: s := by
      rw [← hcs, ← hrest, append_assoc]
    have hsolid : Solid (u₂ ++ k) := fun d hd => hx d (by rw [append_assoc]; simp [hd])
    rcases eq_or_of_append_blank hsolid hc hend with ⟨rfl, -⟩ | ⟨v, rfl, -⟩
    · have hlength := (spells_length hk').trans (spells_length hk).symm
      have hpos := length_pos_iff.mpr hne
      rw [length_append] at hlength
      omega
    · exact absurd ((hK.of_spells hk').2.1 ' ' (by simp)) (by decide)
  have hsplit' : (unwords ws ++ [' ']) ++ x = u₁ ++ u₂ := by
    rw [← hsplit]
    simp
  rcases append_eq_append_iff.mp hsplit' with ⟨t, -, hx'⟩ | ⟨t, hstretch, rfl⟩
  · exact hinside t hx'
  · by_cases ht : t = []
    · exact hinside [] (by simp [ht])
    · rw [append_assoc] at h
      obtain ⟨w, hw, hcloses⟩ := exists_closing_of_spans hK hws hstretch ht h hy
      rw [hno w hw] at hcloses
      cases hcloses

theorem exists_opening_of_spans (hnil : ∀ w ∈ ws.tail, w ≠ [])
    (hsplit : unwords ws = u₁ ++ u₂) (hne : u₂ ≠ [])
    (hv : ∀ c ∈ v.head?, isBlank c) (hg : g ≠ []) (hblank : ∀ c ∈ g, isBlank c)
    (hx : u₂ ++ v = g ++ x.rest) (h : (lit K).Spans x y) :
    ∃ k a t, k ++ a ∈ ws.tail ∧ spells K k ∧ y.rest = a ++ t ∧
      ∀ c ∈ t.head?, isBlank c := by
  obtain ⟨k, hk, hrest⟩ := exists_of_spans_lit h
  obtain ⟨hkne, hsolid, -⟩ := hK.of_spells hk
  obtain ⟨d, u₂, rfl⟩ := exists_cons_of_ne_nil hne
  obtain ⟨d', g, rfl⟩ := exists_cons_of_ne_nil hg
  rw [cons_append, cons_append] at hx
  obtain ⟨rfl, htail⟩ := cons.inj hx
  obtain ⟨ws₁, ws₂, rfl, hne₁, hne₂, -, rfl⟩ :=
    exists_of_unwords_eq (hblank d (by simp)) hws hsplit
  obtain ⟨w, ws₂, rfl⟩ := exists_cons_of_ne_nil hne₂
  obtain ⟨e, ws₁, rfl⟩ := exists_cons_of_ne_nil hne₁
  have hwne := hnil w (by simp)
  have hwsolid := hws w (by simp)
  obtain ⟨t, ht, htblank⟩ := exists_unwords_cons w ws₂
  -- a word follows at once
  have hg : g = [] := by
    cases g with
    | nil => rfl
    | cons e g =>
      obtain ⟨a, w, rfl⟩ := exists_cons_of_ne_nil hwne
      rw [ht, cons_append, cons_append, cons_append] at htail
      obtain ⟨rfl, -⟩ := cons.inj htail
      have := hwsolid a (by simp)
      rw [hblank a (by simp)] at this
      cases this
  rw [hg, ht, hrest, nil_append, append_assoc] at htail
  have hhead : ∀ c ∈ (t ++ v).head?, isBlank c := by
    cases t with
    | nil => exact hv
    | cons c t => exact htblank
  obtain ⟨a, rfl, ha⟩ := exists_of_solid_append hsolid hhead htail.symm
  exact ⟨k, a, t ++ v, by simp, hk, ha, hhead⟩

theorem exists_whole_of_spans (hnil : ∀ w ∈ ws.tail, w ≠ [])
    (hsplit : unwords ws = u₁ ++ u₂) (hne : u₂ ≠ [])
    (hv : ∀ c ∈ v.head?, isBlank c) (hg : g ≠ []) (hblank : ∀ c ∈ g, isBlank c)
    (hx : u₂ ++ v = g ++ x.rest) (h : (lit K).Spans x y)
    (hy : ∃ c r, y.rest = c :: r ∧ isBlank c) : ∃ w ∈ ws.tail, spells K w := by
  obtain ⟨k, a, t, hw, hk, hrest, -⟩ := exists_opening_of_spans hK hws hnil hsplit hne hv hg hblank hx h
  obtain ⟨c, r, hcr, hc⟩ := hy
  have ha : a = [] := by
    cases a with
    | nil => rfl
    | cons d a =>
      rw [hcr] at hrest
      obtain ⟨rfl, -⟩ := cons.inj hrest
      have := hws _ (mem_of_mem_tail hw) c (by simp)
      rw [hc] at this
      cases this
  rw [ha, append_nil] at hw
  exact ⟨k, hw, hk⟩

end

end

end Pattern

end SqlGateway.Text
