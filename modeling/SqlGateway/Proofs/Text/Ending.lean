import SqlGateway.Proofs.Text.Preference

/-!
# Texts that differ in their ending

A text `r` is read once with `a` and once with `b` behind it.  Two continuations `Agree` if they do the same
at the same places of `r`, and a pattern that is `Blocked` at both endings hands this on (`Agree.run`).  So
**a search finds the same** in both texts (`texts_find?`, `view_findAll`).
-/

namespace SqlGateway.Text.Pattern

open List Option

variable {α : Type} {r a b y : List Char} {p q : Pattern} {next next' : Cursor → Kept → Option α}

/-! ### What is read of a match -/

def texts (k : Kept) : List (String × List Char) :=
  k.map fun entry => (entry.1, entry.2.chars)

theorem get?_eq_lookup (m : Match) (name : String) : m.get? name = (texts m.kept).lookup name := by
  rw [Match.get?, texts]
  induction m.kept with
  | nil => rfl
  | cons entry kept ih =>
    obtain ⟨other, piece⟩ := entry
    rw [map_cons, lookup_cons, lookup_cons]
    cases name == other with
    | true => rfl
    | false => exact ih

theorem map_get_of_texts {found found' : Option Match}
    (h : found.map (fun m => texts m.kept) = found'.map fun m => texts m.kept) (name : String) :
    found.map (·.get name) = found'.map (·.get name) := by
  have hget : ∀ o : Option Match, o.map (·.get name) =
      (o.map fun m => texts m.kept).map fun t => (t.lookup name).getD [] := by
    intro o
    cases o with
    | none => rfl
    | some m => exact congrArg some (congrArg (getD · []) (get?_eq_lookup m name))
  rw [hget, hget, h]

theorem pieceBefore_ending (y z a : List Char) :
    pieceBefore (z ++ a) (y ++ a) = y.take (y.length - z.length) := by
  rw [pieceBefore, length_append, length_append, Nat.add_sub_add_right,
    take_append_of_le_length (Nat.sub_le _ _)]

/-! ### Going the same way -/

/-- The two continuations do the same at the same places of `r`. -/
def Agree (r a b : List Char) (next next' : Cursor → Kept → Option α) : Prop :=
  ∀ (c : Option Char) {y : List Char} {k k' : Kept}, y <:+ r → texts k = texts k' →
    next ⟨c, y ++ a⟩ k = next' ⟨c, y ++ b⟩ k'

/-- The continuation fails once a character of the ending is taken. -/
def Fails (a : List Char) (next : Cursor → Kept → Option α) : Prop :=
  ∀ z t : List Char, a = z ++ t → z ≠ [] → ∀ c k, next ⟨c, t⟩ k = none

theorem Fails.run (h : Fails a next) (p : Pattern) : Fails a fun x k => p.run x k next := by
  intro z t ha hne c k
  show p.run ⟨c, t⟩ k next = none
  cases hrun : p.run ⟨c, t⟩ k next with
  | none => rfl
  | some found =>
    obtain ⟨⟨d, s⟩, l, hspans, hnext⟩ := run_sound hrun
    obtain ⟨u, rfl⟩ : s <:+ t := suffix_of_spans hspans
    have hnone := h (z ++ u) s (by rw [ha, append_assoc]) (by simp [hne]) d l
    rw [hnone] at hnext
    cases hnext

/-- Whether a pattern neither takes the character nor looks at it. -/
def holdsOff (c : Char) : Pattern → Bool
  | one p | many p | few p => !p c
  | seq a b | alt a b => a.holdsOff c && b.holdsOff c
  | keep _ a | ahead a | notAhead a => a.holdsOff c
  | nothing | edge => true
  | finish | last => false

/-- Whether a pattern looks no further than to the next character. -/
def isSteady : Pattern → Bool
  | seq a b | alt a b => a.isSteady && b.isSteady
  | keep _ a => a.isSteady
  | ahead _ | notAhead _ | finish | last => false
  | _ => true

/-- The pattern does not go into the ending, or there what follows it fails. -/
def Blocked (a : List Char) (p : Pattern) (next : Cursor → Kept → Option α) : Prop :=
  (∀ c ∈ a.head?, p.holdsOff c) ∨ (p.isSteady ∧ Fails a next)

/-- Of two patterns both are blocked, the first also if the second follows it. -/
theorem Blocked.both (h : (∀ c ∈ a.head?, (p.holdsOff c && q.holdsOff c)) ∨
      ((p.isSteady && q.isSteady) ∧ Fails a next)) :
    Blocked a p (fun x k => q.run x k next) ∧ Blocked a p next ∧ Blocked a q next := by
  simp only [Bool.and_eq_true] at h
  rcases h with h | ⟨hs, hf⟩
  · have hp : ∀ c ∈ a.head?, p.holdsOff c := fun c hc => (h c hc).1
    exact ⟨.inl hp, .inl hp, .inl fun c hc => (h c hc).2⟩
  · exact ⟨.inr ⟨hs.1, hf.run q⟩, .inr ⟨hs.1, hf⟩, .inr ⟨hs.2, hf⟩⟩

theorem Blocked.one {p : Char → Bool} (h : Blocked a (one p) next) (c : Option Char) (k : Kept) :
    (one p).run ⟨c, a⟩ k next = none := by
  cases a with
  | nil => rfl
  | cons d t =>
    show (if p d then next ⟨some d, t⟩ k else none) = none
    rcases h with h | ⟨-, hf⟩
    · have hd : p d = false := by simpa [holdsOff] using h d rfl
      rw [if_neg (by simp [hd])]
    · rw [hf [d] t rfl (by simp), ite_self]

/-- A repetition that goes over characters of the ending gets no further. -/
theorem Blocked.passes {p : Char → Bool} (h : Blocked a (many p) next) (c : Option Char) (k : Kept) :
    ∃ l, passes p c a = ⟨c, a⟩ :: l ∧ l.findSome? (next · k) = none ∧ l.reverse.findSome? (next · k) = none := by
  obtain ⟨l, hl, hnil, hbehind⟩ := passes_eq_cons p c a
  have hnone : ∀ y ∈ l, next y k = none := by
    intro y hy
    rcases h with h | ⟨-, hf⟩
    · rw [hnil fun d hd => by simpa [holdsOff] using h d hd] at hy
      cases hy
    · obtain ⟨z, hne, ha⟩ := hbehind y hy
      exact hf z y.rest ha hne y.before k
  exact ⟨l, hl, findSome?_eq_none_iff.mpr hnone,
    findSome?_eq_none_iff.mpr fun y hy => hnone y (mem_reverse.mp hy)⟩

theorem Blocked.many {p : Char → Bool} (h : Blocked a (many p) next) (c : Option Char) (k : Kept) :
    longest p (next · k) c a = next ⟨c, a⟩ k := by
  obtain ⟨l, hl, -, hnone⟩ := h.passes c k
  rw [longest_eq, hl, reverse_cons, findSome?_append, hnone, none_or, findSome?_singleton]

theorem Blocked.few {p : Char → Bool} (h : Blocked a (few p) next) (c : Option Char) (k : Kept) :
    shortest p (next · k) c a = next ⟨c, a⟩ k := by
  obtain ⟨l, hl, hnone, -⟩ := Blocked.passes h c k
  rw [shortest_eq, hl, findSome?_cons, hnone]
  cases next ⟨c, a⟩ k <;> rfl

/-- What a repetition does in `r` is settled by what it does at the ending, if at each character it goes by
what follows there and by what it does behind it. -/
theorem Agree.passes {F : (Cursor → Option α) → Option Char → List Char → Option α}
    {G : Char → Option α → Option α → Option α} (h : Agree r a b next next')
    (hF : ∀ next c d s, F next c (d :: s) = G d (next ⟨c, d :: s⟩) (F next (some d) s)) {k k' : Kept}
    (hk : texts k = texts k') (ha : ∀ c, F (next · k) c a = next ⟨c, a⟩ k)
    (hb : ∀ c, F (next' · k') c b = next' ⟨c, b⟩ k') {y : List Char} (hy : y <:+ r) (c : Option Char) :
    F (next · k) c (y ++ a) = F (next' · k') c (y ++ b) := by
  induction y generalizing c with
  | nil =>
    rw [nil_append, nil_append, ha, hb]
    exact h c hy hk
  | cons d y ih =>
    have hrest := ih ((suffix_cons d y).trans hy) (some d)
    have hhere := h c hy hk
    rw [cons_append, cons_append] at hhere ⊢
    rw [hF, hF, hrest, hhere]

theorem Agree.shortest {p : Char → Bool} (h : Agree r a b next next') {k k' : Kept}
    (hk : texts k = texts k') (ha : ∀ c, shortest p (next · k) c a = next ⟨c, a⟩ k)
    (hb : ∀ c, shortest p (next' · k') c b = next' ⟨c, b⟩ k') (hy : y <:+ r)
    (c : Option Char) : shortest p (next · k) c (y ++ a) = shortest p (next' · k') c (y ++ b) :=
  h.passes (G := fun d here later => here <|> if p d then later else none) (fun _ _ _ _ => rfl) hk ha hb hy c

/-- Neither ending begins with a character of a word, and the second is not empty. -/
structure Endings (a b : List Char) : Prop where
  left : a.head?.any isWord = false
  right : b.head?.any isWord = false
  ne_nil : b ≠ []

theorem Endings.atEdge (h : Endings a b) (c : Option Char) (y : List Char) :
    Cursor.atEdge ⟨c, y ++ a⟩ = Cursor.atEdge ⟨c, y ++ b⟩ := by
  rw [Cursor.atEdge, Cursor.atEdge]
  cases y with
  | nil => rw [nil_append, nil_append, h.left, h.right]
  | cons d y => rfl

theorem Agree.keep (h : Agree r a b next next') (name : String) (y : List Char) : Agree r a b
      (fun there k => next there ((name, ⟨y ++ a, there.rest⟩) :: k))
      (fun there k => next' there ((name, ⟨y ++ b, there.rest⟩) :: k)) := by
  intro c z k k' hz hk
  refine h c hz ?_
  rw [texts, texts, map_cons, map_cons]
  congr 1
  show (name, pieceBefore (z ++ a) (y ++ a)) = (name, pieceBefore (z ++ b) (y ++ b))
  rw [pieceBefore_ending, pieceBefore_ending]

/-- The pattern keeps the same texts in both, if nothing follows it. -/
def Closes (r a b : List Char) (p : Pattern) : Prop :=
  Agree r a b (fun x k => p.run x k fun _ l => some (texts l)) (fun x k => p.run x k fun _ l => some (texts l))

theorem Agree.ahead (h : Agree r a b next next') (hp : Closes r a b p) :
    Agree r a b (fun x k => (ahead p).run x k next) (fun x k => (ahead p).run x k next') := by
  intro c y k k' hy hk
  have hinner := hp c hy hk
  simp only [← map_some, run_map] at hinner
  simp only [run]
  cases hleft : p.run ⟨c, y ++ a⟩ k fun _ k => some k with
  | none =>
    rw [hleft] at hinner
    rw [map_eq_none_iff.mp hinner.symm]
  | some l =>
    rw [hleft] at hinner
    obtain ⟨l', hright, hl⟩ := map_eq_some_iff.mp hinner.symm
    rw [hright]
    exact h c hy hl.symm

/-- **A pattern hands agreement on**, if it is blocked at both endings. -/
theorem Agree.run (he : Endings a b) : ∀ {p : Pattern} {α : Type} {next next' : Cursor → Kept → Option α},
    Agree r a b next next' → Blocked a p next → Blocked b p next' →
      Agree r a b (fun x k => p.run x k next) (fun x k => p.run x k next') := by
  intro p
  induction p with
  | nothing => intro α next next' h _ _; exact h
  | one p =>
    intro α next next' h ha hb c y k k' hy hk
    cases y with
    | nil => exact (ha.one c k).trans (hb.one c k').symm
    | cons d y =>
      show (if p d then next ⟨some d, y ++ a⟩ k else none) = if p d then next' ⟨some d, y ++ b⟩ k' else none
      rw [h (some d) ((suffix_cons d y).trans hy) hk]
  | many p =>
    intro α next next' h ha hb c y k k' hy hk
    exact h.passes (G := fun d here later => if p d then later <|> here else here) (fun _ _ _ _ => rfl) hk
      (fun c => ha.many c k) (fun c => hb.many c k') hy c
  | few p =>
    intro α next next' h ha hb c y k k' hy hk
    exact h.shortest hk (fun c => ha.few c k) (fun c => hb.few c k') hy c
  | seq p q ihp ihq =>
    intro α next next' h ha hb
    exact ihp (ihq h (Blocked.both ha).2.2 (Blocked.both hb).2.2) (Blocked.both ha).1 (Blocked.both hb).1
  | alt p q ihp ihq =>
    intro α next next' h ha hb c y k k' hy hk
    have hp := ihp h (Blocked.both ha).2.1 (Blocked.both hb).2.1 c hy hk
    have hq := ihq h (Blocked.both ha).2.2 (Blocked.both hb).2.2 c hy hk
    simp only at hp hq
    show (p.run _ _ next <|> q.run _ _ next) = (p.run _ _ next' <|> q.run _ _ next')
    rw [hp, hq]
  | keep name p ih =>
    intro α next next' h ha hb c y k k' hy hk
    have hblocked : ∀ {a : List Char} {next : Cursor → Kept → Option α}, Blocked a (Pattern.keep name p) next →
        Blocked a p fun there k => next there ((name, ⟨y ++ a, there.rest⟩) :: k) := by
      intro a next h
      exact h.imp id fun h => ⟨h.1, fun z t hz hne c k => h.2 z t hz hne c _⟩
    exact ih (h.keep name y) (hblocked ha) (hblocked hb) c hy hk
  | ahead p ih =>
    intro α next next' h ha hb
    have hoff : ∀ {a : List Char} {next : Cursor → Kept → Option α}, Blocked a (Pattern.ahead p) next →
        Blocked a p fun _ l => some (texts l) := by
      intro a next h
      exact h.imp id fun h => Bool.noConfusion h.1
    exact h.ahead (ih (fun _ _ _ _ _ hk => congrArg some hk) (hoff ha) (hoff hb))
  | notAhead p ih =>
    intro α next next' h ha hb c y k k' hy hk
    have hoff : ∀ {a : List Char} {next : Cursor → Kept → Option α}, Blocked a (notAhead p) next →
        Blocked a p fun _ _ => some () := by
      intro a next h
      exact h.imp id fun h => Bool.noConfusion h.1
    have hinner := ih (fun c y k k' _ hk => rfl) (hoff ha) (hoff hb) c hy hk
    simp only [Pattern.run] at hinner ⊢
    rw [hinner, h c hy hk]
  | edge =>
    intro α next next' h _ _ c y k k' hy hk
    show (if Cursor.atEdge _ then next _ k else none) = if Cursor.atEdge _ then next' _ k' else none
    rw [he.atEdge, h c hy hk]
  | finish | last =>
    intro α next next' _ _ hb
    obtain ⟨d, t, rfl⟩ := exists_cons_of_ne_nil he.ne_nil
    rcases hb with hb | ⟨hb, -⟩
    · exact Bool.noConfusion (hb d rfl)
    · exact Bool.noConfusion hb

/-! ### The last pattern -/

theorem Misses.fails (h : Misses a p) : Fails a fun x k => p.run x k next := by
  intro z t ha hne c k
  exact run_eq_none (h z t ha hne c)

theorem Misses.append (h : Misses a p) (q : Pattern) : Misses a (p ++ q) := by
  rintro z t ha hne c y ⟨x, hx, -⟩
  exact h z t ha hne c x hx

theorem misses_one {p : Char → Bool} (h : ∀ c ∈ a.tail, p c = false) : Misses a (one p) := by
  rintro z t ha hne c y ⟨d, s, rfl, hd, -⟩
  obtain ⟨e, z, rfl⟩ := exists_cons_of_ne_nil hne
  rw [h d (by simp [ha])] at hd
  cases hd

/-- The least number of characters that a pattern takes. -/
def least : Pattern → Nat
  | one _ => 1
  | seq a b => a.least + b.least
  | alt a b => min a.least b.least
  | keep _ a => a.least
  | _ => 0

theorem least_le_of_spans {p : Pattern} : ∀ {x y : Cursor}, p.Spans x y →
    y.rest.length + p.least ≤ x.rest.length := by
  induction p with
  | nothing | ahead | notAhead | edge | finish | last =>
    intro x y h
    first
      | rw [show y = x from h]; exact Nat.le_refl _
      | rw [h.1]; exact Nat.le_refl _
  | one p =>
    rintro ⟨c, s⟩ y ⟨d, t, rfl, -, rfl⟩
    exact Nat.le_refl _
  | many p | few p =>
    intro x y h
    obtain ⟨z, -, hz⟩ := Passes.exists_append h
    rw [hz, length_append]
    exact Nat.le_add_left _ _
  | seq p q ihp ihq =>
    rintro x z ⟨y, hp, hq⟩
    have hx := ihp hp
    have hy := ihq hq
    rw [least]
    omega
  | alt p q ihp ihq =>
    intro x y h
    rw [least]
    rcases h with h | h
    · have hx := ihp h
      omega
    · have hx := ihq h
      omega
  | keep name p ih => intro x y h; exact ih h

theorem misses_of_least (h : a.length ≤ p.least) : Misses a p := by
  rintro z t rfl hne c y hy
  have hleast : y.rest.length + p.least ≤ t.length := least_le_of_spans hy
  rw [length_append] at h
  have hz : 0 < z.length := length_pos_iff.mpr hne
  omega

/-- The pattern can match where `r` ends. -/
def Ends (a : List Char) (p : Pattern) : Prop :=
  ∀ c, ∃ y, p.Spans ⟨c, a⟩ y

theorem shortest_of_isSome {p : Char → Bool} {next : Cursor → Option α} {c : Option Char}
    (h : (next ⟨c, a⟩).isSome) : shortest p next c a = next ⟨c, a⟩ := by
  obtain ⟨found, hfound⟩ := isSome_iff_exists.mp h
  cases a with
  | nil => rfl
  | cons d t =>
    rw [shortest, hfound]
    rfl

section

variable (he : Endings a b)
include he

theorem Closes.append (hq : Closes r a b q) (ha : Blocked a p fun x k => q.run x k fun _ l => some (texts l))
    (hb : Blocked b p fun x k => q.run x k fun _ l => some (texts l)) : Closes r a b (p ++ q) := by
  have h : Agree r a b (fun x k => q.run x k fun _ l => some (texts l))
      (fun x k => q.run x k fun _ l => some (texts l)) := hq
  exact h.run he ha hb

theorem closes_of_holdsOff (ha : ∀ c ∈ a.head?, p.holdsOff c)
    (hb : ∀ c ∈ b.head?, p.holdsOff c) : Closes r a b p :=
  Agree.run he (fun _ _ _ _ _ hk => congrArg some hk) (.inl ha) (.inl hb)

end

theorem Closes.alt (hp : Closes r a b p) (hq : Closes r a b q) : Closes r a b (alt p q) := by
  intro c y k k' hy hk
  have hleft := hp c hy hk
  have hright := hq c hy hk
  simp only [run] at hleft hright ⊢
  rw [hleft, hright]

theorem Agree.few (h : Agree r a b next next') (p : Char → Bool) (name : String)
    (ha : ∀ c k, (next ⟨c, a⟩ k).isSome) (hb : ∀ c k, (next' ⟨c, b⟩ k).isSome) : Agree r a b
      (fun x k => (Pattern.keep name (few p)).run x k next)
      (fun x k => (Pattern.keep name (few p)).run x k next') := by
  intro c y k k' hy hk
  exact (h.keep name y).shortest hk (fun c => shortest_of_isSome (ha c _))
    (fun c => shortest_of_isSome (hb c _)) hy c

theorem Closes.few (hq : Closes r a b q) (ha : Ends a q) (hb : Ends b q) (p : Char → Bool)
    (name : String) : Closes r a b (keep name (few p) ++ q) := by
  refine Agree.few hq p name (fun c k => ?_) (fun c k => ?_)
  · obtain ⟨y, hy⟩ := ha c
    exact run_complete hy (fun _ => rfl) k
  · obtain ⟨y, hy⟩ := hb c
    exact run_complete hy (fun _ => rfl) k

/-! ### Searches -/

theorem Misses.findFrom? (h : Misses a p) (start : Nat) (c : Option Char) :
    p.findFrom? start c a = p.matchAt? start c a := by
  cases a with
  | nil => rfl
  | cons d t =>
    have hnone : p.findFrom? (start + 1) (some d) t = none := by
      rw [← not_isSome_iff_eq_none, isSome_findFrom?_iff]
      rintro ⟨u, v, y, rfl, hy⟩
      exact h (d :: u) v rfl (by simp) _ y hy
    rw [findFrom?, hnone]
    simp

theorem findFrom?_agree {β : Type} {view : Match → β} (h : ∀ start c {y : List Char}, y <:+ r →
      (p.matchAt? start c (y ++ a)).map view = (p.matchAt? start c (y ++ b)).map view)
    (ha : Misses a p) (hb : Misses b p) {y : List Char} (hy : y <:+ r) (start : Nat) (c : Option Char) :
    (p.findFrom? start c (y ++ a)).map view = (p.findFrom? start c (y ++ b)).map view := by
  induction y generalizing start c with
  | nil =>
    rw [nil_append, nil_append, ha.findFrom?, hb.findFrom?]
    exact h start c hy
  | cons d y ih =>
    have hhere := h start c hy
    have hrest := ih ((suffix_cons d y).trans hy) (start + 1) (some d)
    rw [cons_append, cons_append] at hhere ⊢
    simp only [findFrom?, orElse_eq_orElse, orElse_eq_or, map_or, hhere, hrest]

theorem texts_matchAt? (p : Pattern) (start : Nat) (c : Option Char) (s : List Char) :
    (p.matchAt? start c s).map (fun m => texts m.kept) = p.run ⟨c, s⟩ [] fun _ k => some (texts k) :=
  (run_map p _ ⟨c, s⟩ [] _).symm

/-- **The texts that a search keeps.** -/
theorem texts_find? (hp : Closes r a b p) (ha : Misses a p) (hb : Misses b p) :
    (p.find? (r ++ a)).map (fun m => texts m.kept) = (p.find? (r ++ b)).map fun m => texts m.kept := by
  refine findFrom?_agree (fun start c y hy => ?_) ha hb (suffix_refl r) 0 none
  rw [texts_matchAt?, texts_matchAt?]
  exact hp c hy rfl

/-- What is read of a match: its place, its text and the kept texts. -/
def view (m : Match) : Nat × List Char × List (String × List Char) :=
  (m.start, m.text, texts m.kept)

/-- The pattern hands agreement on to what follows it, if this never fails. -/
def Settles (r a b : List Char) (p : Pattern) : Prop :=
  ∀ {β : Type} {next next' : Cursor → Kept → Option β}, Agree r a b next next' →
    (∀ x k, (next x k).isSome) → (∀ x k, (next' x k).isSome) →
      Agree r a b (fun x k => p.run x k next) (fun x k => p.run x k next')

theorem settles_of_holdsOff (he : Endings a b) (ha : ∀ c ∈ a.head?, p.holdsOff c)
    (hb : ∀ c ∈ b.head?, p.holdsOff c) : Settles r a b p :=
  fun h _ _ => Agree.run he h (.inl ha) (.inl hb)

theorem Settles.append (he : Endings a b) (hq : Settles r a b q)
    (ha : ∀ {β : Type} {next : Cursor → Kept → Option β}, Blocked a p fun x k => q.run x k next)
    (hb : ∀ {β : Type} {next : Cursor → Kept → Option β}, Blocked b p fun x k => q.run x k next) :
    Settles r a b (p ++ q) := by
  intro β next next' h hnext hnext'
  have hbehind : Agree r a b (fun x k => q.run x k next) (fun x k => q.run x k next') := hq h hnext hnext'
  exact hbehind.run he ha hb

theorem settles_few_ahead (hq : Closes r a b q) (ha : Ends a q) (hb : Ends b q) (p : Char → Bool)
    (name : String) : Settles r a b (keep name (few p) ++ ahead q) := by
  intro β next next' h hnext hnext'
  have hends : ∀ {a : List Char} {next : Cursor → Kept → Option β}, Ends a q →
      (∀ x k, (next x k).isSome) → ∀ c k, ((ahead q).run ⟨c, a⟩ k next).isSome := by
    intro a next ha hnext c k
    have hspans : (ahead q).Spans ⟨c, a⟩ ⟨c, a⟩ := ⟨rfl, ha c⟩
    exact run_complete hspans (fun _ => hnext _ _) k
  exact (h.ahead hq).few p name (hends ha hnext) (hends hb hnext')

theorem Settles.matchAt? (hp : Settles r a b p) (start : Nat) (c : Option Char)
    (hy : y <:+ r) : (p.matchAt? start c (y ++ a)).map view = (p.matchAt? start c (y ++ b)).map view := by
  have hmatch : ∀ s, (p.matchAt? start c s).map view = p.run ⟨c, s⟩ [] fun there k =>
      some (start, pieceBefore there.rest s, texts k) := fun s => (run_map p view ⟨c, s⟩ [] _).symm
  rw [hmatch, hmatch]
  refine hp (fun d z k k' hz hk => ?_) (fun _ _ => rfl) (fun _ _ => rfl) c hy rfl
  simp only [pieceBefore_ending, hk]

theorem Misses.findAllFrom (h : Misses a p) (start : Nat) (c : Option Char) :
    p.findAllFrom start 0 c a = (p.matchAt? start c a).toList := by
  cases a with
  | nil => rfl
  | cons d t =>
    have hnone : ∀ skip, p.findAllFrom (start + 1) skip (some d) t = [] := fun skip =>
      findAllFrom_eq_nil fun u v c' y hsplit => h (d :: u) v (by rw [hsplit, cons_append]) (by simp) c' y
    rw [findAllFrom]
    split
    case h_1 m hm => rw [hnone, hm]; rfl
    case h_2 hm => rw [hnone, hm]; rfl

/-- **All matches in a text**, with another ending behind it. -/
theorem view_findAll (hp : Settles r [] b p) (hb : Misses b p) :
    (p.findAll r).map view = (p.findAll (r ++ b)).map view := by
  have hfrom : ∀ {y : List Char}, y <:+ r → ∀ {skip : Nat}, skip ≤ y.length → ∀ start c,
      (p.findAllFrom start skip c y).map view = (p.findAllFrom start skip c (y ++ b)).map view := by
    intro y
    induction y with
    | nil =>
      intro hy skip hskip start c
      obtain rfl : skip = 0 := Nat.le_zero.mp hskip
      have hhere := hp.matchAt? start c hy
      rw [nil_append, nil_append] at hhere
      rw [nil_append, hb.findAllFrom, show p.findAllFrom start 0 c [] =
        (p.matchAt? start c []).toList from rfl, ← toList_map, ← toList_map, hhere]
    | cons d y ih =>
      intro hy skip hskip start c
      have hrest := (suffix_cons d y).trans hy
      rw [cons_append]
      cases skip with
      | succ skip => exact ih hrest (Nat.le_of_succ_le_succ hskip) (start + 1) (some d)
      | zero =>
        have hhere := hp.matchAt? start c hy
        rw [append_nil, cons_append] at hhere
        cases hleft : p.matchAt? start c (d :: y) with
        | none =>
          rw [hleft] at hhere
          rw [findAllFrom, findAllFrom, hleft, map_eq_none_iff.mp hhere.symm]
          exact ih hrest (Nat.zero_le _) _ _
        | some m =>
          rw [hleft] at hhere
          obtain ⟨m', hright, hm⟩ := map_eq_some_iff.mp hhere.symm
          have htext : m'.text = m.text := congrArg (fun v => v.2.1) hm
          have hlength : m.text.length - 1 ≤ y.length := by
            obtain ⟨z, -, -, hsplit⟩ := matchAt?_keeps hleft
            have hlength := congrArg length hsplit
            rw [length_cons, length_append] at hlength
            omega
          rw [findAllFrom, findAllFrom, hleft, hright]
          simp only [map_cons, hm, htext]
          rw [ih hrest hlength]
  exact hfrom (suffix_refl r) (Nat.zero_le _) 0 none

end SqlGateway.Text.Pattern
