import SqlGateway.Text.Case

/-!
# Case of plain texts

Outside the first 128 characters a letter may change into several, and a sigma looks at its neighbours.
Within them the case of a text is the case of its characters.
-/

namespace SqlGateway.Text

variable {s : List Char}

theorem lower_of_ascii (h : ∀ c ∈ s, c.toNat < 128) : lower s = s.map Char.toLower := by
  have hafter : ∀ (s before : List Char), (∀ c ∈ s, c.toNat < 128) →
      lowerAfter before s = s.map Char.toLower := by
    intro s
    induction s with
    | nil => intro before _; rfl
    | cons c s ih =>
      intro before h
      have hc : c.toNat < 128 := h c (by simp)
      have hsigma : (c.toNat == 931) = false := beq_eq_false_iff_ne.mpr (by omega)
      rw [lowerAfter, hsigma, ih _ (List.forall_mem_cons.mp h).2, lowerChar, if_pos hc]
      rfl
  exact hafter s [] h

theorem length_lower (h : ∀ c ∈ s, c.toNat < 128) : (lower s).length = s.length := by
  rw [lower_of_ascii h, List.length_map]

theorem upper_of_ascii (h : ∀ c ∈ s, c.toNat < 128) : upper s = s.map Char.toUpper := by
  induction s with
  | nil => rfl
  | cons c s ih =>
    have ih := ih (List.forall_mem_cons.mp h).2
    rw [upper] at ih ⊢
    rw [List.flatMap_cons, ih, upperChar, if_pos (h c (by simp))]
    rfl

theorem upper_append (s t : List Char) : upper (s ++ t) = upper s ++ upper t :=
  List.flatMap_append

end SqlGateway.Text
