import Mathlib.Data.List.Basic

/-!
# Scanning a command

A shell scans a command (`Scan.run`): a double quote opens a literal, the next one that no backslash precedes
closes it, and outside of literals brackets have to be nested.  **A `Woven` text is read as it is meant iff
every piece of data keeps to its literal** (`Woven.reads_iff`).
-/

namespace SqlGateway.Shell

open List Option

/-! ### The scanner -/

/-- The bracket that closes what a bracket opens. -/
def closing? : Char → Option Char
  | '(' => some ')'
  | '[' => some ']'
  | '\x7b' => some '\x7d'
  | _ => none

def closings : List Char :=
  [')', ']', '\x7d']

/-- Where a scanner stands. -/
structure Scan where
  /-- The brackets that have to close, the innermost first. -/
  awaited : List Char
  /-- The literal inside which the scanner is, given last character first. -/
  literal : Option (List Char)
  /-- The literals that have been closed. -/
  literals : List (List Char)
  deriving DecidableEq

variable {s t : Scan} {c o : Char} {text l : List Char}

namespace Scan

def start : Scan :=
  ⟨[], none, []⟩

/-- Reads a character outside of literals.  A bracket that closes what is not open is an error. -/
def stepOutside (s : Scan) (c : Char) : Option Scan :=
  if c == '"' then some { s with literal := some [] }
  else
    match closing? c with
    | some close => some { s with awaited := close :: s.awaited }
    | none =>
      if c ∈ closings then
        if s.awaited.head? == some c then some { s with awaited := s.awaited.tail } else none
      else some s

/-- Reads a character inside a literal of which `read` has been read. -/
def stepInside (s : Scan) (read : List Char) (c : Char) : Scan :=
  if c == '"' && read.head? != some '\\' then
    { s with literal := none, literals := s.literals ++ [read.reverse] }
  else { s with literal := some (c :: read) }

def step (s : Scan) (c : Char) : Option Scan :=
  match s.literal with
  | some read => some (s.stepInside read c)
  | none => s.stepOutside c

def run (s : Scan) : List Char → Option Scan
  | [] => some s
  | c :: rest => (s.step c).bind fun t => t.run rest

def add (s : Scan) (ls : List (List Char)) : Scan :=
  { s with literals := s.literals ++ ls }

theorem run_cons_of_step (h : s.step c = some t) (rest : List Char) : s.run (c :: rest) = t.run rest := by
  rw [run, h, bind_some]

@[simp] theorem add_nil (s : Scan) : s.add [] = s := by
  simp [add]

theorem add_add (s : Scan) (ls ms : List (List Char)) : (s.add ls).add ms = s.add (ls ++ ms) := by
  simp [add]

end Scan

/-- The text leads from outside to outside: its brackets close, and the literals are the given ones. -/
def Reads (text : List Char) (ls : List (List Char)) : Prop :=
  Scan.start.run text = some (Scan.start.add ls)

instance (text : List Char) (ls : List (List Char)) : Decidable (Reads text ls) :=
  inferInstanceAs (Decidable (_ = _))

/-! ### What stays inside a literal -/

/-- Data that a scanner reads back from between two double quotes: every double quote in it stands behind
a backslash, and it does not end with one. -/
structure Contained (l : List Char) : Prop where
  quotes : ∀ u v, l = u ++ '"' :: v → u.getLast? = some '\\'
  ending : l.getLast? ≠ some '\\'

/-- The same for the rest of the data behind `read`, which is given last character first. -/
def holds (read : List Char) : List Char → Bool
  | [] => read.head? != some '\\'
  | c :: l => (c != '"' || read.head? == some '\\') && holds (c :: read) l

theorem ends_eq_not (c : Char) (read : List Char) : (c == '"' && read.head? != some '\\') =
    !(c != '"' || read.head? == some '\\') := by
  rw [bne, bne, Bool.not_or, Bool.not_not]

theorem holds_iff {read : List Char} : holds read l ↔
    (∀ u v, l = u ++ '"' :: v → (read.reverse ++ u).getLast? = some '\\') ∧
      (read.reverse ++ l).getLast? ≠ some '\\' := by
  induction l generalizing read with
  | nil => simp [holds]
  | cons c l ih =>
    rw [holds, Bool.and_eq_true, ih, Bool.or_eq_true, bne_iff_ne, beq_iff_eq, reverse_cons,
      append_assoc, singleton_append, ← and_assoc]
    refine and_congr_left fun _ => ⟨?_, ?_⟩
    · rintro ⟨hc, hrest⟩ u v huv
      cases u with
      | nil =>
        obtain ⟨rfl, -⟩ := cons.inj huv
        simpa using hc.resolve_left (by simp)
      | cons d u =>
        obtain ⟨rfl, hl⟩ := cons.inj huv
        simpa using hrest u v hl
    · intro h
      refine ⟨?_, fun u v hl => ?_⟩
      · by_cases hc : c = '"'
        · exact .inr (by simpa using h [] l (by rw [hc]; rfl))
        · exact .inl hc
      · simpa using h (c :: u) v (by rw [hl]; rfl)

theorem contained_iff : Contained l ↔ holds [] l := by
  rw [holds_iff]
  exact ⟨fun h => ⟨by simpa using h.quotes, by simpa using h.ending⟩,
    fun h => ⟨by simpa using h.1, by simpa using h.2⟩⟩

instance (l : List Char) : Decidable (Contained l) := decidable_of_iff _ contained_iff.symm

/-! ### Literals -/

namespace Scan

variable {awaited : List Char} {ls : List (List Char)}

theorem run_of_holds {read : List Char} (h : holds read l) (rest : List Char) :
    run ⟨awaited, some read, ls⟩ (l ++ '"' :: rest) = run ⟨awaited, none, ls ++ [read.reverse ++ l]⟩ rest := by
  induction l generalizing read with
  | nil =>
    refine run_cons_of_step ?_ rest
    simp only [holds] at h
    simp [step, stepInside, h]
  | cons c l ih =>
    rw [holds, Bool.and_eq_true] at h
    have hstep : step ⟨awaited, some read, ls⟩ c = some ⟨awaited, some (c :: read), ls⟩ := by
      have hopen : (c == '"' && read.head? != some '\\') = false := by
        rw [ends_eq_not, h.1]
        rfl
      simp [step, stepInside, hopen]
    rw [cons_append, run_cons_of_step hstep, ih h.2]
    simp

/-- Literals that have been closed stay; one that is open goes on from what has been read. -/
theorem literals_of_run (h : s.run text = some t) :
    t.literals = s.literals ∨ ∃ l more, t.literals = s.literals ++ l :: more ∧
      ∀ read ∈ s.literal, read.reverse <+: l := by
  induction text generalizing s with
  | nil =>
    rw [run, some.injEq] at h
    exact .inl (by rw [h])
  | cons c rest ih =>
    obtain ⟨s', hstep, hrun⟩ := bind_eq_some_iff.mp h
    obtain ⟨awaited, _ | read, ls⟩ := s
    · -- outside, no literal is closed
      have hls : s'.literals = ls := by
        simp only [step, stepOutside] at hstep
        split at hstep
        · obtain rfl := some.inj hstep
          rfl
        · split at hstep
          · obtain rfl := some.inj hstep
            rfl
          · split at hstep
            · split at hstep
              · obtain rfl := some.inj hstep
                rfl
              · cases hstep
            · obtain rfl := some.inj hstep
              rfl
      rw [← hls]
      rcases ih hrun with h | ⟨l, more, h, -⟩
      · exact .inl h
      · exact .inr ⟨l, more, h, by simp⟩
    · obtain rfl : stepInside ⟨awaited, some read, ls⟩ read c = s' := some.inj hstep
      rw [stepInside] at hrun
      split at hrun
      · -- the literal is closed here
        right
        rcases ih hrun with h | ⟨l, more, h, -⟩
        · exact ⟨read.reverse, [], h, by simp⟩
        · exact ⟨read.reverse, l :: more, by simp [h], by simp⟩
      · rcases ih hrun with h | ⟨l, more, h, hread⟩
        · exact .inl h
        · refine .inr ⟨l, more, h, ?_⟩
          rintro _ ⟨⟩
          exact (by simp : read.reverse <+: (c :: read).reverse).trans (hread _ rfl)

/-- **Data that are read back are contained.** -/
theorem holds_of_run {read rest : List Char} (h : run ⟨awaited, some read, ls⟩ (l ++ '"' :: rest) = some t)
    (hls : ls ++ [read.reverse ++ l] <+: t.literals) : holds read l := by
  -- the first new literal is the one that is expected
  have hfirst : ∀ {m : List Char} {more : List (List Char)}, t.literals = ls ++ m :: more →
      m = read.reverse ++ l := by
    intro m more heq
    obtain ⟨r, hr⟩ := hls
    rw [heq, append_assoc] at hr
    exact (cons.inj (append_cancel_left hr)).1.symm
  induction l generalizing read with
  | nil =>
    rw [holds, bne_iff_ne]
    intro hslash
    have hstep : step ⟨awaited, some read, ls⟩ '"' = some ⟨awaited, some ('"' :: read), ls⟩ := by
      simp [step, stepInside, hslash]
    rw [nil_append, run_cons_of_step hstep] at h
    rcases literals_of_run h with heq | ⟨m, more, heq, hread⟩
    · rw [heq] at hls
      exact absurd hls.length_le (by simp)
    · obtain rfl := hfirst heq
      exact absurd (hread _ rfl).length_le (by simp)
  | cons c l ih =>
    obtain ⟨s', hstep, hrun⟩ := bind_eq_some_iff.mp h
    obtain rfl : stepInside ⟨awaited, some read, ls⟩ read c = s' := some.inj hstep
    rw [stepInside] at hrun
    split at hrun
    · have heq : ∃ more, t.literals = ls ++ read.reverse :: more := by
        rcases literals_of_run hrun with heq | ⟨m, more, heq, -⟩
        · exact ⟨[], heq⟩
        · exact ⟨m :: more, by simp [heq]⟩
      obtain ⟨more, heq⟩ := heq
      simpa using congrArg length (hfirst heq)
    case isFalse hopen =>
      have hrest := ih hrun (by simpa using hls) (fun heq => by simpa using hfirst heq)
      rw [holds, hrest, Bool.and_true]
      rw [ends_eq_not, Bool.not_eq_true, Bool.not_eq_false'] at hopen
      exact hopen

end Scan

/-! ### Texts that are woven from data -/

/-- The characters outside of literals that are no brackets. -/
def isBare (c : Char) : Bool :=
  c != '"' && (closing? c).isNone && decide (c ∉ closings)

/-- A text without double quotes and brackets. -/
def Bare (s : List Char) : Prop :=
  ∀ c ∈ s, isBare c

instance (s : List Char) : Decidable (Bare s) := decidable_of_iff (s.all isBare) all_eq_true

/-- A text of bare characters, pairs of brackets and pieces of data in double quotes. -/
inductive Woven : List Char → List (List Char) → Prop
  | bare {s : List Char} : Bare s → Woven s []
  | quoted (l : List Char) : Woven ('"' :: l ++ ['"']) [l]
  | bracket {o c : Char} {s : List Char} {ls : List (List Char)} : closing? o = some c → Woven s ls →
      Woven (o :: s ++ [c]) ls
  | append {a b : List Char} {ls ms : List (List Char)} : Woven a ls → Woven b ms →
      Woven (a ++ b) (ls ++ ms)

theorem mem_closings_of_closing? (h : closing? o = some c) : o ≠ '"' ∧ c ≠ '"' ∧
    closing? c = none ∧ c ∈ closings := by
  rw [closing?.eq_def] at h
  split at h
  case h_4 => cases h
  all_goals
    obtain rfl := some.inj h
    decide

namespace Scan

theorem run_bare (hs : s.literal = none) (h : Bare text) (rest : List Char) :
    s.run (text ++ rest) = s.run rest := by
  induction text with
  | nil => rfl
  | cons c text ih =>
    have hc := h c (by simp)
    simp only [isBare, Bool.and_eq_true, bne_iff_ne, isNone_iff_eq_none, decide_eq_true_eq] at hc
    have hstep : s.step c = some s := by
      simp [step, hs, stepOutside, hc]
    rw [cons_append, run_cons_of_step hstep, ih (forall_mem_cons.mp h).2]

theorem run_opening (hs : s.literal = none) (h : closing? o = some c) (rest : List Char) :
    s.run (o :: rest) = run { s with awaited := c :: s.awaited } rest := by
  refine run_cons_of_step ?_ rest
  simp [step, hs, stepOutside, h, (mem_closings_of_closing? h).1]

theorem run_closing (hs : s.literal = none) (h : closing? o = some c) (rest : List Char) :
    run { s with awaited := c :: s.awaited } (c :: rest) = s.run rest := by
  obtain ⟨-, hquote, hnone, hclosing⟩ := mem_closings_of_closing? h
  obtain ⟨awaited, literal, ls⟩ := s
  obtain rfl : literal = none := hs
  refine run_cons_of_step ?_ rest
  simp [step, stepOutside, hquote, hnone, hclosing]

theorem run_quote (hs : s.literal = none) (rest : List Char) :
    s.run ('"' :: rest) = run ⟨s.awaited, some [], s.literals⟩ rest := by
  refine run_cons_of_step ?_ rest
  simp [step, hs, stepOutside]

end Scan

namespace Woven

variable {text : List Char} {ls : List (List Char)}

/-- A woven text whose data are contained is passed over, and its data are the literals. -/
theorem run_of_contained (h : Woven text ls) (hls : ∀ l ∈ ls, Contained l) (hs : s.literal = none)
    (rest : List Char) : s.run (text ++ rest) = (s.add ls).run rest := by
  induction h generalizing s rest with
  | bare h => rw [Scan.run_bare hs h, Scan.add_nil]
  | quoted l =>
    rw [append_assoc, cons_append, singleton_append, Scan.run_quote hs,
      Scan.run_of_holds (contained_iff.mp (hls l (by simp))), Scan.add, ← hs]
    rfl
  | bracket hoc _ ih =>
    rw [append_assoc, cons_append, singleton_append, Scan.run_opening hs hoc]
    exact (ih hls (s := { s with awaited := _ :: s.awaited }) hs _).trans
      (Scan.run_closing (s := s.add _) hs hoc rest)
  | append _ _ iha ihb =>
    rw [append_assoc, iha (fun l hl => hls l (by simp [hl])) hs,
      ihb (fun l hl => hls l (by simp [hl])) (s := s.add _) hs, Scan.add_add]

/-- If the data of a woven text are among the literals that are read, they are contained. -/
theorem contained_of_run (h : Woven text ls) (hs : s.literal = none) {r : List Char}
    (hrun : s.run (text ++ r) = some t) (hls : s.literals ++ ls <+: t.literals) : ∀ l ∈ ls, Contained l := by
  induction h generalizing s r with
  | bare h => simp
  | quoted l =>
    rw [append_assoc, cons_append, singleton_append, Scan.run_quote hs] at hrun
    simpa [contained_iff] using Scan.holds_of_run hrun (by simpa using hls)
  | bracket hoc _ ih =>
    rw [append_assoc, cons_append, singleton_append, Scan.run_opening hs hoc] at hrun
    exact ih (s := { s with awaited := _ :: s.awaited }) hs hrun hls
  | @append a b ls ms ha _ iha ihb =>
    rw [append_assoc] at hrun
    rw [← append_assoc] at hls
    have hfirst := iha hs hrun ((prefix_append _ ms).trans hls)
    rw [ha.run_of_contained hfirst hs] at hrun
    exact forall_mem_append.mpr ⟨hfirst, ihb (s := s.add ls) hs hrun hls⟩

/-- **A woven text is read as it is meant iff its data are contained.** -/
theorem reads_iff (h : Woven text ls) : Reads text ls ↔ ∀ l ∈ ls, Contained l := by
  constructor
  · intro hreads
    exact h.contained_of_run rfl (by rw [append_nil]; exact hreads)
      (prefix_refl _)
  · intro hls
    have hrun := h.run_of_contained hls (s := Scan.start) rfl []
    rw [append_nil] at hrun
    exact hrun

end Woven

end SqlGateway.Shell
