import Mathlib.Data.List.Infix
import Mathlib.Data.List.Forall2
import SqlGateway.Store.Result

/-!
# Identities in results

A place in a value is described by the way that leads to it, through items of lists and members of
documents (`Lies`).  An identity stays one **exactly at the places that are skipped**: in a list that is an
item of a list, and in a list that is a member of a listed result (`lies_textResults_iff`).  Elsewhere it
becomes a text, and nothing else changes (`written_textResults`).
-/

namespace SqlGateway.Store

open List

/-! ### Where identities stay -/

inductive Hop where
  | item
  | member
  deriving DecidableEq

variable {key : ObjectId} {way : List Hop}

/-- The identity stands in a value at the end of a way. -/
def Lies (key : ObjectId) : List Hop → Value → Prop
  | [], v => v = .id key
  | .item :: way, v => ∃ items, v = .list items ∧ ∃ u ∈ items, Lies key way u
  | .member :: way, v => ∃ d, v = .doc d ∧ ∃ m ∈ d, Lies key way m.2

/-- The way leads through a list that is an item of a list. -/
def Deep (way : List Hop) : Prop :=
  [Hop.item, .item] <:+: way

/-- The way leads to a result itself, through a list that is a member of a listed result, or through a list
that is an item of a list. -/
def Skipped (way : List Hop) : Prop :=
  way = [] ∨ way = [.item] ∨ [Hop.item, .member, .item] <+: way ∨ Deep way

instance : Decidable (Deep way) := inferInstanceAs (Decidable (_ <:+: _))

instance : Decidable (Skipped way) := inferInstanceAs (Decidable (_ ∨ _))

theorem deep_member_iff : Deep (.member :: way) ↔ Deep way := by
  simp [Deep, infix_cons_iff]

theorem deep_item_member_iff : Deep (.item :: .member :: way) ↔ Deep way := by
  simp [Deep, infix_cons_iff]

theorem deep_item_item : Deep (.item :: .item :: way) :=
  ⟨[], way, rfl⟩

theorem textMembers_eq_map : ∀ d : Document, textMembers d = d.map fun m => (m.1, textMember m.2)
  | [] => rfl
  | _ :: rest => congrArg (_ :: ·) (textMembers_eq_map rest)

theorem textItems_eq_map : ∀ items : List Value, textItems items = items.map textItem
  | [] => rfl
  | _ :: rest => congrArg (_ :: ·) (textItems_eq_map rest)

theorem lies_item_iff {items : List Value} : Lies key (.item :: way) (.list items) ↔ ∃ u ∈ items, Lies key way u := by
  simp [Lies]

theorem lies_member_iff {d : Document} : Lies key (.member :: way) (.doc d) ↔ ∃ m ∈ d, Lies key way m.2 := by
  simp [Lies]

theorem exists_mem_map_iff {α β : Type} {f : α → β} {P : β → Prop} {Q : α → Prop} {R : Prop}
    (h : ∀ a, P (f a) ↔ Q a ∧ R) (l : List α) : (∃ b ∈ l.map f, P b) ↔ (∃ a ∈ l, Q a) ∧ R := by
  simp only [mem_map, exists_exists_and_eq_and, h, ← and_assoc, exists_and_right]

/-- Inside a document the deep places are skipped.  An item is itself in a list. -/
theorem lies_textMember_iff (key : ObjectId) : ∀ (way : List Hop) (v : Value),
    (Lies key way (textMember v) ↔ Lies key way v ∧ Deep way) ∧
      (Lies key way (textItem v) ↔ Lies key way v ∧ Deep (.item :: way)) := by
  intro way
  induction way with
  | nil =>
    have hdeep : ¬ Deep [] ∧ ¬ Deep [.item] := by decide
    intro v
    constructor <;> cases v <;> simp [Lies, textMember, textItem, hdeep]
  | cons hop way ih =>
    have hitems : ∀ items : List Value, (∃ u ∈ textItems items, Lies key way u) ↔
        (∃ u ∈ items, Lies key way u) ∧ Deep (.item :: way) := by
      intro items
      rw [textItems_eq_map]
      exact exists_mem_map_iff (fun u => (ih u).2) items
    have hmembers : ∀ d : Document, (∃ m ∈ textMembers d, Lies key way m.2) ↔
        (∃ m ∈ d, Lies key way m.2) ∧ Deep way := by
      intro d
      rw [textMembers_eq_map]
      exact exists_mem_map_iff (P := fun m : String × Value => Lies key way m.2) (fun m => (ih m.2).1) d
    intro v
    cases hop with
    | item =>
      constructor
      · cases v with
        | list items => rw [textMember, lies_item_iff, lies_item_iff, hitems]
        | _ => simp [Lies, textMember]
      · cases v <;> simp [Lies, textItem, deep_item_item]
    | member =>
      rw [deep_member_iff, deep_item_member_iff]
      constructor
      · cases v with
        | doc d => rw [textMember, lies_member_iff, lies_member_iff, hmembers]
        | _ => simp [Lies, textMember]
      · cases v with
        | doc d => rw [textItem, lies_member_iff, lies_member_iff, hmembers]
        | _ => simp [Lies, textItem]

/-- In a listed result a list that is a member is skipped too. -/
theorem lies_textResult_iff {v : Value} :
    Lies key way (textResult v) ↔ Lies key way v ∧ Skipped (.item :: way) := by
  cases way with
  | nil =>
    have hskipped : Skipped [.item] := by decide
    cases v <;> simp [Lies, textResult, hskipped]
  | cons hop way =>
    cases hop with
    | item =>
      have hskipped : Skipped (.item :: .item :: way) := .inr (.inr (.inr deep_item_item))
      cases v <;> simp [Lies, textResult, hskipped]
    | member =>
      cases v with
      | doc d =>
        have hskipped : Skipped (.item :: .member :: way) ↔ Deep (.item :: way) := by
          cases way with
          | nil => decide
          | cons hop way => cases hop <;> simp [Skipped, deep_item_member_iff, deep_item_item, deep_member_iff]
        rw [textResult, lies_member_iff, lies_member_iff, hskipped]
        exact exists_mem_map_iff (P := fun m : String × Value => Lies key way m.2)
          (fun m => (lies_textMember_iff key way m.2).2) d
      | _ => simp [Lies, textResult]

/-- **An identity stays exactly at the places that are skipped.** -/
theorem lies_textResults_iff (key : ObjectId) (way : List Hop) (v : Value) :
    Lies key way (textResults v) ↔ Lies key way v ∧ Skipped way := by
  cases v with
  | list results =>
    cases way with
    | nil => simp [Lies, textResults]
    | cons hop way =>
      cases hop with
      | item =>
        rw [textResults, lies_item_iff, lies_item_iff]
        exact exists_mem_map_iff (fun _ => lies_textResult_iff) results
      | member => simp [Lies, textResults]
  | doc d =>
    have hmember := (lies_textMember_iff key way (.doc d)).1
    have hskipped : Lies key way (.doc d) → (Skipped way ↔ Deep way) := by
      cases way with
      | nil => simp [Lies]
      | cons hop way => cases hop <;> simp [Lies, Skipped]
    exact hmember.trans (and_congr_right fun h => (hskipped h).symm)
  | _ =>
    cases way with
    | nil => simp [textResults, Skipped]
    | cons hop way => cases hop <;> simp [Lies, textResults]

/-- The friends of a listed user keep their identities. -/
def listedFriends : Value :=
  .list [.doc [("_id", .id ⟨"0123456789abcdef01234567"⟩),
    ("friends", .list [.id ⟨"89abcdef0123456789abcdef"⟩])]]

theorem lies_listedFriends :
    Lies ⟨"89abcdef0123456789abcdef"⟩ [.item, .member, .item] (textResults listedFriends) := by
  simp [listedFriends, textResults, textResult, textItem, Lies]

/-! ### What stays the same -/

/-- The second value is the first, with some identities written as texts. -/
inductive Written : Value → Value → Prop
  | same (v : Value) : Written v v
  | id (key : ObjectId) : Written (.id key) (.text key.hex)
  | list {vs ws : List Value} (h : Forall₂ Written vs ws) : Written (.list vs) (.list ws)
  | doc {d e : Document} (hnames : d.map Prod.fst = e.map Prod.fst)
      (h : Forall₂ Written (d.map Prod.snd) (e.map Prod.snd)) : Written (.doc d) (.doc e)

theorem map_fst_textMembers (d : Document) : d.map Prod.fst = (textMembers d).map Prod.fst := by
  rw [textMembers_eq_map, map_map]
  rfl

mutual
theorem written_textMembers : ∀ d : Document, Forall₂ Written (d.map Prod.snd) ((textMembers d).map Prod.snd)
  | [] => .nil
  | (_, v) :: rest => .cons (written_textMember v) (written_textMembers rest)

theorem written_textMember : ∀ v : Value, Written v (textMember v)
  | .id key => .id key
  | .doc d => .doc (map_fst_textMembers d) (written_textMembers d)
  | .list items => .list (written_textItems items)
  | .null | .bool _ | .int _ | .float _ | .text _ | .bytes _ | .time _ => .same _

theorem written_textItems : ∀ items : List Value, Forall₂ Written items (textItems items)
  | [] => .nil
  | v :: vs => .cons (written_textItem v) (written_textItems vs)

theorem written_textItem : ∀ v : Value, Written v (textItem v)
  | .id key => .id key
  | .doc d => .doc (map_fst_textMembers d) (written_textMembers d)
  | .null | .bool _ | .int _ | .float _ | .text _ | .bytes _ | .time _ | .list _ => .same _
end

mutual
theorem textMembers_textMembers : ∀ d : Document, textMembers (textMembers d) = textMembers d
  | [] => rfl
  | (name, v) :: rest => by
    rw [textMembers, textMembers, textMember_textMember v, textMembers_textMembers rest]

theorem textMember_textMember : ∀ v : Value, textMember (textMember v) = textMember v
  | .doc d => congrArg Value.doc (textMembers_textMembers d)
  | .list items => congrArg Value.list (textItems_textItems items)
  | .id _ | .null | .bool _ | .int _ | .float _ | .text _ | .bytes _ | .time _ => rfl

theorem textItems_textItems : ∀ items : List Value, textItems (textItems items) = textItems items
  | [] => rfl
  | v :: vs => by rw [textItems, textItems, textItem_textItem v, textItems_textItems vs]

theorem textItem_textItem : ∀ v : Value, textItem (textItem v) = textItem v
  | .doc d => congrArg Value.doc (textMembers_textMembers d)
  | .id _ | .null | .bool _ | .int _ | .float _ | .text _ | .bytes _ | .time _ | .list _ => rfl
end

theorem forall₂_map_right {f : Value → Value} (h : ∀ v, Written v (f v)) (vs : List Value) :
    Forall₂ Written vs (vs.map f) :=
  forall₂_map_right_iff.mpr (forall₂_same.mpr fun v _ => h v)

theorem written_textResult (v : Value) : Written v (textResult v) := by
  cases v with
  | doc d =>
    refine .doc (by rw [map_map]; rfl) ?_
    rw [map_map, show Prod.snd ∘ (fun m : String × Value => (m.1, textItem m.2)) = textItem ∘ Prod.snd from rfl,
      ← map_map]
    exact forall₂_map_right written_textItem _
  | _ => exact .same _

theorem textResult_textResult (v : Value) : textResult (textResult v) = textResult v := by
  cases v with
  | doc d => simp [textResult, textItem_textItem]
  | _ => rfl

/-- **Some identities become texts, and nothing else changes**; the second time nothing does. -/
theorem written_textResults (v : Value) : Written v (textResults v) ∧ textResults (textResults v) = textResults v := by
  cases v with
  | list results =>
    refine ⟨.list (forall₂_map_right written_textResult results), ?_⟩
    rw [textResults, textResults, map_map]
    exact congrArg Value.list (map_congr_left fun v _ => textResult_textResult v)
  | doc d => exact ⟨written_textMember (.doc d), textMember_textMember (.doc d)⟩
  | _ => exact ⟨.same _, rfl⟩

end SqlGateway.Store
