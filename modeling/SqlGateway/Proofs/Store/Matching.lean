import SqlGateway.Value.Basic

/-!
# Which documents a filter matches

The members of a filter all have to hold; `$or` asks for one of its alternatives; a document of operators
compares the value of a field with their operands; and any other value asks for equality.  A missing field
counts as null, and values of two kinds are not ordered.
-/

namespace SqlGateway.Filter

/-- The order of two values of one kind. -/
def order? : Value → Value → Option Ordering
  | .int m, .int n => some (compare m n)
  | .text s, .text t => some (compare s t)
  | _, _ => none

/-- Whether an operator holds between a value and its operand. -/
def holds (operator : String) (v w : Value) : Bool :=
  match operator with
  | "$eq" => v == w
  | "$ne" => v != w
  | "$gt" => order? v w == some .gt
  | "$gte" => v == w || order? v w == some .gt
  | "$lt" => order? v w == some .lt
  | "$lte" => v == w || order? v w == some .lt
  | _ => false

def isOperator (name : String) : Bool :=
  name.toList.head? == some '$'

mutual
/-- Whether a document satisfies all members of a filter. -/
def accepts (d : Document) : List (String × Value) → Bool
  | [] => true
  | (name, v) :: rest => acceptsMember d name v && accepts d rest

/-- Whether a document satisfies a member of a filter. -/
def acceptsMember (d : Document) (name : String) : Value → Bool
  | .list alternatives =>
    if name == "$or" then acceptsSome d alternatives else d.get name == .list alternatives
  | .doc members =>
    if members.all fun m => isOperator m.1 then members.all fun m => holds m.1 (d.get name) m.2
    else d.get name == .doc members
  | v => d.get name == v

/-- Whether a document satisfies one of some filters. -/
def acceptsSome (d : Document) : List Value → Bool
  | [] => false
  | .doc filter :: rest => accepts d filter || acceptsSome d rest
  | _ :: rest => acceptsSome d rest
end

/-- The filter matches the document. -/
def Matches (filter d : Document) : Prop :=
  accepts d filter = true

instance (filter d : Document) : Decidable (Matches filter d) := inferInstanceAs (Decidable (_ = true))

theorem matches_iff {filter d : Document} :
    Matches filter d ↔ ∀ m ∈ filter, acceptsMember d m.1 m.2 := by
  rw [Matches]
  induction filter with
  | nil => simp [accepts]
  | cons m filter ih =>
    rw [accepts, Bool.and_eq_true, ih, List.forall_mem_cons]

theorem acceptsSome_iff {d : Document} {filters : List Document} :
    acceptsSome d (filters.map .doc) ↔ ∃ filter ∈ filters, Matches filter d := by
  induction filters with
  | nil => simp [acceptsSome]
  | cons filter filters ih =>
    rw [List.map_cons, acceptsSome, Bool.or_eq_true, ih]
    simp [Matches]

end SqlGateway.Filter
