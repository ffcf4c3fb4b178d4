import SqlGateway.Timestamp

/-!
# Documents

The values that the document store holds: scalars, lists and documents, a document being a list of
named members whose order is kept.  `Document.get?` is the view of a document; `set` replaces a
member in its place or adds it at the end.
-/

namespace SqlGateway

/-- The identity of a stored document, as 24 hexadecimal digits. -/
structure ObjectId where
  hex : String
  deriving DecidableEq, Repr, Inhabited

inductive Value where
  | null
  | bool (b : Bool)
  | int (n : Int)
  | float (x : Double)
  | text (s : String)
  | bytes (data : List UInt8)
  | id (key : ObjectId)
  | time (t : Timestamp)
  | list (items : List Value)
  | doc (members : List (String × Value))
  deriving Repr, Inhabited

abbrev Document := List (String × Value)

namespace Value

mutual
def decEq : (v w : Value) → Decidable (v = w)
  | .null, .null => isTrue rfl
  | .bool a, .bool b => decidable_of_iff (a = b) (by simp)
  | .int a, .int b => decidable_of_iff (a = b) (by simp)
  | .float a, .float b => decidable_of_iff (a = b) (by simp)
  | .text a, .text b => decidable_of_iff (a = b) (by simp)
  | .bytes a, .bytes b => decidable_of_iff (a = b) (by simp)
  | .id a, .id b => decidable_of_iff (a = b) (by simp)
  | .time a, .time b => decidable_of_iff (a = b) (by simp)
  | .list a, .list b =>
    have := decEqList a b
    decidable_of_iff (a = b) (by simp)
  | .doc a, .doc b =>
    have := decEqMembers a b
    decidable_of_iff (a = b) (by simp)
  | .null, .bool _ | .null, .int _ | .null, .float _ | .null, .text _ | .null, .bytes _
  | .null, .id _ | .null, .time _ | .null, .list _ | .null, .doc _
  | .bool _, .null | .bool _, .int _ | .bool _, .float _ | .bool _, .text _ | .bool _, .bytes _
  | .bool _, .id _ | .bool _, .time _ | .bool _, .list _ | .bool _, .doc _
  | .int _, .null | .int _, .bool _ | .int _, .float _ | .int _, .text _ | .int _, .bytes _
  | .int _, .id _ | .int _, .time _ | .int _, .list _ | .int _, .doc _
  | .float _, .null | .float _, .bool _ | .float _, .int _ | .float _, .text _ | .float _, .bytes _
  | .float _, .id _ | .float _, .time _ | .float _, .list _ | .float _, .doc _
  | .text _, .null | .text _, .bool _ | .text _, .int _ | .text _, .float _ | .text _, .bytes _
  | .text _, .id _ | .text _, .time _ | .text _, .list _ | .text _, .doc _
  | .bytes _, .null | .bytes _, .bool _ | .bytes _, .int _ | .bytes _, .float _ | .bytes _, .text _
  | .bytes _, .id _ | .bytes _, .time _ | .bytes _, .list _ | .bytes _, .doc _
  | .id _, .null | .id _, .bool _ | .id _, .int _ | .id _, .float _ | .id _, .text _
  | .id _, .bytes _ | .id _, .time _ | .id _, .list _ | .id _, .doc _
  | .time _, .null | .time _, .bool _ | .time _, .int _ | .time _, .float _ | .time _, .text _
  | .time _, .bytes _ | .time _, .id _ | .time _, .list _ | .time _, .doc _
  | .list _, .null | .list _, .bool _ | .list _, .int _ | .list _, .float _ | .list _, .text _
  | .list _, .bytes _ | .list _, .id _ | .list _, .time _ | .list _, .doc _
  | .doc _, .null | .doc _, .bool _ | .doc _, .int _ | .doc _, .float _ | .doc _, .text _
  | .doc _, .bytes _ | .doc _, .id _ | .doc _, .time _ | .doc _, .list _ =>
    isFalse (by simp)

def decEqList : (vs ws : List Value) → Decidable (vs = ws)
  | [], [] => isTrue rfl
  | v :: vs, w :: ws =>
    have := decEq v w
    have := decEqList vs ws
    decidable_of_iff (v = w ∧ vs = ws) (by simp)
  | [], _ :: _ | _ :: _, [] => isFalse (by simp)

def decEqMembers : (vs ws : List (String × Value)) → Decidable (vs = ws)
  | [], [] => isTrue rfl
  | (k, v) :: vs, (l, w) :: ws =>
    have := decEq v w
    have := decEqMembers vs ws
    decidable_of_iff (k = l ∧ v = w ∧ vs = ws) (by simp [and_assoc])
  | [], _ :: _ | _ :: _, [] => isFalse (by simp)
end

instance : DecidableEq Value := decEq

/-- Whether a value counts as present: not null, not false, not zero and not empty. -/
def isPresent : Value → Bool
  | .null => false
  | .bool b => b
  | .int n => n != 0
  | .float x => !x.isZero
  | .text s => !s.isEmpty
  | .bytes data => !data.isEmpty
  | .id _ => true
  | .time _ => true
  | .list items => !items.isEmpty
  | .doc members => !members.isEmpty

def ofOption : Option Value → Value
  | some v => v
  | none => .null

def ofText? : Option String → Value
  | some s => .text s
  | none => .null

def texts (items : List String) : Value :=
  .list (items.map .text)

def ofNat (n : Nat) : Value :=
  .int n

end Value

namespace Document

def get? (d : Document) (name : String) : Option Value :=
  d.lookup name

def get (d : Document) (name : String) : Value :=
  Value.ofOption (d.get? name)

def has (d : Document) (name : String) : Bool :=
  (d.get? name).isSome

def names (d : Document) : List String :=
  d.map Prod.fst

/-- Gives a member a value: in its place if it is there, else at the end. -/
def set : Document → String → Value → Document
  | [], name, v => [(name, v)]
  | (key, w) :: rest, name, v =>
    if key == name then (key, v) :: rest else (key, w) :: set rest name v

def erase (d : Document) (name : String) : Document :=
  d.filter fun member => member.1 != name

def merge (d e : Document) : Document :=
  e.foldl (fun d member => d.set member.1 member.2) d

/-- A document from members of which later ones replace earlier ones of the same name. -/
def ofMembers (members : List (String × Value)) : Document :=
  merge [] members

end Document

end SqlGateway
