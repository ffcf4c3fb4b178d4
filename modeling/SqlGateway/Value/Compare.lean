import SqlGateway.Value.Basic

/-!
# Comparing values

Two values are alike if they are of one kind and equal in it: numbers as numbers, lists item by item,
and documents member by member whatever the order of their members.
-/

namespace SqlGateway

namespace Value

mutual
def alike : Value → Value → Bool
  | .float x, w =>
    match w with
    | .float y => x.equal y
    | _ => false
  | .list vs, w =>
    match w with
    | .list ws => alikeItems vs ws
    | _ => false
  | .doc d, w =>
    match w with
    | .doc e => e.all (fun member => Document.has d member.1) && alikeMembers d e
    | _ => false
  | v, w => v == w

def alikeItems : List Value → List Value → Bool
  | [], [] => true
  | v :: vs, w :: ws => alike v w && alikeItems vs ws
  | _, _ => false

def alikeMembers : List (String × Value) → Document → Bool
  | [], _ => true
  | (name, v) :: rest, d =>
    (match Document.get? d name with
      | some w => alike v w
      | none => false) && alikeMembers rest d
end

end Value

end SqlGateway
