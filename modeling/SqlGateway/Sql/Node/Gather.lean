import SqlGateway.Sql.Node.Basic

/-!
# Gathering nodes

The ways in which nodes become groups.

* `enclose`: from an opening node to the closing node that belongs to it.
* `gather`: a node with some of those that follow it.
* `attach`: a node to the one before it.
* `Joint.join`: two nodes with a middle one between them.
-/

namespace SqlGateway.Sql.Node

def firstSolid? (ns : List Node) : Option Node :=
  ns.find? fun n => !n.isSpace

/-- How many nodes there are up to and with the first that is no blank. -/
def countToSolid (ns : List Node) : Nat :=
  (ns.takeWhile isSpace).length + 1

/-- Makes a group of some nodes.  If `grows` holds and the first of them is a group of that kind
already, the others go into it. -/
def bundle (kind : Kind) (grows : Bool) : List Node → Node
  | group first inside :: rest =>
    if grows && first == kind then group kind (inside ++ rest)
    else group kind (group first inside :: rest)
  | ns => group kind ns

/-! ### Enclosed nodes -/

/-- Groups nodes from an opening one to its closing one.  `done` are the nodes since the last opening
node that is not closed, and `outer` the nodes since the ones before it, all backwards.  A closing
node that closes nothing, and opening nodes that are not closed, stay as they are. -/
def encloseFrom (kind : Kind) (opens closes : Node → Bool) (done : List Node)
    (outer : List (List Node)) : List Node → List Node
  | [] => (done ++ outer.flatten).reverse
  | n :: rest =>
    if opens n then encloseFrom kind opens closes [n] (done :: outer) rest
    else if closes n then
      match outer with
      | [] => encloseFrom kind opens closes (n :: done) [] rest
      | around :: outer =>
        encloseFrom kind opens closes (group kind (n :: done).reverse :: around) outer rest
    else encloseFrom kind opens closes (n :: done) outer rest

def enclose (kind : Kind) (opens closes : Node → Bool) (ns : List Node) : List Node :=
  everywhereBut kind (encloseFrom kind opens closes [] []) ns

/-! ### Nodes with their followers -/

/-- Groups nodes with those that follow them: `take n rest` is the group that `n` opens, and how many
nodes of `rest` it takes.  The first `skip` nodes belong to the group before. -/
def gatherFrom (take : Node → List Node → Option (Node × Nat)) (skip : Nat) :
    List Node → List Node
  | [] => []
  | n :: rest =>
    match skip with
    | skip + 1 => gatherFrom take skip rest
    | 0 =>
      match take n rest with
      | some (made, taken) => made :: gatherFrom take taken rest
      | none => n :: gatherFrom take 0 rest

def gather (take : Node → List Node → Option (Node × Nat)) (ns : List Node) : List Node :=
  gatherFrom take 0 ns

def withNext (kind : Kind) (grows : Bool) (n : Node) (rest : List Node) (count : Nat) :
    Node × Nat :=
  (bundle kind grows (n :: rest.take count), count)

/-! ### Nodes with the one before them -/

/-- Adds a node to those that stand before it, given backwards: `join last more` is the group of the
last solid node with what follows it, if they make one. -/
def attachTo (join : Node → List Node → Option Node) (done : List Node) (n : Node) : List Node :=
  match done.span isSpace with
  | (blanks, last :: others) =>
    match join last (blanks.reverse ++ [n]) with
    | some made => made :: others
    | none => n :: done
  | (_, []) => n :: done

/-- Groups the nodes that satisfy `follows` with the solid node before them. -/
def attach (follows : Node → Bool) (join : Node → List Node → Option Node) (ns : List Node) :
    List Node :=
  (ns.foldl (fun done n => if follows n then attachTo join done n else n :: done) []).reverse

/-! ### Nodes around a middle one -/

/-- How nodes are joined around a middle one. -/
structure Joint where
  kind : Kind
  isMiddle : Node → Bool
  before : Node → Bool
  behind : Option Node → Bool
  /-- Whether the group begins with the node before the middle, and not with the middle. -/
  takesBefore : Bool
  /-- How many of the nodes behind the middle the group takes. -/
  reach : List Node → Nat
  /-- Whether a group of the same kind at the beginning takes in the others. -/
  grows : Bool

structure Joining where
  nodes : List Node
  /-- How many places the nodes ahead have moved to the left. -/
  moved : Nat
  /-- The last solid node that was looked at, and the place where it stands or went into a group. -/
  last : Option (Nat × Node)

namespace Joint

/-- Joins around the middle node at the place `here`, where `last` stands before it. -/
def around (j : Joint) (s : Joining) (here : Nat) (last : Nat × Node) : Option Joining :=
  let rest := s.nodes.drop (here + 1)
  if j.before last.2 && j.behind (firstSolid? rest) then
    let start := if j.takesBefore then last.1 else here
    let size := here + 1 + j.reach rest - start
    let made := bundle j.kind j.grows ((s.nodes.drop start).take size)
    some ⟨s.nodes.take start ++ made :: s.nodes.drop (start + size), s.moved + (size - 1),
      some (start, made)⟩
  else none

/-- Looks at the node that stood at a place before joining began. -/
def step (j : Joint) (s : Joining) (entry : Node × Nat) : Joining :=
  let (n, place) := entry
  if n.isSpace || decide (place < s.moved) then s
  else
    let here := place - s.moved
    let passed : Joining := { s with last := some (here, n) }
    if j.isMiddle n then (s.last.bind (j.around s here)).getD passed else passed

def joinFlat (j : Joint) (ns : List Node) : List Node :=
  (ns.zipIdx.foldl j.step ⟨ns, 0, none⟩).nodes

/-- Joins the nodes of a list and inside its groups, those of the joint's own kind left out. -/
def join (j : Joint) (ns : List Node) : List Node :=
  everywhereBut j.kind j.joinFlat ns

end Joint

end SqlGateway.Sql.Node
