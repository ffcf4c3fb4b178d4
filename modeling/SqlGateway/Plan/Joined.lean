import SqlGateway.Plan.Aggregate

/-!
# Joining tables

Joined tables become look-up stages, with a projection that finds each field in the table that its
prefix names.
-/

namespace SqlGateway.Plan

open Text

/-- The projection for all fields: the identity, and what was joined. -/
def showJoined (joins : List Value) : Except Fault Document :=
  joins.foldlM
    (fun shown join => do
      let table ← join.member "table"
      let byname ← join.memberOr "alias" table
      return shown.set (byname.plain ++ "_data") (.text ("$" ++ byname.plain ++ "_joined")))
    [("_id", .int 1)]

/-- Where a field of a joined table is found.  A field whose prefix names no join belongs to the main
table. -/
def locate (table field : List Char) : List Value → Except Fault Value
  | [] => .ok (.text (String.ofList ('$' :: field)))
  | join :: rest => do
    let byname ← join.member "alias"
    if byname == .text (String.ofList table) then
      return .text ("$" ++ byname.plain ++ "_joined." ++ String.ofList field)
    else locate table field rest

def showField (joins : Value) (shown : Document) (item : Value) : Except Fault Document := do
  let field ← item.member "field"
  let byname ← item.memberOr "alias" field
  if ← field.mentions "." then
    let s ← field.asText "split"
    match cutAt? ['.'] s.toList with
    | some (table, rest) =>
      let place ← locate table rest (← joins.items)
      return shown.set (← byname.asName) place
    | none => return shown
  else return shown.set (← byname.asName) (.text ("$" ++ field.plain))

def anyEverything : List Value → Except Fault Bool
  | [] => .ok false
  | item :: rest => do
    if (← item.member "field") == .text "*" then return true else anyEverything rest

def joinedProjection (s : Statement) (joins : Value) : Except Fault Value := do
  let fields ← s.fields
  let items ← if fields.isPresent then fields.items else pure []
  if ← (if fields.isPresent then anyEverything items else pure true) then
    let _ ← s.table
    return stage "$project" (.doc (← showJoined (← joins.items)))
  else
    return stage "$project" (.doc (← items.foldlM (showField joins) [("_id", .int 0)]))

/-- The stage that sorts joined rows; each sort key has to be a document. -/
def joinedSort (order : Value) : Except Fault (List Value) := do
  if order.isPresent then
    let keys ← (← order.items).foldlM
      (fun (keys : Document) key => do
        let field ← key.member "field"
        let direction ← key.member "order"
        let sign : Int := if direction == .text "DESC" then -1 else 1
        return keys.set (← field.asName) (.int sign))
      []
    return [stage "$sort" (.doc keys)]
  else return []

/-- The aggregation of joined tables.  Joins that cannot be read leave a plain aggregation. -/
def joined (s : Statement) : Planning Value := do
  let joins ← s.joins
  let reader ← s.offers .joinReader
  if joins.isPresent && reader then
    let table ← s.table
    let filter ← s.filter
    let lookups ← Sql.Join.pipeline (← joins.items)
    let project ← joinedProjection s joins
    let sort ← joinedSort (← s.order)
    let limit ← s.limit
    let count ← joins.length
    let types ← (← joins.items).mapM fun join => join.member "type"
    return .doc
      [("operation", .text "aggregate"), ("collection", table),
        ("pipeline", .list (stage? "$match" filter ++ lookups ++ [project] ++ sort ++
          limitStage limit)),
        ("warnings", .texts (← get)),
        ("join_info", .doc [("join_count", .ofNat count), ("join_types", .list types)])]
  else
    Planning.warn "No se pudieron procesar los JOINs correctamente"
    aggregate s

end SqlGateway.Plan
