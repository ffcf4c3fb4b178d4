import SqlGateway.Plan.Select
import SqlGateway.Plan.Table
import SqlGateway.Plan.Write

/-!
# Plans

The plan of a statement by its kind, what is known about a plan, and whether it is wise.  A planner
answers the steps of a session one by one.
-/

namespace SqlGateway

namespace Plan

/-- The plan of a statement.  Its complexity is asked for first, so a supplied one has to name a
level. -/
def ofStatement (s : Statement) : Planning Value := do
  let complexity ← s.complexity
  let _ ← complexity.need "complexity_level"
  let kind ← s.kind
  match kind with
  | .text "SELECT" => select s
  | .text "INSERT" => insert s
  | .text "UPDATE" => update s
  | .text "DELETE" => delete s
  | .text "CREATE" => create s
  | .text "DROP" => drop s
  | _ => throw (.refused (.unsupportedStatement kind.plain))

/-! ### Reviews -/

def info (s : Statement) (warnings : List String) : Except Fault Document := do
  let features ← s.features
  let complexity ← s.complexity
  let kind ← s.kind
  let table ← s.table
  let advanced ← features.need "advanced_features"
  let distinct ← advanced.need "has_distinct"
  let having ← (← features.need "advanced_features").need "has_having"
  let joins ← (← features.need "joins").need "has_joins"
  let functions ← (← features.need "functions").need "has_functions"
  let plain := !(distinct.isPresent || having.isPresent || joins.isPresent || functions.isPresent)
  return [("query_type", kind), ("collection", table), ("complexity", complexity),
    ("features_used", features), ("warnings", .texts warnings),
    ("supports_find_optimization", .bool plain)]

def recommendation (level : Value) (warnings : List String) : String :=
  if level == .text "simple" then "Consulta óptima para MongoDB"
  else if level == .text "moderate" then "Consulta traducible con buen rendimiento esperado"
  else
    String.intercalate "; "
      (["Considerar desnormalización de datos", "Verificar índices en campos de filtro y JOIN",
        "Testing de rendimiento con datos reales recomendado"] ++
      (if warnings.length > 2 then ["Evaluar división en múltiples queries más simples"] else []))

def joinWarning (join : Value) : Except Fault (List String) := do
  let type ← join.member "type"
  if type == .text "right" || type == .text "full" then
    return ["JOIN tipo " ++ type.plain ++ " requiere optimización especial"]
  else return []

def joinWarnings (s : Statement) : Except Fault (List String) := do
  if (← s.usesJoins).isPresent then
    let joins ← s.joins
    let count ← joins.length
    let special ← (← joins.items).mapM joinWarning
    return (if count > 3 then
        ["Múltiples JOINs pueden afectar significativamente el rendimiento"] else []) ++
      special.flatten
  else return []

def noStatementFeasibility : Document :=
  [("is_feasible", .bool false), ("issues", .texts ["No hay parser SQL disponible"]),
    ("warnings", .list [])]

def feasibility (s : Statement) : Except Fault Document := do
  let union ← s.isUnion
  let subqueries ← s.usesSubqueries
  let joins ← joinWarnings s
  let level ← (← s.complexity).need "complexity_level"
  let warnings :=
    (if union.isPresent then ["UNION requiere MongoDB 4.4+ o queries separadas"] else []) ++
    (if subqueries.isPresent then
      ["Subqueries pueden requerir múltiples queries o reestructuración"] else []) ++
    joins ++
    (if level == .text "complex" then
      ["Consulta compleja - considerar optimización y testing de rendimiento"] else [])
  return [("is_feasible", .bool true), ("complexity_level", level), ("issues", .list []),
    ("warnings", .texts warnings), ("recommendation", .text (recommendation level warnings))]

end Plan

/-! ### Planners -/

/-- A planner: the statement that it holds, and the warnings of its last plan. -/
structure Planner where
  statement : Option Statement
  warnings : List String

namespace Planner

def empty : Planner :=
  ⟨none, []⟩

/-- Plans the statement that the planner holds, after taking up the given text if it is not empty.
The statement and the warnings are kept even if planning fails. -/
def plan (p : Planner) (text : List Char) : Except Fault Value × Planner :=
  let statement := if text.isEmpty then p.statement else some (.ofText text)
  match statement with
  | none => (.error (.refused .noStatement), p)
  | some s =>
    let (result, warnings) := (Plan.ofStatement s).run.run []
    (result, ⟨some s, warnings⟩)

def ask {α : Type} (p : Planner) (f : Statement → Except Fault α) : Except Fault α :=
  match p.statement with
  | some s => f s
  | none => .error (.lacks "NoneType" "statement")

def info (p : Planner) : Except Fault Document :=
  match p.statement with
  | some s => Plan.info s p.warnings
  | none => .ok []

def feasibility (p : Planner) : Except Fault Document :=
  match p.statement with
  | some s => Plan.feasibility s
  | none => .ok Plan.noStatementFeasibility

/-! ### Sessions -/

inductive Step where
  /-- A plan; for the empty text it is the plan of the statement that is held. -/
  | plan (text : List Char)
  /-- That it takes up a statement, which may bring answers with it. -/
  | hold (statement : Statement)
  | warnings
  | info
  | feasibility
  | groupStage
  | projectStage
  | distinctStages
  | joinedProjection (joins : Value)

def perform (p : Planner) : Step → Except Fault Value × Planner
  | .plan text => p.plan text
  | .hold statement => (.ok .null, { p with statement := some statement })
  | .warnings => (.ok (.texts p.warnings), p)
  | .info => (p.info.map .doc, p)
  | .feasibility => (p.feasibility.map .doc, p)
  | .groupStage => (p.ask Plan.groupStage, p)
  | .projectStage => (p.ask Plan.projectStage, p)
  | .distinctStages => ((p.ask Statement.distinctStages).map .list, p)
  | .joinedProjection joins => (p.ask fun s => Plan.joinedProjection s joins, p)

def run (p : Planner) : List Step → List (Except Fault Value) × Planner
  | [] => ([], p)
  | step :: rest =>
    let (answer, p) := p.perform step
    let (answers, p) := p.run rest
    (answer :: answers, p)

end Planner

end SqlGateway
