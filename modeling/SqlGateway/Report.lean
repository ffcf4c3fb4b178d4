import SqlGateway.Value.Access

/-!
# Reports

A report wraps a result or an error in a document with a time stamp, figures about the data and advice.
A format says which parts are included.
-/

namespace SqlGateway.Report

open Text

structure Format where
  metadata : Bool
  timing : Bool
  context : Bool
  suggestions : Bool
  /-- Whether secrets in the context are hidden and long texts cut. -/
  masking : Bool
  /-- The point in time that reports are stamped with. -/
  instant : Timestamp
  deriving DecidableEq, Repr

def Format.full (instant : Timestamp) : Format :=
  ⟨true, true, true, true, true, instant⟩

/-! ### Times -/

/-- A time in seconds, times `factor`, rounded to `places` decimal places; whole numbers stay whole. -/
def rounded (time : Value) (factor places : Nat) : Except Fault Value :=
  match time with
  | .int n => .ok (.int (n * factor))
  | .bool b => .ok (.int ((if b then 1 else 0) * factor))
  | .float x => .ok (.float ((if factor == 1 then x else x.times factor).roundTo places))
  | v => .error (.misused (.notNumber v.kind))

def speed (time : Value) : Except Fault String :=
  let ofSeconds (x : Double) : String :=
    if x.less (.quotient 1 10) then "fast"
    else if x.less (.quotient 1 2) then "moderate"
    else "slow"
  match time with
  | .int n => .ok (if n ≤ 0 then "fast" else "slow")
  | .bool b => .ok (if b then "slow" else "fast")
  | .float x => .ok (ofSeconds x)
  | v => .error (.misused (.notComparable v.kind "float"))

/-! ### Results -/

def stats : Value → Document
  | .list items =>
    [("type", .text "array"), ("count", .ofNat items.length), ("is_empty", .bool items.isEmpty)]
  | .doc members =>
    [("type", .text "object"), ("keys", .ofNat members.length), ("is_empty", .bool members.isEmpty)]
  | v => [("type", .text v.kind), ("is_empty", .bool (v == .null))]

def descriptions : List (String × String) :=
  [("SELECT", "Consulta de lectura de datos"), ("INSERT", "Inserción de nuevos registros"),
    ("UPDATE", "Actualización de registros existentes"), ("DELETE", "Eliminación de registros"),
    ("CREATE", "Creación de tabla/colección"), ("DROP", "Eliminación de tabla/colección")]

def describeKind (kind : Value) : Except Fault String := do
  let _ ← kind.asName
  match kind with
  | .text name => return (descriptions.lookup name).getD "Operación desconocida"
  | _ => return "Operación desconocida"

/-- Metadata with the description of the statement's kind and a time stamp. -/
def stamped (format : Format) (metadata : Value) : Except Fault Document := do
  let d ← match metadata with
    | .list _ => .error (.misused .listIndex)
    | _ => metadata.members "copy"
  let d ← match Document.get? d "query_type" with
    | some kind => do pure (d.set "query_description" (.text (← describeKind kind)))
    | none => pure d
  return d.set "metadata_generated_at" (.text format.instant.stamp)

def success (format : Format) (data metadata time : Value) : Except Fault Document := do
  let head : Document :=
    [("success", .bool true), ("timestamp", .text format.instant.stamp), ("data", data)]
  let metadata ←
    if format.metadata && metadata.isPresent then do
      pure [("metadata", Value.doc (← stamped format metadata))]
    else pure []
  let timing ←
    if format.timing && time != .null then do
      let milliseconds ← rounded time 1000 2
      let seconds ← rounded time 1 4
      pure [("execution", Value.doc [("time_ms", milliseconds), ("time_seconds", seconds)])]
    else pure []
  return head ++ metadata ++ timing ++ [("stats", .doc (stats data))]

/-! ### Errors -/

def codes : List (String × String) :=
  [("PARSE_ERROR", "E001"), ("TRANSLATION_ERROR", "E002"), ("VALIDATION_ERROR", "E003"),
    ("SECURITY_ERROR", "E004"), ("FUNCTION_NOT_SUPPORTED", "E005"), ("JOIN_NOT_SUPPORTED", "E006"),
    ("SYNTAX_ERROR", "E007"), ("PERMISSION_DENIED", "E008"), ("DATABASE_ERROR", "E009"),
    ("UNKNOWN_ERROR", "E999")]

def codeOf (kind : Value) : Except Fault String := do
  let _ ← kind.asName
  match kind with
  | .text name => return (codes.lookup name).getD "E999"
  | _ => return "E999"

def adviceOn : Value → List String
  | .text "PARSE_ERROR" =>
    ["Verifica la sintaxis de la consulta SQL",
      "Asegúrate de que todos los paréntesis estén balanceados",
      "Revisa que las palabras clave estén correctamente escritas"]
  | .text "TRANSLATION_ERROR" =>
    ["La consulta puede contener características no soportadas", "Intenta simplificar la consulta",
      "Consulta la documentación de características soportadas"]
  | .text "VALIDATION_ERROR" =>
    ["Revisa los permisos de usuario", "Verifica que la consulta sea segura",
      "Asegúrate de que todos los campos requeridos estén presentes"]
  | .text "SECURITY_ERROR" =>
    ["La consulta contiene patrones potencialmente peligrosos",
      "Evita usar caracteres especiales sin escapar",
      "Contacta al administrador si necesitas permisos adicionales"]
  | .text "FUNCTION_NOT_SUPPORTED" =>
    ["Consulta la lista de funciones SQL soportadas", "Considera usar una función alternativa",
      "Algunos funciones pueden requerir procesamiento adicional"]
  | _ =>
    ["Revisa la consulta y vuelve a intentar", "Consulta la documentación para más información",
      "Contacta soporte técnico si el problema persiste"]

def advice (kind : Value) : Except Fault (List String) := do
  let _ ← kind.asName
  return adviceOn kind

def isSecret (name : String) : Bool :=
  ["password", "token", "secret", "key", "credential"].any fun word =>
    hasPiece word.toList (lower name.toList)

/-- A context member with secrets hidden and long texts cut. -/
def maskedMember (name : String) (v : Value) : String × Value :=
  if isSecret name then (name, .text "********")
  else
    match v with
    | .text s =>
      if s.length > 100 then (name, .text (String.ofList (s.toList.take 100) ++ "..."))
      else (name, v)
    | _ => (name, v)

def masked (context : Document) : Document :=
  context.map fun member => maskedMember member.1 member.2

structure Cause where
  message : String
  className : String
  deriving DecidableEq, Repr

def Cause.ofValue (v : Value) : Cause :=
  ⟨v.plain, "GenericError"⟩

def failure (format : Format) (cause : Cause) (kind context suggestions : Value) :
    Except Fault Document := do
  let code ← codeOf kind
  let error : Document :=
    [("code", .text code), ("type", kind), ("message", .text cause.message),
      ("class", .text cause.className)]
  let error ←
    if format.context && context.isPresent then do
      if format.masking then
        pure (error ++ [("context", Value.doc (masked (← context.members "copy")))])
      else pure (error ++ [("context", context)])
    else pure error
  let error ←
    if format.suggestions then do
      let suggestions ←
        if suggestions.isPresent then pure suggestions else do pure (.texts (← advice kind))
      pure (error ++ [("suggestions", suggestions)])
    else pure error
  return [("success", .bool false), ("timestamp", .text format.instant.stamp), ("error", .doc error)]

/-! ### Plans -/

def stagePoints (stage : Value) : Except Fault Nat := do
  let lookup ← stage.mentions "$lookup"
  let group ← stage.mentions "$group"
  let filter ←
    if ← stage.mentions "$match" then do
      match ← stage.need "$match" with
      | .doc d => pure d.length
      | _ => pure 0
    else pure 0
  return (if lookup then 2 else 0) + (if group then 1 else 0) + filter

def points (plan : Document) : Except Fault Nat := do
  let stages ← match Document.get? plan "pipeline" with
    | some pipeline => do
      let count ← pipeline.length
      let each ← (← pipeline.items).mapM stagePoints
      pure (each.foldl Nat.add count)
    | none => pure 0
  let filter := match Document.get? plan "query" with
    | some (.doc d) => d.length
    | _ => 0
  return stages + filter

def complexity (plan : Value) : Except Fault String := do
  let score ← match plan with
    | .doc d => points d
    | _ => pure 0
  return if score ≤ 2 then "simple" else if score ≤ 5 then "moderate" else "complex"

def stageFeatures (stage : Value) : Except Fault (List String) := do
  let found ← [("$lookup", "joins"), ("$group", "grouping"), ("$sort", "sorting"),
    ("$limit", "pagination"), ("$match", "filtering")].mapM
      fun (name, feature) => do return if ← stage.mentions name then [feature] else []
  return found.flatten

def operationFeature (operation : Value) : List String :=
  match operation with
  | .text "find" => ["basic_query"]
  | .text "aggregate" => ["aggregation_pipeline"]
  | .text "insert" | .text "update" | .text "delete" => ["data_modification"]
  | _ => []

/-- The features of a plan, each once and in alphabetical order. -/
def features (plan : Value) : Except Fault (List String) := do
  match plan with
  | .doc d =>
    let stages ← match Document.get? d "pipeline" with
      | some pipeline => do (← pipeline.items).mapM stageFeatures
      | none => pure []
    let found := operationFeature (Document.get d "operation") ++ stages.flatten ++
      (if Document.has d "projection" then ["field_selection"] else [])
    return found.eraseDups.mergeSort fun a b => !decide (b < a)
  | _ => return []

def firstStage (pipeline : Value) : Except Fault Value :=
  match pipeline with
  | .list (stage :: _) => .ok stage
  | .text s => .ok (.text (String.ofList (s.toList.take 1)))
  | .doc _ => .error (.missing "0")
  | v => .error (.misused (.notSubscriptable v.kind))

/-- Advice for each place where sorting follows grouping. -/
def sortAfterGroup : List Value → Except Fault (List String)
  | stage :: next :: rest => do
    let here ←
      if ← stage.mentions "$group" then do
        if ← next.mentions "$sort" then
          pure ["Ordenar después de agrupar puede ser costoso en datasets grandes"]
        else pure []
      else pure []
    return here ++ (← sortAfterGroup (next :: rest))
  | _ => .ok []

def pipelineHints (pipeline : Value) : Except Fault (List String) := do
  let filter ←
    if pipeline.isPresent then do
      if ← (← firstStage pipeline).mentions "$match" then pure []
      else pure ["Considera agregar filtros ($match) al inicio del pipeline"]
    else pure []
  let stages ← pipeline.items
  let lookups ← stages.mapM fun stage => stage.mentions "$lookup"
  let joins :=
    if lookups.count true > 1 then
      ["Múltiples JOINs pueden afectar el rendimiento - considera desnormalización"] else []
  let sorts ← match pipeline with
    | .doc _ => .error (.misused (.notHashable "slice"))
    | _ => sortAfterGroup stages
  return filter ++ joins ++ sorts

def hints (plan : Value) : Except Fault (List String) := do
  match plan with
  | .doc d =>
    match Document.get d "operation" with
    | .text "find" =>
      return (if (Document.get d "query").isPresent then
          ["Considera crear índices en los campos de filtro"] else []) ++
        (if Document.has d "sort" then
          ["Los índices compuestos pueden mejorar el rendimiento del ORDER BY"] else [])
    | .text "aggregate" => pipelineHints ((Document.get? d "pipeline").getD (.list []))
    | _ => return []
  | _ => return []

def planReport (format : Format) (text plan kind collection time warnings : Value) :
    Except Fault Document := do
  let complexity ← complexity plan
  let features ← features plan
  let hints ← hints plan
  let metadata : Document :=
    [("query_type", kind), ("collection", collection), ("sql_query", text),
      ("complexity", .text complexity), ("features_used", .texts features),
      ("optimization_hints", .texts hints)]
  let metadata := if warnings.isPresent then metadata ++ [("warnings", warnings)] else metadata
  success format plan (.doc metadata) time

/-! ### Data -/

def resultType : Value → String
  | .list [] => "empty_resultset"
  | .list [_] => "single_record"
  | .list _ => "multiple_records"
  | .doc d => if Document.has d "acknowledged" then "operation_result" else "single_document"
  | _ => "scalar_value"

def performance (data time : Value) : Except Fault Document := do
  let timing ←
    if time == .null then pure []
    else do
      let milliseconds ← rounded time 1000 2
      pure [("execution_time_ms", milliseconds), ("speed", .text (← speed time))]
  let size : Document := match data with
    | .list items =>
      [("result_size", .ofNat items.length)] ++
        (if items.length > 1000 then
          [("size_warning", .text "Large result set - consider pagination")] else [])
    | _ => []
  return timing ++ size

def dataReport (format : Format) (data info time : Value) : Except Fault Document := do
  let performance ← performance data time
  success format data
    (.doc [("query_info", info), ("result_type", .text (resultType data)),
      ("performance", .doc performance)])
    time

/-! ### Validations, features and summaries -/

def problemAdvice (problem : Value) : Except Fault String := do
  let s := lower (← problem.asText "lower").toList
  return if hasPiece "injection".toList s then "Evita usar caracteres especiales sin escapar"
    else if hasPiece "permission".toList s then
      "Contacta al administrador para obtener los permisos necesarios"
    else if hasPiece "syntax".toList s then "Revisa la sintaxis de la consulta SQL"
    else "Revisa la consulta y corrige los errores identificados"

def validation (format : Format) (valid issues warnings text : Value) : Except Fault Document := do
  if valid.isPresent then
    success format (.doc [("valid", .bool true), ("warnings", warnings)])
      (.doc [("query", text), ("validation_passed", .bool true)]) .null
  else
    let suggestions ← (← issues.items).mapM problemAdvice
    failure format (.ofValue (.text "Validation failed")) (.text "VALIDATION_ERROR")
      (.doc [("query", text), ("issues", issues), ("warnings", warnings)]) (.texts suggestions)

def featureReport (format : Format) (features : Value) : Except Fault Document :=
  success format features
    (.doc [("category", .text "feature_support"), ("version", .text "2.0.0"),
      ("last_updated", .text format.instant.stamp)])
    .null

def successRate (successes total : Nat) : Value :=
  if total == 0 then .int 0
  else .float (((Double.quotient successes total).times 100).roundTo 2)

def summary (format : Format) (operations : Value) : Except Fault Document := do
  let marks ← (← operations.items).mapM fun operation =>
    operation.memberOr "success" (.bool false)
  let successes := (marks.filter Value.isPresent).length
  success format
    (.doc [("total_operations", .ofNat marks.length), ("successful", .ofNat successes),
      ("failed", .ofNat (marks.length - successes)),
      ("success_rate", successRate successes marks.length)])
    (.doc [("operation_type", .text "batch_summary"), ("operations_detail", operations)]) .null

def refusalBody (message : Value) : Document :=
  [("error", message), ("status", .text "error")]

end SqlGateway.Report
