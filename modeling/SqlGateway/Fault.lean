import SqlGateway.Number.Read

/-!
# Faults

Everything that can go wrong, by cause.  `Fault.message` holds the wording.
-/

namespace SqlGateway

/-- Why a statement or a request is refused. -/
inductive Refusal where
  | noStatement
  | unsupportedStatement (kind : String)
  | unionFailed (reason : String)
  | noInsertion
  | noDocuments
  | noInsertedValues
  | noUpdatedValues
  | noCollection
  | noColumnDefinitions
  | notDataStatement (text : String)
  | notSchemaStatement (text : String)
  | noCreatedTable
  | noCreatedColumns
  | noDroppedTable
  | unsupportedOperation (name : String)
  | noDatabaseSelected
  deriving DecidableEq, Repr

def Refusal.message : Refusal → String
  | noStatement => "No se ha proporcionado una consulta SQL ni un parser"
  | unsupportedStatement kind => "Tipo de consulta no soportado: " ++ kind
  | unionFailed reason => "Error procesando UNION: " ++ reason
  | noInsertion => "No se pudieron extraer valores para insertar"
  | noDocuments => "No se encontraron documentos para insertar"
  | noInsertedValues => "No se encontraron valores para insertar"
  | noUpdatedValues => "No se pudieron extraer valores para actualizar"
  | noCollection => "No se pudo determinar el nombre de la colección"
  | noColumnDefinitions => "No se encontró definición de columnas en CREATE TABLE"
  | notDataStatement text => "Consulta no soportada por CRUDParser: " ++ text
  | notSchemaStatement text => "Operación DDL no soportada: " ++ text
  | noCreatedTable => "No se pudo extraer nombre de tabla"
  | noCreatedColumns => "No se pudo extraer definición de columnas"
  | noDroppedTable => "No se pudo extraer nombre de tabla para DROP"
  | unsupportedOperation name => "Operación no soportada: " ++ name
  | noDatabaseSelected =>
    "No se ha seleccionado ninguna base de datos. Use set_database() primero."

/-- Why a value cannot be used in the way that is asked for. -/
inductive Misuse where
  | notSearchable (kind : String)
  | notIterable (kind : String)
  | notSubscriptable (kind : String)
  | listIndex
  | textIndex
  | noLength (kind : String)
  | notMembers (kind : String)
  | notHashable (kind : String)
  | notText (kind : String)
  | notNumber (kind : String)
  | notStatement (kind : String)
  | notWritable (kind : String)
  | notComparable (left right : String)
  | missingArgument
  | other (text : String)
  deriving DecidableEq, Repr

def Misuse.message : Misuse → String
  | notSearchable kind => s!"argument of type '{kind}' is not iterable"
  | notIterable kind => s!"'{kind}' object is not iterable"
  | notSubscriptable kind => s!"'{kind}' object is not subscriptable"
  | listIndex => "list indices must be integers or slices, not str"
  | textIndex => "string indices must be integers, not 'str'"
  | noLength kind => s!"object of type '{kind}' has no len()"
  | notMembers kind => s!"argument after ** must be a mapping, not {kind}"
  | notHashable kind => s!"unhashable type: '{kind}'"
  | notText kind => s!"expected string or bytes-like object, got '{kind}'"
  | notNumber kind => s!"must be real number, not {kind}"
  | notStatement kind => s!"Expected text or file-like object, got <class '{kind}'>"
  | notWritable kind => s!"Object of type {kind} is not JSON serializable"
  | notComparable left right =>
    s!"'>=' not supported between instances of '{left}' and '{right}'"
  | missingArgument => "missing a required argument"
  | other text => text

inductive ReportKind where
  | value
  | key
  | type
  | runtime
  | general
  | store
  deriving DecidableEq, Repr

/-- Everything that can go wrong. -/
inductive Fault where
  | number (error : NumberError)
  | refused (why : Refusal)
  | missing (name : String)
  /-- A value of some kind does not offer an operation. -/
  | lacks (kind operation : String)
  | misused (why : Misuse)
  /-- No database is selected where one is needed. -/
  | notSelected
  | attemptsExhausted
  | reported (kind : ReportKind) (text : String)
  /-- The truth of a database was asked for, which it does not have. -/
  | noTruth
  /-- A text is not the identity of a document. -/
  | badIdentity (text : String)
  | noBody
  deriving DecidableEq, Repr

def Fault.message : Fault → String
  | number error => error.message
  | refused why => why.message
  | missing name => Text.quoted name
  | lacks kind operation => s!"'{kind}' object has no attribute '{operation}'"
  | misused why => why.message
  | notSelected => "No hay base de datos seleccionada"
  | attemptsExhausted => "Se excedió el número máximo de intentos de consulta"
  | reported .key text => Text.quoted text
  | reported _ text => text
  | noTruth =>
    "Database objects do not implement truth value testing or bool(). " ++
      "Please compare with None instead: database is not None"
  | badIdentity text =>
    Text.quoted text ++
      " is not a valid ObjectId, it must be a 12-byte input or a 24-character hex string"
  | noBody =>
    "415 Unsupported Media Type: Did not attempt to load JSON data because the request " ++
      "Content-Type was not 'application/json'."

end SqlGateway
