import SqlGateway.Value.Basic

/-!
# Permissions

What an account may do.  A new account may only read, unless it belongs to an administrator, who may
do everything.
-/

namespace SqlGateway.Account

inductive Permission where
  | select
  | insert
  | update
  | delete
  | createTable
  | dropTable
  | manageUsers
  deriving DecidableEq, Repr

namespace Permission

def name : Permission → String
  | select => "select"
  | insert => "insert"
  | update => "update"
  | delete => "delete"
  | createTable => "create_table"
  | dropTable => "drop_table"
  | manageUsers => "manage_users"

def all : List Permission :=
  [select, insert, update, delete, createTable, dropTable, manageUsers]

def isName (s : String) : Bool :=
  all.any fun p => p.name == s

def forStatement? : Value → Option Permission
  | .text "SELECT" => some select
  | .text "INSERT" => some insert
  | .text "UPDATE" => some update
  | .text "DELETE" => some delete
  | .text "CREATE" => some createTable
  | .text "DROP" => some dropTable
  | _ => none

/-- What a permission is called, and what it allows. -/
def describe : Permission → String × String
  | select => ("Consultar (SELECT)", "Permite realizar consultas SELECT")
  | insert => ("Insertar (INSERT)", "Permite insertar nuevos registros")
  | update => ("Actualizar (UPDATE)", "Permite actualizar registros existentes")
  | delete => ("Eliminar (DELETE)", "Permite eliminar registros")
  | createTable => ("Crear Tabla", "Permite crear nuevas tablas/colecciones")
  | dropTable => ("Eliminar Tabla", "Permite eliminar tablas/colecciones")
  | manageUsers => ("Gestionar Usuarios", "Permite gestionar otros usuarios (solo admin)")

def defaults (role : Value) : Document :=
  all.map fun p => (p.name, .bool (role == .text "admin" || p == select))

end Permission

end SqlGateway.Account
