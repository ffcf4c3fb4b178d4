import SqlGateway.Sql.Token.Basic

/-!
# Reserved words

The words that are more than names, with the kinds of the tokens they make.  The plain keywords are
listed by the part of the language they come from; a word stands in one list only.
-/

namespace SqlGateway.Sql.Token

def dataWords : List String :=
  ["SELECT", "INSERT", "DELETE", "UPDATE", "UPSERT", "REPLACE", "MERGE", "COMMIT", "ROLLBACK",
    "START"]

def schemaWords : List String :=
  ["DROP", "CREATE", "ALTER", "TRUNCATE"]

def rightsWords : List String :=
  ["GRANT", "REVOKE"]

def orderWords : List String :=
  ["ASC", "DESC"]

def typeWords : List String :=
  ["ARRAY", "BIGINT", "BINARY", "BIT", "BLOB", "BOOLEAN", "CHAR", "DATE", "DEC", "DECIMAL",
    "FILE_TYPE", "FLOAT", "INT", "INT8", "INTEGER", "INTERVAL", "LONG", "NATURALN", "NVARCHAR",
    "NUMBER", "NUMERIC", "PLS_INTEGER", "POSITIVE", "POSITIVEN", "REAL", "ROWID", "ROWLABEL",
    "ROWNUM", "SERIAL", "SERIAL8", "SIGNED", "SIGNTYPE", "SIMPLE_DOUBLE", "SIMPLE_FLOAT",
    "SIMPLE_INTEGER", "SMALLINT", "SYS_REFCURSOR", "TEXT", "TINYINT", "UNSIGNED", "UROWID",
    "UTL_FILE", "VARCHAR", "VARCHAR2", "VARYING", "MAP", "STRING", "STRUCT", "TIMESTAMP",
    "VARIANT", "BIGNUMERIC"]

def clauseWords : List String :=
  ["WHERE", "FROM", "INNER", "JOIN", "STRAIGHT_JOIN", "AND", "OR", "LIKE", "ON", "IN", "SET",
    "BY", "GROUP", "ORDER", "LEFT", "OUTER", "FULL", "IF", "END", "THEN", "LOOP", "AS", "ELSE",
    "FOR", "WHILE", "CASE", "WHEN", "MIN", "MAX", "DISTINCT"]

def upkeepWords : List String :=
  ["ARCHIVE", "ARCHIVELOG", "BACKUP", "BECOME", "BLOCK", "BODY", "CANCEL", "CHANGE", "COMPILE",
    "CONTENTS", "CONTROLFILE", "DATAFILE", "DBA", "DISMOUNT", "DOUBLE", "DUMP", "ELSIF",
    "EVENTS", "EXCEPTIONS", "EXPLAIN", "EXTENT", "EXTERNALLY", "FLUSH", "FREELIST", "FREELISTS",
    "INDICATOR", "INITRANS", "INSTANCE", "LAYER", "LINK", "LISTS", "LOGFILE", "MANAGE",
    "MANUAL", "MAXDATAFILES", "MAXINSTANCES", "MAXLOGFILES", "MAXLOGHISTORY", "MAXLOGMEMBERS",
    "MAXTRANS", "MINEXTENTS", "MODULE", "MOUNT", "NOARCHIVELOG", "NOCACHE", "NOCYCLE",
    "NOMAXVALUE", "NOMINVALUE", "NOORDER", "NORESETLOGS", "NORMAL", "NOSORT", "OPTIMAL", "OWN",
    "PACKAGE", "PARALLEL", "PCTINCREASE", "PCTUSED", "PLAN", "PRIVATE", "PROFILE", "QUOTA",
    "RECOVER", "RESETLOGS", "RESTRICTED", "REUSE", "ROLES", "SAVEPOINT", "SCN", "SECTION",
    "SEGMENT", "SHARED", "SNAPSHOT", "SORT", "STATEMENT_ID", "STOP", "SWITCH", "TABLES",
    "TABLESPACE", "THREAD", "TIME", "TRACING", "TRANSACTION", "TRIGGERS", "UNLIMITED", "UNLOCK"]

/-- Words of procedures, and types that are written as keywords. -/
def proceduralWords : List String :=
  ["ROW", "CONFLICT", "WINDOW", "PARTITION", "OVER", "PERFORM", "NOTICE", "PLPGSQL", "INHERIT",
    "INDEXES", "ON_ERROR_STOP", "BYTEA", "BIGSERIAL", "BOX", "CHARACTER", "CIDR",
    "CIRCLE", "INET", "JSON", "JSONB", "LINE", "LSEG", "MACADDR", "MONEY", "PATH", "PG_LSN",
    "POINT", "POLYGON", "SMALLSERIAL", "TSQUERY", "TSVECTOR", "TXID_SNAPSHOT", "UUID", "XML"]

def warehouseWords : List String :=
  ["EXPLODE", "DIRECTORY", "DISTRIBUTE", "INCLUDE", "LOCATE", "OVERWRITE", "POSEXPLODE",
    "ARRAY_CONTAINS", "CMP", "COLLECT_LIST", "CONCAT", "CONDITION", "DATE_ADD", "DATE_SUB",
    "DECODE", "DBMS_OUTPUT", "ELEMENTS", "EXCHANGE", "EXTENDED", "FLOOR", "FOLLOWING",
    "FROM_UNIXTIME", "FTP", "HOUR", "INLINE", "INSTR", "LEN", "MAXELEMENT", "MAXINDEX",
    "MAX_PART_DATE", "MAX_PART_INT", "MAX_PART_STRING", "MINELEMENT", "MININDEX",
    "MIN_PART_DATE", "MIN_PART_INT", "MIN_PART_STRING", "NOW", "NVL", "NVL2", "PARSE_URL_TUPLE",
    "PART_LOC", "PART_COUNT", "PART_COUNT_BY", "PRINT", "PUT_LINE", "RANGE", "REDUCE",
    "REGEXP_REPLACE", "RESIGNAL", "RTRIM", "SIGN", "SIGNAL", "SIN", "SPLIT", "SQRT", "STACK",
    "STR", "SUBSTR", "SUMMARY", "TBLPROPERTIES", "TIMESTAMP_ISO", "TO_CHAR", "TO_DATE",
    "TO_TIMESTAMP", "TRUNC", "UNBOUNDED", "UNIQUEJOIN", "UNIX_TIMESTAMP", "UTC_TIMESTAMP",
    "VIEWS", "EXIT", "BREAK", "LEAVE", "DISTINCTROW", "ACCOUNT", "GSCLUSTER", "ISSUE",
    "ORGANIZATION", "PIVOT", "QUALIFY", "REGEXP", "RLIKE", "SAMPLE", "TRY_CAST", "UNPIVOT",
    "ASSERT_ROWS_MODIFIED", "DEFINE", "ENUM", "HASH", "LOOKUP", "PRECEDING", "PROTO", "RESPECT",
    "TABLESAMPLE"]

def generalWords : List String :=
  ["ABORT", "ABS", "ABSOLUTE", "ACCESS", "ADA", "ADD", "ADMIN", "AFTER", "AGGREGATE", "ALIAS",
    "ALL", "ALLOCATE", "ANALYSE", "ANALYZE", "ANY", "ARRAYLEN", "ARE", "ASENSITIVE",
    "ASSERTION", "ASSIGNMENT", "ASYMMETRIC", "AT", "ATOMIC", "AUDIT", "AUTHORIZATION",
    "AUTO_INCREMENT", "AVG", "BACKWARD", "BEFORE", "BEGIN", "BETWEEN", "BITVAR", "BIT_LENGTH",
    "BOTH", "BREADTH", "CACHE", "CALL", "CALLED", "CARDINALITY", "CASCADE", "CASCADED", "CAST",
    "CATALOG", "CATALOG_NAME", "CHAIN", "CHARACTERISTICS", "CHARACTER_LENGTH",
    "CHARACTER_SET_CATALOG", "CHARACTER_SET_NAME", "CHARACTER_SET_SCHEMA", "CHAR_LENGTH",
    "CHARSET", "CHECK", "CHECKED", "CHECKPOINT", "CLASS", "CLASS_ORIGIN", "CLOB", "CLOSE",
    "CLUSTER", "COALESCE", "COBOL", "COLLATE", "COLLATION", "COLLATION_CATALOG",
    "COLLATION_NAME", "COLLATION_SCHEMA", "COLLECT", "COLUMN", "COLUMN_NAME", "COMPRESS",
    "COMMAND_FUNCTION", "COMMAND_FUNCTION_CODE", "COMMENT", "COMMITTED", "COMPLETION",
    "CONCURRENTLY", "CONDITION_NUMBER", "CONNECT", "CONNECTION", "CONNECTION_NAME",
    "CONSTRAINT", "CONSTRAINTS", "CONSTRAINT_CATALOG", "CONSTRAINT_NAME", "CONSTRAINT_SCHEMA",
    "CONSTRUCTOR", "CONTAINS", "CONTINUE", "CONVERSION", "CONVERT", "COPY", "CORRESPONDING",
    "COUNT", "CREATEDB", "CREATEUSER", "CROSS", "CUBE", "CURRENT", "CURRENT_DATE",
    "CURRENT_PATH", "CURRENT_ROLE", "CURRENT_TIME", "CURRENT_TIMESTAMP", "CURRENT_USER",
    "CURSOR", "CURSOR_NAME", "CYCLE", "DATA", "DATABASE", "DATETIME_INTERVAL_CODE",
    "DATETIME_INTERVAL_PRECISION", "DAY", "DEALLOCATE", "DECLARE", "DEFAULT", "DEFAULTS",
    "DEFERRABLE", "DEFERRED", "DEFINED", "DEFINER", "DELIMITER", "DELIMITERS", "DEREF",
    "DESCRIBE", "DESCRIPTOR", "DESTROY", "DESTRUCTOR", "DETERMINISTIC", "DIAGNOSTICS",
    "DICTIONARY", "DISABLE", "DISCONNECT", "DISPATCH", "DO", "DOMAIN", "DYNAMIC",
    "DYNAMIC_FUNCTION", "DYNAMIC_FUNCTION_CODE", "EACH", "ENABLE", "ENCODING", "ENCRYPTED",
    "ENGINE", "EQUALS", "ESCAPE", "EVERY", "EXCEPT", "EXCEPTION", "EXCLUDING", "EXCLUSIVE",
    "EXEC", "EXECUTE", "EXISTING", "EXISTS", "EXTERNAL", "EXTRACT", "FALSE", "FETCH", "FILE",
    "FINAL", "FIRST", "FORCE", "FOREACH", "FOREIGN", "FORTRAN", "FORWARD", "FOUND", "FREE",
    "FREEZE", "FUNCTION", "GENERAL", "GENERATED", "GET", "GLOBAL", "GO", "GOTO", "GRANTED",
    "GROUPING", "HANDLER", "HAVING", "HIERARCHY", "HOLD", "HOST", "IDENTIFIED", "IDENTITY",
    "IGNORE", "ILIKE", "IMMEDIATE", "IMMUTABLE", "IMPLEMENTATION", "IMPLICIT", "INCLUDING",
    "INCREMENT", "INDEX", "INDITCATOR", "INFIX", "INHERITS", "INITIAL", "INITIALIZE",
    "INITIALLY", "INOUT", "INPUT", "INSENSITIVE", "INSTANTIABLE", "INSTEAD", "INTERSECT",
    "INTO", "INVOKER", "IS", "ISNULL", "ISOLATION", "ITERATE", "KEY", "KEY_MEMBER", "KEY_TYPE",
    "LANCOMPILER", "LANGUAGE", "LARGE", "LAST", "LATERAL", "LEADING", "LENGTH", "LESS", "LEVEL",
    "LIMIT", "LISTEN", "LOAD", "LOCAL", "LOCALTIME", "LOCALTIMESTAMP", "LOCATION", "LOCATOR",
    "LOCK", "LOWER", "MATCH", "MAXEXTENTS", "MAXVALUE", "MESSAGE_LENGTH",
    "MESSAGE_OCTET_LENGTH", "MESSAGE_TEXT", "METHOD", "MINUTE", "MINUS", "MINVALUE", "MOD",
    "MODE", "MODIFIES", "MODIFY", "MONTH", "MORE", "MOVE", "MUMPS", "NAMES", "NATIONAL",
    "NATURAL", "NCHAR", "NCLOB", "NEW", "NEXT", "NO", "NOAUDIT", "NOCOMPRESS", "NOCREATEDB",
    "NOCREATEUSER", "NONE", "NOT", "NOTFOUND", "NOTHING", "NOTIFY", "NOTNULL", "NOWAIT", "NULL",
    "NULLABLE", "NULLIF", "OBJECT", "OCTET_LENGTH", "OF", "OFF", "OFFLINE", "OFFSET", "OIDS",
    "OLD", "ONLINE", "ONLY", "OPEN", "OPERATION", "OPERATOR", "OPTION", "OPTIONS", "ORDINALITY",
    "OUT", "OUTPUT", "OVERLAPS", "OVERLAY", "OVERRIDING", "OWNER", "QUARTER", "PAD",
    "PARAMETER", "PARAMETERS", "PARAMETER_MODE", "PARAMETER_NAME", "PARAMETER_ORDINAL_POSITION",
    "PARAMETER_SPECIFIC_CATALOG", "PARAMETER_SPECIFIC_NAME", "PARAMETER_SPECIFIC_SCHEMA",
    "PARTIAL", "PASCAL", "PCTFREE", "PENDANT", "PLACING", "PLI", "POSITION", "POSTFIX",
    "PRECISION", "PREFIX", "PREORDER", "PREPARE", "PRESERVE", "PRIMARY", "PRIOR", "PRIVILEGES",
    "PROCEDURAL", "PROCEDURE", "PUBLIC", "RAISE", "RAW", "READ", "READS", "RECHECK",
    "RECURSIVE", "REF", "REFERENCES", "REFERENCING", "REINDEX", "RELATIVE", "RENAME",
    "REPEATABLE", "RESET", "RESOURCE", "RESTART", "RESTRICT", "RESULT", "RETURN",
    "RETURNED_LENGTH", "RETURNED_OCTET_LENGTH", "RETURNED_SQLSTATE", "RETURNING", "RETURNS",
    "RIGHT", "ROLE", "ROLLUP", "ROUTINE", "ROUTINE_CATALOG", "ROUTINE_NAME", "ROUTINE_SCHEMA",
    "ROWS", "ROW_COUNT", "RULE", "SAVE_POINT", "SCALE", "SCHEMA", "SCHEMA_NAME", "SCOPE",
    "SCROLL", "SEARCH", "SECOND", "SECURITY", "SELF", "SENSITIVE", "SEQUENCE", "SERIALIZABLE",
    "SERVER_NAME", "SESSION", "SESSION_USER", "SETOF", "SETS", "SHARE", "SHOW", "SIMILAR",
    "SIMPLE", "SIZE", "SOME", "SOURCE", "SPACE", "SPECIFIC", "SPECIFICTYPE", "SPECIFIC_NAME",
    "SQL", "SQLBUF", "SQLCODE", "SQLERROR", "SQLEXCEPTION", "SQLSTATE", "SQLWARNING", "STABLE",
    "STATEMENT", "STATIC", "STATISTICS", "STDIN", "STDOUT", "STORAGE", "STRICT", "STRUCTURE",
    "STYPE", "SUBCLASS_ORIGIN", "SUBLIST", "SUBSTRING", "SUCCESSFUL", "SUM", "SYMMETRIC",
    "SYNONYM", "SYSID", "SYSTEM", "SYSTEM_USER", "TABLE", "TABLE_NAME", "TEMP", "TEMPLATE",
    "TEMPORARY", "TERMINATE", "THAN", "TIMEZONE_HOUR", "TIMEZONE_MINUTE", "TO", "TOAST",
    "TRAILING", "TRANSATION", "TRANSACTIONS_COMMITTED", "TRANSACTIONS_ROLLED_BACK",
    "TRANSATION_ACTIVE", "TRANSFORM", "TRANSFORMS", "TRANSLATE", "TRANSLATION", "TREAT",
    "TRIGGER", "TRIGGER_CATALOG", "TRIGGER_NAME", "TRIGGER_SCHEMA", "TRIM", "TRUE", "TRUSTED",
    "TYPE", "UID", "UNCOMMITTED", "UNDER", "UNENCRYPTED", "UNION", "UNIQUE", "UNKNOWN",
    "UNLISTEN", "UNNAMED", "UNNEST", "UNTIL", "UPPER", "USAGE", "USE", "USER",
    "USER_DEFINED_TYPE_CATALOG", "USER_DEFINED_TYPE_NAME", "USER_DEFINED_TYPE_SCHEMA", "USING",
    "VACUUM", "VALID", "VALIDATE", "VALIDATOR", "VALUES", "VARIABLE", "VERBOSE", "VERSION",
    "VIEW", "VOLATILE", "WEEK", "WHENEVER", "WITHOUT", "WORK", "WRITE", "YEAR", "ZONE"]

def plainWords : List String :=
  clauseWords ++ upkeepWords ++ proceduralWords ++ warehouseWords ++ generalWords

/-- The kind of a word, which is a name unless it is reserved. -/
def wordKind (word : List Char) : Kind :=
  let w := String.ofList (Text.upper word)
  if dataWords.contains w then .dataKeyword
  else if schemaWords.contains w then .schemaKeyword
  else if rightsWords.contains w then .rightsKeyword
  else if orderWords.contains w then .orderKeyword
  else if w == "WITH" then .withKeyword
  else if w == "DIV" then .operator
  else if typeWords.contains w then .typeName
  else if plainWords.contains w then .keyword
  else .name

end SqlGateway.Sql.Token
