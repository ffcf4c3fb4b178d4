/-!
# Built-in functions

The functions of dates, strings and numbers that a statement may call, each with the operator of the
document store that does its work and a category that says how its arguments are used.
-/

namespace SqlGateway.Sql

inductive Family where
  | date
  | string
  | math
  deriving DecidableEq, Repr

def Family.name : Family → String
  | date => "date"
  | string => "string"
  | math => "math"

inductive Category where
  | currentDate
  | dateFormat
  | dateExtract
  | dateArithmetic
  | stringTransform
  | stringInfo
  | stringCombine
  | stringExtract
  | stringClean
  | stringModify
  | stringSearch
  | mathBasic
  | mathRound
  | mathAdvanced
  | mathTrig
  | mathLog
  | mathRandom
  deriving DecidableEq, Repr

namespace Category

def all : List Category :=
  [currentDate, dateFormat, dateExtract, dateArithmetic, stringTransform, stringInfo, stringCombine,
    stringExtract, stringClean, stringModify, stringSearch, mathBasic, mathRound, mathAdvanced,
    mathTrig, mathLog, mathRandom]

def name : Category → String
  | currentDate => "current_date"
  | dateFormat => "date_format"
  | dateExtract => "date_extract"
  | dateArithmetic => "date_arithmetic"
  | stringTransform => "string_transform"
  | stringInfo => "string_info"
  | stringCombine => "string_combine"
  | stringExtract => "string_extract"
  | stringClean => "string_clean"
  | stringModify => "string_modify"
  | stringSearch => "string_search"
  | mathBasic => "math_basic"
  | mathRound => "math_round"
  | mathAdvanced => "math_advanced"
  | mathTrig => "math_trig"
  | mathLog => "math_log"
  | mathRandom => "math_random"

def ofName? (name : String) : Option Category :=
  all.find? fun category => category.name == name

end Category

structure Builtin where
  name : String
  operator : String
  category : Category
  deriving DecidableEq, Repr

namespace Builtin

def dates : List Builtin :=
  [⟨"NOW", "new Date()", .currentDate⟩,
    ⟨"CURRENT_DATE", "new Date()", .currentDate⟩,
    ⟨"CURRENT_TIMESTAMP", "new Date()", .currentDate⟩,
    ⟨"DATE", "$dateToString", .dateFormat⟩,
    ⟨"YEAR", "$year", .dateExtract⟩,
    ⟨"MONTH", "$month", .dateExtract⟩,
    ⟨"DAY", "$dayOfMonth", .dateExtract⟩,
    ⟨"HOUR", "$hour", .dateExtract⟩,
    ⟨"MINUTE", "$minute", .dateExtract⟩,
    ⟨"SECOND", "$second", .dateExtract⟩,
    ⟨"DAYOFWEEK", "$dayOfWeek", .dateExtract⟩,
    ⟨"DAYOFYEAR", "$dayOfYear", .dateExtract⟩,
    ⟨"WEEK", "$week", .dateExtract⟩,
    ⟨"DATEADD", "$dateAdd", .dateArithmetic⟩,
    ⟨"DATEDIFF", "$dateDiff", .dateArithmetic⟩]

def strings : List Builtin :=
  [⟨"UPPER", "$toUpper", .stringTransform⟩,
    ⟨"LOWER", "$toLower", .stringTransform⟩,
    ⟨"LENGTH", "$strLenCP", .stringInfo⟩,
    ⟨"LEN", "$strLenCP", .stringInfo⟩,
    ⟨"CONCAT", "$concat", .stringCombine⟩,
    ⟨"SUBSTRING", "$substr", .stringExtract⟩,
    ⟨"SUBSTR", "$substr", .stringExtract⟩,
    ⟨"LEFT", "$substr", .stringExtract⟩,
    ⟨"RIGHT", "$substr", .stringExtract⟩,
    ⟨"LTRIM", "$ltrim", .stringClean⟩,
    ⟨"RTRIM", "$rtrim", .stringClean⟩,
    ⟨"TRIM", "$trim", .stringClean⟩,
    ⟨"REPLACE", "$replaceOne", .stringModify⟩,
    ⟨"CHARINDEX", "$indexOfCP", .stringSearch⟩,
    ⟨"LOCATE", "$indexOfCP", .stringSearch⟩]

def numbers : List Builtin :=
  [⟨"ABS", "$abs", .mathBasic⟩,
    ⟨"ROUND", "$round", .mathRound⟩,
    ⟨"CEIL", "$ceil", .mathRound⟩,
    ⟨"CEILING", "$ceil", .mathRound⟩,
    ⟨"FLOOR", "$floor", .mathRound⟩,
    ⟨"SQRT", "$sqrt", .mathAdvanced⟩,
    ⟨"POWER", "$pow", .mathAdvanced⟩,
    ⟨"POW", "$pow", .mathAdvanced⟩,
    ⟨"MOD", "$mod", .mathBasic⟩,
    ⟨"SIGN", "$sign", .mathBasic⟩,
    ⟨"SIN", "$sin", .mathTrig⟩,
    ⟨"COS", "$cos", .mathTrig⟩,
    ⟨"TAN", "$tan", .mathTrig⟩,
    ⟨"LOG", "$log", .mathLog⟩,
    ⟨"LOG10", "$log10", .mathLog⟩,
    ⟨"EXP", "$exp", .mathLog⟩,
    ⟨"RAND", "$rand", .mathRandom⟩,
    ⟨"RANDOM", "$rand", .mathRandom⟩]

def ofFamily : Family → List Builtin
  | .date => dates
  | .string => strings
  | .math => numbers

def all : List Builtin :=
  dates ++ strings ++ numbers

end Builtin

end SqlGateway.Sql
