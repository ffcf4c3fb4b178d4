import SqlGateway.Sql.Distinct
import SqlGateway.Sql.Having
import SqlGateway.Sql.Subquery
import SqlGateway.Sql.Union

/-!
# Features of a query

Distinct rows, totals that are compared, unions and subqueries: which of them a query has, and their
readings.
-/

namespace SqlGateway.Sql.Feature

def describe (query : List Char) : Document :=
  let distinct := Distinct.occurs query
  let having := Having.occurs query
  let union := Union.occurs query
  let subquery := Subquery.occurs query
  [("has_distinct", .bool distinct), ("has_having", .bool having), ("has_union", .bool union),
    ("has_subquery", .bool subquery)] ++
  (if distinct then [("distinct_info", .doc (Distinct.describe query))] else []) ++
  (if having then [("having_clause", .doc (Having.filter query))] else []) ++
  (if union then [("union_info", .doc (Union.describe query))] else []) ++
  (if subquery then [("subqueries", .list (Subquery.describeAll query))] else [])

def catalog : Document :=
  [("distinct", .doc
    [("supported", .bool true), ("description", .text "SELECT DISTINCT fields"),
      ("mongo_translation", .text "Uses $group with fields as _id")]),
    ("having", .doc
      [("supported", .bool true), ("description", .text "HAVING clause after GROUP BY"),
        ("mongo_translation", .text "Uses $match stage after $group"),
        ("supported_operators", .texts ["=", "!=", ">", "<", ">=", "<="])]),
    ("union", .doc
      [("supported", .text "partial"), ("description", .text "UNION and UNION ALL"),
        ("mongo_translation", .text "Requires MongoDB 4.4+ $unionWith or separate queries"),
        ("limitations", .text "Complex unions may require manual handling")]),
    ("subqueries", .doc
      [("supported", .text "basic"),
        ("description", .text "Basic subqueries in WHERE, FROM, SELECT"),
        ("mongo_translation", .text "Various strategies: $lookup, $in, nested pipelines"),
        ("limitations", .text "Complex correlated subqueries need manual translation")])]

end SqlGateway.Sql.Feature
