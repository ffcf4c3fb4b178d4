import SqlGateway.Proofs.Http.Permission

/-!
# The calls about accounts

`Admits a P` collects what the requests about accounts ask of the store.  **They make no other calls**, the
one that sets a password apart, and leave the connection alone.
-/

namespace SqlGateway.Http

open Account Store

/-- The property holds of the calls about accounts. -/
structure Admits (a : Accounts) (P : Call → Prop) : Prop where
  findOne : ∀ place filter, P (.findOne place filter)
  random : ∀ bound, P (.random bound)
  newUser : ∀ now username email digest,
    P (.insertOne a.users (.doc (newUser now username email (.text "user") digest)))
  insertReset : ∀ document, P (.insertOne a.resets document)
  updateReset : ∀ filter update, P (.updateOne a.resets filter update)
  deleteReset : ∀ filter, P (.deleteMany a.resets filter)

/-! ### Programs -/

section

open Access

variable {a : Accounts} {P : Call → Prop} (h : Admits a P) (email : Value) (now : Timestamp)

theorem makes_orNull {x : Access Value} (hx : Makes P x) : Makes P (orNull x) :=
  hx.tryCatch fun _ => .pure _

theorem makes_digested (a : Accounts) (password : Value) : Makes P (digested a password) :=
  Passes.calls.bind fun _ => .reading_bind fun _ => .lift _

include h

theorem makes_findOne (place : Place) (filter : Document) : Makes P (findOne place filter) :=
  .ask (h.findOne place filter) _

theorem makes_deleteReset (filter : Value) : Makes P (deleteMany a.resets filter) :=
  .ask (h.deleteReset filter) _

theorem makes_updateReset (filter update : Document) : Makes P (updateOne a.resets filter update) :=
  (Passes.ask (h.updateReset filter update) _).bind fun _ => .lift _

theorem makes_byIdentity (key : Value) : Makes P (byIdentity a key) :=
  makes_orNull (.reading_bind fun _ => (makes_findOne h _ _).bind fun _ => .lift _)

theorem makes_byEmail : Makes P (byEmail a email) :=
  makes_orNull ((makes_findOne h _ _).bind fun _ => .lift _)

theorem makes_authenticate (login password : Value) : Makes P (authenticate a login password) :=
  makes_orNull ((makes_findOne h _ _).bind fun _ => .lift _)

theorem makes_createUser {role : Value} (hnew : ∀ now username email digest,
    P (.insertOne a.users (.doc (newUser now username email role digest)))) (username email password : Value) :
    Makes P (createUser a now username email password role) := by
  refine .tryCatch ?_ fun _ => .pure _
  refine (makes_findOne h _ _).bind fun _ => ?_
  split
  · exact .pure _
  refine (makes_findOne h _ _).bind fun _ => ?_
  split
  · exact .pure _
  exact (makes_digested a _).bind fun _ => (passes_insertOne (hnew _ _ _ _)).bind fun _ => .pure _

theorem makes_requestReset : Makes P (requestReset a now email) := by
  refine makes_orNull ?_
  refine (Passes.ask (h.random _) _).bind fun _ => .reading_bind fun _ =>
    (makes_deleteReset h _).bind fun _ => ?_
  exact (passes_insertOne (h.insertReset _)).bind fun _ => .pure _

theorem makes_failedAttempts : Makes P (failedAttempts a email) := by
  refine .tryCatch ((makes_findOne h _ _).bind fun request => ?_) fun _ => .pure _
  split
  · exact .lift _
  · exact .pure _

theorem makes_verifyCode (code : Value) : Makes P (verifyCode a now email code) := by
  refine .tryCatch ((makes_findOne h _ _).bind fun request => ?_) fun _ => .pure _
  split
  · exact .reading_bind fun _ => (makes_updateReset h _ _).bind fun _ => .pure _
  · exact (makes_updateReset h _ _).bind fun _ => .pure _

theorem makes_removeRequests : Makes P (removeRequests a email) :=
  (makes_deleteReset h _).bind fun _ => .pure _

end

/-! ### Handlers -/

section

open Connected

variable {a : Accounts} {I : Connection → Prop} {P : Call → Prop} (h : Admits a P) (r : Request)

theorem keeps_catching {answer : Fault → Response} {handler : Connected Response}
    (hhandler : Keeps I P handler) : Keeps I P (catching answer handler) :=
  hhandler.tryCatch fun _ => .pure _

theorem keeps_withToken {kind : TokenKind} {handler : Claims → Connected Response}
    (hhandler : ∀ claims, Keeps I P (handler claims)) : Keeps I P (withToken kind r handler) := by
  rw [withToken]
  split
  · exact .pure _
  · exact .pure _
  · split
    · exact hhandler _
    · exact .pure _

include h

theorem keeps_register : Keeps I P (register a r) := by
  refine keeps_catching (.reading_bind fun data => .reading_bind fun missing => ?_)
  split
  · exact .pure _
  refine .reading_bind fun password => .reading_bind fun length => ?_
  split
  · exact .pure _
  refine .reading_bind fun username => .reading_bind fun email =>
    (Passes.access (makes_createUser h _ h.newUser _ _ _)).bind fun created => ?_
  split
  · exact .pure _
  · exact .lift _

theorem keeps_login : Keeps I P (login a r) := by
  refine keeps_catching (.reading_bind fun data => .reading_bind fun credentials => ?_)
  split
  split
  · exact .pure _
  refine (Passes.access (makes_authenticate h _ _)).bind fun user => ?_
  split
  · exact .lift _
  · exact .pure _

theorem keeps_refresh : Keeps I P (refresh a r) := by
  refine keeps_withToken r fun claims => keeps_catching ?_
  refine (Passes.access (makes_byIdentity h _)).bind fun user => ?_
  split
  · exact .reading_bind fun _ => .pure _
  · exact .pure _

theorem keeps_profile : Keeps I P (profile a r) :=
  keeps_withToken r fun _ => keeps_catching ((Passes.access (makes_byIdentity h _)).bind fun _ => .lift _)

theorem keeps_forgotPassword : Keeps I P (forgotPassword a r) := by
  refine keeps_catching (.reading_bind fun data => .reading_bind fun email => ?_)
  split
  · exact .pure _
  refine (Passes.access (makes_byEmail h _)).bind fun user => ?_
  split
  · exact .pure _
  refine (Passes.access (makes_requestReset h _ _)).bind fun code => ?_
  split
  · exact .pure _
  · exact .pure _

theorem keeps_verifyResetCode : Keeps I P (verifyResetCode a r) := by
  refine keeps_catching (.reading_bind fun data => .reading_bind fun email =>
    .reading_bind fun code => ?_)
  split
  · exact .pure _
  refine (Passes.access (makes_failedAttempts h _)).bind fun attempts =>
    .reading_bind fun reached => ?_
  split
  · exact .pure _
  refine (Passes.access (makes_verifyCode h _ _ _)).bind fun verified => ?_
  split
  · exact .pure _
  · exact .pure _

theorem keeps_afterPassword (email : Value) (changed : Bool) : Keeps I P (do
      if !changed then return .verdict 500 false "Error actualizando contraseña"
      removeRequests a email
      let user ← byEmail a email
      let _ ← user.member "username"
      return .verdict 200 true "Contraseña actualizada exitosamente" : Connected Response) := by
  split
  · exact .pure _
  exact (Passes.access (makes_removeRequests h _)).bind fun _ =>
    (Passes.access (makes_byEmail h _)).bind fun _ => .reading_bind fun _ => .pure _

end

end SqlGateway.Http
