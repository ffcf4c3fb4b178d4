import SqlGateway.Proofs.Store.Calls

/-!
# Runs of programs

`Runs x session outcome made` says **how a program ends and which calls it makes**.  Runs are put together
along the program (`ask`, `bind`, `caught`).
-/

namespace SqlGateway.Store

open Session

def Session.after (session : Session) (made : List Call) : Session :=
  { session with calls := session.calls ++ made }

namespace Session

variable (session : Session) (made later : List Call)

@[simp] theorem calls_after : (session.after made).calls = session.calls ++ made := rfl

@[simp] theorem server_after : (session.after made).server = session.server := rfl

@[simp] theorem after_nil : session.after [] = session := by
  rw [after, List.append_nil]

@[simp] theorem after_after : (session.after made).after later = session.after (made ++ later) := by
  rw [after, after, after, List.append_assoc]

end Session

/-! ### Programs without a connection -/

namespace Access

/-- The program has an outcome and makes some calls. -/
def Runs {α : Type} (x : Access α) (session : Session) (outcome : Except Fault α) (made : List Call) : Prop :=
  x.run.run session = (outcome, session.after made)

/-- What a call with a usual outcome gives, from the reply. -/
def replied (default : Value) : Option Reply → Except Fault Value
  | some (.value v) => .ok v
  | some (.fault fault) => .error fault
  | none => .ok default

namespace Runs

variable {α β : Type} {x : Access α} {f : α → Access β} {session : Session} {a : α} {outcome : Except Fault β}
  {made later : List Call} {fault : Fault} {call : Call} {v : Value}

theorem pure (a : α) : Runs (Pure.pure a : Access α) session (.ok a) [] := by
  rw [Runs, after_nil]
  rfl

theorem lift {x : Except Fault α} (hx : x = .ok a) : Runs (liftM x : Access α) session (.ok a) [] := by
  rw [hx]
  exact .pure a

theorem bind (hx : Runs x session (.ok a) made) (hf : Runs (f a) (session.after made) outcome later) :
    Runs (x >>= f) session outcome (made ++ later) := by
  rw [Runs, run_bind, hx, ← after_after]
  exact hf

theorem lift_bind {x : Except Fault α} (hx : x = .ok a)
    (hf : Runs (f a) session outcome made) : Runs (liftM x >>= f) session outcome made := by
  rw [hx]
  exact hf

theorem error_bind {x : Except Fault α} (hx : x = .error fault) (f : α → Access β) :
    Runs (liftM x >>= f) session (.error fault) [] := by
  rw [hx, Runs, after_nil]
  rfl

theorem bind_lift {outcome : Except Fault α} (hx : Runs x session outcome made)
    (f : α → Except Fault β) : Runs (x >>= fun a => liftM (f a)) session (outcome >>= f) made := by
  rw [Runs, run_bind, hx]
  cases outcome with
  | error fault => rfl
  | ok a =>
    cases f a <;> rfl

theorem tryCatch (hx : Runs x session (.ok a) made) (f : Fault → Access α) :
    Runs (MonadExcept.tryCatch x f) session (.ok a) made := by
  rw [Runs, run_tryCatch, hx]
  rfl

theorem caught {f : Fault → Access α} {outcome : Except Fault α} (hx : Runs x session (.error fault) made)
    (hf : Runs (f fault) (session.after made) outcome later) :
    Runs (MonadExcept.tryCatch x f) session outcome (made ++ later) := by
  rw [Runs, run_tryCatch, hx, ← after_after]
  exact hf

theorem ask? (h : session.server session.calls call = some (.value v)) :
    Runs (ask? call) session (.ok (some v)) [call] := by
  have hrun : (Access.ask? call).run.run session = (ofReply (session.server session.calls call)).run.run
        { session with calls := session.calls ++ [call] } := rfl
  rw [Runs, hrun, h]
  rfl

theorem ask (h : session.server session.calls call = some (.value v))
    (default : Value) : Runs (ask call default) session (.ok v) [call] :=
  (ask? h).bind (.pure v)

theorem replied (call : Call) (default : Value) : Runs (Access.ask call default) session
      (replied default (session.server session.calls call)) [call] := by
  have hrun : (Access.ask call default).run.run session = ((ofReply (session.server session.calls call)) >>=
        fun v => (Pure.pure (v.getD default) : Access Value)).run.run (session.after [call]) := rfl
  rw [Runs, hrun]
  cases session.server session.calls call with
  | none => rfl
  | some reply => cases reply <;> rfl

end Runs

end Access

/-! ### Programs with a connection -/

namespace Connected

/-- The program has an outcome, makes some calls and leaves the connection alone. -/
def Runs {α : Type} (x : Connected α) (c : Connection) (session : Session) (outcome : Except Fault α)
    (made : List Call) : Prop :=
  x.run c session = ((outcome, c), session.after made)

namespace Runs

variable {α β : Type} {x : Connected α} {f : α → Connected β} {c : Connection} {session : Session} {a : α}
  {outcome : Except Fault β} {made later : List Call} {fault : Fault}

theorem pure (a : α) : Runs (Pure.pure a : Connected α) c session (.ok a) [] := by
  rw [Runs, after_nil]
  rfl

theorem access {x : Access α} {outcome : Except Fault α} (hx : Access.Runs x session outcome made) :
    Runs (liftM x : Connected α) c session outcome made := by
  have hrun : (liftM x : Connected α).run c session = (((x.run.run session).1, c), (x.run.run session).2) := rfl
  rw [Runs, hrun, hx]

theorem bind (hx : Runs x c session (.ok a) made) (hf : Runs (f a) c (session.after made) outcome later) :
    Runs (x >>= f) c session outcome (made ++ later) := by
  rw [Runs, run_bind, hx, ← after_after]
  exact hf

theorem bind_pure {b : β} (hx : Runs x c session (.ok a) made)
    (hf : f a = Pure.pure b) : Runs (x >>= f) c session (.ok b) made := by
  rw [← List.append_nil made]
  refine hx.bind ?_
  rw [hf]
  exact .pure b

theorem bind_reading (hx : Runs x c session (.ok a) made)
    (hf : f a = liftM outcome) : Runs (x >>= f) c session outcome made := by
  rw [← List.append_nil made]
  refine hx.bind ?_
  rw [hf, Runs, after_nil]
  cases outcome <;> rfl

theorem lift_bind {x : Except Fault α} (hx : x = .ok a)
    (hf : Runs (f a) c session outcome made) : Runs (liftM x >>= f) c session outcome made := by
  rw [hx]
  exact hf

theorem error_bind {x : Except Fault α} (hx : x = .error fault) (f : α → Connected β) :
    Runs (liftM x >>= f) c session (.error fault) [] := by
  rw [hx, Runs, after_nil]
  rfl

theorem tryCatch (hx : Runs x c session (.ok a) made) (f : Fault → Connected α) :
    Runs (MonadExcept.tryCatch x f) c session (.ok a) made := by
  rw [Runs, run_tryCatch, hx]
  rfl

theorem caught {f : Fault → Connected α} {outcome : Except Fault α} (hx : Runs x c session (.error fault) made)
    (hf : Runs (f fault) c (session.after made) outcome later) :
    Runs (MonadExcept.tryCatch x f) c session outcome (made ++ later) := by
  rw [Runs, run_tryCatch, hx, ← after_after]
  exact hf

end Runs

end Connected

end SqlGateway.Store
