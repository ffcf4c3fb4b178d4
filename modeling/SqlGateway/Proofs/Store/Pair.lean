import SqlGateway.Proofs.Store.Runs

/-!
# Two runs of a program

`Paired T s s'` relates two sessions whose servers reply as `T` relates.  `Pairs T O x x'`: **two programs
stay in step on paired sessions**; only at a call (`ask`) do the servers matter.
-/

namespace SqlGateway.Store

/-- What two replies to a call may differ in. -/
abbrev ReplyRelation := Call → Option Reply → Option Reply → Prop

/-- The same has happened in two sessions, and their servers give related replies. -/
structure Paired (T : ReplyRelation) (s s' : Session) : Prop where
  calls : s.calls = s'.calls
  issued : s.issued = s'.issued
  replies : ∀ before call, T call (s.server before call) (s'.server before call)

theorem Paired.after {T : ReplyRelation} {s s' : Session} (h : Paired T s s') (made : List Call) :
    Paired T (s.after made) (s'.after made) where
  calls := congrArg (· ++ made) h.calls
  issued := h.issued
  replies := h.replies

/-- How two outcomes may differ. -/
abbrev OutcomeRelation (α : Type) := Except Fault α → Except Fault α → Prop

/-- Two outcomes are related values, or the same fault. -/
inductive Alike {α : Type} (S : α → α → Prop) : OutcomeRelation α
  | ok {a a' : α} (h : S a a') : Alike S (.ok a) (.ok a')
  | error (fault : Fault) : Alike S (.error fault) (.error fault)

/-- Two outcomes are related values. -/
inductive Both {α : Type} (S : α → α → Prop) : OutcomeRelation α
  | ok {a a' : α} (h : S a a') : Both S (.ok a) (.ok a')

/-- The same value twice, which has a property. -/
def Shared {α : Type} (P : α → Prop) (a a' : α) : Prop :=
  a = a' ∧ P a

theorem Alike.refl {α : Type} {S : α → α → Prop} (h : ∀ a, S a a) (x : Except Fault α) : Alike S x x := by
  cases x with
  | ok a => exact .ok (h a)
  | error fault => exact .error fault

theorem Alike.shared {α : Type} {P : α → Prop} {x : Except Fault α} (h : ∀ a, x = .ok a → P a) :
    Alike (Shared P) x x := by
  cases x with
  | ok a => exact .ok ⟨rfl, h a rfl⟩
  | error fault => exact .error fault

/-! ### Programs without a connection -/

namespace Access

/-- Two programs stay in step on paired sessions. -/
def Pairs {α : Type} (T : ReplyRelation) (O : OutcomeRelation α) (x x' : Access α) : Prop :=
  ∀ s s', Paired T s s' → O (x.run.run s).1 (x'.run.run s').1 ∧ Paired T (x.run.run s).2 (x'.run.run s').2

namespace Pairs

variable {α β : Type} {T : ReplyRelation} {O : OutcomeRelation α} {S : α → α → Prop} {Q : β → β → Prop}
  {x x' : Access α} {f f' : α → Access β} {call : Call}

theorem lift {x x' : Except Fault α} (h : O x x') : Pairs T O (liftM x) (liftM x') := by
  intro s s' hs
  cases x <;> cases x' <;> exact ⟨h, hs⟩

theorem reading (x : Except Fault α) : Pairs T (Alike Eq) (liftM x) (liftM x) :=
  lift (.refl (fun _ => rfl) x)

theorem pure {a a' : α} (h : O (.ok a) (.ok a')) : Pairs T O (Pure.pure a) (Pure.pure a') :=
  fun _ _ hs => ⟨h, hs⟩

theorem bind (hx : Pairs T (Alike S) x x')
    (hf : ∀ a a', S a a' → Pairs T (Alike Q) (f a) (f' a')) : Pairs T (Alike Q) (x >>= f) (x' >>= f') := by
  intro s s' hs
  obtain ⟨houtcome, hlater⟩ := hx s s' hs
  rw [run_bind, run_bind]
  generalize (x.run.run s).1 = outcome, (x'.run.run s').1 = outcome' at houtcome ⊢
  cases houtcome with
  | ok h => exact hf _ _ h _ _ hlater
  | error fault => exact ⟨.error fault, hlater⟩

theorem bind_eq (hx : Pairs T (Alike Eq) x x')
    (hf : ∀ a, Pairs T (Alike Q) (f a) (f' a)) : Pairs T (Alike Q) (x >>= f) (x' >>= f') :=
  hx.bind fun a _ h => h ▸ hf a

theorem tryCatch {f f' : Fault → Access α} (hx : Pairs T (Alike S) x x')
    (hf : ∀ fault, Pairs T (Alike S) (f fault) (f' fault)) :
    Pairs T (Alike S) (MonadExcept.tryCatch x f) (MonadExcept.tryCatch x' f') := by
  intro s s' hs
  obtain ⟨houtcome, hlater⟩ := hx s s' hs
  rw [run_tryCatch, run_tryCatch]
  generalize (x.run.run s).1 = outcome, (x'.run.run s').1 = outcome' at houtcome ⊢
  cases houtcome with
  | ok h => exact ⟨.ok h, hlater⟩
  | error fault => exact hf fault _ _ hlater

theorem calls : Pairs T (Alike Eq) calls calls :=
  fun _ _ hs => ⟨.ok hs.calls, hs⟩

theorem issue : Pairs T (Alike Eq) Access.issue Access.issue := by
  intro s s' hs
  have hrun (s : Session) : Access.issue.run.run s =
      (.ok (identity (s.issued + 1)), { s with issued := s.issued + 1 }) := rfl
  rw [hrun, hrun]
  refine ⟨.ok ?_, hs.calls, ?_, hs.replies⟩
  · rw [hs.issued]
  · rw [hs.issued]

theorem ask {default : Value} {S : Value → Value → Prop}
    (h : ∀ reply reply', T call reply reply' → Alike S (replied default reply) (replied default reply')) :
    Pairs T (Alike S) (ask call default) (ask call default) := by
  intro s s' hs
  have hrun (s : Session) : (Access.ask call default).run.run s =
      (replied default (s.server s.calls call), s.after [call]) := Runs.replied call default
  rw [hrun, hrun, hs.calls]
  exact ⟨h _ _ (hs.replies _ call), hs.after [call]⟩

theorem ask?_eq (h : ∀ reply reply', T call reply reply' → reply = reply') :
    Pairs T (Alike Eq) (ask? call) (ask? call) := by
  intro s s' hs
  have hrun (s : Session) : (ask? call).run.run s =
      (ofReply (s.server s.calls call)).run.run (s.after [call]) := rfl
  rw [hrun, hrun, hs.calls, h _ _ (hs.replies s'.calls call)]
  rcases s'.server s'.calls call with _ | _ | _
  · exact ⟨.ok rfl, hs.after _⟩
  · exact ⟨.ok rfl, hs.after _⟩
  · exact ⟨.error _, hs.after _⟩

theorem ask_eq (h : ∀ reply reply', T call reply reply' → reply = reply') (default : Value) :
    Pairs T (Alike Eq) (Access.ask call default) (Access.ask call default) :=
  ask fun reply reply' hreply => h reply reply' hreply ▸ .refl (fun _ => rfl) _

end Pairs

end Access

/-! ### Programs with a connection -/

namespace Connected

/-- Two programs stay in step on paired sessions, and do the same to a connection. -/
def Pairs {α : Type} (T : ReplyRelation) (O : OutcomeRelation α) (x x' : Connected α) : Prop :=
  ∀ c s s', Paired T s s' → O (x.run c s).1.1 (x'.run c s').1.1 ∧
    (x.run c s).1.2 = (x'.run c s').1.2 ∧ Paired T (x.run c s).2 (x'.run c s').2

namespace Pairs

variable {α β : Type} {T : ReplyRelation} {O : OutcomeRelation α} {S : α → α → Prop} {Q : β → β → Prop}
  {x x' : Connected α} {f f' : α → Connected β}

theorem lift {x x' : Except Fault α} (h : O x x') : Pairs T O (liftM x) (liftM x') := by
  intro c s s' hs
  cases x <;> cases x' <;> exact ⟨h, rfl, hs⟩

theorem pure {a a' : α} (h : O (.ok a) (.ok a')) : Pairs T O (Pure.pure a) (Pure.pure a') :=
  fun _ _ _ hs => ⟨h, rfl, hs⟩

theorem mono {O' : OutcomeRelation α} (hx : Pairs T O x x')
    (h : ∀ outcome outcome', O outcome outcome' → O' outcome outcome') : Pairs T O' x x' :=
  fun c s s' hs => ⟨h _ _ (hx c s s' hs).1, (hx c s s' hs).2⟩

theorem access {x x' : Access α} (hx : Access.Pairs T O x x') : Pairs T O (liftM x) (liftM x') :=
  fun _ s s' hs => ⟨(hx s s' hs).1, rfl, (hx s s' hs).2⟩

theorem bind (hx : Pairs T (Alike S) x x')
    (hf : ∀ a a', S a a' → Pairs T (Alike Q) (f a) (f' a')) : Pairs T (Alike Q) (x >>= f) (x' >>= f') := by
  intro c s s' hs
  obtain ⟨houtcome, hconnection, hlater⟩ := hx c s s' hs
  rw [run_bind, run_bind, hconnection]
  generalize (x.run c s).1.1 = outcome, (x'.run c s').1.1 = outcome' at houtcome ⊢
  cases houtcome with
  | ok h => exact hf _ _ h _ _ _ hlater
  | error fault => exact ⟨.error fault, rfl, hlater⟩

theorem bind_eq (hx : Pairs T (Alike Eq) x x')
    (hf : ∀ a, Pairs T (Alike Q) (f a) (f' a)) : Pairs T (Alike Q) (x >>= f) (x' >>= f') :=
  hx.bind fun a _ h => h ▸ hf a

theorem reading_bind {x : Except Fault α} (hf : ∀ a, Pairs T (Alike Q) (f a) (f' a)) :
    Pairs T (Alike Q) (liftM x >>= f) (liftM x >>= f') :=
  (lift (.refl (fun _ => rfl) x)).bind_eq hf

theorem bind_both {O : OutcomeRelation β} (hx : Pairs T (Both S) x x')
    (hf : ∀ a a', S a a' → Pairs T O (f a) (f' a')) : Pairs T O (x >>= f) (x' >>= f') := by
  intro c s s' hs
  obtain ⟨houtcome, hconnection, hlater⟩ := hx c s s' hs
  rw [run_bind, run_bind, hconnection]
  generalize (x.run c s).1.1 = outcome, (x'.run c s').1.1 = outcome' at houtcome ⊢
  cases houtcome with
  | ok h => exact hf _ _ h _ _ _ hlater

theorem handled {f f' : Fault → Connected α} (hx : Pairs T (Alike S) x x')
    (hf : ∀ fault, Pairs T (Both S) (f fault) (f' fault)) :
    Pairs T (Both S) (MonadExcept.tryCatch x f) (MonadExcept.tryCatch x' f') := by
  intro c s s' hs
  obtain ⟨houtcome, hconnection, hlater⟩ := hx c s s' hs
  rw [run_tryCatch, run_tryCatch]
  generalize x.run c s = done, x'.run c s' = done' at houtcome hconnection hlater ⊢
  obtain ⟨⟨outcome, later⟩, after⟩ := done
  obtain ⟨⟨outcome', later'⟩, after'⟩ := done'
  obtain rfl : later = later' := hconnection
  have houtcome : Alike S outcome outcome' := houtcome
  cases houtcome with
  | ok h => exact ⟨.ok h, rfl, hlater⟩
  | error fault => exact hf fault _ _ _ hlater

end Pairs

end Connected

end SqlGateway.Store
