import SqlGateway.Store.Execute

/-!
# The calls that a program makes

A program adds calls to those of its session.  What holds between a session and a later one is followed along
the program by a `Passage`:

* `Access.Passes R x`: **the program `x` takes every session along `R`**; `Makes P x` is about the calls it
  adds;
* `Connected.Passes I R x`: a program with a connection does so too, and **keeps the property `I`**.

`Leaves` is about the list of the calls that are added.
-/

namespace SqlGateway.Store

open List

/-- A relation between a session and a later one that goes on from step to step, over new identities and over
calls with the property. -/
structure Passage (P : Call → Prop) where
  rel : Session → Session → Prop
  refl : ∀ s, rel s s
  trans : ∀ {s t u}, rel s t → rel t u → rel s u
  call : ∀ {call}, P call → ∀ s, rel s { s with calls := s.calls ++ [call] }
  issue : ∀ s, rel s { s with issued := s.issued + 1 }

/-- The calls that are added satisfy the property. -/
def Passage.adds (P : Call → Prop) : Passage P where
  rel s t := ∃ made, t.calls = s.calls ++ made ∧ ∀ call ∈ made, P call
  refl s := ⟨[], (append_nil _).symm, fun _ h => absurd h not_mem_nil⟩
  trans := by
    rintro s t u ⟨made, hmade, hP⟩ ⟨later, hlater, hP'⟩
    exact ⟨made ++ later, by rw [hlater, hmade, append_assoc], forall_mem_append.mpr ⟨hP, hP'⟩⟩
  call h s := ⟨[_], rfl, forall_mem_singleton.mpr h⟩
  issue s := ⟨[], (append_nil _).symm, fun _ h => absurd h not_mem_nil⟩

theorem Passage.adds_mono {P Q : Call → Prop} (hPQ : ∀ call, P call → Q call) {s t : Session}
    (h : (adds P).rel s t) : (adds Q).rel s t := by
  obtain ⟨made, hmade, hP⟩ := h
  exact ⟨made, hmade, fun call hcall => hPQ call (hP call hcall)⟩

/-- The list of the calls that a step of a session adds is related to those before. -/
def Extends {α : Type} (L : List Call → List Call → Prop) (step : Session → α × Session) : Prop :=
  ∀ session, ∃ made, (step session).2.calls = session.calls ++ made ∧ L session.calls made

namespace Extends

variable {α β : Type} {L L' L'' : List Call → List Call → Prop}

theorem nothing {step : Session → α × Session} (hL : ∀ before, L before [])
    (h : ∀ session, (step session).2.calls = session.calls) : Extends L step :=
  fun session => ⟨[], by rw [h, append_nil], hL _⟩

theorem andThen {first : Session → α × Session} {step : Session → β × Session}
    (happend : ∀ before made later, L before made → L' (before ++ made) later → L'' before (made ++ later))
    (next : α → Session → β × Session) (hfirst : Extends L first) (hnext : ∀ a, Extends L' (next a))
    (hstep : ∀ session, step session = next (first session).1 (first session).2) : Extends L'' step := by
  intro session
  obtain ⟨made, hmade, hL⟩ := hfirst session
  obtain ⟨later, hlater, hL'⟩ := hnext (first session).1 (first session).2
  rw [hmade] at hL'
  exact ⟨made ++ later, by rw [hstep, hlater, hmade, append_assoc], happend _ _ _ hL hL'⟩

end Extends

/-! ### Programs without a connection -/

namespace Access

/-- Goes on from the outcome of a program: a fault is handled. -/
def recover {α : Type} (f : Fault → Access α) : Except Fault α → Access α
  | .ok a => pure a
  | .error fault => f fault

theorem run_bind {α β : Type} (x : Access α) (f : α → Access β) (session : Session) :
    (x >>= f).run.run session = (ExceptT.bindCont f (x.run.run session).1).run (x.run.run session).2 := rfl

theorem run_tryCatch {α : Type} (x : Access α) (f : Fault → Access α) (session : Session) :
    (MonadExcept.tryCatch x f).run.run session =
      (recover f (x.run.run session).1).run.run (x.run.run session).2 := by
  have hx : StateT.run x session = x.run.run session := rfl
  show (ExceptT.tryCatch x f).run.run session = _
  simp only [ExceptT.tryCatch, ExceptT.run_mk, StateT.run_bind, hx]
  rcases x.run.run session with ⟨_ | _, later⟩ <;> rfl

def ofReply : Option Reply → Access (Option Value)
  | some (.value v) => pure (some v)
  | some (.fault f) => throw f
  | none => pure none

theorem run_ask? (call : Call) (session : Session) : (ask? call).run.run session =
    (ofReply (session.server session.calls call)).run.run
      { session with calls := session.calls ++ [call] } := rfl

/-- The program takes every session along the relation. -/
def Passes {α : Type} {P : Call → Prop} (R : Passage P) (x : Access α) : Prop :=
  ∀ s, R.rel s (x.run.run s).2

/-- All calls of the program satisfy the property. -/
abbrev Makes {α : Type} (P : Call → Prop) (x : Access α) : Prop := Passes (.adds P) x

namespace Passes

variable {α β : Type} {P : Call → Prop} {R : Passage P} {x : Access α} {f : α → Access β} {call : Call}
  {c : Prop}

theorem pure (a : α) : Passes R (Pure.pure a : Access α) :=
  R.refl

theorem throw (fault : Fault) : Passes R (MonadExcept.throw fault : Access α) :=
  R.refl

theorem lift (x : Except Fault α) : Passes R (liftM x : Access α) :=
  R.refl

theorem bind (hx : Passes R x) (hf : ∀ a, Passes R (f a)) : Passes R (x >>= f) := by
  intro s
  have hdone := hx s
  rw [run_bind]
  generalize x.run.run s = result at hdone ⊢
  obtain ⟨fault | a, later⟩ := result
  · exact hdone
  · exact R.trans hdone (hf a later)

theorem reading_bind {x : Except Fault α} (hf : ∀ a, Passes R (f a)) : Passes R (liftM x >>= f) :=
  (lift x).bind hf

theorem optional [Decidable c] {x : Access Unit} {f : Unit → Access α}
    (hx : Passes R x) (hf : ∀ a, Passes R (f a)) : Passes R (if c then x >>= f else f ()) := by
  split
  · exact hx.bind hf
  · exact hf ()

theorem either [Decidable c] {y : Access α} (hx : Passes R x) (hy : Passes R y)
    (hf : ∀ a, Passes R (f a)) : Passes R (if c then x >>= f else y >>= f) := by
  split
  · exact hx.bind hf
  · exact hy.bind hf

theorem tryCatch {f : Fault → Access α} (hx : Passes R x)
    (hf : ∀ fault, Passes R (f fault)) : Passes R (MonadExcept.tryCatch x f) := by
  intro s
  have hdone := hx s
  rw [run_tryCatch]
  generalize x.run.run s = result at hdone ⊢
  obtain ⟨fault | a, later⟩ := result
  · exact R.trans hdone (hf fault later)
  · exact hdone

theorem mapM (hf : ∀ a, Passes R (f a)) (l : List α) : Passes R (l.mapM f) := by
  induction l with
  | nil => exact .pure _
  | cons a l ih =>
    rw [mapM_cons]
    exact (hf a).bind fun _ => ih.bind fun _ => .pure _

theorem ask? (h : P call) : Passes R (ask? call) := by
  intro s
  rw [run_ask?]
  rcases s.server s.calls call with _ | _ | _ <;> exact R.call h s

theorem ask (h : P call) (default : Value) : Passes R (ask call default) :=
  (ask? h).bind fun _ => .pure _

theorem tell (h : P call) : Passes R (tell call) :=
  (ask? h).bind fun _ => .pure _

theorem calls : Passes R calls :=
  R.refl

theorem issue : Passes R issue :=
  R.issue

end Passes

/-- The list of the calls of the program is related to the calls before. -/
def Leaves {α : Type} (L : List Call → List Call → Prop) (x : Access α) : Prop :=
  Extends L fun session => x.run.run session

namespace Leaves

variable {α β : Type} {L L' L'' : List Call → List Call → Prop} {x : Access α}
  (happend : ∀ before made later, L before made → L' (before ++ made) later → L'' before (made ++ later))
  (hnil : ∀ before, L' before [])
include happend hnil

theorem bind {f : α → Access β} (hx : Leaves L x) (hf : ∀ a, Leaves L' (f a)) : Leaves L'' (x >>= f) := by
  refine Extends.andThen happend (fun outcome => (ExceptT.bindCont f outcome).run) hx ?_ fun session => rfl
  rintro (fault | a)
  · exact .nothing hnil fun _ => rfl
  · exact hf a

theorem tryCatch {f : Fault → Access α} (hx : Leaves L x) (hf : ∀ fault, Leaves L' (f fault)) :
    Leaves L'' (MonadExcept.tryCatch x f) := by
  refine Extends.andThen happend (fun outcome => (recover f outcome).run.run) hx ?_ ?_
  · rintro (fault | a)
    · exact hf fault
    · exact .nothing hnil fun _ => rfl
  · exact run_tryCatch x f

omit happend hnil in
theorem ask? {call : Call} (h : ∀ before, L before [call]) : Leaves L (ask? call) := by
  intro session
  refine ⟨[call], ?_, h _⟩
  simp only [run_ask?]
  rcases session.server session.calls call with _ | _ | _ <;> rfl

end Leaves

end Access

/-! ### Programs with a connection -/

namespace Connected

/-- Goes on from the outcome of a program: a fault is handled. -/
def recover {α : Type} (f : Fault → Connected α) (outcome : Except Fault α × Connection)
    (session : Session) : (Except Fault α × Connection) × Session :=
  match outcome with
  | (.ok a, later) => ((.ok a, later), session)
  | (.error fault, later) => (f fault).run later session

theorem run_bind {α β : Type} (x : Connected α) (f : α → Connected β) (c : Connection)
    (session : Session) : (x >>= f).run c session =
      (ExceptT.bindCont f (x.run c session).1.1).run (x.run c session).1.2 (x.run c session).2 := rfl

theorem run_tryCatch {α : Type} (x : Connected α) (f : Fault → Connected α) (c : Connection)
    (session : Session) : (MonadExcept.tryCatch x f).run c session =
      recover f (x.run c session).1 (x.run c session).2 := by
  have hx : StateT.run (StateT.run x c) session = x.run c session := rfl
  show StateT.run (StateT.run (ExceptT.tryCatch x f).run c) session = _
  simp only [ExceptT.tryCatch, ExceptT.run_mk, StateT.run_bind, hx]
  rcases x.run c session with ⟨⟨_ | _, later⟩, after⟩ <;> rfl

/-- The program keeps the property of the connection and takes every session along the relation. -/
def Passes {α : Type} {P : Call → Prop} (I : Connection → Prop) (R : Passage P) (x : Connected α) : Prop :=
  ∀ c s, I c → I (x.run c s).1.2 ∧ R.rel s (x.run c s).2

/-- The program keeps the property of the connection, and its calls satisfy the other property. -/
abbrev Keeps {α : Type} (I : Connection → Prop) (P : Call → Prop) (x : Connected α) : Prop :=
  Passes I (.adds P) x

namespace Passes

variable {α β : Type} {I : Connection → Prop} {P : Call → Prop} {R : Passage P} {x : Connected α}

theorem pure (a : α) : Passes I R (Pure.pure a : Connected α) :=
  fun _ s hc => ⟨hc, R.refl s⟩

theorem throw (fault : Fault) : Passes I R (MonadExcept.throw fault : Connected α) :=
  fun _ s hc => ⟨hc, R.refl s⟩

theorem lift (x : Except Fault α) : Passes I R (liftM x : Connected α) :=
  fun _ s hc => ⟨hc, R.refl s⟩

theorem access {x : Access α} (hx : Access.Passes R x) : Passes I R (liftM x : Connected α) :=
  fun _ s hc => ⟨hc, hx s⟩

theorem change {f : Connection → Connection} (hf : ∀ c, I c → I (f c)) : Passes I R (change f) :=
  fun c s hc => ⟨hf c hc, R.refl s⟩

theorem bind {f : α → Connected β} (hx : Passes I R x) (hf : ∀ a, Passes I R (f a)) : Passes I R (x >>= f) := by
  intro c s hc
  have hdone := hx c s hc
  rw [run_bind]
  generalize x.run c s = result at hdone ⊢
  obtain ⟨⟨fault | a, later⟩, after⟩ := result
  · exact hdone
  · obtain ⟨hlater, hafter⟩ := hf a later after hdone.1
    exact ⟨hlater, R.trans hdone.2 hafter⟩

theorem reading_bind {x : Except Fault α} {f : α → Connected β} (hf : ∀ a, Passes I R (f a)) :
    Passes I R (liftM x >>= f) :=
  (lift x).bind hf

theorem connection_bind {f : Connection → Connected α} (hf : ∀ c, I c → Passes I R (f c)) :
    Passes I R (connection >>= f) :=
  fun c s hc => hf c hc c s hc

theorem lift_bind {x : Except Fault α} {f : α → Connected β}
    (hf : ∀ a, x = .ok a → Passes I R (f a)) : Passes I R (liftM x >>= f) := by
  cases x with
  | error fault => exact fun _ s hc => ⟨hc, R.refl s⟩
  | ok a => exact hf a rfl

theorem tryCatch {f : Fault → Connected α} (hx : Passes I R x)
    (hf : ∀ fault, Passes I R (f fault)) : Passes I R (MonadExcept.tryCatch x f) := by
  intro c s hc
  have hdone := hx c s hc
  rw [run_tryCatch]
  generalize x.run c s = result at hdone ⊢
  obtain ⟨⟨fault | a, later⟩, after⟩ := result
  · obtain ⟨hlater, hafter⟩ := hf fault later after hdone.1
    exact ⟨hlater, R.trans hdone.2 hafter⟩
  · exact hdone

theorem orElse {y : Connected α} (hx : Passes I R x) (hy : Passes I R y) : Passes I R (orElse x y) :=
  .tryCatch hx fun _ => hy

/-- Attempts make the calls of the program that is attempted, and those in between. -/
theorem retrying (hx : Passes I R x) (hreconnect : Passes I R reconnect)
    (hpause : ∀ seconds, P (.pause seconds)) : ∀ left, Passes I R (retrying x left) := by
  intro left
  have hwait : ∀ seconds, Passes I R (liftM (pause seconds) : Connected Unit) :=
    fun seconds => .access (.tell (hpause seconds))
  have houtcome : Passes I R (outcome x) := by
    exact .tryCatch (hx.bind fun _ => .pure _) fun _ => .pure _
  induction left with
  | zero => exact .throw _
  | succ left ih =>
    refine houtcome.bind fun outcome => ?_
    cases outcome with
    | ok a => exact .pure a
    | error fault =>
      show Passes I R (if tellsOfBreak fault then _ else _)
      split
      · exact hreconnect.bind fun _ => (hwait _).bind fun _ => ih
      split
      · exact .throw fault
      · exact (hwait _).bind fun _ => ih

end Passes

variable {α : Type} {I : Connection → Prop} {P Q : Call → Prop} {x : Connected α}

theorem Keeps.mono (hPQ : ∀ call, P call → Q call) (h : Keeps I P x) : Keeps I Q x :=
  fun c s hc => ⟨(h c s hc).1, Passage.adds_mono hPQ (h c s hc).2⟩

/-- All calls of the program satisfy the property, whatever the connection remembers. -/
def Makes {α : Type} (P : Call → Prop) (x : Connected α) : Prop :=
  ∀ c s, (Passage.adds P).rel s (x.run c s).2

theorem Keeps.makes (h : Keeps I P x) (hI : ∀ c, I c) : Makes P x :=
  fun c s => (h c s (hI c)).2

/-- The list of the calls of the program is related to the calls before, whatever the connection remembers. -/
def Leaves {α : Type} (L : List Call → List Call → Prop) (x : Connected α) : Prop :=
  ∀ c, Extends L fun session => x.run c session

namespace Leaves

variable {β : Type} {L L' L'' : List Call → List Call → Prop}
  (happend : ∀ before made later, L before made → L' (before ++ made) later → L'' before (made ++ later))
  (hnil : ∀ before, L' before [])
include happend hnil

theorem bind {f : α → Connected β} (hx : Leaves L x) (hf : ∀ a, Leaves L' (f a)) : Leaves L'' (x >>= f) := by
  intro c
  refine Extends.andThen happend (fun outcome => (ExceptT.bindCont f outcome.1).run outcome.2) (hx c)
    ?_ fun session => rfl
  rintro ⟨fault | a, later⟩
  · exact .nothing hnil fun _ => rfl
  · exact hf a later

theorem tryCatch {f : Fault → Connected α} (hx : Leaves L x) (hf : ∀ fault, Leaves L' (f fault)) :
    Leaves L'' (MonadExcept.tryCatch x f) := by
  intro c
  refine Extends.andThen happend (recover f) (hx c) ?_ ?_
  · rintro ⟨fault | a, later⟩
    · exact hf fault later
    · exact .nothing hnil fun _ => rfl
  · exact run_tryCatch x f c

omit happend hnil in
theorem lift_bind {x : Except Fault α} {f : α → Connected β} {a : α} (hx : x = .ok a)
    (hf : Leaves L (f a)) : Leaves L (liftM x >>= f) := by
  rw [hx]
  exact hf

end Leaves

end Connected

end SqlGateway.Store
