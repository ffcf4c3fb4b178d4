import SqlGateway.Proofs.Store.Permission

/-!
# Which database a connection uses

`Ends P x Q`: **from a connection with the property `P` the program ends as `Q` says**, whatever the server
replies.  A selection takes effect unless the name is refused, and reconnecting takes up the database in use,
so **the database in use is the one that was selected last** (`uses_moments`).
-/

namespace SqlGateway.Store

/-! ### How a program ends -/

namespace Connected

/-- From a connection with the property the program ends, with its outcome and the connection, as the other
property says. -/
def Ends {α : Type} (P : Connection → Prop) (x : Connected α) (Q : Except Fault α → Connection → Prop) : Prop :=
  ∀ c session, P c → Q (x.run c session).1.1 (x.run c session).1.2

namespace Ends

variable {α β : Type} {P : Connection → Prop} {Q : Except Fault α → Connection → Prop}

theorem pure {a : α} (h : ∀ c, P c → Q (.ok a) c) : Ends P (Pure.pure a) Q :=
  fun c _ hc => h c hc

theorem lift {x : Except Fault α} (h : ∀ c, P c → Q x c) : Ends P (liftM x) Q :=
  fun c _ hc => h c hc

theorem access {x : Access α} (h : ∀ c session, P c → Q (x.run.run session).1 c) : Ends P (liftM x) Q :=
  fun c session hc => h c session hc

theorem change {f : Connection → Connection} {Q : Except Fault Unit → Connection → Prop}
    (h : ∀ c, P c → Q (.ok ()) (f c)) : Ends P (change f) Q :=
  fun c _ hc => h c hc

theorem bind {R : Except Fault β → Connection → Prop} {x : Connected β} {f : β → Connected α}
    (hx : Ends P x R) (hf : ∀ b, Ends (R (.ok b)) (f b) Q)
    (hfault : ∀ fault c, R (.error fault) c → Q (.error fault) c) : Ends P (x >>= f) Q := by
  intro c session hc
  have hdone := hx c session hc
  rw [run_bind]
  generalize x.run c session = result at hdone ⊢
  obtain ⟨⟨fault | b, later⟩, after⟩ := result
  · exact hfault fault later hdone
  · exact hf b later after hdone

variable {x : Except Fault β}

theorem lift_bind {f : β → Connected α} (hf : ∀ b, x = .ok b → Ends P (f b) Q)
    (hfault : ∀ fault, x = .error fault → ∀ c, P c → Q (.error fault) c) : Ends P (liftM x >>= f) Q := by
  cases x with
  | error fault => exact fun c _ hc => hfault fault rfl c hc
  | ok b => exact hf b rfl

theorem ok_bind {f : β → Connected α} {b : β} (hx : x = .ok b)
    (hf : Ends P (f b) Q) : Ends P (liftM x >>= f) Q := by
  rw [hx]
  exact hf

variable {R : Except Fault α → Connection → Prop}

theorem tryCatch {x : Connected α}
    {f : Fault → Connected α} (hx : Ends P x R) (hf : ∀ fault, Ends (R (.error fault)) (f fault) Q)
    (hvalue : ∀ a c, R (.ok a) c → Q (.ok a) c) : Ends P (MonadExcept.tryCatch x f) Q := by
  intro c session hc
  have hdone := hx c session hc
  rw [run_tryCatch]
  generalize x.run c session = result at hdone ⊢
  obtain ⟨⟨fault | a, later⟩, after⟩ := result
  · exact hf fault later after hdone
  · exact hvalue a later hdone

theorem mono {P' : Connection → Prop} {x : Connected α}
    (h : Ends P x R) (hP : ∀ c, P' c → P c) (hQ : ∀ outcome c, R outcome c → Q outcome c) : Ends P' x Q :=
  fun c session hc => hQ _ _ (h c session (hP c hc))

end Ends

/-- The program keeps the property of the connection, also if it fails. -/
def Preserves {α : Type} (I : Connection → Prop) (x : Connected α) : Prop :=
  Ends I x fun _ c => I c

namespace Preserves

variable {α β : Type} {I : Connection → Prop}

theorem pure (a : α) : Preserves I (Pure.pure a) :=
  Ends.pure fun _ hc => hc

theorem lift (x : Except Fault α) : Preserves I (liftM x : Connected α) :=
  Ends.lift fun _ hc => hc

theorem access (x : Access α) : Preserves I (liftM x : Connected α) :=
  Ends.access fun _ _ hc => hc

theorem bind {x : Connected β} {f : β → Connected α} (hx : Preserves I x)
    (hf : ∀ b, Preserves I (f b)) : Preserves I (x >>= f) :=
  Ends.bind hx hf fun _ _ hc => hc

theorem connection : Preserves I connection :=
  fun _ _ hc => hc

theorem of_passes {P : Call → Prop} {R : Passage P} {x : Connected α} (h : Passes I R x) : Preserves I x :=
  fun c session hc => (h c session hc).1

end Preserves

end Connected

/-! ### Selecting and reconnecting -/

section

open Connected

variable {I : Connection → Prop}

theorem ends_select {chosen : Value} {Q : Except Fault Value → Connection → Prop}
    (hrefused : ∀ c fault, I c → c.check chosen = .error fault → Q (.error fault) c)
    (htaken : ∀ c outcome, I c → c.check chosen = .ok () →
      Q outcome { c with database := some chosen.plain, name := chosen }) : Ends I (select chosen) Q := by
  intro c session hc
  have hrun : (select chosen).run c session = (liftM (c.check chosen) >>= fun _ => do
      Connected.change fun c => { c with database := some chosen.plain, name := chosen }
      collectionNames chosen.plain : Connected Value).run c session := rfl
  rw [hrun]
  cases hcheck : c.check chosen with
  | error fault => exact hrefused c fault hc hcheck
  | ok => exact htaken c _ hc hcheck

theorem reconnect_eq_ok (c : Connection) (session : Session) : (reconnect.run c session).1.1 = .ok () := by
  rw [reconnect, orElse, run_tryCatch]
  generalize reopen.run c session = result
  obtain ⟨⟨fault | done, later⟩, after⟩ := result <;> rfl

variable (h : ∀ c, I c → c.name.isPresent → I { c with database := some c.name.plain })
include h

theorem keeps_reconnect_any : Keeps I (fun _ => True) reconnect :=
  passes_reconnect (fun _ => trivial) trivial h fun _ => trivial

/-- **Reconnecting takes up the database by its name**, and never fails. -/
theorem ends_reconnect : Ends I reconnect fun outcome c => outcome = .ok () ∧ I c :=
  fun c session hc => ⟨reconnect_eq_ok c session, (keeps_reconnect_any h c session hc).1⟩

/-- **Carrying out a plan keeps what reconnecting keeps**, whatever the plan asks for. -/
theorem preserves_execute (collection plan : Value) : Preserves I (execute collection plan) :=
  .of_passes (.retrying (passes_of_alone fun _ _ => passes_attempt (fun _ _ => trivial)
    (fun _ _ _ _ _ _ => trivial) collection) (keeps_reconnect_any h) (fun _ => trivial) attemptLimit)

end

/-! ### Databases that are shown -/

/-- The databases of the store itself are not among the names. -/
def Hides (names : List Value) : Prop :=
  ∀ own ∈ ["admin", "local", "config"], Value.text own ∉ names

theorem hides_nil : Hides [] :=
  fun _ _ => List.not_mem_nil

theorem hides_userDatabases (names : List Value) : Hides (userDatabases names) := by
  intro own hown hmem
  have hsystem : Value.text own ∈ systemDatabases := List.mem_map_of_mem hown
  have hkept := (List.mem_filter.mp hmem).2
  rw [Bool.not_eq_true', List.contains_eq_mem, decide_eq_false_iff_not] at hkept
  exact hkept hsystem

/-- The names that an outcome shows hide the databases of the store itself. -/
def Shows (faulty : Prop) : Except Fault (List Value) → Prop
  | .ok names => Hides names
  | .error _ => faulty

theorem shows_listDatabases (session : Session) : Shows True (listDatabases.run.run session).1 := by
  rw [listDatabases, Access.run_bind]
  generalize databaseNames.run.run session = replied
  obtain ⟨fault | reply, later⟩ := replied
  · trivial
  · show Shows True ((liftM reply.items >>= fun items => pure (userDatabases items) : Access _).run.run later).1
    cases reply.items with
    | error fault => trivial
    | ok items => exact hides_userDatabases items

/-! ### Runs of operations -/

/-- A connection that uses a database, or none, under the name of that database, and that shows none of the
databases of the store itself. -/
structure Sound (check : Value → Except Fault Unit) (used : Option String) (c : Connection) : Prop where
  database : c.database = used
  name : c.name = .ofText? used
  available : Hides c.available
  check : c.check = check

/-- An operation on a connection. -/
inductive Step where
  | select (name : String)
  | databases
  | collections (name : Value)
  | reconnect
  | execute (collection plan : Value)

namespace Step

def perform : Step → Connected Value
  | select name => Store.select (.text name)
  | databases => do return .list (← availableDatabases)
  | collections name => Store.collections name
  | reconnect => do Store.reconnect; return .null
  | execute collection plan => Store.execute collection plan

/-- The database in use after an operation: a name that is refused changes nothing. -/
def next (check : Value → Except Fault Unit) (used : Option String) : Step → Option String
  | select name => if (check (.text name)).isOk then some name else used
  | _ => used

end Step

variable {check : Value → Except Fault Unit}

section

open Connected

variable {used : Option String}

theorem sound_retaken (c : Connection) (hc : Sound check used c) (hpresent : c.name.isPresent) :
    Sound check used { c with database := some c.name.plain } := by
  refine ⟨?_, hc.name, hc.available, hc.check⟩
  cases used with
  | none =>
    rw [hc.name] at hpresent
    cases hpresent
  | some name => exact congrArg (fun name => some name.plain) hc.name

theorem ends_listDatabases : Ends (Sound check used) (liftM listDatabases : Connected (List Value))
    fun outcome c => Sound check used c ∧ Shows True outcome :=
  .access fun _ session hc => ⟨hc, shows_listDatabases session⟩

theorem ends_availableDatabases :
    Ends (Sound check used) availableDatabases fun outcome c => Sound check used c ∧ Shows False outcome := by
  have hagain : Ends (Sound check used) (orElse (do listDatabases) (return []))
      fun outcome c => Sound check used c ∧ Shows False outcome :=
    ends_listDatabases.tryCatch (fun _ => .pure fun _ hc => ⟨hc.1, hides_nil⟩) fun _ _ hc => hc
  refine Ends.tryCatch (R := fun outcome c => Sound check used c ∧ Shows True outcome)
    (ends_listDatabases.bind (fun names => ?_) fun _ _ hc => hc) (fun fault => ?_) fun _ _ hc => hc
  · -- the names are kept, and given
    refine Ends.bind (R := fun _ c => Sound check used c ∧ Hides names) (.change fun c hc => ?_)
      (fun _ => .pure fun _ hc => hc) fun _ _ hc => ⟨hc.1, trivial⟩
    exact ⟨⟨hc.1.database, hc.1.name, hc.2, hc.1.check⟩, hc.2⟩
  · refine Ends.bind ((ends_reconnect sound_retaken).mono (fun _ hc => hc.1) fun _ _ hc => hc)
      (fun _ => hagain.mono (fun _ hc => hc.2) fun _ _ hc => hc) fun _ _ hc => ?_
    cases hc.1

/-- **One operation**: only a selection changes which database is used. -/
theorem ends_perform (step : Step) : Ends (Sound check used) step.perform fun outcome c =>
    Sound check (step.next check used) c ∧ (step = .databases → ∃ names, outcome = .ok (.list names) ∧ Hides names) := by
  have hreconnect := keeps_reconnect_any (@sound_retaken check used)
  have hother : ∀ {other : Step}, other ≠ .databases → other.next check used = used →
      Preserves (Sound check used) other.perform → Ends (Sound check used) other.perform fun outcome c =>
        Sound check (other.next check used) c ∧
          (other = .databases → ∃ names, outcome = .ok (.list names) ∧ Hides names) := by
    intro other hne hnext h
    rw [hnext]
    exact h.mono (fun _ hc => hc) fun _ _ hc => ⟨hc, fun heq => absurd heq hne⟩
  cases step with
  | select name =>
    refine ends_select (fun c fault hc hcheck => ⟨?_, nofun⟩) fun c _ hc hcheck => ⟨?_, nofun⟩
    · have hnext : Step.next check used (.select name) = used := by
        rw [Step.next, ← hc.check, hcheck]
        rfl
      rw [hnext]
      exact hc
    · have hnext : Step.next check used (.select name) = some name := by
        rw [Step.next, ← hc.check, hcheck]
        rfl
      rw [hnext]
      exact ⟨rfl, rfl, hc.available, hc.check⟩
  | databases =>
    refine ends_availableDatabases.bind (fun names => .pure fun c hc => ⟨hc.1, fun _ => ⟨names, rfl, hc.2⟩⟩) ?_
    exact fun _ _ hc => hc.2.elim
  | collections name => exact hother nofun rfl (.of_passes (passes_collections (fun _ => trivial) hreconnect name))
  | reconnect => exact hother nofun rfl ((Preserves.of_passes hreconnect).bind fun _ => .pure _)
  | execute collection plan => exact hother nofun rfl (preserves_execute sound_retaken collection plan)

end

/-- An operation with its outcome, and the connection that it leaves. -/
structure Moment where
  step : Step
  outcome : Except Fault Value
  connection : Connection

def moments (c : Connection) (session : Session) : List Step → List Moment
  | [] => []
  | step :: steps =>
    let result := step.perform.run c session
    ⟨step, result.1.1, result.1.2⟩ :: moments result.1.2 result.2 steps

def lastSelected (check : Value → Except Fault Unit) (used : Option String) (steps : List Step) :
    Option String :=
  steps.foldl (Step.next check) used

theorem sound_moments {used : Option String} {c : Connection} (hc : Sound check used c) {session : Session}
    {steps : List Step} {before after : List Moment} {m : Moment}
    (hsplit : moments c session steps = before ++ m :: after) :
    Sound check (lastSelected check used ((before ++ [m]).map Moment.step)) m.connection ∧
      (m.step = .databases → ∃ names, m.outcome = .ok (.list names) ∧ Hides names) := by
  induction steps generalizing used c session before with
  | nil => cases before <;> cases hsplit
  | cons step steps ih =>
    have hstep := ends_perform step c session hc
    cases before with
    | nil =>
      obtain rfl := (List.cons.inj hsplit).1
      exact hstep
    | cons first before =>
      obtain ⟨rfl, hrest⟩ := List.cons.inj hsplit
      exact ih hstep.1 hrest

/-- The database that a connection is opened with; an empty name selects none. -/
def opened (name : Option String) : Option String :=
  name.filter (· ≠ "")

theorem ends_establish (name : Option String) : Connected.Ends (Sound check none) (establish (.ofText? name))
    fun outcome c => outcome = .ok () → Sound check (opened name) c := by
  have hfault : ∀ (fault : Fault) (c : Connection), Sound check none c →
      Except.error fault = .ok () → Sound check (opened name) c := fun _ _ _ h => nomatch h
  refine Connected.Ends.bind Connected.Preserves.connection (fun _ => ?_) hfault
  refine Connected.Ends.bind (Connected.Preserves.access _) (fun _ => ?_) hfault
  refine Connected.Ends.bind (Connected.Preserves.access _) (fun _ => ?_) hfault
  refine ends_listDatabases.bind (fun names => ?_) fun fault c hc => hfault fault c hc.1
  refine Connected.Ends.bind (R := fun _ c => Sound check none c)
    (.change fun c hc => ⟨hc.1.database, hc.1.name, hc.2, hc.1.check⟩) (fun _ => ?_) hfault
  cases name with
  | none => exact .pure fun c hc _ => hc
  | some name =>
    by_cases hname : name = ""
    · subst hname
      exact .pure fun c hc _ => hc
    · have hpresent : (Value.ofText? (some name)).isPresent := by
        simpa [Value.ofText?, Value.isPresent] using hname
      have hopened : opened (some name) = some name := by simp [opened, hname]
      rw [if_pos hpresent, hopened]
      refine Connected.Ends.bind (R := fun outcome c => outcome.isOk → Sound check (some name) c)
        (ends_select (fun _ _ _ _ h => by cases h) fun c _ hc _ _ => ⟨rfl, rfl, hc.available, hc.check⟩)
        (fun _ => .pure fun _ hc _ => hc rfl) fun _ _ _ h => by cases h

theorem sound_openConnection {address : Value} {name : Option String} {session later : Session}
    {c : Connection} (hopen : (openConnection check address (.ofText? name)).run.run session = (.ok c, later)) :
    Sound check (opened name) c := by
  have hsound : Sound check none { Connection.fresh address with check := check } := ⟨rfl, rfl, hides_nil, rfl⟩
  have hends := ends_establish name _ session hsound
  change openConnection check address (.ofText? name) session = _ at hopen
  rw [openConnection] at hopen
  generalize (establish (.ofText? name)).run { Connection.fresh address with check := check } session = result
    at hends hopen
  obtain ⟨⟨fault | ⟨⟩, established⟩, after⟩ := result
  · cases hopen
  · cases hopen
    exact hends rfl

/-- **The database in use is the one that was selected last by a name that is not refused**, and none of the
store's own is ever shown. -/
theorem uses_moments (check : Value → Except Fault Unit) (address : Value) (name : Option String)
    (session later : Session) (c : Connection)
    (hopen : (openConnection check address (.ofText? name)).run.run session = (.ok c, later))
    (steps : List Step) :
    Sound check (opened name) c ∧ ∀ before m after, moments c later steps = before ++ m :: after →
      Sound check (lastSelected check (opened name) ((before ++ [m]).map Moment.step)) m.connection ∧
        (m.step = .databases → ∃ names, m.outcome = .ok (.list names) ∧ Hides names) :=
  have hsound := sound_openConnection hopen
  ⟨hsound, fun _ _ _ => sound_moments hsound⟩

/-- A server that lists databases, but no collections. -/
def brokenServer : Server
  | _, .databaseNames => some (.value (.texts ["admin", "shop"]))
  | _, .collectionNames _ => some (.fault (.reported .store "not connected"))
  | _, _ => none

/-- Refuses the empty name. -/
def nonemptyCheck (name : Value) : Except Fault Unit :=
  if name = .text "" then .error (.reported .value "empty") else .ok ()

/-- A selection whose listing fails, one that is refused, and a plan that fails after each reconnection. -/
def brokenSteps : List Step :=
  [.select "shop", .select "", .execute (.text "t") (.doc [("operation", .text "find")]), .databases]

/-- The selection stays through all faults, and one of the two databases is shown. -/
theorem uses_moments_broken : ∃ c later first second third fourth,
    (openConnection nonemptyCheck .null (.ofText? none)).run.run (.start brokenServer) = (.ok c, later) ∧
    moments c later brokenSteps = [first, second, third] ++ fourth :: [] ∧
    first.outcome = .error (.reported .store "not connected") ∧
    second.outcome = .error (.reported .value "empty") ∧
    Sound nonemptyCheck (some "shop") fourth.connection ∧
    ∃ names, fourth.outcome = .ok (.list names) ∧ Hides names := by
  have hopen : (openConnection nonemptyCheck .null (.ofText? none)).run.run (.start brokenServer) =
      (.ok ⟨.null, none, .null, [.text "shop"], nonemptyCheck⟩,
        ⟨brokenServer, [.connect .null, .ping, .databaseNames], 0⟩) := rfl
  obtain ⟨-, hmoments⟩ := uses_moments nonemptyCheck .null none _ _ _ hopen brokenSteps
  obtain ⟨hsound, hshown⟩ := hmoments [_, _, _] _ [] rfl
  exact ⟨_, _, _, _, _, _, hopen, rfl, rfl, rfl, hsound, hshown rfl⟩

end SqlGateway.Store
