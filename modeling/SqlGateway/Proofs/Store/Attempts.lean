import SqlGateway.Proofs.Store.Selection
import SqlGateway.Proofs.Text.Search

/-!
# Repeated attempts at a plan

A run of attempts is described by the moments at which they start (`Course`); the last one decides how it
ends.  **A plan is attempted up to three times, the first value ends the run, and there is one reconnection
for each break** (`course_execute`).
-/

namespace SqlGateway.Store

open Connected Text

variable {fault : Fault}

/-! ### Opening connections -/

def Session.connects (s : Session) : Nat :=
  s.calls.countP (·.kind == .connect)

/-- The server stays the same, and no connection is opened. -/
def Passage.still : Passage fun call => call.kind ≠ .connect where
  rel s t := t.server = s.server ∧ t.connects = s.connects
  refl _ := ⟨rfl, rfl⟩
  trans h h' := ⟨h'.1.trans h.1, h'.2.trans h.2⟩
  call h s := ⟨rfl, by simp [Session.connects, List.countP_append, h]⟩
  issue _ := ⟨rfl, rfl⟩

theorem still_attempt (collection plan : Value) : Passes (fun _ => True) .still (attempt collection plan) := by
  have hasks : ∀ call, Asks call → call.kind ≠ .connect := by
    rintro call h hkind
    rw [Asks, hkind] at h
    revert h
    decide
  refine passes_of_alone fun c _ => passes_attempt hasks (fun database _ p _ call hneeds hkind => ?_) collection
  have hpermission := hneeds.1
  rw [hkind] at hpermission
  cases hpermission

theorem tellsOfBreak_iff : tellsOfBreak fault ↔
    "MongoClient after close" <:+: fault.message.toList ∨
      "not connected" <:+: lower fault.message.toList := by
  have hpiece : ∀ needle s : List Char, hasPiece needle s ↔ needle <:+: s := by
    intro needle s
    rw [hasPiece, isSome_cutAt?_iff]
    exact exists₂_congr fun _ _ => eq_comm
  rw [tellsOfBreak, Bool.or_eq_true, hpiece, hpiece]

/-- The outcome of a call whose reply does not matter. -/
def told : Option Reply → Except Fault Unit
  | some (.fault fault) => .error fault
  | _ => .ok ()

theorem run_tell (call : Call) (c : Connection) (s : Session) :
    (liftM (Access.tell call) : Connected Unit).run c s =
      ((told (s.server s.calls call), c), { s with calls := s.calls ++ [call] }) := by
  have htell : (Access.tell call).run.run s =
      (told (s.server s.calls call), { s with calls := s.calls ++ [call] }) := by
    rw [Access.tell, Access.run_bind, Access.run_ask?]
    rcases s.server s.calls call with _ | _ | _ <;> rfl
  show ((((Access.tell call).run.run s).1, c), ((Access.tell call).run.run s).2) = _
  rw [htell]

theorem connects_reconnect (c : Connection) (s : Session) : (reconnect.run c s).2.server = s.server ∧
    (reconnect.run c s).2.connects = s.connects + 1 := by
  have hconnect : ({ s with calls := s.calls ++ [.connect c.address] } : Session).connects = s.connects + 1 := by
    simp [Session.connects, List.countP_append, Call.kind]
  have hretake := passes_retake (I := fun _ => True) (R := .still) (by simp [Call.kind]) (by simp [Call.kind])
    (fun _ _ _ => trivial) c { s with calls := s.calls ++ [.connect c.address] } trivial
  have hsame : (reconnect.run c s).2 = (reopen.run c s).2 := by
    rw [reconnect, orElse, run_tryCatch]
    generalize reopen.run c s = result
    obtain ⟨⟨fault | done, later⟩, after⟩ := result <;> rfl
  have hopen : Passage.still.rel { s with calls := s.calls ++ [.connect c.address] } (reopen.run c s).2 := by
    show Passage.still.rel _ (((liftM (connect c.address) : Connected Unit) >>= fun _ => _).run c s).2
    rw [run_bind, connect, run_tell]
    cases told (s.server s.calls (.connect c.address)) with
    | error fault => exact Passage.still.refl _
    | ok done => exact hretake.2
  rw [hsame, ← hconnect]
  exact hopen

/-! ### The course of the attempts -/

/-- A moment at which a program can be started. -/
abbrev Start := Connection × Session

section

variable {α : Type}

def outcomeAt (x : Connected α) (start : Start) : Except Fault α :=
  (x.run start.1 start.2).1.1

def endAt (x : Connected α) (start : Start) : Start :=
  ((x.run start.1 start.2).1.2, (x.run start.1 start.2).2)

/-- What is done between a fault and the next attempt. -/
def recovery (fault : Fault) : Connected Unit :=
  if tellsOfBreak fault then do reconnect; pause (.int 1) else do pause halfSecond

/-- Attempts at a program: those that start at the moments of the list fail, each next one starts where the
recovery from the fault before it ends, and the last one starts at the other moment. -/
inductive Tries (x : Connected α) : Start → List Start → Start → Prop
  | last (start : Start) : Tries x start [] start
  | next {start last : Start} {starts : List Start} {fault : Fault} (hfault : outcomeAt x start = .error fault)
      (later : Tries x (endAt (recovery fault) (endAt x start)) starts last) :
      Tries x start (start :: starts) last

/-- Whether an attempt fails with a fault that tells of a broken connection. -/
def breaksAt (x : Connected α) (start : Start) : Bool :=
  match outcomeAt x start with
  | .ok _ => false
  | .error fault => tellsOfBreak fault

/-- A run of attempts from its first start on, which the last attempt decides. -/
structure Course (x : Connected α) (limit : Nat) (first : Start) (starts : List Start) (last : Start)
    (outcome : Except Fault α) (final : Start) : Prop where
  tries : Tries x first starts last
  bounded : starts.length < limit
  /-- A value ends the run. -/
  value : ∀ a, outcomeAt x last = .ok a → outcome = .ok a ∧ final = endAt x last
  /-- A fault ends the run at the limit only. -/
  fault : ∀ fault, outcomeAt x last = .error fault → starts.length + 1 = limit ∧ if tellsOfBreak fault then
      outcome = .error .attemptsExhausted ∧ final = endAt (recovery fault) (endAt x last)
    else outcome = .error fault ∧ final = endAt x last
  /-- A connection is opened for each break, and for nothing else. -/
  connects : final.2.connects = first.2.connects + (starts ++ [last]).countP (breaksAt x)

/-- The attempts at a program, up to the limit, run as a course says. -/
def Retried (x : Connected α) (limit : Nat) (first : Start) : Prop :=
  ∃ starts last, Course x limit first starts last (outcomeAt (retrying x limit) first)
    (endAt (retrying x limit) first)

/-- Waiting never fails. -/
def Patient (server : Server) : Prop :=
  ∀ calls seconds fault, server calls (.pause seconds) ≠ some (.fault fault)

theorem run_pause (seconds : Value) (c : Connection) {s : Session} (h : Patient s.server) :
    (liftM (pause seconds) : Connected Unit).run c s =
      ((.ok (), c), { s with calls := s.calls ++ [.pause seconds] }) := by
  have htold : told (s.server s.calls (.pause seconds)) = .ok () := by
    generalize hreply : s.server s.calls (.pause seconds) = reply
    rcases reply with _ | _ | fault
    · rfl
    · rfl
    · exact absurd hreply (h _ _ fault)
  rw [pause, run_tell, htold]

theorem connects_recovery (fault : Fault) {start : Start} (h : Patient start.2.server) :
    outcomeAt (recovery fault) start = .ok () ∧ (endAt (recovery fault) start).2.server = start.2.server ∧
      (endAt (recovery fault) start).2.connects = start.2.connects + if tellsOfBreak fault then 1 else 0 := by
  have hstill : ∀ seconds (s : Session),
      ({ s with calls := s.calls ++ [.pause seconds] } : Session).connects = s.connects := fun seconds s =>
    (@Passage.call _ .still (.pause seconds) (by simp [Call.kind]) s).2
  obtain ⟨c, s⟩ := start
  rw [recovery, outcomeAt, endAt]
  split
  · obtain ⟨hserver, hconnects⟩ := connects_reconnect c s
    have hrun : (do reconnect; pause (.int 1) : Connected Unit).run c s = ((.ok (), (reconnect.run c s).1.2),
        { (reconnect.run c s).2 with calls := (reconnect.run c s).2.calls ++ [.pause (.int 1)] }) := by
      rw [run_bind, reconnect_eq_ok]
      exact run_pause _ _ (hserver ▸ h)
    rw [hrun]
    exact ⟨rfl, hserver, (hstill _ _).trans hconnects⟩
  · rw [run_pause halfSecond c h]
    exact ⟨rfl, rfl, hstill _ _⟩

/-! ### Runs -/

theorem run_eq (x : Connected α) (start : Start) :
    x.run start.1 start.2 = ((outcomeAt x start, (endAt x start).1), (endAt x start).2) :=
  rfl

variable {x : Connected α} {start : Start}

theorem run_outcome (x : Connected α) (start : Start) : (outcome x).run start.1 start.2 =
    ((.ok (outcomeAt x start), (endAt x start).1), (endAt x start).2) := by
  rw [outcome, ← bind_pure_comp, run_tryCatch, run_bind, run_eq x start]
  cases outcomeAt x start <;> rfl

theorem run_retrying_of_ok {a : α} (h : outcomeAt x start = .ok a) (left : Nat) :
    (retrying x (left + 1)).run start.1 start.2 = ((.ok a, (endAt x start).1), (endAt x start).2) := by
  rw [retrying, run_bind, run_outcome, h]
  rfl

/-- After a fault the rest of the attempts follows its recovery; another fault than a break is the last one at
the limit. -/
theorem run_retrying_of_error (h : outcomeAt x start = .error fault) (left : Nat) :
    (retrying x (left + 1)).run start.1 start.2 =
      (if tellsOfBreak fault ∨ left ≠ 0 then recovery fault >>= fun _ => retrying x left
        else throw fault : Connected α).run (endAt x start).1 (endAt x start).2 := by
  rw [retrying, run_bind, run_outcome, h]
  show (if tellsOfBreak fault then _ else _ : Connected α).run _ _ = _
  by_cases hbreak : tellsOfBreak fault
  · rw [if_pos hbreak, if_pos (.inl hbreak), recovery, if_pos hbreak, bind_assoc]
  · by_cases hleft : left = 0
    · rw [if_neg hbreak, if_pos hleft, if_neg (by simp [hbreak, hleft])]
    · rw [if_neg hbreak, if_neg hleft, if_pos (.inr hleft), recovery, if_neg hbreak]

theorem run_recovery_bind (h : Patient start.2.server) (y : Connected α) :
    (recovery fault >>= fun _ => y).run start.1 start.2 =
      y.run (endAt (recovery fault) start).1 (endAt (recovery fault) start).2 := by
  rw [run_bind, run_eq (recovery fault) start, (connects_recovery fault h).1]
  rfl

variable (hx : Passes (fun _ => True) .still x)
include hx

theorem still_endAt (start : Start) : (endAt x start).2.server = start.2.server ∧
    (endAt x start).2.connects = start.2.connects :=
  (hx start.1 start.2 trivial).2

theorem retried_of_ok {a : α} (h : outcomeAt x start = .ok a) (left : Nat) : Retried x (left + 1) start := by
  have hbreak : breaksAt x start = false := by rw [breaksAt, h]
  rw [Retried, outcomeAt, endAt, run_retrying_of_ok h]
  refine ⟨[], start, .last start, Nat.succ_pos left, fun b hb => ⟨h.symm.trans hb, rfl⟩, fun fault hfault => ?_, ?_⟩
  · rw [h] at hfault
    cases hfault
  · simpa [hbreak] using (still_endAt hx start).2

variable (hpatient : Patient start.2.server)
include hpatient

theorem retried_of_last (h : outcomeAt x start = .error fault) : Retried x 1 start := by
  obtain ⟨hserver, hconnects⟩ := still_endAt hx start
  have hbreak : breaksAt x start = tellsOfBreak fault := by rw [breaksAt, h]
  rw [Retried, outcomeAt, endAt, run_retrying_of_error h]
  refine ⟨[], start, .last start, Nat.one_pos, fun a ha => ?_, fun other hother => ⟨rfl, ?_⟩, ?_⟩
  · rw [h] at ha
    cases ha
  · obtain rfl := Except.error.inj (h.symm.trans hother)
    split
    case isTrue hfatal =>
      rw [if_pos (.inl hfatal), run_recovery_bind (hserver ▸ hpatient)]
      exact ⟨rfl, rfl⟩
    case isFalse hfatal =>
      rw [if_neg (by simp [hfatal])]
      exact ⟨rfl, rfl⟩
  · by_cases hfatal : tellsOfBreak fault
    · have hend := (connects_recovery fault (hserver ▸ hpatient : Patient (endAt x start).2.server)).2.2
      rw [if_pos (.inl hfatal), run_recovery_bind (hserver ▸ hpatient)]
      refine hend.trans ?_
      simp [hbreak, hfatal, hconnects]
    · rw [if_neg (by simp [hfatal])]
      refine hconnects.trans ?_
      simp [hbreak, hfatal]

/-- **An attempt that fails is put before the others**, while some are left. -/
theorem retried_of_next (h : outcomeAt x start = .error fault) {left : Nat}
    (later : Retried x (left + 1) (endAt (recovery fault) (endAt x start))) : Retried x (left + 2) start := by
  obtain ⟨starts, last, later⟩ := later
  obtain ⟨hserver, hconnects⟩ := still_endAt hx start
  have hbreak : breaksAt x start = tellsOfBreak fault := by rw [breaksAt, h]
  rw [Retried, outcomeAt, endAt, run_retrying_of_error h, if_pos (.inr (Nat.succ_ne_zero left)),
    run_recovery_bind (hserver ▸ hpatient)]
  refine ⟨start :: starts, last, .next h later.tries, Nat.succ_lt_succ later.bounded, later.value,
    fun other hother => ?_, ?_⟩
  · obtain ⟨hlength, hend⟩ := later.fault other hother
    exact ⟨congrArg (· + 1) hlength, hend⟩
  · have hend := later.connects
    rw [(connects_recovery fault (hserver ▸ hpatient : Patient (endAt x start).2.server)).2.2, hconnects] at hend
    rw [List.cons_append, List.countP_cons, hbreak]
    refine hend.trans ?_
    omega

/-- **A run of attempts is as the last of them decides.** -/
theorem retried (left : Nat) : Retried x (left + 1) start := by
  induction left generalizing start with
  | zero =>
    cases houtcome : outcomeAt x start with
    | ok a => exact retried_of_ok hx houtcome 0
    | error fault => exact retried_of_last hx hpatient houtcome
  | succ left ih =>
    cases houtcome : outcomeAt x start with
    | ok a => exact retried_of_ok hx houtcome (left + 1)
    | error fault =>
      have hserver := (still_endAt hx start).1
      refine retried_of_next hx hpatient houtcome (ih ?_)
      rw [(connects_recovery fault (hserver ▸ hpatient)).2.1, hserver]
      exact hpatient

end

/-- **A plan is attempted up to three times**, and a connection is opened for each break and for nothing else.
-/
theorem course_execute (collection plan : Value) (c : Connection) (session : Session)
    (hpatient : Patient session.server) :
    (∃ starts last, Course (attempt collection plan) 3 (c, session) starts last
      (outcomeAt (execute collection plan) (c, session)) (endAt (execute collection plan) (c, session))) ∧
    Fault.attemptsExhausted.message = "Se excedió el número máximo de intentos de consulta" ∧
    ∀ fault, tellsOfBreak fault = true ↔ "MongoClient after close".toList <:+: fault.message.toList ∨
      "not connected".toList <:+: lower fault.message.toList :=
  ⟨retried (still_attempt collection plan) hpatient 2, rfl, fun _ => tellsOfBreak_iff⟩

/-- Three breaks exhaust the attempts, and the connection is opened three times. -/
theorem course_execute_broken : Patient brokenServer ∧ ∃ starts last outcome final,
    Course (attempt (.text "t") (.doc [("operation", .text "find")])) 3
      (⟨.null, some "shop", .text "shop", [], fun _ => .ok ()⟩, .start brokenServer) starts last outcome final ∧
    outcome.toOption = none ∧ starts.length = 2 ∧ final.2.connects = 3 := by
  have hpatient : Patient brokenServer := fun _ _ _ h => by cases h
  obtain ⟨⟨starts, last, hcourse⟩, -⟩ := course_execute (.text "t") (.doc [("operation", .text "find")])
    ⟨.null, some "shop", .text "shop", [], fun _ => .ok ()⟩ (.start brokenServer) hpatient
  have hfails : (outcomeAt (execute (.text "t") (.doc [("operation", .text "find")]))
      (⟨.null, some "shop", .text "shop", [], fun _ => .ok ()⟩, .start brokenServer)).toOption = none := by
    decide +kernel
  refine ⟨hpatient, starts, last, _, _, hcourse, hfails, ?_, by decide +kernel⟩
  cases hlast : outcomeAt (attempt (.text "t") (.doc [("operation", .text "find")])) last with
  | ok v =>
    rw [(hcourse.value v hlast).1] at hfails
    cases hfails
  | error fault => exact Nat.succ.inj (hcourse.fault fault hlast).1

end SqlGateway.Store
