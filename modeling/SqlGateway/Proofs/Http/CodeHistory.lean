import Mathlib.Data.List.Induction
import Mathlib.Data.List.Nodup
import SqlGateway.Proofs.Http.Slot

/-!
# The life of a code

The slot of a mail address can be read off the exchanges before (`slotAfter`), and **every answer is the one
that the slot gives** (`faithful_history`).  `CodeRun.code_lifecycle` sums up what follows.
-/

namespace SqlGateway.Http

open Account Store SqlGateway.Filter List Document

variable {x issue : Exchange} {code : String} {before after between : List Exchange} {s : Slot}
  {slots : String → Option Slot} {email : String} {slot : Option Slot} {now : Timestamp}

/-! ### Slots along exchanges -/

namespace Exchange

def step? (x : Exchange) : Option Step :=
  x.request.step?

def issued (x : Exchange) : String :=
  match x.answer with
  | .ok ⟨_, .doc body, _⟩ =>
    match get body "temp_code" with
    | .text code => code
    | _ => ""
  | _ => ""

/-- Whether an exchange is about a mail address. -/
def isAbout (email : String) (x : Exchange) : Bool :=
  x.step?.map Step.email == some email

/-- Whether an exchange is a verification for a mail address that was rejected. -/
def isRejection (email : String) (x : Exchange) : Bool :=
  x.isAbout email && decide (x.answer = .ok rejected)

/-- The slot of a mail address after an exchange. -/
def move (email : String) (slot : Option Slot) (x : Exchange) : Option Slot :=
  match x.step? with
  | some (.forgot e) => if e = email then some (.fresh x.issued x.request.instant) else slot
  | some (.verify e code) => if e = email then Slot.next slot x.request.instant code else slot
  | none => slot

theorem move_forgot {e : String} (h : x.step? = some (.forgot e)) (email : String) (slot : Option Slot) :
    move email slot x = if email = e then some (.fresh x.issued x.request.instant) else slot := by
  rw [move, h]
  simp only [eq_comm]

theorem move_verify {e : String} (h : x.step? = some (.verify e code)) (email : String) (slot : Option Slot) :
    move email slot x = if email = e then Slot.next slot x.request.instant code else slot := by
  rw [move, h]
  simp only [eq_comm]

theorem move_cases (email : String) (slot : Option Slot) (x : Exchange) :
    (x.step? = some (.forgot email) ∧ x.isAbout email ∧
      move email slot x = some (.fresh x.issued x.request.instant)) ∨
    (∃ code, x.step? = some (.verify email code) ∧ x.isAbout email ∧
      move email slot x = Slot.next slot x.request.instant code) ∨
    (x.step?.map Step.email ≠ some email ∧ x.isAbout email = false ∧ move email slot x = slot) := by
  rw [isAbout]
  cases hstep : x.step? with
  | none => exact .inr (.inr ⟨by simp, rfl, by rw [move, hstep]⟩)
  | some step =>
    by_cases he : step.email = email
    · subst he
      have habout : (some step.email == some step.email) := beq_self_eq_true _
      cases step with
      | forgot e => exact .inl ⟨rfl, habout, by rw [move_forgot hstep]; exact if_pos rfl⟩
      | verify e code => exact .inr (.inl ⟨code, rfl, habout, by rw [move_verify hstep]; exact if_pos rfl⟩)
    · have hne : some step.email ≠ some email := fun h => he (Option.some.inj h)
      refine .inr (.inr ⟨hne, beq_eq_false_iff_ne.mpr hne, ?_⟩)
      cases step with
      | forgot e => rw [move_forgot hstep]; exact if_neg (Ne.symm he)
      | verify e code => rw [move_verify hstep]; exact if_neg (Ne.symm he)

/-- The answer is the one that the slots give. -/
structure Follows (slots : String → Option Slot) (x : Exchange) : Prop where
  forgot : ∀ email, x.step? = some (.forgot email) → x.answer = .ok (codeSent (.text x.issued))
  verify : ∀ email code, x.step? = some (.verify email code) →
    x.answer = .ok (Slot.outcome (slots email) x.request.instant code)

end Exchange

def slotAfter (email : String) (slot : Option Slot) (exchanges : List Exchange) : Option Slot :=
  exchanges.foldl (Exchange.move email) slot

/-- All answers are the ones that the slots give. -/
def Faithful (slots : String → Option Slot) : List Exchange → Prop
  | [] => True
  | x :: exchanges => x.Follows slots ∧ Faithful (fun email => x.move email (slots email)) exchanges

theorem slotAfter_append (slot : Option Slot) (before after : List Exchange) :
    slotAfter email slot (before ++ after) = slotAfter email (slotAfter email slot before) after :=
  foldl_append

theorem faithful_append : Faithful slots (before ++ after) ↔
    Faithful slots before ∧ Faithful (fun email => slotAfter email (slots email) before) after := by
  induction before generalizing slots with
  | nil => exact ⟨fun h => ⟨trivial, h⟩, fun h => h.2⟩
  | cons x before ih =>
    rw [cons_append, Faithful, Faithful, ih, and_assoc]
    rfl

/-! ### Histories -/

theorem map_request_history (a : Accounts) (c : Connection) (session : Session) (requests : List Request) :
    (history a c session requests).map Exchange.request = requests := by
  induction requests generalizing c session with
  | nil => rfl
  | cons r requests ih => exact congrArg (r :: ·) (ih _ _)

theorem issued_codeSent (r : Request) (code : String) (made : List Call) :
    Exchange.issued ⟨r, .ok (codeSent (.text code)), made⟩ = code := rfl

section

variable {S : Semantics} {a : Accounts} {key : List Call → ObjectId} {session : Session}
  {records : List Record} {entries : List Entry}

/-- **One exchange** follows the slots and leaves the records of the moved slots. -/
theorem exists_exchange (hplain : Plain S a.resets key session records)
    (hdescribes : Describes entries records) (hdraws : Draws session) {r : Request} (hstep : r.step? ≠ none)
    (huser : ∀ email, r.step? = some (.forgot email) → HasUser a session email) (c : Connection) :
    ∃ answer made entries', Connected.Runs (respond a r) c session (.ok answer) made ∧
      Describes entries' (replay S a.resets key records made) ∧
      Exchange.Follows (slotOf entries) ⟨r, .ok answer, made⟩ ∧
      slotOf entries' = fun email => Exchange.move email (slotOf entries email) ⟨r, .ok answer, made⟩ := by
  obtain ⟨step, hr⟩ := Option.ne_none_iff_exists'.mp hstep
  cases step with
  | forgot email =>
    obtain ⟨code, made, entries', hrun, hentries, hslots⟩ :=
      moves_forgot hplain hdescribes hdraws (huser email hr) hr c
    refine ⟨_, made, entries', hrun, hentries, ⟨fun e he => rfl, fun e code he => ?_⟩, funext fun e => ?_⟩
    · cases hr.symm.trans he
    · rw [hslots, Exchange.move_forgot (x := ⟨r, _, _⟩) hr, issued_codeSent]
  | verify email code =>
    obtain ⟨made, entries', hrun, hentries, hslots⟩ := moves_verify hplain hdescribes hr c
    refine ⟨_, made, entries', hrun, hentries, ⟨fun e he => ?_, fun e code' he => ?_⟩, funext fun e => ?_⟩
    · cases hr.symm.trans he
    · cases hr.symm.trans he
      rfl
    · rw [hslots, Exchange.move_verify (x := ⟨r, _, _⟩) hr]
      by_cases h : e = email
      · rw [if_pos h, if_pos h, h]
      · rw [if_neg h, if_neg h]

/-- **Every answer is the one that the slots give**, and the records stay those of the slots. -/
theorem faithful_history {requests : List Request} (hplain : Plain S a.resets key session records)
    (hdescribes : Describes entries records) (hdraws : Draws session) (hsteps : ∀ r ∈ requests, r.step? ≠ none)
    (husers : ∀ r ∈ requests, ∀ email, r.step? = some (.forgot email) → HasUser a session email)
    (c : Connection) : Faithful (slotOf entries) (history a c session requests) ∧
      ∀ before after, history a c session requests = before ++ after → ∃ entries',
        Describes entries' (replay S a.resets key records (before.flatMap Exchange.calls)) := by
  induction requests generalizing key session records entries with
  | nil =>
    refine ⟨trivial, fun before after h => ?_⟩
    obtain ⟨rfl, -⟩ := append_eq_nil_iff.mp h.symm
    exact ⟨entries, hdescribes⟩
  | cons r requests ih =>
    obtain ⟨hr, hrequests⟩ := forall_mem_cons.mp hsteps
    obtain ⟨hruser, hrequestsUser⟩ := forall_mem_cons.mp husers
    obtain ⟨answer, made, entries', hrun, hentries, hfollows, hslots⟩ :=
      exists_exchange hplain hdescribes hdraws hr hruser c
    obtain ⟨hfaithful, hrecords⟩ := ih (hplain.after made) hentries (hdraws.after made) hrequests
      fun r hr email he => (hrequestsUser r hr email he).after made
    rw [history_cons_of_runs hrun]
    refine ⟨⟨hfollows, hslots ▸ hfaithful⟩, fun before after h => ?_⟩
    cases before with
    | nil => exact ⟨entries, hdescribes⟩
    | cons x before =>
      obtain ⟨rfl, hrest⟩ := cons.inj h
      rw [flatMap_cons, replay_append]
      exact hrecords before after hrest

end

/-! ### What the slots allow -/

theorem Describes.countP_email_le {entries : List Entry} {records : List Record}
    (h : Describes entries records) (email : String) :
    records.countP (fun record => get? record.document "email" == some (.text email)) ≤ 1 := by
  have hcount : records.countP (fun record => get? record.document "email" == some (.text email)) =
      (entries.map Entry.email).count email := by
    rw [h.records, countP_map, count, countP_map]
    refine countP_congr fun x _ => ?_
    have hget : get? x.record.document "email" = some (.text x.email) := rfl
    simp [hget]
  rw [hcount]
  exact nodup_iff_count_le_one.mp h.emails email

theorem Slot.verify_cases (s : Slot) (now : Timestamp) (code : String) :
    (s.used ∧ outcome (some s) now code = rejected ∧ next (some s) now code = some s) ∨
    (s.used = false ∧ 3 ≤ s.failures ∧ outcome (some s) now code = blocked ∧ next (some s) now code = some s) ∨
    (s.used = false ∧ s.failures < 3 ∧ s.fits now code ∧ outcome (some s) now code = verified ∧
      next (some s) now code = some s.spend) ∨
    (s.used = false ∧ s.failures < 3 ∧ ¬ s.fits now code ∧ outcome (some s) now code = rejected ∧
      next (some s) now code = some s.fail) := by
  rw [outcome, next, Option.map_some]
  cases hused : s.used with
  | true => exact .inl ⟨rfl, if_pos rfl, congrArg some (if_pos rfl)⟩
  | false =>
    refine .inr ?_
    by_cases hfailures : 3 ≤ s.failures
    · exact .inl ⟨rfl, hfailures, if_pos hfailures, congrArg some (if_pos hfailures)⟩
    · have hlt : s.failures < 3 := by omega
      rw [if_neg hfailures, if_neg hfailures]
      by_cases hcode : s.fits now code
      · exact .inr (.inl ⟨rfl, hlt, hcode, if_pos hcode, congrArg some (if_pos hcode)⟩)
      · exact .inr (.inr ⟨rfl, hlt, hcode, if_neg hcode, congrArg some (if_neg hcode)⟩)

theorem Slot.of_outcome_eq_verified (h : outcome slot now code = verified) :
    ∃ s, slot = some s ∧ s.used = false ∧ s.code = code ∧ now.isBefore s.expiry := by
  cases slot with
  | none => exact absurd h rejected_ne_verified
  | some s =>
    rcases verify_cases s now code with ⟨-, hanswer, -⟩ | ⟨-, -, hanswer, -⟩ | ⟨hused, -, hcode, -, -⟩ |
      ⟨-, -, -, hanswer, -⟩
    · exact absurd (hanswer.symm.trans h) rejected_ne_verified
    · exact absurd (hanswer.symm.trans h) blocked_ne_verified
    · rw [fits, Bool.and_eq_true, beq_iff_eq] at hcode
      exact ⟨s, rfl, hused, hcode⟩
    · exact absurd (hanswer.symm.trans h) rejected_ne_verified

/-- The exchanges end with an open code: `between` are those after it was issued. -/
structure Issued (email : String) (s : Slot) (issue : Exchange) (between : List Exchange) : Prop where
  step : issue.step? = some (.forgot email)
  code : issue.issued = s.code
  since : issue.request.instant = s.since
  noOther : ∀ y ∈ between, y.step? ≠ some (.forgot email)
  unused : s.used = false → ∀ y ∈ between, ∀ code, y.step? = some (.verify email code) → y.answer ≠ .ok verified

theorem Issued.extend {s' : Slot}
    (h : Issued email s issue between) (hx : x.step? ≠ some (.forgot email)) (hcode : s'.code = s.code)
    (hsince : s'.since = s.since) (hunused : s'.used = false → s.used = false ∧
      ∀ code, x.step? = some (.verify email code) → x.answer ≠ .ok verified) :
    Issued email s' issue (between ++ [x]) where
  step := h.step
  code := h.code.trans hcode.symm
  since := h.since.trans hsince.symm
  noOther := forall_mem_append.mpr ⟨h.noOther, forall_mem_singleton.mpr hx⟩
  unused hs := forall_mem_append.mpr ⟨h.unused (hunused hs).1, forall_mem_singleton.mpr (hunused hs).2⟩

/-- A verification does not change the code of a slot, and leaves it open only if it is not accepted. -/
theorem Slot.exists_of_next (h : next slot now code = some s) : ∃ s₀, slot = some s₀ ∧ s.code = s₀.code ∧
      s.since = s₀.since ∧ (s.used = false → s₀.used = false ∧ outcome slot now code ≠ verified) := by
  cases slot with
  | none => cases h
  | some s₀ =>
    refine ⟨s₀, rfl, ?_⟩
    rcases verify_cases s₀ now code with ⟨-, hanswer, hnext⟩ | ⟨-, -, hanswer, hnext⟩ |
      ⟨-, -, -, -, hnext⟩ | ⟨hused, -, -, hanswer, hnext⟩ <;> obtain rfl := Option.some.inj (hnext.symm.trans h)
    · exact ⟨rfl, rfl, fun hs => ⟨hs, hanswer ▸ rejected_ne_verified⟩⟩
    · exact ⟨rfl, rfl, fun hs => ⟨hs, hanswer ▸ blocked_ne_verified⟩⟩
    · exact ⟨rfl, rfl, fun hs => by cases hs⟩
    · exact ⟨rfl, rfl, fun _ => ⟨hused, hanswer ▸ rejected_ne_verified⟩⟩

theorem exists_issued (hfaithful : Faithful (fun _ => none) before)
    (hs : slotAfter email none before = some s) :
    ∃ earlier issue between, before = earlier ++ issue :: between ∧ Issued email s issue between := by
  -- the last exchange either issues the code or leaves that of the exchanges before it
  induction before using reverseRecOn generalizing s with
  | nil => cases hs
  | append_singleton before x ih =>
    obtain ⟨hbefore, hx, -⟩ := faithful_append.mp hfaithful
    rw [slotAfter_append] at hs
    have hextend : ∀ s₀, slotAfter email none before = some s₀ → x.step? ≠ some (.forgot email) →
        s.code = s₀.code → s.since = s₀.since → (s.used = false → s₀.used = false ∧
          ∀ code, x.step? = some (.verify email code) → x.answer ≠ .ok verified) →
        ∃ earlier issue between, before ++ [x] = earlier ++ issue :: between ∧
          Issued email s issue between := by
      intro s₀ hs₀ hforgot hcode hsince hunused
      obtain ⟨earlier, issue, between, rfl, hissued⟩ := ih hbefore hs₀
      exact ⟨earlier, issue, between ++ [x], by simp, hissued.extend hforgot hcode hsince hunused⟩
    rcases x.move_cases email (slotAfter email none before) with ⟨hforgot, -, hmove⟩ |
      ⟨code, hverify, -, hmove⟩ | ⟨hother, -, hmove⟩
    · obtain rfl := Option.some.inj (hmove.symm.trans hs)
      exact ⟨before, x, [], rfl, hforgot, rfl, rfl, by simp, fun _ y hy => by cases hy⟩
    · obtain ⟨s₀, hs₀, hcode, hsince, hunused⟩ := Slot.exists_of_next (hmove.symm.trans hs)
      refine hextend s₀ hs₀ (by rw [hverify]; simp) hcode hsince
        fun hused => ⟨(hunused hused).1, fun code' hcode' => ?_⟩
      obtain ⟨-, rfl⟩ := Step.verify.inj (Option.some.inj (hverify.symm.trans hcode'))
      rw [hx.verify email code hverify]
      exact fun h => (hunused hused).2 (Except.ok.inj h)
    · refine hextend s (hmove.symm.trans hs) (fun h => hother (by rw [h]; rfl)) rfl rfl
        fun hused => ⟨hused, ?_⟩
      exact fun code hcode => absurd (by rw [hcode]; rfl) hother

theorem slotAfter_of_unused {exchanges : List Exchange} (hfaithful : Faithful slots exchanges)
    (hslot : slots email = some s) (hunused : s.used = false)
    (hforgot : ∀ y ∈ exchanges, y.step? ≠ some (.forgot email))
    (haccepted : ∀ y ∈ exchanges, ∀ code, y.step? = some (.verify email code) → y.answer ≠ .ok verified) :
    slotAfter email (some s) exchanges =
      some { s with failures := s.failures + exchanges.countP (Exchange.isRejection email) } := by
  induction exchanges generalizing slots s with
  | nil =>
    rw [countP_nil, Nat.add_zero]
    rfl
  | cons y exchanges ih =>
    obtain ⟨hy, hrest⟩ := hfaithful
    obtain ⟨hyforgot, hforgot⟩ := forall_mem_cons.mp hforgot
    obtain ⟨hyaccepted, haccepted⟩ := forall_mem_cons.mp haccepted
    have hstep : slotAfter email (some s) (y :: exchanges) = slotAfter email (y.move email (some s)) exchanges := rfl
    have hgo : ∀ s', y.move email (some s) = some s' → s'.used = false →
        slotAfter email (y.move email (some s)) exchanges =
          some { s' with failures := s'.failures + exchanges.countP (Exchange.isRejection email) } := by
      intro s' hmove hs'
      rw [hmove]
      exact ih hrest (by rw [hslot, hmove]) hs' hforgot haccepted
    rw [hstep, countP_cons]
    rcases y.move_cases email (some s) with ⟨h, -, -⟩ | ⟨code, hverify, habout, hmove⟩ | ⟨-, habout, hmove⟩
    · exact absurd h hyforgot
    · have hanswer := hy.verify email code hverify
      rw [hslot] at hanswer
      have hreject : y.isRejection email =
          decide (Slot.outcome (some s) y.request.instant code = rejected) := by
        rw [Exchange.isRejection, habout, Bool.true_and, hanswer]
        simp only [Except.ok.injEq]
      rcases s.verify_cases y.request.instant code with ⟨hused, -, -⟩ | ⟨-, -, houtcome, hnext⟩ | ⟨-, -, -, houtcome, -⟩ |
        ⟨-, -, -, houtcome, hnext⟩
      · rw [hunused] at hused
        cases hused
      · rw [hgo s (hmove.trans hnext) hunused, hreject, houtcome]
        rfl
      · exact absurd (hanswer.trans (congrArg _ houtcome)) (hyaccepted code hverify)
      · rw [hgo s.fail (hmove.trans hnext) hunused, hreject, houtcome, decide_eq_true rfl, if_pos rfl,
          Slot.fail, Nat.add_right_comm, Nat.add_assoc s.failures]
    · rw [hgo s hmove hunused, Exchange.isRejection, habout]
      rfl

theorem slotAfter_of_blocked {exchanges : List Exchange} (hunused : s.used = false)
    (hfailures : 3 ≤ s.failures) (hforgot : ∀ y ∈ exchanges, y.step? ≠ some (.forgot email)) :
    slotAfter email (some s) exchanges = some s := by
  induction exchanges with
  | nil => rfl
  | cons y exchanges ih =>
    obtain ⟨hyforgot, hforgot⟩ := forall_mem_cons.mp hforgot
    have hmove : y.move email (some s) = some s := by
      rcases y.move_cases email (some s) with ⟨h, -, -⟩ | ⟨code, -, -, hmove⟩ | ⟨-, -, hmove⟩
      · exact absurd h hyforgot
      · rw [hmove, Slot.next, Option.map_some, hunused, if_neg Bool.false_ne_true, if_pos hfailures]
      · exact hmove
    rw [slotAfter, foldl_cons, hmove]
    exact ih hforgot

/-! ### One mail address among others -/

/-- What an exchange brings: its step, the code that is drawn for it, and when it takes place. -/
def Exchange.input (x : Exchange) : Option Step × String × Timestamp :=
  (x.step?, if x.step? matches some (.forgot _) then x.issued else "", x.request.instant)

/-- The answers for a mail address, from what its exchanges bring. -/
def answersFrom (slot : Option Slot) : List (Option Step × String × Timestamp) → List (Except Fault Response)
  | [] => []
  | (some (.forgot _), code, now) :: inputs =>
    .ok (codeSent (.text code)) :: answersFrom (some (.fresh code now)) inputs
  | (some (.verify _ code), _, now) :: inputs =>
    .ok (Slot.outcome slot now code) :: answersFrom (Slot.next slot now code) inputs
  | (none, _) :: inputs => answersFrom slot inputs

/-- **The answers for a mail address depend on its own exchanges only.** -/
theorem map_answer_isAbout {exchanges : List Exchange} (hfaithful : Faithful slots exchanges) (email : String) :
    (exchanges.filter (Exchange.isAbout email)).map Exchange.answer =
      answersFrom (slots email) ((exchanges.filter (Exchange.isAbout email)).map Exchange.input) := by
  induction exchanges generalizing slots with
  | nil => rfl
  | cons y exchanges ih =>
    obtain ⟨hy, hrest⟩ := hfaithful
    have hih := ih hrest
    rcases y.move_cases email (slots email) with ⟨hforgot, habout, hmove⟩ |
      ⟨code, hverify, habout, hmove⟩ | ⟨-, habout, hmove⟩
    · have hinput : y.input = (some (.forgot email), y.issued, y.request.instant) := by
        rw [Exchange.input, hforgot]
        rfl
      rw [filter_cons_of_pos habout, map_cons, map_cons, hinput, answersFrom, hih, hmove,
        hy.forgot email hforgot]
    · have hinput : y.input = (some (.verify email code), "", y.request.instant) := by
        rw [Exchange.input, hverify]
        rfl
      rw [filter_cons_of_pos habout, map_cons, map_cons, hinput, answersFrom, hih, hmove,
        hy.verify email code hverify]
    · rw [filter_cons_of_neg (by rw [habout]; exact Bool.false_ne_true), hih, hmove]

/-! ### Runs -/

/-- Requests for codes and verifications, with users for the codes and a plain collection of requests that is
empty at first. -/
structure CodeRun where
  accounts : Accounts
  semantics : Semantics
  key : List Call → ObjectId
  connection : Connection
  session : Session
  requests : List Request
  plain : Plain semantics accounts.resets key session []
  draws : Draws session
  steps : ∀ r ∈ requests, r.step? ≠ none
  users : ∀ r ∈ requests, ∀ email, r.step? = some (.forgot email) → HasUser accounts session email

namespace CodeRun

variable (run : CodeRun)

def exchanges : List Exchange :=
  history run.accounts run.connection run.session run.requests

def about (email : String) : List Exchange :=
  run.exchanges.filter (Exchange.isAbout email)

def records (exchanges : List Exchange) : List Record :=
  replay run.semantics run.accounts.resets run.key [] (exchanges.flatMap Exchange.calls)

theorem faithful_exchanges : Faithful (fun _ => none) run.exchanges :=
  (faithful_history run.plain describes_nil run.draws run.steps run.users run.connection).1

theorem exists_describes (h : run.exchanges = before ++ after) :
    ∃ entries, Describes entries (run.records before) :=
  (faithful_history run.plain describes_nil run.draws run.steps run.users run.connection).2 before after h

/-- The slot after a code was issued and some exchanges that did not use it up. -/
theorem slotAfter_issue {earlier : List Exchange} {email : String}
    (h : run.exchanges = earlier ++ issue :: (between ++ after)) (hissue : issue.step? = some (.forgot email))
    (hforgot : ∀ y ∈ between, y.step? ≠ some (.forgot email))
    (haccepted : ∀ y ∈ between, ∀ code, y.step? = some (.verify email code) → y.answer ≠ .ok verified) :
    issue.answer = .ok (codeSent (.text issue.issued)) ∧ slotAfter email none (earlier ++ issue :: between) =
      some ⟨issue.issued, issue.request.instant, false, between.countP (Exchange.isRejection email)⟩ := by
  have hfaithful := run.faithful_exchanges
  rw [h] at hfaithful
  obtain ⟨-, hfollows, hrest⟩ := faithful_append.mp hfaithful
  have hmove : ∀ slot, issue.move email slot = some (.fresh issue.issued issue.request.instant) := fun slot => by
    rw [Exchange.move_forgot hissue, if_pos rfl]
  refine ⟨hfollows.forgot email hissue, ?_⟩
  rw [slotAfter_append, slotAfter, foldl_cons, hmove]
  have hcount := slotAfter_of_unused (faithful_append.mp hrest).1 (hmove _) rfl hforgot haccepted
  rw [Slot.fresh, Nat.zero_add] at hcount
  exact hcount

/-- **The life of a code.**  It is accepted only if it is the last one issued for its mail address, before it
expires and only once; after three rejections it is blocked until another code is issued. -/
theorem code_lifecycle :
    (∀ before after : List Exchange, run.exchanges = before ++ after → ∀ email, (run.records before).countP
      (fun record => Document.get? record.document "email" == some (.text email)) ≤ 1) ∧
    (∀ (before : List Exchange) (x : Exchange) (after : List Exchange) (email code : String),
      run.exchanges = before ++ x :: after → x.step? = some (.verify email code) → x.answer = .ok verified →
      ∃ (earlier : List Exchange) (issue : Exchange) (between : List Exchange),
        before = earlier ++ issue :: between ∧ issue.step? = some (.forgot email) ∧
        issue.answer = .ok (codeSent (.text code)) ∧
        x.request.instant.isBefore (issue.request.instant.addMinutes codeMinutes) = true ∧
        ∀ y ∈ between, y.step? ≠ some (.forgot email) ∧ ∀ code', y.step? = some (.verify email code') → y.answer ≠ .ok verified) ∧
    (∀ (earlier : List Exchange) (issue : Exchange) (between : List Exchange) (x : Exchange)
      (after : List Exchange) (email code : String),
      run.exchanges = earlier ++ issue :: (between ++ x :: after) →
      issue.step? = some (.forgot email) → issue.answer = .ok (codeSent (.text code)) →
      (∀ y ∈ between, y.step? ≠ some (.forgot email)) →
      (∀ y ∈ between, ∀ code', y.step? = some (.verify email code') → y.answer ≠ .ok verified) →
      between.countP (Exchange.isRejection email) < 3 → x.step? = some (.verify email code) →
      x.request.instant.isBefore (issue.request.instant.addMinutes codeMinutes) = true →
      x.answer = .ok verified) ∧
    (∀ (earlier : List Exchange) (issue : Exchange) (failing between : List Exchange) (x : Exchange)
      (after : List Exchange) (email code : String),
      run.exchanges = earlier ++ issue :: (failing ++ (between ++ x :: after)) →
      issue.step? = some (.forgot email) → (∀ y ∈ failing ++ between, y.step? ≠ some (.forgot email)) →
      (∀ y ∈ failing, ∀ code', y.step? = some (.verify email code') → y.answer ≠ .ok verified) →
      3 ≤ failing.countP (Exchange.isRejection email) → x.step? = some (.verify email code) →
      x.answer = .ok blocked) ∧ ∀ (other : CodeRun) (email : String),
      (run.about email).map Exchange.input = (other.about email).map Exchange.input →
      (run.about email).map Exchange.answer = (other.about email).map Exchange.answer := by
  have hfaithful := run.faithful_exchanges
  refine ⟨?_, ?_, ?_, ?_, ?_⟩
  · intro before after h email
    obtain ⟨entries, hentries⟩ := run.exists_describes h
    exact hentries.countP_email_le email
  · intro before x after email code h hverify hanswer
    rw [h] at hfaithful
    obtain ⟨hbefore, hx, -⟩ := faithful_append.mp hfaithful
    obtain ⟨s, hs, hunused, rfl, hexpiry⟩ :=
      Slot.of_outcome_eq_verified (Except.ok.inj ((hx.verify email code hverify).symm.trans hanswer))
    obtain ⟨earlier, issue, between, rfl, hissued⟩ := exists_issued hbefore hs
    obtain ⟨-, hissue, -⟩ := faithful_append.mp hbefore
    refine ⟨earlier, issue, between, rfl, hissued.step, hissued.code ▸ hissue.forgot email hissued.step,
      hissued.since ▸ hexpiry, ?_⟩
    exact fun y hy => ⟨hissued.noOther y hy, hissued.unused hunused y hy⟩
  · intro earlier issue between x after email code h hissue hanswer hforgot haccepted hcount hverify hexpiry
    obtain ⟨-, hslot⟩ := run.slotAfter_issue h hissue hforgot haccepted
    have hcode : issue.issued = code := by
      rw [Exchange.issued, hanswer]
      rfl
    rw [h, ← cons_append, ← append_assoc] at hfaithful
    obtain ⟨-, hx, -⟩ := faithful_append.mp hfaithful
    rw [hx.verify email code hverify, hslot, Slot.outcome, if_neg Bool.false_ne_true,
      if_neg (Nat.not_le.mpr hcount), if_pos]
    exact Bool.and_eq_true_iff.mpr ⟨beq_iff_eq.mpr hcode, hexpiry⟩
  · intro earlier issue failing between x after email code h hissue hforgot haccepted hcount hverify
    obtain ⟨hforgot, hforgot'⟩ := forall_mem_append.mp hforgot
    obtain ⟨-, hslot⟩ := run.slotAfter_issue h hissue hforgot haccepted
    have hblocked := slotAfter_of_blocked
      (s := ⟨issue.issued, issue.request.instant, false, failing.countP (Exchange.isRejection email)⟩) rfl hcount
      hforgot'
    rw [h, ← cons_append, ← append_assoc, ← append_assoc] at hfaithful
    obtain ⟨-, hx, -⟩ := faithful_append.mp hfaithful
    rw [hx.verify email code hverify, slotAfter_append, hslot, hblocked, Slot.outcome,
      if_neg Bool.false_ne_true, if_pos hcount]
  · intro other email h
    rw [about, about, map_answer_isAbout hfaithful, map_answer_isAbout other.faithful_exchanges]
    exact congrArg _ h

end CodeRun

/-- A server with users for all mail addresses, which draws the same number again and again. -/
def mailServer : Server := fun _ call =>
  match call with
  | .findOne _ _ => some (.value (.doc [("_id", .text "u"), ("password", .text "p")]))
  | .random _ => some (.value (.int 23456))
  | _ => none

def verifyRequest (code : String) : Request :=
  ⟨.post, "/api/auth/verify-reset-code", some (.doc [("email", .text "a@b.c"), ("code", .text code)]), .missing,
    default⟩

def forgotRequest : Request :=
  ⟨.post, "/api/auth/forgot-password", some (.doc [("email", .text "a@b.c")]), .missing, default⟩

/-- Three wrong codes and the right one, and the right one again after it was issued anew. -/
def guesses : List Request :=
  [forgotRequest, verifyRequest "1", verifyRequest "2", verifyRequest "3", verifyRequest "123456", forgotRequest,
    verifyRequest "123456"]

theorem map_step?_guesses : guesses.map Request.step? = [some (.forgot "a@b.c"), some (.verify "a@b.c" "1"),
    some (.verify "a@b.c" "2"), some (.verify "a@b.c" "3"), some (.verify "a@b.c" "123456"),
    some (.forgot "a@b.c"), some (.verify "a@b.c" "123456")] := by
  have hforgot : Route.ofPath? "/api/auth/forgot-password" = some .forgotPassword := by decide
  have hverify : Route.ofPath? "/api/auth/verify-reset-code" = some .verifyResetCode := by decide
  rfl

theorem steps_guesses : ∀ r ∈ guesses, r.step? ≠ none := by
  intro r hr
  have hmem : r.step? ∈ guesses.map Request.step? := mem_map_of_mem hr
  intro hnone
  rw [hnone] at hmem
  revert hmem
  decide

def guessRun : CodeRun where
  accounts := sampleAccounts
  semantics := .plain
  key calls := nthKey (0 + calls.length)
  connection := .fresh .null
  session := .start (plainServer .plain sampleAccounts.resets mailServer 0 [])
  requests := guesses
  plain := plain_plainServer _ _ _ _ _ (forall_mem_nil _)
  draws _ := ⟨23456, rfl⟩
  steps := steps_guesses
  users _ _ _ _ _ := ⟨_, rfl, rfl, rfl⟩

theorem code_lifecycle_guessRun : ∃ x₀ x₁ x₂ x₃ x₄ x₅ x₆ : Exchange,
    guessRun.exchanges = [x₀, x₁, x₂, x₃, x₄, x₅, x₆] ∧ x₀.step? = some (.forgot "a@b.c") ∧
    (∀ y ∈ [x₁, x₂, x₃], y.answer = .ok rejected) ∧ x₄.step? = some (.verify "a@b.c" "123456") ∧
    x₄.answer = .ok blocked ∧ x₅.answer = .ok (codeSent (.text "123456")) ∧
    x₆.step? = some (.verify "a@b.c" "123456") ∧ x₆.answer = .ok verified ∧
    ∃ (earlier : List Exchange) (issue : Exchange) (between : List Exchange),
      [x₀, x₁, x₂, x₃, x₄, x₅] = earlier ++ issue :: between ∧ issue.answer = .ok (codeSent (.text "123456")) := by
  have hrequests : guessRun.exchanges.map Exchange.request = guesses := map_request_history _ _ _ _
  have hsteps : guessRun.exchanges.map Exchange.step? = [some (.forgot "a@b.c"), some (.verify "a@b.c" "1"),
      some (.verify "a@b.c" "2"), some (.verify "a@b.c" "3"), some (.verify "a@b.c" "123456"),
      some (.forgot "a@b.c"), some (.verify "a@b.c" "123456")] := by
    rw [← map_step?_guesses, ← hrequests, map_map]
    rfl
  have hanswers : (guessRun.exchanges.map Exchange.answer).take 6 = [.ok (codeSent (.text "123456")),
      .ok rejected, .ok rejected, .ok rejected, .ok blocked, .ok (codeSent (.text "123456"))] := by
    decide +kernel
  obtain ⟨-, honly, haccepts, hblocks, -⟩ := guessRun.code_lifecycle
  simp only [map_eq_cons_iff, map_eq_nil_iff] at hsteps
  obtain ⟨x₀, -, hlist, h₀, x₁, -, rfl, h₁, x₂, -, rfl, h₂, x₃, -, rfl, h₃, x₄, -, rfl, h₄, x₅, -, rfl, h₅, x₆, -,
    rfl, h₆, rfl⟩ := hsteps
  rw [hlist] at hanswers hrequests
  simp only [map_cons, map_nil, take_succ_cons, take_zero, guesses, List.cons.injEq, and_true] at hanswers hrequests
  obtain ⟨-, a₁, a₂, a₃, -, a₅⟩ := hanswers
  obtain ⟨-, -, -, -, -, r₅, r₆⟩ := hrequests
  have hrejected : ∀ y ∈ [x₁, x₂, x₃], y.answer = .ok rejected := by simp [a₁, a₂, a₃]
  have hforgot : ∀ y ∈ [x₁, x₂, x₃] ++ [], y.step? ≠ some (.forgot "a@b.c") := by simp [h₁, h₂, h₃]
  have hunaccepted : ∀ y ∈ [x₁, x₂, x₃], ∀ code, y.step? = some (.verify "a@b.c" code) →
      y.answer ≠ .ok verified := by
    intro y hy code _
    rw [hrejected y hy]
    exact fun h => rejected_ne_verified (Except.ok.inj h)
  have hcount : 3 ≤ [x₁, x₂, x₃].countP (Exchange.isRejection "a@b.c") := by
    simp [Exchange.isRejection, Exchange.isAbout, h₁, h₂, h₃, a₁, a₂, a₃, Step.email]
  have hx₄ := hblocks [] x₀ [x₁, x₂, x₃] [] x₄ [x₅, x₆] _ _ hlist h₀ hforgot hunaccepted hcount h₄
  have hx₆ := haccepts [x₀, x₁, x₂, x₃, x₄] x₅ [] x₆ [] _ _ hlist h₅ a₅ (forall_mem_nil _)
    (forall_mem_nil _) (by decide) h₆ (by rw [r₅, r₆]; decide)
  obtain ⟨earlier, issue, between, hsplit, -, hissue, -⟩ :=
    honly [x₀, x₁, x₂, x₃, x₄, x₅] x₆ [] _ _ hlist h₆ hx₆
  exact ⟨x₀, x₁, x₂, x₃, x₄, x₅, x₆, hlist, h₀, hrejected, h₄, hx₄, a₅, h₆, hx₆, earlier, issue, between, hsplit,
    hissue⟩

end SqlGateway.Http
