import SqlGateway.Proofs.Http.Recovery
import SqlGateway.Proofs.Http.Verification

/-!
# The codes of a mail address

Each mail address has a slot for one code.  If the collection of the requests is plain, its records are those
of the slots (`Describes`), and the steps of recovering a password move the slot of their mail address and no
other (`moves_forgot`, `moves_verify`).
-/

namespace SqlGateway.Http

open Account Store SqlGateway.Filter List Value Session

/-! ### Steps -/

/-- A step of recovering a password, before it is set. -/
inductive Step where
  | forgot (email : String)
  | verify (email code : String)
  deriving DecidableEq

def Step.email : Step → String
  | .forgot email => email
  | .verify email _ => email

/-- The text that a document has under a name, unless it is empty. -/
def givenText? (data : Document) (name : String) : Option String :=
  match data.get name with
  | .text s => if s.isEmpty then none else some s
  | _ => none

/-- The step that a request asks for. -/
def Request.step? (r : Request) : Option Step :=
  match r.method, Route.ofPath? r.path, r.body with
  | .post, some .forgotPassword, some (.doc data) => (givenText? data "email").map .forgot
  | .post, some .verifyResetCode, some (.doc data) =>
    (givenText? data "email").bind fun email => (givenText? data "code").map (.verify email)
  | _, _, _ => none

theorem givenText?_eq_some {data : Document} {name s : String} (h : givenText? data name = some s) :
    data.get name = .text s ∧ (data.get name).isPresent := by
  rw [givenText?] at h
  split at h
  case h_1 t ht =>
    split at h
    · cases h
    case isFalse hne =>
      obtain rfl := Option.some.inj h
      exact ⟨ht, by rw [ht]; simpa [isPresent] using hne⟩
  case h_2 => cases h

variable {r : Request}

theorem of_step? {step : Step} (h : r.step? = some step) :
    r.method = .post ∧ ∃ data, r.body = some (.doc data) ∧ givenText? data "email" = some step.email ∧
      match step with
      | .forgot _ => Route.ofPath? r.path = some .forgotPassword
      | .verify _ code => Route.ofPath? r.path = some .verifyResetCode ∧ givenText? data "code" = some code := by
  unfold Request.step? at h
  split at h
  case h_1 data hmethod hpath hbody =>
    obtain ⟨email, hemail, rfl⟩ := Option.map_eq_some_iff.mp h
    exact ⟨hmethod, data, hbody, hemail, hpath⟩
  case h_2 data hmethod hpath hbody =>
    obtain ⟨email, hemail, h⟩ := Option.bind_eq_some_iff.mp h
    obtain ⟨code, hcode, rfl⟩ := Option.map_eq_some_iff.mp h
    exact ⟨hmethod, data, hbody, hemail, hpath, hcode⟩
  case h_3 => cases h

/-! ### Slots -/

/-- A code, when it was issued, and what has become of it. -/
structure Slot where
  code : String
  since : Timestamp
  used : Bool
  failures : Nat
  deriving DecidableEq

namespace Slot

def fresh (code : String) (now : Timestamp) : Slot :=
  ⟨code, now, false, 0⟩

def expiry (s : Slot) : Timestamp :=
  s.since.addMinutes codeMinutes

/-- Whether a code answers a slot at a point in time. -/
def fits (s : Slot) (now : Timestamp) (code : String) : Bool :=
  s.code == code && now.isBefore s.expiry

def spend (s : Slot) : Slot :=
  { s with used := true }

def fail (s : Slot) : Slot :=
  { s with failures := s.failures + 1 }

def outcome (slot : Option Slot) (now : Timestamp) (code : String) : Response :=
  match slot with
  | none => rejected
  | some s =>
    if s.used then rejected
    else if 3 ≤ s.failures then blocked
    else if s.fits now code then verified
    else rejected

def next (slot : Option Slot) (now : Timestamp) (code : String) : Option Slot :=
  slot.map fun s =>
    if s.used then s
    else if 3 ≤ s.failures then s
    else if s.fits now code then s.spend
    else s.fail

/-- The request that is stored for a slot. -/
def members (email : String) (s : Slot) : Document :=
  [("email", .text email), ("code", .text s.code), ("created_at", .time s.since),
    ("expires_at", .time s.expiry), ("used", .bool s.used), ("attempts", .int s.failures)]

theorem amend_used (email : String) (s : Slot) :
    amend [("$set", .doc [("used", .bool true)])] (s.members email) = s.spend.members email := rfl

theorem amend_attempts (email : String) (s : Slot) :
    amend [("$inc", .doc [("attempts", .int 1)])] (s.members email) = s.fail.members email := rfl

end Slot

/-! ### Entries -/

/-- A slot as it is stored. -/
structure Entry where
  key : ObjectId
  email : String
  slot : Slot

def Entry.record (x : Entry) : Record :=
  ⟨x.key, x.slot.members x.email⟩

def Entry.alter (f : Slot → Slot) (x : Entry) : Entry :=
  { x with slot := f x.slot }

def slotOf (entries : List Entry) (email : String) : Option Slot :=
  (entries.find? fun x => x.email == email).map Entry.slot

/-- The records are those of entries with different mail addresses and different identities. -/
structure Describes (entries : List Entry) (records : List Record) : Prop where
  records : records = entries.map Entry.record
  emails : (entries.map Entry.email).Nodup
  keys : (entries.map Entry.key).Nodup

theorem describes_nil : Describes [] [] :=
  ⟨rfl, .nil, .nil⟩

/-! ### What filters select among entries -/

section

variable {S : Semantics}

theorem satisfies_text_text (s t : String) : S.satisfies (some (.text s)) (.text t) = (s == t) := by
  rw [Bool.eq_iff_iff, satisfies_text rfl, beq_iff_eq, text.injEq, eq_comm]

theorem selects_email (x : Entry) (email : String) :
    S.selects [("email", .text email)] x.record.document = (x.email == email) := by
  have hget : Document.get? x.record.document "email" = some (.text x.email) := rfl
  rw [Semantics.selects, all_cons, all_nil, Bool.and_true, hget, satisfies_text_text]

theorem selects_key (x : Entry) (key : ObjectId) :
    S.selects [("_id", .id key)] x.record.document = (x.key == key) := by
  have hget : Document.get? x.record.document "_id" = some (.id x.key) := rfl
  rw [Semantics.selects, all_cons, all_nil, Bool.and_true, hget, Semantics.satisfies_of_plain rfl,
    S.same_id, Bool.eq_iff_iff, beq_iff_eq, beq_iff_eq, id.injEq, eq_comm]

theorem selects_open (x : Entry) (email : String) :
    S.selects (openFilter (.text email)) x.record.document = (x.email == email && !x.slot.used) := by
  have hsplit : S.selects (openFilter (.text email)) x.record.document =
      (S.selects [("email", .text email)] x.record.document &&
        S.satisfies (some (.bool x.slot.used)) (.bool false)) := by
    simp only [Semantics.selects, openFilter, all_cons, all_nil, Bool.and_true]
    rfl
  rw [hsplit, selects_email, Semantics.satisfies_of_plain rfl, S.same_bool]
  cases x.slot.used <;> rfl

theorem selects_code (x : Entry) (now : Timestamp) (email code : String) :
    S.selects (codeFilter now (.text email) (.text code)) x.record.document =
      (x.email == email && (!x.slot.used && x.slot.fits now code)) := by
  have hrequest : IsRequest x.record.document x.email x.slot.code x.slot.used x.slot.expiry :=
    ⟨rfl, rfl, rfl, rfl⟩
  rw [selects_codeFilter hrequest, satisfies_text_text, satisfies_text_text, Slot.fits,
    Bool.and_left_comm (x.slot.code == code)]

end

/-! ### Entries of a mail address -/

section

variable {entries : List Entry} {p : Entry → Bool} {x : Entry}

theorem find?_key (h : (entries.map Entry.key).Nodup) (hx : x ∈ entries) :
    entries.find? (fun y => y.key == x.key) = some x := by
  induction entries with
  | nil => cases hx
  | cons y entries ih =>
    obtain ⟨hy, hentries⟩ := nodup_cons.mp h
    rw [find?_cons]
    rcases mem_cons.mp hx with rfl | hx
    · rw [beq_self_eq_true]
    · have hne : y.key ≠ x.key := fun heq => hy (heq ▸ mem_map_of_mem hx)
      rw [beq_eq_false_iff_ne.mpr hne]
      exact ih hentries hx

theorem find?_email_and (h : (entries.map Entry.email).Nodup) (email : String) (p : Entry → Bool) :
    entries.find? (fun x => x.email == email && p x) = (entries.find? fun x => x.email == email).filter p := by
  induction entries with
  | nil => rfl
  | cons x entries ih =>
    obtain ⟨hx, hentries⟩ := nodup_cons.mp h
    by_cases hemail : x.email = email
    · have hrest : entries.find? (fun y => y.email == email && p y) = none := by
        rw [find?_eq_none]
        intro y hy hand
        have hyemail := beq_iff_eq.mp (Bool.and_eq_true_iff.mp hand).1
        exact hx (mem_map.mpr ⟨y, hy, hyemail.trans hemail.symm⟩)
      have hbeq : (x.email == email) := beq_iff_eq.mpr hemail
      rw [find?_cons, find?_cons, hbeq, Bool.true_and, hrest]
      rw [Option.filter_some]
      cases p x <;> rfl
    · have hbeq : (x.email == email) = false := beq_eq_false_iff_ne.mpr hemail
      rw [find?_cons, find?_cons, hbeq, Bool.false_and]
      exact ih hentries

theorem slotOf_cons (x : Entry) (entries : List Entry) (email : String) :
    slotOf (x :: entries) email = if x.email = email then some x.slot else slotOf entries email := by
  rw [slotOf, find?_cons]
  by_cases h : x.email = email
  · rw [beq_iff_eq.mpr h, if_pos h]
    rfl
  · rw [beq_eq_false_iff_ne.mpr h, if_neg h]
    rfl

theorem slotOf_modifyFirst (hemails : (entries.map Entry.email).Nodup)
    (hx : entries.find? p = some x) (f : Slot → Slot) (email : String) :
    slotOf (modifyFirst p (Entry.alter f) entries) email =
      if email = x.email then some (f x.slot) else slotOf entries email := by
  induction entries with
  | nil => cases hx
  | cons y entries ih =>
    obtain ⟨hy, hentries⟩ := nodup_cons.mp hemails
    rw [find?_cons] at hx
    split at hx
    case h_1 hp =>
      obtain rfl := Option.some.inj hx
      rw [modifyFirst, if_pos hp, slotOf_cons, slotOf_cons]
      show (if y.email = email then some (f y.slot) else _) = _
      by_cases h : y.email = email
      · rw [if_pos h, if_pos h.symm]
      · rw [if_neg h, if_neg h, if_neg (Ne.symm h)]
    case h_2 hp =>
      have hmem : x.email ∈ entries.map Entry.email := mem_map_of_mem (mem_of_find?_eq_some hx)
      rw [modifyFirst, hp, if_neg Bool.false_ne_true, slotOf_cons, slotOf_cons, ih hentries hx]
      by_cases h : y.email = email
      · rw [if_pos h, if_pos h, if_neg]
        rintro rfl
        exact hy (h ▸ hmem)
      · rw [if_neg h, if_neg h]

end

/-! ### Issuing a code -/

/-- The server draws whole numbers. -/
def Draws (session : Session) : Prop :=
  ∀ later, ∃ n : Int, session.server (session.calls ++ later) (.random 900000) = some (.value (.int n))

/-- The server finds a user with the mail address. -/
def HasUser (a : Accounts) (session : Session) (email : String) : Prop :=
  ∀ later, ∃ user : Document, session.server (session.calls ++ later)
      (.findOne a.users [("email", .text email)]) = some (.value (.doc user)) ∧
    user.has "_id" ∧ user.has "password"

variable {session : Session}

theorem Draws.after (h : Draws session) (made : List Call) : Draws (session.after made) := by
  intro later
  rw [server_after, calls_after, append_assoc]
  exact h (made ++ later)

theorem HasUser.after {a : Accounts} {email : String} (h : HasUser a session email)
    (made : List Call) : HasUser a (session.after made) email := by
  intro later
  rw [server_after, calls_after, append_assoc]
  exact h (made ++ later)

theorem isPresent_sixDigits (n : Int) : (text (sixDigits n)).isPresent := by
  have hpadded : ∀ width m, Timestamp.padded width m ≠ "" := by
    intro width m h
    have hlist := congrArg String.toList h
    rw [Timestamp.padded, String.toList_ofList, padZeros] at hlist
    exact Nat.toDigits_ne_nil (append_eq_nil_iff.mp hlist).2
  have hne : sixDigits n ≠ "" := by
    rw [sixDigits]
    split
    · intro h
      have hlist := congrArg String.toList h
      rw [String.toList_append] at hlist
      cases hlist
    · exact hpadded _ _
  simpa [isPresent] using hne

theorem found_of_has {user : Document} (hkey : user.has "_id") (hpassword : user.has "password") :
    ∃ visible, found (.doc user) = .ok visible ∧ visible.isPresent := by
  obtain ⟨key, hkey⟩ := Option.isSome_iff_exists.mp hkey
  have hvisible := visible_eq_ok_iff.mpr ⟨user, key, rfl, hkey, hpassword, rfl⟩
  obtain ⟨-, hpresent⟩ := isPresent_of_visible hvisible
  exact ⟨_, (found_eq_ok_iff hpresent).mpr hvisible, hpresent⟩

section

variable {S : Semantics} {a : Accounts} {key : List Call → ObjectId} {session : Session}
  {records : List Record} {entries : List Entry} {email : String}

theorem runs_byEmail (h : HasUser a session email) :
    ∃ user, Access.Runs (byEmail a (.text email)) session (.ok user)
      [.findOne a.users [("email", .text email)]] ∧ user.isPresent := by
  obtain ⟨user, hreply, hkey, hpassword⟩ := h []
  rw [append_nil] at hreply
  obtain ⟨visible, hfound, hpresent⟩ := found_of_has hkey hpassword
  exact ⟨visible, .tryCatch ((Access.Runs.ask hreply _).bind (.lift hfound)) _, hpresent⟩

theorem runs_insertOne {place : Place} {document key : Value}
    (h : session.server session.calls (.insertOne place document) = some (.value key)) :
    Access.Runs (insertOne place document) session (.ok (key, withIdentity document key))
      [.insertOne place document] := by
  exact (Access.Runs.ask? h).bind (.bind (.pure key) (.pure _))

def replaceCalls (a : Accounts) (now : Timestamp) (email code : String) : List Call :=
  [.random 900000, .deleteMany a.resets (.doc [("email", .text email)]),
    .insertOne a.resets (.doc (resetRequest now (.text email) code))]

theorem runs_requestReset (hplain : Plain S a.resets key session records) (hdraws : Draws session)
    (now : Timestamp) (email : String) : ∃ code, (text code).isPresent ∧
      Access.Runs (requestReset a now (.text email)) session (.ok (.text code))
        (replaceCalls a now email code) := by
  obtain ⟨n, hdrawn⟩ := hdraws []
  rw [append_nil] at hdrawn
  have hcode : codeOf (.int n) = .ok (sixDigits (n + 100000)) := rfl
  have hdelete := (hplain.after [.random 900000]).deleteMany [] (.doc [("email", .text email)])
  obtain ⟨count, hdelete⟩ := hdelete
  rw [append_nil] at hdelete
  have hinsert := (hplain.after [.random 900000, .deleteMany a.resets (.doc [("email", .text email)])]).insertOne
    [] (resetRequest now (.text email) (sixDigits (n + 100000)))
  rw [append_nil] at hinsert
  refine ⟨_, isPresent_sixDigits (n + 100000), .tryCatch ?_ _⟩
  refine (Access.Runs.ask hdrawn _).bind (.lift_bind hcode ?_)
  refine (Access.Runs.ask hdelete _).bind ?_
  rw [after_after]
  exact (runs_insertOne hinsert).bind (.pure _)

theorem runs_forgotPassword (hplain : Plain S a.resets key session records) (hdraws : Draws session)
    (huser : HasUser a session email) {data : Document} (hbody : r.body = some (.doc data))
    (hemail : givenText? data "email" = some email) (c : Connection) :
    ∃ code, Connected.Runs (forgotPassword a r) c session (.ok (codeSent (.text code)))
      (.findOne a.users [("email", .text email)] :: replaceCalls a r.instant email code) := by
  obtain ⟨hget, hpresent⟩ := givenText?_eq_some hemail
  rw [hget] at hpresent
  have hdocument := document_eq_ok_iff.mpr hbody
  have hmember : (doc data).member "email" = .ok (.text email) := congrArg Except.ok hget
  obtain ⟨user, hbyEmail, huserPresent⟩ := runs_byEmail huser
  obtain ⟨code, hcode, hrequest⟩ :=
    runs_requestReset (hplain.after [.findOne a.users [("email", .text email)]]) (hdraws.after _)
      r.instant email
  refine ⟨code, runs_catching (.lift_bind hdocument (.lift_bind hmember ?_))⟩
  rw [hpresent]
  refine (Connected.Runs.access hbyEmail).bind ?_
  rw [huserPresent]
  refine (Connected.Runs.access hrequest).bind_pure ?_
  rw [if_pos hcode]

theorem replay_replaceCalls (S : Semantics) (a : Accounts) (key : List Call → ObjectId)
    (records : List Record) (filter : Document) (now : Timestamp) (email code : String) :
    replay S a.resets key records (.findOne a.users filter :: replaceCalls a now email code) =
      (records.filter fun record => !S.selects [("email", .text email)] record.document) ++
        [⟨key [.findOne a.users filter, .random 900000, .deleteMany a.resets (.doc [("email", .text email)])],
          resetRequest now (.text email) code⟩] := by
  simp only [replaceCalls, replay, change, if_true]

theorem slotOf_replace (entries : List Entry) (y : Entry) (email : String) :
    slotOf (entries.filter (fun x => x.email != y.email) ++ [y]) email =
      if email = y.email then some y.slot else slotOf entries email := by
  induction entries with
  | nil =>
    rw [filter_nil, nil_append, slotOf_cons]
    by_cases h : y.email = email
    · rw [if_pos h, if_pos h.symm]
    · rw [if_neg h, if_neg (Ne.symm h)]
  | cons x entries ih =>
    by_cases hx : x.email = y.email
    · rw [filter_cons_of_neg (by simpa using hx), ih, slotOf_cons]
      by_cases h : email = y.email
      · rw [if_pos h, if_pos h]
      · rw [if_neg h, if_neg h, if_neg fun hxe => h (hxe.symm.trans hx)]
    · rw [filter_cons_of_pos (by simpa using hx), cons_append, slotOf_cons, slotOf_cons, ih]
      by_cases h : email = y.email
      · rw [if_pos h, if_pos h, if_neg fun hxe => hx (hxe.trans h)]
      · rw [if_neg h, if_neg h]

variable {p : Entry → Bool} {now : Timestamp}

theorem nodup_map_replace {β : Type} {g : Entry → β} (h : (entries.map g).Nodup) {y : Entry}
    (hy : ∀ x ∈ entries.filter p, g x ≠ g y) : ((entries.filter p ++ [y]).map g).Nodup := by
  rw [map_append, nodup_append]
  refine ⟨h.sublist (filter_sublist.map g), pairwise_singleton _ _, ?_⟩
  intro b hb b' hb'
  obtain ⟨x, hx, rfl⟩ := mem_map.mp hb
  rw [mem_singleton.mp hb']
  exact hy x hx

/-- **A new code takes over the slot of its mail address.** -/
theorem moves_forgot (hplain : Plain S a.resets key session records) (hdescribes : Describes entries records)
    (hdraws : Draws session) (huser : HasUser a session email)
    (hstep : r.step? = some (.forgot email)) (c : Connection) :
    ∃ code made entries', Connected.Runs (respond a r) c session (.ok (codeSent (.text code))) made ∧
      Describes entries' (replay S a.resets key records made) ∧ ∀ email', slotOf entries' email' =
        if email' = email then some (.fresh code r.instant) else slotOf entries email' := by
  obtain ⟨hmethod, data, hbody, hemail, hpath⟩ := of_step? hstep
  obtain ⟨code, hrun⟩ := runs_forgotPassword hplain hdraws huser hbody hemail c
  have hfilter : (records.filter fun record => !S.selects [("email", .text email)] record.document) =
      (entries.filter fun x => x.email != email).map Entry.record := by
    rw [hdescribes.records, filter_map]
    congr 1
    refine filter_congr fun x _ => ?_
    rw [Function.comp, selects_email]
    rfl
  have hfresh := hplain.fresh [.findOne a.users [("email", .text email)], .random 900000,
    .deleteMany a.resets (.doc [("email", .text email)])]
  have hreplay := replay_replaceCalls S a key records [("email", .text email)] r.instant email code
  simp only [replay, change, if_true] at hfresh
  rw [hfilter] at hfresh hreplay
  generalize key [_, _, _] = k at hfresh hreplay
  have hrespond : respond a r = forgotPassword a r := respond_of_route hpath hmethod
  refine ⟨code, _, entries.filter (fun x => x.email != email) ++ [⟨k, email, .fresh code r.instant⟩],
    hrespond ▸ hrun, ⟨?_, ?_, ?_⟩, slotOf_replace entries ⟨k, email, .fresh code r.instant⟩⟩
  · rw [hreplay, map_append]
    rfl
  · refine nodup_map_replace hdescribes.emails fun x hx => ?_
    exact bne_iff_ne.mp (mem_filter.mp hx).2
  · refine nodup_map_replace hdescribes.keys fun x hx => ?_
    exact hfresh x.record (mem_map_of_mem hx)

/-! ### Verifying a code -/

theorem first?_map (filter : Document) (p : Entry → Bool)
    (hp : ∀ x : Entry, S.selects filter x.record.document = p x) (entries : List Entry) :
    first? S filter (entries.map Entry.record) = (entries.find? p).map Entry.record := by
  rw [first?, find?_map]
  congr 2
  exact funext hp

theorem describes_modifyFirst (h : Describes entries records) {filter update : Document}
    {f : Slot → Slot} (hp : ∀ x : Entry, S.selects filter x.record.document = p x)
    (hf : ∀ x : Entry, amend update (x.slot.members x.email) = (f x.slot).members x.email) (k : ObjectId) :
    Describes (modifyFirst p (Entry.alter f) entries)
      (change S a.resets k records (.updateOne a.resets filter update)) where
  records := by
    rw [change, if_pos rfl, h.records]
    exact modifyFirst_map (g := Entry.record) hp (fun x => congrArg (Record.mk x.key) (hf x)) entries
  emails := by
    rw [map_modifyFirst]
    · exact h.emails
    · exact fun _ => rfl
  keys := by
    rw [map_modifyFirst]
    · exact h.keys
    · exact fun _ => rfl

theorem first?_of_selects (h : Describes entries records) {filter : Document}
    (hselects : ∀ x, S.selects filter x.record.document = (x.email == email && p x)) :
    first? S filter records = ((entries.find? fun x => x.email == email).filter p).map Entry.record := by
  rw [h.records, first?_map _ _ hselects, find?_email_and h.emails]

def openFailures (slot : Option Slot) : Nat :=
  slot.elim 0 fun s => if s.used then 0 else s.failures

theorem attemptsFound_eq (h : Describes entries records) (email : String) :
    attemptsFound S (.text email) records = .int (openFailures (slotOf entries email)) := by
  rw [attemptsFound, first?_of_selects h fun x => selects_open x email, slotOf]
  cases entries.find? fun x => x.email == email with
  | none => rfl
  | some x =>
    rw [Option.filter_some, Option.map_some, openFailures, Option.elim_some]
    cases x.slot.used <;> rfl

theorem reaches_attemptBound (n : Nat) : reaches attemptBound (.int n) = .ok (decide (3 ≤ n)) := by
  have hiff : attemptBound ≤ (n : Int) ↔ 3 ≤ n := by
    rw [attemptBound]
    omega
  rw [reaches, decide_eq_decide.mpr hiff]

section

variable (h : Describes entries records)
include h

theorem isSome_first?_code (email code : String) :
    (first? S (codeFilter now (.text email) (.text code)) records).isSome =
      (slotOf entries email).any fun s => !s.used && s.fits now code := by
  rw [first?_of_selects h fun x => selects_code x now email code, Option.isSome_map, slotOf]
  cases entries.find? fun x => x.email == email with
  | none => rfl
  | some x =>
    rw [Option.filter_some, Option.map_some, Option.any_some]
    cases !x.slot.used && x.slot.fits now code <;> rfl

/-- A verification answers what the slot of its mail address says. -/
theorem verdictOn_eq_outcome (email code : String) :
    verdictOn S now (.text email) (.text code) records = Slot.outcome (slotOf entries email) now code := by
  rw [verdictOn, attemptsFound_eq h, reaches_attemptBound, isSome_first?_code h]
  cases slotOf entries email with
  | none => rfl
  | some s =>
    rw [openFailures, Option.elim_some, Option.any_some, Slot.outcome]
    cases s.used with
    | true => rfl
    | false =>
      rw [Bool.not_false, Bool.true_and, if_neg Bool.false_ne_true, if_neg Bool.false_ne_true]
      by_cases hfailures : 3 ≤ s.failures
      · rw [if_pos hfailures, decide_eq_true hfailures]
      · rw [if_neg hfailures, decide_eq_false hfailures]

theorem describes_count (email : String) (k : ObjectId) :
    Describes (modifyFirst (fun x => x.email == email && !x.slot.used) (Entry.alter Slot.fail) entries)
      (change S a.resets k records
        (.updateOne a.resets (openFilter (.text email)) [("$inc", .doc [("attempts", .int 1)])])) :=
  describes_modifyFirst h (fun x => selects_open x email) (fun x => Slot.amend_attempts x.email x.slot) k

theorem describes_callsOn (now : Timestamp) (email code : String) : ∃ entries', Describes entries'
        (replay S a.resets key records (callsOn S a now (.text email) (.text code) records)) ∧
      ∀ email', slotOf entries' email' =
        if email' = email then Slot.next (slotOf entries email) now code else slotOf entries email' := by
  have hsame : Slot.next (slotOf entries email) now code = slotOf entries email → ∀ email',
      slotOf entries email' = if email' = email then Slot.next (slotOf entries email) now code
        else slotOf entries email' := by
    intro hnext email'
    split
    case isTrue heq => rw [heq, hnext]
    case isFalse => rfl
  rw [callsOn, attemptsFound_eq h, reaches_attemptBound, first?_of_selects h fun x => selects_code x now email code]
  cases hopen : (entries.find? fun x => x.email == email).filter fun x => !x.slot.used with
  | none =>
    -- nothing is open: the failure is not counted anywhere
    have hclosed : openFailures (slotOf entries email) = 0 ∧
        Slot.next (slotOf entries email) now code = slotOf entries email ∧
        (entries.find? fun x => x.email == email).filter
          (fun x => !x.slot.used && x.slot.fits now code) = none := by
      rw [slotOf]
      cases hentry : entries.find? fun x => x.email == email with
      | none => exact ⟨rfl, rfl, rfl⟩
      | some x =>
        have hused : x.slot.used := by
          rw [hentry, Option.filter_some] at hopen
          split at hopen
          · cases hopen
          case isFalse hused => simpa using hused
        simp only [Option.map_some, openFailures, Option.elim_some, Slot.next, Option.filter_some, hused, if_true,
          Bool.not_true, Bool.false_and, Bool.false_eq_true, if_false, and_self]
    obtain ⟨hfailures, hnext, hnone⟩ := hclosed
    rw [hfailures, hnone]
    refine ⟨_, describes_count h email (key []), ?_⟩
    rw [modifyFirst_of_find?_eq_none ((find?_email_and h.emails email _).trans hopen)]
    exact hsame hnext
  | some x =>
    obtain ⟨hentry, hunused⟩ := Option.filter_eq_some_iff.mp hopen
    have hslot : slotOf entries email = some x.slot := by rw [slotOf, hentry, Option.map_some]
    have hused : x.slot.used = false := by simpa using hunused
    have hemail : x.email = email := beq_iff_eq.mp (find?_some (p := fun y : Entry => y.email == email) hentry)
    have hfailures : openFailures (some x.slot) = x.slot.failures := by
      rw [openFailures, Option.elim_some, hused, if_neg Bool.false_ne_true]
    rw [hslot] at hsame ⊢
    rw [hentry, Option.filter_some, hused, Bool.not_false, Bool.true_and, hfailures]
    have hnext : Slot.next (some x.slot) now code = some (if 3 ≤ x.slot.failures then x.slot
        else if x.slot.fits now code then x.slot.spend else x.slot.fail) := by
      rw [Slot.next, Option.map_some, hused, if_neg Bool.false_ne_true]
    by_cases hblocked : 3 ≤ x.slot.failures
    · rw [decide_eq_true hblocked]
      rw [if_pos hblocked] at hnext
      exact ⟨entries, h, hsame hnext⟩
    · rw [decide_eq_false hblocked]
      rw [if_neg hblocked] at hnext
      by_cases hcode : x.slot.fits now code
      · rw [if_pos hcode]
        rw [if_pos hcode] at hnext
        have hkey := find?_key h.keys (mem_of_find?_eq_some hentry)
        refine ⟨_, describes_modifyFirst h (fun y => selects_key y x.key)
          (fun y => Slot.amend_used y.email y.slot) (key []), fun email' => ?_⟩
        rw [slotOf_modifyFirst h.emails hkey, hnext, hemail]
      · rw [if_neg hcode] at hnext ⊢
        refine ⟨_, describes_count h email (key []), fun email' => ?_⟩
        rw [slotOf_modifyFirst h.emails ((find?_email_and h.emails email _).trans hopen), hnext, hemail]

end

/-- **A verification moves the slot of its mail address and no other.** -/
theorem moves_verify (hplain : Plain S a.resets key session records) (hdescribes : Describes entries records)
    {code : String} (hstep : r.step? = some (.verify email code)) (c : Connection) :
    ∃ made entries', Connected.Runs (respond a r) c session
        (.ok (Slot.outcome (slotOf entries email) r.instant code)) made ∧
      Describes entries' (replay S a.resets key records made) ∧ ∀ email', slotOf entries' email' =
        if email' = email then Slot.next (slotOf entries email) r.instant code else slotOf entries email' := by
  obtain ⟨hmethod, data, hbody, hemail, hpath, hcode⟩ := of_step? hstep
  obtain ⟨hgetEmail, hpresentEmail⟩ := givenText?_eq_some hemail
  obtain ⟨hgetCode, hpresentCode⟩ := givenText?_eq_some hcode
  have hrespond : respond a r = verifyResetCode a r := respond_of_route hpath hmethod
  have hrun := runs_verifyResetCode hplain hbody hpresentEmail hpresentCode c
  rw [← hrespond, hgetEmail, hgetCode, verdictOn_eq_outcome hdescribes] at hrun
  obtain ⟨entries', hentries, hslots⟩ := describes_callsOn hdescribes r.instant email code
  exact ⟨_, entries', hrun, hentries, hslots⟩

end

end SqlGateway.Http
