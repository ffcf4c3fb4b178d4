import SqlGateway.Account.User
import SqlGateway.Proofs.Store.Runs
import SqlGateway.Proofs.Value.Document

/-!
# Users that are handed out

A user is handed out without its password (`visible_eq_ok_iff`), and **a login asks for a password that fits
and an active account** (`accept_eq_ok_iff`).  Where the store fails, the user counts as not found
(`userOf_eq_iff`).
-/

namespace SqlGateway.Account

open Store Document Value Except

variable {v shown subject : Value} {session : Session} {name : String} {a : Accounts}

theorem users_ne_resets (a : Accounts) : a.resets ≠ a.users := by
  intro h
  have hname : "password_resets" = "users" := congrArg Place.collection h
  exact absurd hname (by decide)

/-- The members of a user that is handed out: its identity is a text, and it has no password. -/
def shownMembers (user : Document) (key : Value) : Document :=
  (user.set "_id" (.text key.plain)).erase "password"

theorem get?_shownMembers (hid : name ≠ "_id") (hpassword : name ≠ "password")
    (user : Document) (key : Value) : (shownMembers user key).get? name = user.get? name := by
  rw [shownMembers, get?_erase, if_neg hpassword, get?_set, if_neg hid]

theorem get?_id_shownMembers (user : Document) (key : Value) :
    (shownMembers user key).get? "_id" = some (.text key.plain) := by
  rw [shownMembers, get?_erase, if_neg (by decide), get?_set, if_pos rfl]

theorem visible_eq_ok_iff : visible v = .ok shown ↔ ∃ user key,
    v = .doc user ∧ get? user "_id" = some key ∧ (get? user "password").isSome ∧
      shown = .doc (shownMembers user key) := by
  constructor
  · intro h
    obtain ⟨key, hneed, h⟩ := bind_eq_ok_iff.mp h
    obtain ⟨user, rfl, hkey⟩ := need_eq_ok_iff.mp hneed
    obtain ⟨kept, hkept, h⟩ := bind_eq_ok_iff.mp h
    rw [need_doc_eq_ok_iff] at hkept
    exact ⟨user, key, rfl, hkey, by rw [hkept]; rfl, (ok.inj h).symm⟩
  · rintro ⟨user, key, rfl, hkey, hkept, rfl⟩
    obtain ⟨kept, hkept⟩ := Option.isSome_iff_exists.mp hkept
    refine bind_eq_ok_iff.mpr ⟨key, need_doc_eq_ok_iff.mpr hkey, ?_⟩
    exact bind_eq_ok_iff.mpr ⟨kept, need_doc_eq_ok_iff.mpr hkept, rfl⟩

theorem isPresent_of_get? {user : Document} (h : user.get? name = some v) :
    (doc user).isPresent := by
  cases user with
  | nil => cases h
  | cons m user => rfl

theorem isPresent_of_visible (h : visible v = .ok shown) : v.isPresent ∧ shown.isPresent := by
  obtain ⟨user, key, rfl, hkey, -, rfl⟩ := visible_eq_ok_iff.mp h
  exact ⟨isPresent_of_get? hkey, isPresent_of_get? (get?_id_shownMembers user key)⟩

theorem found_null : found .null = .ok .null := rfl

theorem accept_null (a : Accounts) (password : Value) : accept a password .null = .ok .null := rfl

theorem found_eq_ok_iff (hshown : shown.isPresent) : found v = .ok shown ↔ visible v = .ok shown := by
  rw [found]
  split
  · rfl
  case isFalse hv =>
    refine ⟨fun h => ?_, fun h => absurd (isPresent_of_visible h).1 hv⟩
    rw [← ok.inj h] at hshown
    cases hshown

theorem asText_eq_ok_iff {operation s : String} : v.asText operation = .ok s ↔ v = .text s := by
  cases v with
  | text t => exact ⟨fun h => congrArg _ (ok.inj h), fun h => congrArg _ (text.inj h)⟩
  | _ => exact ⟨nofun, nofun⟩

theorem accept_eq_ok_iff {password : Value} (hshown : shown.isPresent) :
    accept a password v = .ok shown ↔ visible v = .ok shown ∧ ∃ secret user kept, password = .text secret ∧
      v = .doc user ∧ get? user "password" = some kept ∧ a.passwords.fits secret kept = .ok true ∧
      ∀ active, get? user "is_active" = some active → active.isPresent := by
  have hnull : (ok null : Except Fault Value) ≠ .ok shown := by
    intro h
    rw [← ok.inj h] at hshown
    cases hshown
  rw [accept]
  constructor
  · intro h
    split at h
    · exact absurd h hnull
    obtain ⟨kept, hneed, h⟩ := bind_eq_ok_iff.mp h
    obtain ⟨user, rfl, hkept⟩ := need_eq_ok_iff.mp hneed
    obtain ⟨secret, hsecret, h⟩ := bind_eq_ok_iff.mp h
    obtain ⟨fits, hfits, h⟩ := bind_eq_ok_iff.mp h
    cases fits with
    | false => exact absurd h hnull
    | true =>
      obtain ⟨active, hactive, h⟩ := bind_eq_ok_iff.mp h
      split at h
      case isFalse => exact absurd h hnull
      case isTrue hpresent =>
        refine ⟨h, secret, user, kept, asText_eq_ok_iff.mp hsecret, rfl, hkept, hfits, fun v hv => ?_⟩
        rw [memberOr, hv] at hactive
        rw [← ok.inj hactive] at hpresent
        exact hpresent
  · rintro ⟨hvisible, secret, user, kept, rfl, rfl, hkept, hfits, hactive⟩
    have hmember : (doc user).memberOr "is_active" (.bool true) =
        .ok ((get? user "is_active").getD (.bool true)) := rfl
    have hpresent : ((get? user "is_active").getD (.bool true)).isPresent := by
      cases hget : get? user "is_active" with
      | none => rfl
      | some active => exact hactive active hget
    rw [if_neg (by rw [isPresent_of_get? hkept]; exact Bool.false_ne_true)]
    refine bind_eq_ok_iff.mpr ⟨kept, need_doc_eq_ok_iff.mpr hkept, ?_⟩
    refine bind_eq_ok_iff.mpr ⟨secret, rfl, bind_eq_ok_iff.mpr ⟨true, hfits, ?_⟩⟩
    refine bind_eq_ok_iff.mpr ⟨_, hmember, ?_⟩
    rw [if_pos hpresent]
    exact hvisible

/-! ### Looking a user up -/

/-- What a program that gives null for a fault gives. -/
def valueOrNull : Except Fault Value → Value
  | .ok v => v
  | .error _ => .null

theorem runs_orNull {x : Access Value} {outcome : Except Fault Value} {made : List Call}
    (hx : Access.Runs x session outcome made) :
    Access.Runs (orNull x) session (.ok (valueOrNull outcome)) made := by
  cases outcome with
  | ok v => exact hx.tryCatch _
  | error fault =>
    rw [← List.append_nil made]
    exact hx.caught (.pure _)

/-- The user that a reply hands out. -/
def userOf (f : Value → Except Fault Value) (reply : Option Reply) : Value :=
  valueOrNull (Access.replied .null reply >>= f)

theorem userOf_eq_iff {f : Value → Except Fault Value} (hnull : f .null = .ok .null)
    {reply : Option Reply} (hshown : shown.isPresent) :
    userOf f reply = shown ↔ ∃ v, reply = some (.value v) ∧ f v = .ok shown := by
  have hne : null ≠ shown := by
    rintro rfl
    cases hshown
  constructor
  · intro h
    rcases reply with _ | v | fault
    · have hnone : valueOrNull (f .null) = shown := h
      rw [hnull] at hnone
      exact absurd hnone hne
    · have hvalue : valueOrNull (f v) = shown := h
      refine ⟨v, rfl, ?_⟩
      cases hf : f v with
      | error fault =>
        rw [hf] at hvalue
        exact absurd hvalue hne
      | ok w =>
        rw [hf] at hvalue
        exact congrArg _ hvalue
    · exact absurd h hne
  · rintro ⟨v, rfl, hf⟩
    show valueOrNull (f v) = shown
    rw [hf]
    rfl

theorem runs_byIdentity {key : ObjectId} (hkey : readIdentity subject = .ok key) :
    Access.Runs (byIdentity a subject) session
      (.ok (userOf found (session.server session.calls (.findOne a.users [("_id", .id key)]))))
      [.findOne a.users [("_id", .id key)]] :=
  runs_orNull (.lift_bind hkey ((Access.Runs.replied _ _).bind_lift found))

theorem runs_byIdentity_error {fault : Fault} (hkey : readIdentity subject = .error fault) :
    Access.Runs (byIdentity a subject) session (.ok .null) [] :=
  runs_orNull (.error_bind hkey _)

theorem runs_authenticate (a : Accounts) (session : Session) (login password : Value) :
    Access.Runs (authenticate a login password) session
      (.ok (userOf (accept a password) (session.server session.calls (.findOne a.users (loginFilter login)))))
      [.findOne a.users (loginFilter login)] :=
  runs_orNull ((Access.Runs.replied _ _).bind_lift (accept a password))

end SqlGateway.Account
