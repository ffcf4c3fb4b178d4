import Mathlib.Data.List.Forall2
import SqlGateway.Account.Reset
import SqlGateway.Proofs.Account.User
import SqlGateway.Proofs.Store.Pair

/-!
# Two stores with different passwords

Two servers reply the same, but users may have other passwords, which `V` relates (`SameButPasswords a V`).
**What is handed out has no password** (`Hidden`), and it is the same for users that are alike.
-/

namespace SqlGateway.Account

open Store Document Value Except

/-! ### Users that are alike -/

/-- Two members are the same, or they are two passwords. -/
inductive MemberAlike (V : Value → Value → Prop) : String × Value → String × Value → Prop
  | same (name : String) (v : Value) : MemberAlike V (name, v) (name, v)
  | password {kept kept' : Value} (h : V kept kept') : MemberAlike V ("password", kept) ("password", kept')

/-- Two users are the same but for the password. -/
inductive UserAlike (V : Value → Value → Prop) : Value → Value → Prop
  | same (v : Value) : UserAlike V v v
  | doc {d d' : Document} (h : List.Forall₂ (MemberAlike V) d d') : UserAlike V (.doc d) (.doc d')

/-- Two lists of users are the same but for the passwords. -/
inductive UsersAlike (V : Value → Value → Prop) : Value → Value → Prop
  | same (v : Value) : UsersAlike V v v
  | list {items items' : List Value} (h : List.Forall₂ (UserAlike V) items items') :
      UsersAlike V (.list items) (.list items')

inductive ReplyAlike (S : Value → Value → Prop) : Option Reply → Option Reply → Prop
  | same (reply : Option Reply) : ReplyAlike S reply reply
  | value {v v' : Value} (h : S v v') : ReplyAlike S (some (.value v)) (some (.value v'))

/-- Two replies to a call are the same but for the passwords of users. -/
inductive SameButPasswords (a : Accounts) (V : Value → Value → Prop) : ReplyRelation
  | user (filter : Document) {reply reply' : Option Reply} (h : ReplyAlike (UserAlike V) reply reply') :
      SameButPasswords a V (.findOne a.users filter) reply reply'
  | users (filter projection : Value) {reply reply' : Option Reply}
      (h : ReplyAlike (UsersAlike V) reply reply') :
      SameButPasswords a V (.find a.users filter projection) reply reply'
  | same (call : Call) (reply : Option Reply) : SameButPasswords a V call reply reply

/-- A value is no document with a password. -/
def Hidden : Value → Prop
  | .doc d => get? d "password" = none
  | _ => True

/-- Users that are searched without their passwords are found without them. -/
def LeavesPasswordsOut (a : Accounts) (call : Call) (reply : Option Reply) : Prop :=
  ∀ filter items, call = .find a.users filter (.doc [("password", .int 0)]) →
    reply = some (.value (.list items)) → ∀ v ∈ items, Hidden v

/-- The relation that the replies of the two servers have. -/
def Veils (a : Accounts) (V : Value → Value → Prop) : ReplyRelation := fun call reply reply' =>
  SameButPasswords a V call reply reply' ∧ LeavesPasswordsOut a call reply

variable {name : String}

section

variable {V : Value → Value → Prop} {d d' : Document}

section

variable (h : List.Forall₂ (MemberAlike V) d d')
include h

theorem get?_of_alike (hname : name ≠ "password") :
    d.get? name = d'.get? name := by
  induction h with
  | nil => rfl
  | cons hm _ ih =>
    cases hm with
    | same =>
      rw [get?_cons, get?_cons, ih]
    | password => rw [get?_cons, get?_cons, if_neg hname, if_neg hname, ih]

/-- Of users that are alike, both have a password or none has, and two passwords are the same or related. -/
theorem get?_password_of_alike :
    d.get? "password" = d'.get? "password" ∨
      ∃ kept kept', d.get? "password" = some kept ∧ d'.get? "password" = some kept' ∧ V kept kept' := by
  induction h with
  | nil => exact .inl rfl
  | cons hm _ ih =>
    cases hm with
    | same =>
      rw [get?_cons, get?_cons]
      split
      · exact .inl rfl
      · exact ih
    | password hV =>
      exact .inr ⟨_, _, rfl, rfl, hV⟩

theorem set_of_alike (hname : name ≠ "password")
    (v : Value) : List.Forall₂ (MemberAlike V) (d.set name v) (d'.set name v) := by
  induction h with
  | nil => exact .cons (.same _ _) .nil
  | cons hm hrest ih =>
    cases hm with
    | same =>
      rw [Document.set, Document.set]
      split
      · exact .cons (.same _ _) hrest
      · exact .cons (.same _ _) ih
    | password hV =>
      have hkey : ¬ ("password" == name) := by
        rw [beq_iff_eq]
        exact hname.symm
      rw [Document.set, Document.set, if_neg hkey, if_neg hkey]
      exact .cons (.password hV) ih

theorem erase_password_of_alike :
    d.erase "password" = d'.erase "password" := by
  induction h with
  | nil => rfl
  | cons hm _ ih =>
    rw [erase, erase] at ih ⊢
    cases hm with
    | same => rw [List.filter_cons, List.filter_cons, ih]
    | password => exact ih

theorem eq_of_alike (hd : d.get? "password" = none) : d = d' := by
  induction h with
  | nil => rfl
  | cons hm _ ih =>
    cases hm with
    | same =>
      rw [get?_cons] at hd
      split at hd
      · cases hd
      · rw [ih hd]
    | password => cases hd

end

end

/-! ### Handing users out -/

variable {password : Value}

section

variable {V : Value → Value → Prop} {v v' w : Value}

section

variable (h : UserAlike V v v')
include h

theorem isPresent_of_alike : v.isPresent = v'.isPresent := by
  cases h with
  | same => rfl
  | doc h => cases h <;> rfl

theorem need_of_alike (hname : name ≠ "password") : v.need name = v'.need name := by
  cases h with
  | same => rfl
  | doc h => rw [need, need, get?_of_alike h hname]

theorem need_password_of_alike : v.need "password" = v'.need "password" ∨
      ∃ kept kept', v.need "password" = .ok kept ∧ v'.need "password" = .ok kept' ∧ V kept kept' := by
  cases h with
  | same => exact .inl rfl
  | doc h =>
    rw [need, need]
    rcases get?_password_of_alike h with heq | ⟨kept, kept', hkept, hkept', hV⟩
    · rw [heq]
      exact .inl rfl
    · rw [hkept, hkept']
      exact .inr ⟨kept, kept', rfl, rfl, hV⟩

theorem need_password_bind_of_alike (x : Except Fault Value) :
    (v.need "password" >>= fun _ => x) = v'.need "password" >>= fun _ => x := by
  rcases need_password_of_alike h with heq | ⟨kept, kept', hkept, hkept', -⟩
  · rw [heq]
  · rw [hkept, hkept']
    rfl

theorem visible_of_alike : visible v = visible v' := by
  have hvisible (d : Document) : visible (.doc d) = (doc d).need "_id" >>= fun key =>
      (doc d).need "password" >>= fun _ => .ok (.doc (shownMembers d key)) := rfl
  cases h with
  | same => rfl
  | @doc d d' h =>
    have hshown (key : Value) : shownMembers d key = shownMembers d' key :=
      erase_password_of_alike (set_of_alike h (by decide) _)
    rw [hvisible, hvisible, need_of_alike (.doc h) (by decide)]
    refine congrArg _ (funext fun key => ?_)
    rw [hshown, need_password_bind_of_alike (.doc h)]

theorem found_of_alike : found v = found v' := by
  rw [found, found, isPresent_of_alike h, visible_of_alike h]

/-- Users that are alike are accepted alike, if the verdict on their passwords is the same. -/
theorem accept_of_alike {a : Accounts}
    (hverdict : ∀ secret, password = .text secret → ∀ kept kept', V kept kept' →
      a.passwords.fits secret kept = a.passwords.fits secret kept') :
    accept a password v = accept a password v' := by
  have hactive : v.memberOr "is_active" (.bool true) = v'.memberOr "is_active" (.bool true) := by
    cases h with
    | same => rfl
    | doc h => rw [memberOr, memberOr, get?_of_alike h (by decide)]
  -- Only the verdict on the password is left to compare.
  rw [accept, accept, isPresent_of_alike h, hactive, visible_of_alike h]
  split
  · rfl
  rcases need_password_of_alike h with heq | ⟨kept, kept', hkept, hkept', hV⟩
  · rw [heq]
  · rw [hkept, hkept']
    cases htext : password.asText "encode" with
    | error fault => rfl
    | ok secret =>
      have hfits := hverdict secret (asText_eq_ok_iff.mp htext) kept kept' hV
      show (a.passwords.fits secret kept >>= _) = _
      rw [hfits]
      rfl

end

theorem hidden_visible (h : visible v = .ok w) : Hidden w := by
  obtain ⟨user, key, rfl, -, -, rfl⟩ := visible_eq_ok_iff.mp h
  show (shownMembers user key).get? "password" = none
  rw [shownMembers, get?_erase, if_pos rfl]

theorem hidden_found (h : found v = .ok w) : Hidden w := by
  rw [found] at h
  split at h
  · exact hidden_visible h
  · rw [← ok.inj h]
    trivial

theorem hidden_entry (hv : Hidden v) (h : entry v = .ok w) : Hidden w := by
  obtain ⟨key, hneed, h⟩ := bind_eq_ok_iff.mp h
  obtain ⟨user, rfl, -⟩ := need_eq_ok_iff.mp hneed
  obtain rfl := ok.inj h
  show get? (set user "_id" _) "password" = none
  rw [get?_set, if_neg (by decide)]
  exact hv

theorem hidden_entries {items entries : List Value} (hitems : ∀ v ∈ items, Hidden v)
    (h : items.mapM entry = .ok entries) : ∀ w ∈ entries, Hidden w := by
  intro w hw
  obtain ⟨v, hv, hentry⟩ := exists_of_mem_mapM h w hw
  exact hidden_entry (hitems v hv) hentry

theorem eq_of_usersAlike {items items' : List Value} (h : List.Forall₂ (UserAlike V) items items')
    (hitems : ∀ v ∈ items, Hidden v) : items = items' := by
  induction h with
  | nil => rfl
  | cons hv _ ih =>
    rw [List.forall_mem_cons] at hitems
    rw [ih hitems.2]
    cases hv with
    | same => rfl
    | doc h => rw [eq_of_alike h hitems.1]

end

/-! ### Programs -/

section

open Access

variable {a : Accounts} {V : Value → Value → Prop} (email key : Value) (filter : Document) (place : Place)
  (now : Timestamp)

theorem eq_of_veils {call : Call} (hone : ∀ filter, call ≠ .findOne a.users filter)
    (hmany : ∀ filter projection, call ≠ .find a.users filter projection) (reply reply' : Option Reply)
    (h : Veils a V call reply reply') : reply = reply' := by
  cases h.1 with
  | user filter => exact absurd rfl (hone filter)
  | users filter projection => exact absurd rfl (hmany filter projection)
  | same => rfl

theorem pairs_lookUp :
    Pairs (Veils a V) (Alike (UserAlike V)) (findOne a.users filter) (findOne a.users filter) := by
  refine .ask fun reply reply' h => ?_
  cases h.1 with
  | user _ halike =>
    cases halike with
    | same => exact .refl .same _
    | value hv => exact .ok hv
  | same => exact .refl .same _

theorem pairs_orNull {x : Access Value} {P : Value → Prop} (hx : Pairs (Veils a V) (Alike (Shared P)) x x)
    (hnull : P .null) : Pairs (Veils a V) (Alike (Shared P)) (orNull x) (orNull x) :=
  hx.tryCatch fun _ => .pure (.ok ⟨rfl, hnull⟩)

theorem pairs_found : Pairs (Veils a V) (Alike (Shared Hidden)) (do found (← findOne a.users filter))
      (do found (← findOne a.users filter)) := by
  refine (pairs_lookUp filter).bind fun v v' h => .lift ?_
  rw [found_of_alike h]
  exact .shared fun _ => hidden_found

theorem pairs_byIdentity : Pairs (Veils a V) (Alike (Shared Hidden)) (byIdentity a key) (byIdentity a key) :=
  pairs_orNull (.bind_eq (.reading _) fun _ => pairs_found _) trivial

theorem pairs_byEmail : Pairs (Veils a V) (Alike (Shared Hidden)) (byEmail a email) (byEmail a email) :=
  pairs_orNull (pairs_found _) trivial

theorem pairs_authenticate (login : Value)
    (hverdict : ∀ secret, password = .text secret → ∀ kept kept', V kept kept' →
      a.passwords.fits secret kept = a.passwords.fits secret kept') :
    Pairs (Veils a V) (Alike (Shared fun _ => True)) (authenticate a login password)
      (authenticate a login password) := by
  refine pairs_orNull ((pairs_lookUp _).bind fun v v' h => .lift ?_) trivial
  rw [accept_of_alike h hverdict]
  exact .shared fun _ _ => trivial

/-- What is listed are no documents with passwords. -/
def ListsHidden (users : Value) : Prop :=
  ∀ items, users.items = .ok items → ∀ v ∈ items, Hidden v

theorem listsHidden_of_list {users : Value} (h : ∀ items, users = .list items → ∀ v ∈ items, Hidden v) :
    ListsHidden users := by
  intro items hitems v hv
  cases users with
  | list vs => exact h items (congrArg _ (ok.inj hitems)) v hv
  | doc d =>
    rw [← ok.inj hitems] at hv
    obtain ⟨m, -, rfl⟩ := List.mem_map.mp hv
    trivial
  | text s =>
    rw [← ok.inj hitems] at hv
    obtain ⟨c, -, rfl⟩ := List.mem_map.mp hv
    trivial
  | _ => cases hitems

theorem pairs_listed (filter : Value) :
    Pairs (Veils a V) (Alike (Shared ListsHidden)) (find a.users filter (.doc [("password", .int 0)]))
      (find a.users filter (.doc [("password", .int 0)])) := by
  refine .ask fun reply reply' h => ?_
  have hhidden : ∀ v, replied (.list []) reply = .ok v → ListsHidden v := by
    intro v hv
    refine listsHidden_of_list fun items hitems => ?_
    rcases reply with _ | _ | _
    · rw [← ok.inj hv] at hitems
      rw [← list.inj hitems]
      exact nofun
    · rw [ok.inj hv, hitems] at h
      exact h.2 filter items rfl rfl
    · cases hv
  have heq : reply = reply' := by
    cases h.1 with
    | users _ _ halike =>
      cases halike with
      | same => rfl
      | value hv =>
        cases hv with
        | same => rfl
        | list hitems => rw [eq_of_usersAlike hitems (h.2 filter _ rfl rfl)]
    | same => rfl
  rw [← heq]
  exact .shared hhidden

theorem pairs_allUsers : Pairs (Veils a V) (Alike (Shared fun users => ∀ v ∈ users, Hidden v))
    (allUsers a) (allUsers a) := by
  refine .tryCatch ?_ fun _ => .pure (.ok ⟨rfl, nofun⟩)
  refine (pairs_listed _).bind ?_
  rintro users _ ⟨rfl, husers⟩
  refine .lift (.shared fun entries hentries => ?_)
  obtain ⟨items, hitems, hentries⟩ := bind_eq_ok_iff.mp hentries
  exact hidden_entries (husers items hitems) hentries

/-! ### Programs that change accounts -/

theorem pairs_insertOne (document : Value) :
    Pairs (Veils a V) (Alike Eq) (insertOne place document) (insertOne place document) := by
  have hkey (key : Value) : Pairs (Veils a V) (Alike Eq)
      (pure (key, withIdentity document key) : Access (Value × Value)) (pure (key, withIdentity document key)) :=
    .pure (.ok rfl)
  refine (Pairs.ask?_eq (eq_of_veils (fun _ h => by cases h) fun _ _ h => by cases h)).bind_eq fun key => ?_
  cases key with
  | some key => exact (Pairs.pure (.ok rfl)).bind_eq hkey
  | none =>
    refine Pairs.bind_eq ?_ hkey
    refine (Pairs.reading _).bind_eq fun own => ?_
    split
    · exact .pure (.ok rfl)
    · exact Pairs.issue.bind_eq fun _ => .pure (.ok rfl)

theorem pairs_updateOne (filter update : Document) :
    Pairs (Veils a V) (Alike Eq) (updateOne place filter update) (updateOne place filter update) :=
  (Pairs.ask_eq (eq_of_veils (fun _ h => by cases h) fun _ _ h => by cases h) _).bind_eq fun _ => .reading _

theorem pairs_deleteMany (filter : Value) :
    Pairs (Veils a V) (Alike Eq) (deleteMany place filter) (deleteMany place filter) :=
  .ask_eq (eq_of_veils (fun _ h => by cases h) fun _ _ h => by cases h) _

theorem pairs_findReset : Pairs (Veils a V) (Alike Eq) (findOne a.resets filter) (findOne a.resets filter) :=
  .ask_eq (eq_of_veils (fun _ h => users_ne_resets a (Call.findOne.inj h).1) fun _ _ h => by cases h) _

theorem pairs_digested (password : Value) :
    Pairs (Veils a V) (Alike Eq) (digested a password) (digested a password) :=
  Pairs.calls.bind_eq fun _ => (Pairs.reading _).bind_eq fun _ => .reading _

theorem pairs_createUser (username email password role : Value) :
    Pairs (Veils a V) (Alike (Shared fun created => ∀ user, created = .ok user → Hidden (.doc user)))
      (createUser a now username email password role) (createUser a now username email password role) := by
  refine .tryCatch ?_ fun _ => .pure (.ok ⟨rfl, by rintro _ ⟨⟩⟩)
  refine (pairs_lookUp _).bind fun v v' hv => ?_
  rw [isPresent_of_alike hv]
  split
  · exact .pure (.ok ⟨rfl, by rintro _ ⟨⟩⟩)
  refine (pairs_lookUp _).bind fun w w' hw => ?_
  rw [isPresent_of_alike hw]
  split
  · exact .pure (.ok ⟨rfl, by rintro _ ⟨⟩⟩)
  refine (pairs_digested _).bind_eq fun digest => (pairs_insertOne _ _).bind_eq fun key => ?_
  refine .pure (.ok ⟨rfl, ?_⟩)
  rintro user ⟨⟩
  show get? _ "password" = none
  rw [get?_erase, if_pos rfl]

theorem pairs_changeUser {members : Access Document}
    (hmembers : Pairs (Veils a V) (Alike Eq) members members) (filter : Except Fault Document) :
    Pairs (Veils a V) (Alike Eq) (changeUser a filter members) (changeUser a filter members) := by
  refine .tryCatch (hmembers.bind_eq fun _ => (Pairs.reading _).bind_eq fun _ => ?_) fun _ => .pure (.ok rfl)
  exact (pairs_updateOne _ _ _).bind_eq fun _ => .pure (.ok rfl)

theorem pairs_setPassword (password : Value) :
    Pairs (Veils a V) (Alike Eq) (setPassword a email password) (setPassword a email password) :=
  pairs_changeUser ((pairs_digested _).bind_eq fun _ => .pure (.ok rfl)) _

theorem pairs_requestReset :
    Pairs (Veils a V) (Alike Eq) (requestReset a now email) (requestReset a now email) := by
  refine .tryCatch ?_ fun _ => .pure (.ok rfl)
  refine (Pairs.ask_eq (eq_of_veils (fun _ h => by cases h) fun _ _ h => by cases h) _).bind_eq fun _ => ?_
  refine (Pairs.reading _).bind_eq fun _ => ?_
  exact (pairs_deleteMany _ _).bind_eq fun _ => (pairs_insertOne _ _).bind_eq fun _ => .pure (.ok rfl)

theorem pairs_failedAttempts :
    Pairs (Veils a V) (Alike Eq) (failedAttempts a email) (failedAttempts a email) := by
  refine .tryCatch ((pairs_findReset _).bind_eq fun request => ?_) fun _ => .pure (.ok rfl)
  split
  · exact .reading _
  · exact .pure (.ok rfl)

theorem pairs_verifyCode (code : Value) :
    Pairs (Veils a V) (Alike Eq) (verifyCode a now email code) (verifyCode a now email code) := by
  refine .tryCatch ((pairs_findReset _).bind_eq fun request => ?_) fun _ => .pure (.ok rfl)
  split
  · refine (Pairs.reading _).bind_eq fun _ => ?_
    exact (pairs_updateOne _ _ _).bind_eq fun _ => .pure (.ok rfl)
  · exact (pairs_updateOne _ _ _).bind_eq fun _ => .pure (.ok rfl)

theorem pairs_removeRequests : Pairs (Veils a V) (Alike Eq) (removeRequests a email) (removeRequests a email) :=
  (pairs_deleteMany _ _).bind_eq fun _ => .pure (.ok rfl)

end

end SqlGateway.Account
