import SqlGateway.Proofs.Store.Matching
import SqlGateway.Proofs.Store.Runs

/-!
# Plain collections

A plain collection is kept as one expects it (`Plain`): a search finds the first record that a filter selects,
an added record gets an identity of its own, and an update changes the first record.  Only some comparisons
are fixed (`Filter.Semantics`), and there is such a server (`plain_plainServer`).
-/

namespace SqlGateway

open List

/-! ### What a filter selects -/

namespace Timestamp

def parts (t : Timestamp) : List Nat :=
  [t.year, t.month, t.day, t.hour, t.minute, t.second, t.micro]

/-- Whether a point in time lies before another. -/
def isBefore (s t : Timestamp) : Bool :=
  decide (s.parts < t.parts)

end Timestamp

namespace Filter

/-- Whether a value states conditions: it is a document of operators, as its first name tells. -/
def isCondition : Value → Bool
  | .doc ((name, _) :: _) => isOperator name
  | _ => false

/-- How a store compares the value of a field, if it is there, with what a filter asks for. -/
structure Semantics where
  /-- Whether the field counts as equal to a value. -/
  same : Option Value → Value → Bool
  /-- Whether an operator holds between the field and its operand. -/
  holds : String → Option Value → Value → Bool
  same_text : ∀ s w, same (some (.text s)) w = (w == .text s)
  same_bool : ∀ b w, same (some (.bool b)) w = (w == .bool b)
  same_id : ∀ key w, same (some (.id key)) w = (w == .id key)
  holds_ne : ∀ s w, holds "$ne" (some (.text s)) w = (w != .text s)
  holds_gt : ∀ s t, holds "$gt" (some (.time s)) (.time t) = t.isBefore s

namespace Semantics

variable (S : Semantics)

/-- Whether a field is as a member of a filter asks. -/
def satisfies (v : Option Value) : Value → Bool
  | .doc members =>
    if isCondition (.doc members) then members.all fun m => S.holds m.1 v m.2
    else S.same v (.doc members)
  | w => S.same v w

/-- Whether a filter selects a document: its members name fields, all of which have to be as they ask. -/
def selects (filter d : Document) : Bool :=
  filter.all fun m => S.satisfies (d.get? m.1) m.2

variable {S}

theorem satisfies_of_plain {w : Value} (h : isCondition w = false) (v : Option Value) :
    S.satisfies v w = S.same v w := by
  cases w with
  | doc members => rw [satisfies, h, if_neg Bool.false_ne_true]
  | _ => rfl

/-- The plain semantics: equality is that of values, and operators hold as for other filters. -/
def plain : Semantics where
  same v w := v == some w
  holds operator v w := match operator, v, w with
    | "$gt", some (.time s), .time t => t.isBefore s
    | _, v, w => Filter.holds operator (Value.ofOption v) w
  same_text s w := by rw [Option.some_beq_some, Bool.beq_comm]
  same_bool b w := by rw [Option.some_beq_some, Bool.beq_comm]
  same_id key w := by rw [Option.some_beq_some, Bool.beq_comm]
  holds_ne s w := by
    show (Value.text s != w) = _
    rw [bne, bne, Bool.beq_comm]
  holds_gt _ _ := rfl

end Semantics

end Filter

namespace Store

open SqlGateway.Filter

/-! ### Records -/

/-- A record of a collection.  Its identity never changes. -/
structure Record where
  key : ObjectId
  members : Document
  deriving DecidableEq

def Record.document (record : Record) : Document :=
  ("_id", .id record.key) :: record.members

/-- A field with a number added to it. -/
def increased : Option Value → Value → Value
  | some (.int m), .int n => .int (m + n)
  | some v, _ => v
  | none, w => w

/-- Changes a field as an operator says. -/
def amendField (operator : String) (d : Document) (m : String × Value) : Document :=
  if operator = "$set" then d.set m.1 m.2
  else if operator = "$inc" then d.set m.1 (increased (d.get? m.1) m.2)
  else d

def amend (update d : Document) : Document :=
  update.foldl (fun d part =>
    match part.2 with
    | .doc members => members.foldl (amendField part.1) d
    | _ => d) d

/-- Changes the first item with a property. -/
def modifyFirst {α : Type} (p : α → Bool) (f : α → α) : List α → List α
  | [] => []
  | a :: l => if p a then f a :: l else a :: modifyFirst p f l

theorem modifyFirst_of_find?_eq_none {α : Type} {p : α → Bool} {f : α → α} {l : List α}
    (h : l.find? p = none) : modifyFirst p f l = l := by
  induction l with
  | nil => rfl
  | cons a l ih =>
    rw [find?_cons] at h
    split at h
    · cases h
    case h_2 hp => rw [modifyFirst, hp, if_neg Bool.false_ne_true, ih h]

theorem map_modifyFirst {α β : Type} {p : α → Bool} {f : α → α} {g : α → β} (hg : ∀ a, g (f a) = g a)
    (l : List α) : (modifyFirst p f l).map g = l.map g := by
  induction l with
  | nil => rfl
  | cons a l ih =>
    rw [modifyFirst]
    split
    · rw [map_cons, map_cons, hg]
    · rw [map_cons, map_cons, ih]

theorem modifyFirst_map {α β : Type} {p : β → Bool} {q : α → Bool} {f : β → β} {h : α → α} {g : α → β}
    (hp : ∀ a, p (g a) = q a) (hg : ∀ a, f (g a) = g (h a)) (l : List α) :
    modifyFirst p f (l.map g) = (modifyFirst q h l).map g := by
  induction l with
  | nil => rfl
  | cons a l ih =>
    rw [map_cons, modifyFirst, modifyFirst, ih, hp, hg]
    split <;> rfl

section

variable (S : Semantics) (place : Place)

/-- The records of a collection after a call.  A record that is added gets the given identity. -/
def change (key : ObjectId) (records : List Record) : Call → List Record
  | .insertOne target (.doc d) => if target = place then records ++ [⟨key, d⟩] else records
  | .deleteMany target (.doc filter) =>
    if target = place then records.filter fun r => !S.selects filter r.document else records
  | .updateOne target filter update =>
    if target = place then
      modifyFirst (fun r => S.selects filter r.document)
        (fun r => { r with members := amend update r.members }) records
    else records
  | _ => records

/-- The records of a collection after some calls, where `key` gives the identity of a record that is added
by the call after some of them. -/
def replay (key : List Call → ObjectId) (records : List Record) : List Call → List Record
  | [] => records
  | call :: later => replay (fun calls => key (call :: calls)) (change S place (key []) records call) later

theorem replay_append (key : List Call → ObjectId) (records : List Record) (made later : List Call) :
    replay S place key records (made ++ later) =
      replay S place (fun calls => key (made ++ calls)) (replay S place key records made) later := by
  induction made generalizing key records with
  | nil => rfl
  | cons call made ih => exact ih _ _

def first? (filter : Document) (records : List Record) : Option Record :=
  records.find? fun r => S.selects filter r.document

def firstFound (filter : Document) (records : List Record) : Value :=
  match first? S filter records with
  | some record => .doc record.document
  | none => .null

/-- From now on, the server of the session keeps a collection with the given records, in the face of
searches for one document, additions, removals and updates of one document. -/
structure Plain (key : List Call → ObjectId) (session : Session) (records : List Record) : Prop where
  findOne : ∀ later filter, session.server (session.calls ++ later) (.findOne place filter) =
    some (.value (firstFound S filter (replay S place key records later)))
  insertOne : ∀ later d, session.server (session.calls ++ later) (.insertOne place (.doc d)) =
    some (.value (.id (key later)))
  fresh : ∀ later, ∀ record ∈ replay S place key records later, record.key ≠ key later
  updateOne : ∀ later filter update, ∃ matched modified : Int,
    session.server (session.calls ++ later) (.updateOne place filter update) =
      some (.value (.list [.int matched, .int modified, .null]))
  deleteMany : ∀ later filter, ∃ count : Int,
    session.server (session.calls ++ later) (.deleteMany place filter) = some (.value (.int count))

variable {S place} {key : List Call → ObjectId} {session : Session} {records : List Record}

/-- **A plain collection stays plain**, with the records as the calls leave them. -/
theorem Plain.after (h : Plain S place key session records) (made : List Call) :
    Plain S place (fun calls => key (made ++ calls)) (session.after made)
      (replay S place key records made) where
  findOne later filter := by
    rw [← replay_append, Session.server_after, Session.calls_after, append_assoc]
    exact h.findOne (made ++ later) filter
  insertOne later d := by
    rw [Session.server_after, Session.calls_after, append_assoc]
    exact h.insertOne (made ++ later) d
  fresh later := by
    rw [← replay_append]
    exact h.fresh (made ++ later)
  updateOne later filter update := by
    rw [Session.server_after, Session.calls_after, append_assoc]
    exact h.updateOne (made ++ later) filter update
  deleteMany later filter := by
    rw [Session.server_after, Session.calls_after, append_assoc]
    exact h.deleteMany (made ++ later) filter

/-! ### A server that keeps a collection -/

theorem key_of_mem_modifyFirst {p : Record → Bool} {f : Record → Record} (hf : ∀ r, (f r).key = r.key)
    {record : Record} : record ∈ modifyFirst p f records → ∃ r ∈ records, r.key = record.key := by
  induction records with
  | nil => intro h; cases h
  | cons r records ih =>
    intro h
    rw [modifyFirst] at h
    split at h
    · rcases mem_cons.mp h with rfl | h
      · exact ⟨r, mem_cons_self, (hf r).symm⟩
      · exact ⟨record, mem_cons_of_mem _ h, rfl⟩
    · rcases mem_cons.mp h with rfl | h
      · exact ⟨record, mem_cons_self, rfl⟩
      · obtain ⟨r', hr', hkey⟩ := ih h
        exact ⟨r', mem_cons_of_mem _ hr', hkey⟩

/-- A call keeps the identities of the records, apart from that of a new record. -/
theorem key_of_mem_change {k : ObjectId} {call : Call} {record : Record}
    (h : record ∈ change S place k records call) : record.key = k ∨ ∃ r ∈ records, r.key = record.key := by
  have hsame : record ∈ records → record.key = k ∨ ∃ r ∈ records, r.key = record.key :=
    fun h => .inr ⟨record, h, rfl⟩
  unfold change at h
  split at h
  · split at h
    · rcases mem_append.mp h with h | h
      · exact hsame h
      · rw [mem_singleton.mp h]
        exact .inl rfl
    · exact hsame h
  · split at h
    · exact hsame (mem_filter.mp h).1
    · exact hsame h
  · split at h
    · refine .inr (key_of_mem_modifyFirst ?_ h)
      exact fun _ => rfl
    · exact hsame h
  · exact hsame h

theorem key_of_mem_replay {calls : List Call} {record : Record}
    (h : record ∈ replay S place key records calls) : (∃ r ∈ records, r.key = record.key) ∨
      ∃ before, before.length < calls.length ∧ record.key = key before := by
  induction calls generalizing key records with
  | nil => exact .inl ⟨record, h, rfl⟩
  | cons call calls ih =>
    rcases ih h with ⟨r, hr, hkey⟩ | ⟨before, hlt, hkey⟩
    · rcases key_of_mem_change hr with hnew | ⟨r', hr', hkey'⟩
      · exact .inr ⟨[], Nat.zero_lt_succ _, hkey ▸ hnew⟩
      · exact .inl ⟨r', hr', hkey'.trans hkey⟩
    · exact .inr ⟨call :: before, Nat.succ_lt_succ hlt, hkey⟩

/-- The identity that is given to the record with a number. -/
def nthKey (n : Nat) : ObjectId :=
  ⟨String.ofList (replicate n 'a')⟩

theorem nthKey_inj {m n : Nat} (h : nthKey m = nthKey n) : m = n := by
  have hlist := String.ofList_injective (ObjectId.mk.inj h)
  simpa using congrArg length hlist

/-- The server that keeps a plain collection, from the given records on, and is another server otherwise.
The records have numbers below `start`. -/
def plainServer (S : Semantics) (place : Place) (other : Server) (start : Nat) (records : List Record) :
    Server := fun before call =>
  match call with
  | .findOne target filter =>
    if target = place then
      some (.value (firstFound S filter
        (replay S place (fun calls => nthKey (start + calls.length)) records before)))
    else other before call
  | .insertOne target (.doc _) =>
    if target = place then some (.value (.id (nthKey (start + before.length)))) else other before call
  | .updateOne target _ _ => if target = place then some (.value nothingUpdated) else other before call
  | .deleteMany target _ => if target = place then some (.value (.int 0)) else other before call
  | _ => other before call

/-- **There is a plain collection with any records.** -/
theorem plain_plainServer (S : Semantics) (place : Place) (other : Server) (start : Nat)
    (records : List Record) (h : ∀ record ∈ records, ∃ n, n < start ∧ record.key = nthKey n) :
    Plain S place (fun calls => nthKey (start + calls.length))
      (.start (plainServer S place other start records)) records where
  findOne later filter := if_pos rfl
  insertOne later d := if_pos rfl
  fresh later record hmem hkey := by
    have hlt : ∃ n, n < start + later.length ∧ record.key = nthKey n := by
      rcases key_of_mem_replay hmem with ⟨r, hr, hrkey⟩ | ⟨before, hbefore, hrkey⟩
      · obtain ⟨n, hn, hrn⟩ := h r hr
        exact ⟨n, by omega, hrkey ▸ hrn⟩
      · exact ⟨start + before.length, by omega, hrkey⟩
    obtain ⟨n, hn, hrn⟩ := hlt
    have := nthKey_inj (hrn.symm.trans hkey)
    omega
  updateOne later filter update := ⟨0, 0, if_pos rfl⟩
  deleteMany later filter := ⟨0, if_pos rfl⟩

end

end Store

end SqlGateway
