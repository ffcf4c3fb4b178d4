import SqlGateway.Account.Permission
import SqlGateway.Proofs.Plan.Operation
import SqlGateway.Proofs.Store.Invariant

/-!
# Which permission the calls of a plan need

**An attempt at a plan leaves the connection alone and makes only calls that need a permission of its
  operation, in the database in use** (`passes_attempt`); so does the plan over all its attempts
  (`keeps_execute`).
-/

namespace SqlGateway.Store

open Account Permission

variable {p : Permission} {plan : Value} {call : Call}

/-- The permission that calls of a kind need, if they touch data. -/
def CallKind.permission? : CallKind → Option Permission
  | find | sort | skip | limit | aggregate | findOne => some .select
  | insertOne | insertMany => some .insert
  | updateMany | updateOne => some .update
  | deleteMany => some .delete
  | createCollection | createIndex => some .createTable
  | drop | dropCollection => some .dropTable
  | connect | ping | databaseNames | collectionNames | describeCollections | indexes => none
  | pause | random => none

def Neutral (call : Call) : Prop :=
  call.kind.permission? = none

/-- The collection that a call reads or writes. -/
def Call.place? : Call → Option Place
  | find place _ _ | sort place _ | skip place _ | limit place _ | aggregate place _ => some place
  | findOne place _ | insertOne place _ | insertMany place _ => some place
  | updateMany place _ _ | updateOne place _ _ | deleteMany place _ => some place
  | createIndex place _ _ _ | indexes place | drop place => some place
  | _ => none

/-- The call touches no data, or it needs the permission and goes to one of the databases. -/
def Within (p : Permission) (D : String → Prop) (call : Call) : Prop :=
  Neutral call ∨ call.kind.permission? = some p ∧ ∀ place, call.place? = some place → D place.database

/-- The call needs the permission, and goes to no other database. -/
def Needs (p : Permission) (database : String) (call : Call) : Prop :=
  call.kind.permission? = some p ∧ ∀ place, call.place? = some place → place.database = database

theorem needs_of_place (target : Place) (hp : call.kind.permission? = some p)
    (hplace : call.place? = some target) : Needs p target.database call := by
  refine ⟨hp, fun place h => ?_⟩
  rw [hplace] at h
  rw [Option.some.inj h]

/-- The calls that ask what there is in a database. -/
def Asks (call : Call) : Prop :=
  call.kind ∈ [.collectionNames, .describeCollections, .indexes]

theorem asks_collectionNames (database : String) : Asks (.collectionNames database) :=
  List.mem_cons_self

theorem neutral_of_asks (h : Asks call) : Neutral call :=
  (by decide : ∀ kind ∈ [CallKind.collectionNames, .describeCollections, .indexes], kind.permission? = none) _ h

/-! ### Operations -/

/-- The permission that the calls of an operation need. -/
def operationPermission? : Value → Option Permission
  | .text "find" | .text "aggregate" => some .select
  | .text "insert" | .text "INSERT_MANY" => some .insert
  | .text "update" => some .update
  | .text "delete" => some .delete
  | .text "create_collection" | .text "create_collection_with_schema" => some .createTable
  | .text "drop_collection" => some .dropTable
  | _ => none

section

open Access

variable {P : Call → Prop} {R : Passage P} (target : Place) (plan : Value)

theorem passes_runFind (hP : ∀ call, Needs .select target.database call → P call) :
    Passes R (runFind target plan) := by
  have hfind : ∀ filter projection, Passes R (find target filter projection) :=
    fun _ _ => .ask (hP _ (needs_of_place _ rfl rfl)) _
  have hsort : ∀ keys, Passes R (sort target keys) := fun _ => .tell (hP _ (needs_of_place _ rfl rfl))
  have hskip : ∀ count, Passes R (skip target count) := fun _ => .tell (hP _ (needs_of_place _ rfl rfl))
  have hlimit : ∀ count, Passes R (limit target count) := fun _ => .tell (hP _ (needs_of_place _ rfl rfl))
  refine .reading_bind fun filter => .reading_bind fun projection =>
    .reading_bind fun keys => .reading_bind fun count => .reading_bind fun left =>
    (hfind _ _).bind fun found => ?_
  extract_lets results limited shortened
  have hresults : ∀ r, Passes R (results r) := fun _ => .reading_bind fun _ => .pure _
  have hlimited : ∀ r, Passes R (limited r) := fun _ => .optional (hlimit _) hresults
  have hshortened : ∀ r, Passes R (shortened r) := fun _ => .optional (hskip _) hlimited
  split
  · exact .reading_bind fun _ => (hsort _).bind hshortened
  · exact hshortened ()

theorem passes_ownIdentity (document : Value) : Passes R (ownIdentity document) := by
  refine .reading_bind fun own => ?_
  split
  · exact .pure _
  · exact Passes.issue.bind fun _ => .pure _

theorem passes_insertOne {target : Place} {document : Value} (hP : P (.insertOne target document)) :
    Passes R (insertOne target document) := by
  refine (Passes.ask? hP).bind fun reply => ?_
  cases reply with
  | none => exact (passes_ownIdentity _).bind fun _ => .pure _
  | some key => exact (Passes.pure _).bind fun _ => .pure _

theorem passes_runInsertMany (hP : ∀ call, Needs .insert target.database call → P call) :
    Passes R (runInsertMany target plan) := by
  have hinsert : ∀ documents, Passes R (insertMany target documents) := by
    intro documents
    refine (Passes.ask? (hP _ (needs_of_place _ rfl rfl))).bind fun reply => ?_
    cases reply with
    | none => exact .reading_bind fun _ => .mapM passes_ownIdentity _
    | some keys => exact .lift _
  refine .reading_bind fun documents => .reading_bind fun count => ?_
  split
  · exact (Passes.pure _).bind fun _ => .pure _
  · exact (hinsert _).bind fun _ => .pure _

theorem passes_runUpdate (hP : ∀ call, Needs .update target.database call → P call) :
    Passes R (runUpdate target plan) := by
  have hupdate : ∀ filter update, Passes R (updateMany target filter update) :=
    fun _ _ => (Passes.ask (hP _ (needs_of_place _ rfl rfl)) _).bind fun _ => .lift _
  exact .reading_bind fun _ => .reading_bind fun _ => .reading_bind fun _ =>
    .reading_bind fun _ => (hupdate _ _).bind fun _ => .pure _

theorem passes_runOperation {operation : Value}
    (hP : ∀ p, operationPermission? operation = some p → ∀ call, Needs p target.database call → P call)
    (collection : Value) : Passes R (runOperation target operation collection plan) := by
  have hask : ∀ {p call}, operationPermission? operation = some p → call.kind.permission? = some p →
      call.place? = some target → P call := fun hp hkind hplace =>
    hP _ hp _ (needs_of_place _ hkind hplace)
  unfold runOperation
  split
  · exact passes_runFind target plan (hP _ rfl)
  · exact .reading_bind fun _ => (Passes.ask (hask rfl rfl rfl) _).bind fun _ =>
      .reading_bind fun _ => .pure _
  · exact .reading_bind fun _ => (passes_insertOne (hask rfl rfl rfl)).bind fun _ => .pure _
  · exact passes_runInsertMany target plan (hP _ rfl)
  · exact passes_runUpdate target plan (hP _ rfl)
  · exact .reading_bind fun _ => (Passes.ask (hask rfl rfl rfl) _).bind fun _ => .pure _
  · exact .pure _
  · exact (Passes.tell (hask rfl rfl rfl)).bind fun _ => .pure _
  · exact .throw _

/-! ### Creating collections -/

theorem passes_addIndexes (hP : ∀ call, Needs .createTable target.database call → P call) (wanted : Value) :
    Passes R (addIndexes target wanted) := by
  have hindex : ∀ keys unique name, Passes R (createIndex target keys unique name) :=
    fun _ _ _ => .ask (hP _ (needs_of_place _ rfl rfl)) _
  have htry : ∀ index, Passes R (tryIndex target index) := fun index =>
    .tryCatch ((Passes.reading_bind fun _ => hindex _ _ _).bind fun _ => .pure _)
      fun _ => .reading_bind fun _ => .pure _
  rw [addIndexes]
  split
  · exact .reading_bind fun _ => (Passes.mapM htry _).bind fun _ => .pure _
  · exact .pure _

theorem needs_createCollection (database : String) (name : Value) (options : Document) :
    Needs .createTable database (.createCollection database name options) :=
  ⟨rfl, fun _ h => by cases h⟩

theorem passes_createNew {database : String} (hasks : ∀ call, Asks call → P call)
    (hP : ∀ call, Needs .createTable database call → P call) (collection options wanted : Value) :
    Passes R (createNew database collection options wanted) := by
  refine .either (.lift _) (.pure _) fun members => (Passes.tell (hP _ (needs_createCollection ..))).bind fun _ =>
    (passes_addIndexes _ hP _).bind fun made => (Passes.ask (hasks _ (asks_collectionNames _)) _).bind fun names =>
    .reading_bind fun validated => .reading_bind fun known => ?_
  extract_lets answer
  split
  · split
    · exact .pure _
    · exact .pure _
  · exact .pure _

end

/-! ### Attempts -/

section

open Connected

variable {P : Call → Prop} {R : Passage P} {c : Connection} {α : Type}

theorem passes_of_alone {I : Connection → Prop} {x : Connected α}
    (h : ∀ c, I c → Passes (· = c) R x) : Passes I R x := by
  intro c s hc
  obtain ⟨hsame, hrel⟩ := h c hc c s rfl
  exact ⟨hsame.symm ▸ hc, hrel⟩

theorem passes_selectedDatabase_bind {f : String → Connected α}
    (hf : ∀ database, c.selected? = some database → Passes (· = c) R (f database)) :
    Passes (· = c) R (selectedDatabase >>= f) := by
  rw [selectedDatabase, bind_assoc]
  refine .connection_bind fun c hc => ?_
  subst hc
  split
  case h_1 database hselected =>
    exact hf database hselected
  case h_2 => exact fun _ s hc => ⟨hc, R.refl s⟩

variable (hasks : ∀ call, Asks call → P call)
include hasks

theorem passes_existing (collection : Value) : Passes (· = c) R (existing collection) := by
  have hschema : Passes (· = c) R (schemaOf collection) := by
    refine .orElse (passes_selectedDatabase_bind fun database _ =>
      (Passes.access (.ask (hasks _ (by simp [Asks, Call.kind])) _)).bind fun reply =>
      .reading_bind fun items => ?_) (.pure _)
    split
    · exact .pure _
    · exact .lift _
  have hindexes : Passes (· = c) R (indexesOf collection) := .orElse (passes_selectedDatabase_bind fun _ _ =>
      (Passes.access (.ask (hasks _ (by simp [Asks, Call.kind])) _)).bind fun _ => .lift _) (.pure _)
  exact hschema.bind fun _ => hindexes.bind fun _ => .pure _

theorem passes_createWithSchema (hP : ∀ database, c.selected? = some database →
      ∀ call, Needs .createTable database call → P call) (collection options wanted : Value) :
    Passes (· = c) R (createWithSchema collection options wanted) := by
  refine passes_selectedDatabase_bind fun database hselected =>
    (Passes.access (.ask (hasks _ (asks_collectionNames _)) _)).bind fun names =>
    .reading_bind fun known => ?_
  split
  · exact passes_existing hasks collection
  · exact .access (passes_createNew hasks (hP database hselected) _ _ _)

/-- The permissions that the calls of a plan need: that of its operation, and one more for a sample document
of a new collection. -/
def Uses (plan : Value) (p : Permission) : Prop :=
  ∃ operation, plan.member "operation" = .ok operation ∧ (operationPermission? operation = some p ∨
    operation = .text "create_collection_with_schema" ∧ p = .insert ∧
      ∃ sample, plan.member "sample_document" = .ok sample ∧ sample.isPresent)

/-- **An attempt leaves the connection alone** and makes calls that need a permission of the plan. -/
theorem passes_attempt (hP : ∀ database, c.selected? = some database →
      ∀ p, Uses plan p → ∀ call, Needs p database call → P call) (collection : Value) :
    Passes (· = c) R (attempt collection plan) := by
  refine .connection_bind fun c hc => ?_
  subst hc
  split
  case h_1 => exact .throw _
  case h_2 database hselected =>
    refine .lift_bind fun operation hoperation => ?_
    have huses : ∀ p, operationPermission? operation = some p → ∀ call, Needs p database call → P call :=
      fun p hp => hP database hselected p ⟨operation, hoperation, .inl hp⟩
    split
    case isTrue hschema =>
      rw [beq_iff_eq] at hschema
      subst hschema
      have hcreate : ∀ d, c.selected? = some d → ∀ call, Needs .createTable d call → P call :=
        fun d hd => hP d hd _ ⟨_, hoperation, .inl rfl⟩
      refine .reading_bind fun options => .reading_bind fun wanted =>
        (passes_createWithSchema hasks hcreate _ _ _).bind fun answer => .lift_bind fun sample hsample => ?_
      split
      case isTrue hpresent =>
        have hinsert : ∀ d, c.selected? = some d → ∀ call, Needs .insert d call → P call :=
          fun d hd => hP d hd _ ⟨_, hoperation, .inr ⟨rfl, rfl, sample, hsample, hpresent⟩⟩
        refine Passes.bind (.tryCatch (passes_selectedDatabase_bind fun d hd => (Passes.access
          (passes_insertOne (hinsert d hd _ (needs_of_place (place d collection) rfl rfl)))).bind fun _ => .pure _)
          fun _ => .pure _) fun _ => .pure _
      case isFalse => exact .pure _
    case isFalse =>
      refine (Passes.access (.ask (hasks _ (asks_collectionNames _)) _)).bind fun names =>
        .reading_bind fun known => ?_
      split
      case isTrue hnew =>
        rw [Bool.and_eq_true, beq_iff_eq] at hnew
        have hcreate : ∀ options, P (.createCollection database collection options) := fun _ =>
          huses .createTable (by rw [hnew.2]; rfl) _ (needs_createCollection ..)
        exact .reading_bind fun _ => .reading_bind fun _ =>
          (Passes.access (.tell (hcreate _))).bind fun _ => .pure _
      case isFalse => exact .access (passes_runOperation _ _ huses collection)

end

/-! ### Plans -/

section

open Connected

variable {D : String → Prop} {kind : String}

theorem keeps_reconnect_neutral : Keeps (Knows D) Neutral reconnect :=
  passes_reconnect (fun _ => rfl) rfl (fun _ => Knows.retaken) fun _ => rfl

section

variable (hp : forStatement? (.text kind) = some p)
include hp

theorem operationPermission?_of_mem {operation : String} {q : Permission}
    (hoperation : operation ∈ Plan.operationsOf kind)
    (hq : operationPermission? (.text operation) = some q) : q = p := by
  have htable : ∀ kind ∈ ["SELECT", "INSERT", "UPDATE", "DELETE", "CREATE", "DROP"],
      ∀ operation ∈ Plan.operationsOf kind, (operationPermission? (.text operation)).all
        (fun q => forStatement? (.text kind) = some q) := by decide
  have hkind : kind ∈ ["SELECT", "INSERT", "UPDATE", "DELETE", "CREATE", "DROP"] := by
    unfold forStatement? at hp
    split at hp <;> simp_all
  have hsame := htable kind hkind operation hoperation
  rw [hq, Option.all_some, decide_eq_true_eq, hp] at hsame
  exact (Option.some.inj hsame).symm

theorem keeps_attempt (hplan : Plan.Serves kind plan)
    (collection : Value) : Keeps (Knows D) (Within p D) (attempt collection plan) := by
  obtain ⟨members, operation, rfl, hget, hoperation, hsample⟩ := hplan
  refine passes_of_alone fun c hc => passes_attempt (fun _ h => .inl (neutral_of_asks h))
    (fun database hselected q hq call hneeds => ?_) collection
  obtain ⟨named, hnamed, hq⟩ := hq
  obtain rfl : named = .text operation := by
    rw [Value.member, Document.get, hget] at hnamed
    exact (Except.ok.inj hnamed).symm
  rcases hq with hq | ⟨hschema, -, sample, hmember, hpresent⟩
  · obtain rfl := operationPermission?_of_mem hp hoperation hq
    exact .inr ⟨hneeds.1, fun place h => hneeds.2 place h ▸ hc.selected? hselected⟩
  · -- there is no sample document
    obtain rfl : Document.get members "sample_document" = sample := Except.ok.inj hmember
    rw [hsample (Value.text.inj hschema)] at hpresent
    cases hpresent

/-- **A plan makes only neutral calls and those that its statement permits**, in databases that the
connection knows. -/
theorem keeps_execute (hplan : Plan.Serves kind plan)
    (collection : Value) : Keeps (Knows D) (Within p D) (execute collection plan) :=
  .retrying (keeps_attempt hp hplan collection) (keeps_reconnect_neutral.mono fun _ => .inl)
    (fun _ => .inl rfl) attemptLimit

end

end

end SqlGateway.Store
