import SqlGateway.Proofs.Store.Calls

/-!
# What a connection keeps while calls are made

A connection takes up a database where it is told to (`passes_select`) and where it is opened again
(`passes_reconnect`).  A property that this keeps is kept by all that is done with a connection.
-/

namespace SqlGateway.Store

section

open Connected

variable {I : Connection → Prop} {P : Call → Prop} {R : Passage P} (hnames : ∀ d, P (.collectionNames d))
include hnames

theorem passes_select {name : Value} (h : ∀ c, I c → I { c with database := some name.plain, name := name }) :
    Passes I R (select name) :=
  .connection_bind fun _ _ => .reading_bind fun _ => (Passes.change h).bind fun _ =>
    .access (.ask (hnames _) _)

theorem passes_collections (hreconnect : Passes I R reconnect) (name : Value) :
    Passes I R (collections name) := by
  have hof : Passes I R (collectionsOf name) := by
    rw [collectionsOf]
    split
    · exact .connection_bind fun _ _ => .reading_bind fun _ => .access (.ask (hnames _) _)
    refine .connection_bind fun c _ => ?_
    split
    · exact .throw _
    · exact .pure _
  exact .orElse hof (hreconnect.bind fun _ => .orElse hof (.pure _))

variable (hping : P .ping)
  (h : ∀ c, I c → c.name.isPresent → I { c with database := some c.name.plain })
include hping h

theorem passes_retake : Passes I R (do
    ping
    let name := (← connection).name
    if name.isPresent then let _ ← select name) := by
  refine (Passes.access (.tell hping)).bind fun _ => fun c s hc => ?_
  -- what is read of a connection is the connection that the rest starts from
  show I ((if c.name.isPresent then _ else _ : Connected Unit).run c s).1.2 ∧ R.rel s
    ((if c.name.isPresent then _ else _ : Connected Unit).run c s).2
  split
  case isTrue hpresent =>
    have hselect : Passes (fun d => I d ∧ d.name = c.name) R (do let _ ← select c.name) := by
      refine (passes_select hnames ?_).bind fun _ => .pure _
      rintro d ⟨hd, hname⟩
      rw [← hname] at hpresent ⊢
      exact ⟨h d hd hpresent, rfl⟩
    obtain ⟨⟨hlater, -⟩, hrel⟩ := hselect c s ⟨hc, rfl⟩
    exact ⟨hlater, hrel⟩
  case isFalse => exact ⟨hc, R.refl s⟩

theorem passes_reconnect (hconnect : ∀ address, P (.connect address)) : Passes I R reconnect :=
  .orElse (.connection_bind fun _ _ => (Passes.access (.tell (hconnect _))).bind fun _ =>
    passes_retake hnames hping h) (.pure _)

end

/-! ### The databases that a connection could take up -/

/-- The database in use and the one that a reconnection would take up are among the given ones. -/
structure Knows (D : String → Prop) (c : Connection) : Prop where
  database : ∀ d, c.database = some d → D d
  name : c.name.isPresent → D c.name.plain

namespace Knows

variable {D : String → Prop} {c : Connection}

theorem all (c : Connection) : Knows (fun _ => True) c :=
  ⟨fun _ _ => trivial, fun _ => trivial⟩

theorem selected? (h : Knows D c) {d : String} (hd : c.selected? = some d) : D d := by
  rw [Connection.selected?] at hd
  split at hd
  · cases hd
  · exact h.database d hd

theorem retaken (h : Knows D c) (hpresent : c.name.isPresent) :
    Knows D { c with database := some c.name.plain } :=
  ⟨fun _ hd => Option.some.inj hd ▸ h.name hpresent, h.name⟩

theorem mono {D' : String → Prop} (hD : ∀ d, D d → D' d) (h : Knows D c) : Knows D' c :=
  ⟨fun d hd => hD d (h.database d hd), fun hname => hD _ (h.name hname)⟩

end Knows

theorem keeps_select {D : String → Prop} {P : Call → Prop} {name : Value} (hname : D name.plain)
    (hP : ∀ d, P (.collectionNames d)) : Connected.Keeps (Knows D) P (select name) :=
  passes_select hP fun _ _ => ⟨fun _ hd => Option.some.inj hd ▸ hname, fun _ => hname⟩

end SqlGateway.Store
