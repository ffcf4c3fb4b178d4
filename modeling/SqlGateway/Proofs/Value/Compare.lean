import SqlGateway.Proofs.Value.Document
import SqlGateway.Value.Compare

/-!
# Values that are alike

Steps through items and members lead to the places of a value.  Two values are alike **iff they look the same
at every place** (`alike_iff`), and every law of likeness is one of looks (`alike_laws`).
-/

namespace SqlGateway.Value

open List Document

inductive Step where
  | item (index : Nat)
  | member (name : String)

def behind : Step → Value → Option Value
  | .item i, .list vs => vs[i]?
  | .member name, .doc d => get? d name
  | _, _ => none

/-- The value at a place. -/
def at? : List Step → Value → Option Value
  | [], v => some v
  | s :: way, v => (behind s v).bind (at? way)

/-- A value without what it holds. -/
def face : Value → Value
  | .list _ => .list []
  | .doc _ => .doc []
  | v => v

/-- Every document in the value names each of its members once. -/
def Proper (v : Value) : Prop :=
  ∀ way d, at? way v = some (.doc d) → (names d).Nodup

def NanFree (v : Value) : Prop :=
  ∀ way x, at? way v = some (.float x) → x.isNaN = false

/-- The members of documents stand in another order, at any depth. -/
inductive Reordered : Value → Value → Prop
  | same (v : Value) : Reordered v v
  | list {vs ws : List Value} (h : ∀ i : Nat, Option.Rel Reordered vs[i]? ws[i]?) :
      Reordered (.list vs) (.list ws)
  | doc {d e : Document} (hnames : d.names.Perm e.names)
      (h : ∀ name, Option.Rel Reordered (d.get? name) (e.get? name)) : Reordered (.doc d) (.doc e)

variable {u v w : Value} {vs ws : List Value} {d e : Document} {s : Step} {name : String}
  {R : Value → Value → Prop}

/-! ### One step -/

theorem alikeItems_iff : alikeItems vs ws ↔ ∀ i : Nat, Option.Rel (alike · ·) vs[i]? ws[i]? := by
  induction vs generalizing ws with
  | nil =>
    cases ws with
    | nil => simp [alikeItems]
    | cons w ws =>
      refine ⟨fun h => ?_, fun h => ?_⟩
      · cases h
      · cases h 0
  | cons v vs ih =>
    cases ws with
    | nil =>
      refine ⟨fun h => ?_, fun h => ?_⟩
      · cases h
      · cases h 0
    | cons w ws =>
      rw [alikeItems, Bool.and_eq_true, ih, ← Option.rel_some_some (r := fun v w => alike v w)]
      exact Nat.and_forall_add_one (p := fun i => Option.Rel _ (v :: vs)[i]? (w :: ws)[i]?)

theorem alikeMembers_iff :
    alikeMembers d e ↔ ∀ m ∈ d, ∃ w, e.get? m.1 = some w ∧ alike m.2 w := by
  induction d with
  | nil => simp [alikeMembers]
  | cons m d ih =>
    obtain ⟨name, v⟩ := m
    rw [alikeMembers, Bool.and_eq_true, ih, forall_mem_cons]
    cases e.get? name <;> simp

theorem mem_of_get? (h : d.get? name = some v) : (name, v) ∈ d := by
  obtain ⟨l, r, rfl, -⟩ := lookup_eq_some_iff.mp h
  simp

theorem get?_of_mem (hd : d.names.Nodup) (h : (name, v) ∈ d) : d.get? name = some v := by
  obtain ⟨l, r, rfl⟩ := append_of_mem h
  refine lookup_eq_some_iff.mpr ⟨l, r, rfl, fun p hp => ?_⟩
  rw [names, map_append, nodup_append] at hd
  simpa using (hd.2.2 _ (mem_map_of_mem hp) name (by simp)).symm

theorem rel_iff {o o' : Option Value} :
    Option.Rel R o o' ↔ o.isSome = o'.isSome ∧ ∀ v ∈ o, ∀ w ∈ o', R v w := by
  cases o <;> cases o' <;> simp

theorem alike_doc_iff (hd : d.names.Nodup) :
    alike (.doc d) (.doc e) ↔ ∀ name, Option.Rel (alike · ·) (d.get? name) (e.get? name) := by
  rw [alike, Bool.and_eq_true, all_eq_true, alikeMembers_iff]
  refine ⟨fun h name => ?_, fun h => ⟨fun m hm => ?_, fun m hm => ?_⟩⟩
  · cases hv : d.get? name with
    | some v =>
      obtain ⟨w, hw, hvw⟩ := h.2 (name, v) (mem_of_get? hv)
      rw [hw]
      exact .some hvw
    | none =>
      cases hw : e.get? name with
      | none => exact .none
      | some w => simpa [has, hv] using h.1 (name, w) (mem_of_get? hw)
  · exact (rel_iff.mp (h m.1)).1.trans (lookup_isSome_iff.mpr ⟨m, hm, beq_self_eq_true m.1⟩)
  · obtain ⟨hsome, hrel⟩ := rel_iff.mp (h m.1)
    have hv := get?_of_mem hd hm
    obtain ⟨w, hw⟩ := Option.isSome_iff_exists.mp (hsome.symm.trans (Option.isSome_of_eq_some hv))
    exact ⟨w, hw, hrel _ hv _ hw⟩

/-- The faces of values that are alike. -/
def Same : Value → Value → Prop
  | .float x, .float y => x.equal y
  | v, w => v = w

/-- **One step**: two values are alike iff they look the same and what lies behind each step is alike. -/
theorem alike_iff_behind (hv : v.Proper) : alike v w ↔
    Same v.face w.face ∧ ∀ s, Option.Rel (alike · ·) (behind s v) (behind s w) := by
  cases v with
  | list vs =>
    cases w with
    | list ws =>
      rw [alike, alikeItems_iff]
      refine ⟨fun h => ⟨rfl, fun s => ?_⟩, fun h i => h.2 (.item i)⟩
      cases s with
      | item i => exact h i
      | member => exact .none
    | _ => simp [alike, Same, face]
  | doc d =>
    cases w with
    | doc e =>
      rw [alike_doc_iff (hv [] d rfl)]
      refine ⟨fun h => ⟨rfl, fun s => ?_⟩, fun h name => h.2 (.member name)⟩
      cases s with
      | item => exact .none
      | member name => exact h name
    | _ => simp [alike, Same, face]
  | _ => cases w <;> simp [alike, Same, face, behind]

/-! ### All places -/

theorem Proper.behind (h : v.Proper) (hu : behind s v = some u) : u.Proper :=
  fun way d hd => h (s :: way) d (by rw [at?, hu]; exact hd)

theorem sizeOf_behind (h : behind s v = some u) : sizeOf u < sizeOf v := by
  cases s <;> cases v <;> simp only [behind, reduceCtorEq] at h
  case item.list i vs =>
    have := sizeOf_lt_of_mem (mem_of_getElem? h)
    simp
    omega
  case member.doc name d =>
    have := sizeOf_lt_of_mem (mem_of_get? h)
    simp at this ⊢
    omega

/-- What holds of values, and then of what lies behind each step, holds at all places. -/
theorem rel_at? {P : Value → Value → Prop} (hstep : ∀ {v w}, v.Proper → R v w →
      P v.face w.face ∧ ∀ s, Option.Rel R (behind s v) (behind s w)) (hv : v.Proper) (h : R v w)
    (way : List Step) : Option.Rel (fun v w => P v.face w.face) (at? way v) (at? way w) := by
  induction way generalizing v w with
  | nil => exact .some (hstep hv h).1
  | cons s way ih =>
    have hrel := (hstep hv h).2 s
    rw [at?, at?]
    generalize hv' : behind s v = o, behind s w = o' at hrel
    cases hrel with
    | none => exact .none
    | some h => exact ih (hv.behind hv') h

/-- The two values look the same at every place. -/
def LookAlike (v w : Value) : Prop :=
  ∀ way, Option.Rel (fun v w => Same v.face w.face) (at? way v) (at? way w)

theorem alike_of_lookAlike {v w : Value} (hv : v.Proper) (h : LookAlike v w) : alike v w := by
  refine (alike_iff_behind hv).mpr ⟨by simpa [at?] using h [], fun s => rel_iff.mpr ⟨?_, ?_⟩⟩
  · simpa [at?] using (rel_iff.mp (h [s])).1
  · intro v' hv' w' hw'
    have hbehind : LookAlike v' w' := fun way => by
      simpa [at?, Option.mem_def.mp hv', Option.mem_def.mp hw'] using h (s :: way)
    exact alike_of_lookAlike (hv.behind hv') hbehind
  termination_by sizeOf v
  decreasing_by exact sizeOf_behind hv'

/-- **Likeness is looking the same at every place.** -/
theorem alike_iff (hv : v.Proper) : alike v w ↔ LookAlike v w :=
  ⟨rel_at? (fun hv h => (alike_iff_behind hv).mp h) hv, alike_of_lookAlike hv⟩

/-! ### Laws -/

theorem same_face_iff : Same v.face v.face ↔ ∀ x, v = .float x → x.isNaN = false := by
  cases v <;> simp [Same, face, Double.equal]

theorem Same.symm (h : Same v w) : Same w v := by
  cases v with
  | float x =>
    cases w with
    | float y => simp only [Same, Double.equal] at h ⊢; grind
    | _ => cases h
  | _ => cases h; rfl

theorem Same.trans (h : Same u v) (h' : Same v w) : Same u w := by
  cases u with
  | float x =>
    cases v with
    | float y =>
      cases w with
      | float z => simp only [Same, Double.equal] at h h' ⊢; grind
      | _ => cases h'
    | _ => cases h
  | _ => cases h; exact h'

theorem Same.kind (h : Same v.face w.face) : v.kind = w.kind := by
  cases v <;> cases w <;> first | rfl | cases h

theorem LookAlike.symm (h : LookAlike v w) : LookAlike w v := fun way =>
  rel_iff.mpr ⟨(rel_iff.mp (h way)).1.symm, fun _ hw _ hv => ((rel_iff.mp (h way)).2 _ hv _ hw).symm⟩

theorem LookAlike.trans (h : LookAlike u v) (h' : LookAlike v w) : LookAlike u w := by
  intro way
  have hu := h way
  have hv := h' way
  generalize at? way u = a, at? way v = b, at? way w = c at hu hv
  cases hu with
  | none => exact hv
  | some hsame => cases hv with | some hsame' => exact .some (hsame.trans hsame')

theorem lookAlike_self_iff : LookAlike v v ↔ v.NanFree := by
  refine forall_congr' fun way => ?_
  cases at? way v with
  | none => simp
  | some u => simp [same_face_iff]

theorem Reordered.behind (h : Reordered v w) :
    v.face = w.face ∧ ∀ s, Option.Rel Reordered (behind s v) (behind s w) := by
  cases h with
  | same v =>
    refine ⟨rfl, fun s => ?_⟩
    cases behind s v with
    | none => exact .none
    | some u => exact .some (.same u)
  | list h =>
    refine ⟨rfl, fun s => ?_⟩
    cases s with
    | item i => exact h i
    | member => exact .none
  | doc _ h =>
    refine ⟨rfl, fun s => ?_⟩
    cases s with
    | item => exact .none
    | member name => exact h name

theorem Reordered.lookAlike_iff (h : Reordered u v) (hu : u.Proper) : LookAlike u w ↔ LookAlike v w := by
  refine forall_congr' fun way => ?_
  have hface := rel_at? (P := Eq) (fun _ => Reordered.behind) hu h way
  generalize at? way u = a, at? way v = b at hface ⊢
  cases hface with
  | none => rfl
  | some hface => cases at? way w <;> simp [hface]

/-- **Likeness is an equivalence**: values are like themselves iff they hold no `NaN`, the order of members
plays no part, and values of different kinds differ at any depth. -/
theorem alike_laws (hu : u.Proper) (hv : v.Proper) (hw : w.Proper) :
    (alike v v = true ↔ v.NanFree) ∧ alike v w = alike w v ∧
      (alike u v = true → alike v w = true → alike u w = true) ∧
      (Reordered u v → alike u w = alike v w ∧ alike w u = alike w v) ∧
      (alike v w = true → ∀ way, (at? way v).map Value.kind = (at? way w).map Value.kind) := by
  have hsymm : ∀ {a b : Value}, a.Proper → b.Proper → alike a b = alike b a := fun ha hb =>
    Bool.eq_iff_iff.mpr ((alike_iff ha).trans (Iff.trans ⟨.symm, .symm⟩ (alike_iff hb).symm))
  refine ⟨(alike_iff hv).trans lookAlike_self_iff, hsymm hv hw, ?_, fun h => ?_, fun h way => ?_⟩
  · rw [alike_iff hu, alike_iff hv, alike_iff hu]
    exact .trans
  · have hleft : alike u w = alike v w :=
      Bool.eq_iff_iff.mpr ((alike_iff hu).trans ((h.lookAlike_iff hu).trans (alike_iff hv).symm))
    exact ⟨hleft, by rw [hsymm hw hu, hleft, hsymm hv hw]⟩
  · have hway := (alike_iff hv).mp h way
    generalize at? way v = a, at? way w = b at hway ⊢
    cases hway with
    | none => rfl
    | some hsame => exact congrArg some hsame.kind

theorem Proper.doc (hd : d.names.Nodup) (h : ∀ m ∈ d, m.2.Proper) : (doc d).Proper := by
  rintro (_ | ⟨s, way⟩) e he
  · exact doc.inj (Option.some.inj he) ▸ hd
  · obtain ⟨u, hu, hrest⟩ := Option.bind_eq_some_iff.mp he
    cases s with
    | item => cases hu
    | member name => exact h (name, u) (mem_of_get? hu) way e hrest

/-- Two documents in which two members have changed places. -/
theorem alike_exchanged : ∃ v w : Value,
    v ≠ w ∧ Reordered v w ∧ v.Proper ∧ w.Proper ∧ alike v w = true := by
  have hone : (int 1).Proper := by
    rintro (_ | ⟨_ | _, way⟩) d ⟨⟩
  have hd : ∀ a b : String, a ≠ b → (doc [(a, .int 1), (b, .int 1)]).Proper := fun a b h =>
    .doc (by simpa [names] using h) (by simpa using hone)
  have hre : Reordered (.doc [("a", .int 1), ("b", .int 1)]) (.doc [("b", .int 1), ("a", .int 1)]) := by
    refine .doc (.swap ..) fun name => ?_
    simp only [get?_cons]
    split <;> split <;> first | exact .some (.same _) | exact .none
  refine ⟨_, _, by decide, hre, hd _ _ (by decide), hd _ _ (by decide), ?_⟩
  rw [((alike_laws (hd _ _ (by decide)) (hd _ _ (by decide)) (hd _ _ (by decide))).2.2.2.1 hre).1]
  decide

end SqlGateway.Value
