import SqlGateway.Proofs.Plan.Select
import SqlGateway.Proofs.Sql.SelectList

/-!
# The plans of plain selections

A selection without features is a search, planned from its table, its filter, the items that are read
from its list and its limit (`plan_search`).  Each item is shown under its other name, if it has one.
-/

namespace SqlGateway.Plan

open Text Sql Document List Value Call

variable {table : String} {fields : List (List Char)} {items : List SelectItem}

def findPlan (table : String) (filter projection : Document) : Value :=
  .doc [("operation", .text "find"), ("query", .doc filter), ("collection", .text table),
    ("projection", .doc projection)]

theorem findPlan_inj {table' : String} {filter filter' projection projection' : Document} :
    findPlan table filter projection = findPlan table' filter' projection' ↔
      table = table' ∧ filter = filter' ∧ projection = projection' := by
  simp only [findPlan, doc.injEq, cons.injEq, Prod.mk.injEq, text.injEq, true_and, and_true]
  exact ⟨fun ⟨hfilter, htable, hprojection⟩ => ⟨htable, hfilter, hprojection⟩,
    fun ⟨htable, hfilter, hprojection⟩ => ⟨hfilter, htable, hprojection⟩⟩

def shownFields (fields : List (List Char)) : Document :=
  fields.map fun f => (String.ofList f, .int 1)

theorem shownFields_inj {fields' : List (List Char)} :
    shownFields fields = shownFields fields' ↔ fields = fields' :=
  map_inj_right fun _ _ h => String.ofList_injective (Prod.mk.inj h).1

theorem merge_shownFields (h : fields.Nodup) : merge [] (shownFields fields) = shownFields fields := by
  refine merge_of_nodup ?_
  have hnames : names (shownFields fields) = fields.map String.ofList := by
    simp [names, shownFields, Function.comp_def]
  rw [hnames]
  exact List.Pairwise.map String.ofList (fun _ _ hne heq => hne (String.ofList_injective heq)) h

def shownName (item : SelectItem) : String :=
  item.byname.getD item.field

def shownItems (items : List SelectItem) : Document :=
  items.map fun i => (shownName i, .int 1)

theorem mem_names_shownItems {name : String} :
    name ∈ (ofMembers (shownItems items)).names ↔ ∃ i ∈ items, shownName i = name := by
  rw [ofMembers, mem_names_merge_iff]
  simp [names, shownItems]

/-- The search for the documents that a filter matches, which shows some of their fields and may be
limited. -/
def searchPlan (table : String) (filter projection : Document) (limit : Option Int) : Value :=
  .doc ([("operation", .text "find"), ("query", .doc filter), ("collection", .text table),
    ("projection", .doc projection)] ++ (limit.map fun n => ("limit", .int n)).toList)

section

variable {text : List Char}

theorem projection?_items : ∀ {items : List SelectItem}, (∀ i ∈ items, occurs i.field.toList = false) →
    ∀ shown : Document, projection? (.ofText text) shown (items.map fun i => .doc i.toDocument) =
      .ok (some (shown.merge (shownItems items)))
  | [], _, _ => rfl
  | ⟨field, byname⟩ :: items, h, shown => by
    have hcalls : callsFunction (.ofText text) (.text field) = .ok (occurs field.toList) := rfl
    rw [h ⟨field, byname⟩ (by simp)] at hcalls
    have hrest := projection?_items (forall_mem_cons.mp h).2
      (shown.set (shownName ⟨field, byname⟩) (.int 1))
    have hfirst : projection? (.ofText text) shown ((⟨field, byname⟩ :: items).map fun i =>
        .doc i.toDocument) = (callsFunction (.ofText text) (.text field) >>= fun calls =>
          if calls then .ok none
          else projection? (.ofText text) (shown.set (shownName ⟨field, byname⟩) (.int 1))
            (items.map fun i => .doc i.toDocument)) := by
      cases byname <;> rfl
    rw [hfirst, hcalls]
    exact hrest

/-- **The plan of a selection without features.** -/
theorem plan_search (hkind : statementKind? text = some "SELECT")
    (htable : tableOfKind? (some "SELECT") text = some table) (hname : table ≠ "")
    (hcalls : occurs text → ∃ calls, describe text = .ok calls)
    (hunion : Union.occurs text = false) (hjoin : Join.occurs text = false)
    (hhaving : Having.occurs text = false) (hdistinct : Distinct.occurs text = false)
    (horder : OrderBy.read text = []) (hread : SelectList.read text = items)
    (hne : items ≠ []) (hitems : ∀ i ∈ items, occurs i.field.toList = false ∧ i.field ≠ "*")
    (p : Planner) : (p.plan text).1 = .ok (searchPlan table (Where.filter text)
      (ofMembers (shownItems items)) (Limit.read? text)) := by
  have htext : Statement.table (.ofText text) = .ok (.text table) := by
    rw [table_of_kind hkind, htable]
    rfl
  have hlist : Statement.fields (.ofText text) = .ok (.list (items.map fun i => .doc i.toDocument)) := by
    rw [← hread]
    rfl
  have hprojection : projectionOf (.ofText text) (.list (items.map fun i => .doc i.toDocument)) =
      .ok (some (ofMembers (shownItems items))) := by
    have hall : (items.map fun i => doc i.toDocument).any isEverything = false := by
      refine any_eq_false.mpr ?_
      intro item hitem hstar
      obtain ⟨⟨field, byname⟩, hi, rfl⟩ := mem_map.mp hitem
      have heq : Value.text field = .text "*" := eq_of_beq (by cases byname <;> exact hstar)
      exact (hitems _ hi).2 (Value.text.inj heq)
    rw [projectionOf, hall]
    exact projection?_items (fun i hi => (hitems i hi).1) []
  have hcollection : member? "collection" (.text table) = [("collection", .text table)] := by
    rw [member?, if_pos (by simpa [isPresent] using hname)]
  have hshown : member? "projection" (.doc (ofMembers (shownItems items))) =
      [("projection", .doc (ofMembers (shownItems items)))] := by
    have hsome : ofMembers (shownItems items) ≠ [] := fun h =>
      hne (map_eq_nil_iff.mp (merge_eq_nil_iff.mp h).2)
    rw [member?, if_pos (by simpa [isPresent] using hsome)]
  rw [plan_of_select hkind, select_eq htext hcalls hunion, hjoin, hhaving, hdistinct, horder]
  simp only [find, htext, filter_ofText, hlist, liftM_ok_bind, hprojection, order_ofText, horder, limit_ofText,
    hcollection, hshown, orEmpty_doc]
  cases Limit.read? text <;> rfl

/-- **The plan of a selection in words without features.** -/
theorem plan_selection {ws : List (List Char)} (hterms : ∀ w ∈ ws, Where.IsTerm w) (hne : ws ≠ [])
    (hplain : ∀ w ∈ ws, Featureless w) (hkind : statementKind? (unwords ws) = some "SELECT")
    (htable : tableOfKind? (some "SELECT") (unwords ws) = some table) (hname : table ≠ "")
    (hread : SelectList.read (unwords ws) = fields.map fun f => ⟨String.ofList f, none⟩)
    (hfields : ∀ f ∈ fields, Featureless f ∧ f ≠ ['*']) (hnodup : fields.Nodup) (hsome : fields ≠ [])
    (p : Planner) : (p.plan (unwords ws)).1 =
      .ok (findPlan table (Where.filter (unwords ws)) (shownFields fields)) := by
  have hmute : ∀ {K : String}, K ∈ featureWords → ∀ w ∈ ws, Mute K w := Featureless.mute_all hplain
  have hitems : ∀ i ∈ fields.map (fun f => (⟨String.ofList f, none⟩ : SelectItem)),
      occurs i.field.toList = false ∧ i.field ≠ "*" := by
    intro i hi
    obtain ⟨f, hf, rfl⟩ := mem_map.mp hi
    have hcall := Featureless.call_occurs (forall_mem_singleton.mpr (hfields f hf).1)
    refine ⟨by rwa [String.toList_ofList], fun hstar => (hfields f hf).2 ?_⟩
    exact String.ofList_injective (hstar.trans rfl)
  have hshown : shownItems (fields.map fun f => ⟨String.ofList f, none⟩) = shownFields fields := by
    simp [shownItems, shownFields, shownName, Function.comp_def]
  have hplan := plan_search hkind htable hname (fun hcall => ?_) (Mute.union_occurs (hmute (by decide)))
    (Mute.join_occurs (hmute (by decide))) (Mute.having_occurs (hmute (by decide)))
    (Mute.distinct_occurs (hmute (by decide))) (Mute.order_read hterms hne (hmute (by decide))) hread
    (by simpa using hsome) hitems p
  · rw [hplan, hshown, Mute.limit_read hterms hne (hmute (by decide))]
    rw [ofMembers, merge_shownFields hnodup]
    rfl
  · rw [Featureless.call_occurs hplain] at hcall
    cases hcall

end

end SqlGateway.Plan
