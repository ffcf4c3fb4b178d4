import SqlGateway.Value.Access

/-!
# Setting members

`set` gives a member its value in place or at the end, and `merge` sets members one after the other.  **The
last value set under a name is the one that stays** (`mem_merge_iff`), a name keeps its place (`names_merge`),
and merging is associative (`merge_merge`).
-/

namespace SqlGateway.Document

open List

variable {d e : Document} {name n : String}

theorem set_ne_nil : ∀ (d : Document) (name : String) (v : Value), d.set name v ≠ []
  | [], _, _ => by simp [set]
  | (key, _) :: _, name, _ => by
    rw [set]
    split <;> simp

theorem set_of_not_mem {d : Document} {name : String} (h : name ∉ d.names) (v : Value) :
    d.set name v = d ++ [(name, v)] := by
  induction d with
  | nil => rfl
  | cons m d ih =>
    obtain ⟨key, w⟩ := m
    rw [names, map_cons, mem_cons, not_or] at h
    have hkey : (key == name) = false := by simpa using Ne.symm h.1
    rw [set, hkey, if_neg (by simp), ih h.2, cons_append]

theorem names_set_of_mem {d : Document} {name : String} (h : name ∈ d.names) (v : Value) :
    (d.set name v).names = d.names := by
  induction d with
  | nil => simp [names] at h
  | cons m d ih =>
    obtain ⟨key, w⟩ := m
    rw [set]
    split
    case isTrue => rfl
    case isFalse hkey =>
      rw [names, map_cons, mem_cons] at h
      have hmem : name ∈ names d := h.resolve_left (by simpa using Ne.symm (by simpa using hkey))
      exact congrArg (key :: ·) (ih hmem)

theorem nodup_set (h : d.names.Nodup) (name : String) (v : Value) : (d.set name v).names.Nodup := by
  by_cases hname : name ∈ d.names
  · rwa [names_set_of_mem hname]
  · rw [set_of_not_mem hname, names, map_append, nodup_append]
    refine ⟨h, by simp, ?_⟩
    intro a ha b hb
    simp only [map_cons, map_nil, mem_singleton] at hb
    rintro rfl
    exact hname (hb ▸ ha)

theorem mem_set_iff {d : Document} (h : d.names.Nodup) {name n : String} {v w : Value} :
    (n, w) ∈ d.set name v ↔ (n = name ∧ w = v) ∨ (n ≠ name ∧ (n, w) ∈ d) := by
  induction d with
  | nil => simp [set]
  | cons m d ih =>
    obtain ⟨key, u⟩ := m
    rw [names, map_cons, nodup_cons] at h
    rw [set]
    split
    case isTrue hkey =>
      obtain rfl : key = name := by simpa using hkey
      simp only [mem_cons, Prod.mk.injEq]
      constructor
      · rintro (h' | h')
        · exact .inl h'
        · refine .inr ⟨?_, .inr h'⟩
          rintro rfl
          have hmem : n ∈ d.map Prod.fst := mem_map_of_mem h'
          exact h.1 hmem
      · rintro (h' | ⟨hn, h' | h'⟩)
        · exact .inl h'
        · exact absurd h'.1 hn
        · exact .inr h'
    case isFalse hkey =>
      have hne : key ≠ name := by simpa using hkey
      simp only [mem_cons, Prod.mk.injEq, ih h.2]
      constructor
      · rintro (⟨rfl, rfl⟩ | h' | ⟨hn, h'⟩)
        · exact .inr ⟨hne, .inl ⟨rfl, rfl⟩⟩
        · exact .inl h'
        · exact .inr ⟨hn, .inr h'⟩
      · rintro (h' | ⟨hn, h' | h'⟩)
        · exact .inr (.inl h')
        · exact .inl h'
        · exact .inr (.inr ⟨hn, h'⟩)

theorem mem_names_set_iff {v : Value} : n ∈ (d.set name v).names ↔ n = name ∨ n ∈ d.names := by
  by_cases hname : name ∈ d.names
  · rw [names_set_of_mem hname]
    refine ⟨.inr, ?_⟩
    rintro (rfl | h)
    · exact hname
    · exact h
  · rw [set_of_not_mem hname, names, map_append, mem_append]
    simp [or_comm, names]

theorem mem_of_mem_set {d : Document} {name : String} {v : Value} {m : String × Value}
    (h : m ∈ d.set name v) : m = (name, v) ∨ m ∈ d := by
  induction d with
  | nil => exact .inl (mem_singleton.mp h)
  | cons m' d ih =>
    obtain ⟨key, w⟩ := m'
    rw [set] at h
    split at h
    case isTrue hkey =>
      obtain rfl : key = name := by simpa using hkey
      rcases mem_cons.mp h with rfl | h
      · exact .inl rfl
      · exact .inr (mem_cons_of_mem _ h)
    case isFalse =>
      rcases mem_cons.mp h with rfl | h
      · exact .inr mem_cons_self
      · exact (ih h).imp_right (mem_cons_of_mem _)

theorem set_set (d : Document) (name : String) (v w : Value) : (d.set name v).set name w = d.set name w := by
  induction d with
  | nil => simp [set]
  | cons m d ih =>
    obtain ⟨key, u⟩ := m
    by_cases hkey : key = name
    · simp [set, hkey]
    · simp [set, hkey, ih]

theorem set_comm_of_mem {other : String} (hname : name ∈ d.names) (hne : name ≠ other) (v w : Value) :
    (d.set name v).set other w = (d.set other w).set name v := by
  induction d with
  | nil => simp [names] at hname
  | cons m d ih =>
    obtain ⟨key, u⟩ := m
    rw [names, map_cons, mem_cons] at hname
    by_cases hkey : key = name
    · subst hkey
      simp [set, hne]
    · have hmem : name ∈ names d := hname.resolve_left (Ne.symm hkey)
      by_cases hother : key = other
      · subst hother
        simp [set, hkey]
      · simp [set, hkey, hother, ih hmem]

/-! ### Looking up -/

theorem get?_cons (key name : String) (v : Value) (d : Document) :
    get? ((key, v) :: d) name = if name = key then some v else get? d name := by
  rw [get?, lookup_cons]
  by_cases h : name = key
  · rw [if_pos h, h, beq_self_eq_true]
  · rw [if_neg h, beq_false_of_ne h]
    rfl

theorem get?_set (d : Document) (name other : String) (v : Value) :
    (d.set name v).get? other = if other = name then some v else d.get? other := by
  induction d with
  | nil => exact get?_cons name other v []
  | cons m d ih =>
    obtain ⟨key, w⟩ := m
    rw [set]
    split
    case isTrue hkey =>
      obtain rfl : key = name := by simpa using hkey
      rw [get?_cons, get?_cons]
      split <;> rfl
    case isFalse hkey =>
      have hne : key ≠ name := by simpa using hkey
      rw [get?_cons, ih, get?_cons]
      by_cases hother : other = key
      · rw [if_pos hother, if_pos hother, if_neg (hother ▸ hne)]
      · rw [if_neg hother, if_neg hother]

theorem get?_erase (d : Document) (name other : String) :
    (d.erase name).get? other = if other = name then none else d.get? other := by
  induction d with
  | nil => exact (ite_self _).symm
  | cons m d ih =>
    obtain ⟨key, v⟩ := m
    have herase : erase ((key, v) :: d) name =
        if key = name then erase d name else (key, v) :: erase d name := by
      by_cases h : key = name <;> simp [h, erase]
    rw [herase]
    split
    case isTrue hkey =>
      rw [ih, get?_cons]
      by_cases hother : other = name
      · rw [if_pos hother, if_pos hother]
      · rw [if_neg hother, if_neg hother, if_neg (hkey ▸ hother)]
    case isFalse hkey =>
      rw [get?_cons, ih, get?_cons]
      by_cases hother : other = key
      · rw [if_pos hother, if_pos hother, if_neg (hother ▸ hkey)]
      · rw [if_neg hother, if_neg hother]

/-! ### Merging -/

theorem merge_cons (d : Document) (m : String × Value) (ms : Document) :
    d.merge (m :: ms) = (d.set m.1 m.2).merge ms := rfl

theorem merge_eq_nil_iff {e : Document} : d.merge e = [] ↔ d = [] ∧ e = [] := by
  induction e generalizing d with
  | nil => simp [merge]
  | cons m e ih =>
    rw [merge_cons, ih]
    simp [set_ne_nil]

theorem merge_of_nodup {ms d : Document} (h : (d.names ++ ms.names).Nodup) : d.merge ms = d ++ ms := by
  induction ms generalizing d with
  | nil => exact (append_nil d).symm
  | cons m ms ih =>
    have hname : m.1 ∉ d.names := by
      intro hmem
      exact (nodup_append.mp h).2.2 m.1 hmem m.1 (by simp [names]) rfl
    rw [merge_cons, set_of_not_mem hname, ih, append_assoc, singleton_append]
    simpa [names, append_assoc] using h

theorem mem_names_merge_iff : ∀ {e d : Document}, n ∈ (d.merge e).names ↔ n ∈ d.names ∨ n ∈ e.names := by
  intro e
  induction e with
  | nil => intro d; simp [merge, names]
  | cons m e ih =>
    intro d
    rw [merge_cons, ih, mem_names_set_iff, show names (m :: e) = m.1 :: names e from rfl,
      mem_cons, or_assoc, or_left_comm]

theorem mem_of_mem_merge {m : String × Value} : ∀ {e d : Document}, m ∈ d.merge e → m ∈ d ∨ m ∈ e := by
  intro e
  induction e with
  | nil => intro d h; exact .inl h
  | cons m' e ih =>
    intro d h
    rcases ih h with h | h
    · rcases mem_of_mem_set h with rfl | h
      · exact .inr mem_cons_self
      · exact .inl h
    · exact .inr (mem_cons_of_mem _ h)

/-- **The last value stays.**  A member of a merged document is the last one set under its name, or
one of the old members under whose name nothing was set. -/
theorem mem_merge_iff : ∀ {ms d : Document}, d.names.Nodup → ∀ {n : String} {w : Value}, (n, w) ∈ d.merge ms ↔
      (∃ l r, ms = l ++ (n, w) :: r ∧ n ∉ names r) ∨ (n ∉ ms.names ∧ (n, w) ∈ d) := by
  intro ms
  induction ms with
  | nil => intro d _ n w; simp [merge, names]
  | cons m ms ih =>
    intro d h n w
    obtain ⟨key, v⟩ := m
    rw [merge_cons, ih (nodup_set h key v), mem_set_iff h]
    constructor
    · rintro (⟨l, r, rfl, hr⟩ | ⟨hn, ⟨rfl, rfl⟩ | ⟨hne, hmem⟩⟩)
      · exact .inl ⟨(key, v) :: l, r, rfl, hr⟩
      · exact .inl ⟨[], ms, rfl, hn⟩
      · exact .inr ⟨by simpa [names] using ⟨hne, by simpa [names] using hn⟩, hmem⟩
    · rintro (⟨l, r, hms, hr⟩ | ⟨hn, hmem⟩)
      · cases l with
        | nil =>
          obtain ⟨⟨rfl, rfl⟩, rfl⟩ := hms
          exact .inr ⟨hr, .inl ⟨rfl, rfl⟩⟩
        | cons a l =>
          simp only [cons_append, cons.injEq] at hms
          exact .inl ⟨l, r, hms.2, hr⟩
      · rw [names, map_cons, mem_cons, not_or] at hn
        exact .inr ⟨hn.2, .inr ⟨hn.1, hmem⟩⟩

theorem names_merge (d e : Document) :
    (d.merge e).names = d.names ++ (e.names.filter fun name => !d.names.contains name).eraseDups := by
  induction e generalizing d with
  | nil => exact (append_nil _).symm
  | cons m e ih =>
    have hnames : names (m :: e) = m.1 :: names e := rfl
    rw [merge_cons, ih, hnames]
    by_cases hmem : m.1 ∈ d.names
    · rw [names_set_of_mem hmem, filter_cons_of_neg (by simpa using hmem)]
    · have hset : (d.set m.1 m.2).names = d.names ++ [m.1] := by
        rw [set_of_not_mem hmem, names, map_append]
        rfl
      have hboth : (fun name => !(d.names ++ [m.1]).contains name) =
          fun name => !name == m.1 && !d.names.contains name := by
        funext name
        by_cases hname : name = m.1 <;> simp [hname]
      rw [hset, filter_cons_of_pos (by simpa using hmem), eraseDups_cons, filter_filter, hboth,
        append_assoc, singleton_append]

theorem names_ofMembers (ms : Document) : (ofMembers ms).names = ms.names.eraseDups := by
  have hnew : (ms.names.filter fun name => !(names []).contains name) = ms.names :=
    filter_eq_self.mpr fun _ _ => rfl
  rw [ofMembers, names_merge, hnew]
  rfl

/-! ### Merging what was merged -/

theorem merge_append (d e f : Document) : d.merge (e ++ f) = (d.merge e).merge f :=
  foldl_append

theorem merge_set_of_not_mem (v : Value) : ∀ {e d : Document}, name ∈ d.names →
    name ∉ e.names → (d.set name v).merge e = (d.merge e).set name v := by
  intro e
  induction e with
  | nil => intro d _ _; rfl
  | cons m e ih =>
    intro d hd he
    rw [names, map_cons, mem_cons, not_or] at he
    rw [merge_cons, merge_cons, set_comm_of_mem hd he.1, ih (mem_names_set_iff.mpr (.inr hd)) he.2]

theorem merge_set (he : e.names.Nodup) (name : String) (v : Value) :
    ∀ d : Document, d.merge (e.set name v) = (d.merge e).set name v := by
  induction e with
  | nil => intro d; rfl
  | cons m e ih =>
    intro d
    obtain ⟨key, w⟩ := m
    rw [names, map_cons, nodup_cons] at he
    rw [set]
    split
    case isTrue hkey =>
      obtain rfl : key = name := by simpa using hkey
      rw [merge_cons, merge_cons, ← set_set d key w v,
        merge_set_of_not_mem v (mem_names_set_iff.mpr (.inl rfl)) he.1]
    case isFalse => rw [merge_cons, merge_cons, ih he.2]

/-- **Merging is associative.** -/
theorem merge_merge (he : e.names.Nodup) (d f : Document) : d.merge (e.merge f) = (d.merge e).merge f := by
  induction f generalizing e with
  | nil => rfl
  | cons m f ih => rw [merge_cons, ih (nodup_set he m.1 m.2), merge_set he, merge_cons]

theorem merge_ofMembers (d ms : Document) : d.merge (ofMembers ms) = d.merge ms :=
  merge_merge (by simp [names]) d ms

end SqlGateway.Document

/-! ### Readings -/

namespace SqlGateway

variable {d : Document} {name : String}

theorem bind_eq_ok_iff {α β : Type} {x : Except Fault α} {f : α → Except Fault β} {b : β} :
    x >>= f = .ok b ↔ ∃ a, x = .ok a ∧ f a = .ok b := by
  cases x with
  | error fault => exact ⟨nofun, by rintro ⟨a, ⟨⟩, -⟩⟩
  | ok a =>
    refine ⟨fun h => ⟨a, rfl, h⟩, ?_⟩
    rintro ⟨a', ha, h⟩
    rw [Except.ok.inj ha]
    exact h

theorem mapM_map_eq_ok {α β γ : Type} {f : β → Except Fault γ} {g : α → β} {r : α → γ} {xs : List α}
    (h : ∀ x ∈ xs, f (g x) = .ok (r x)) : (xs.map g).mapM f = .ok (xs.map r) := by
  induction xs with
  | nil => rfl
  | cons x xs ih =>
    rw [List.map_cons, List.mapM_cons, h x (by simp), ih (List.forall_mem_cons.mp h).2]
    rfl

theorem exists_of_mem_mapM {α β : Type} {f : α → Except Fault β} {xs : List α} {ys : List β}
    (h : xs.mapM f = .ok ys) : ∀ y ∈ ys, ∃ x ∈ xs, f x = .ok y := by
  induction xs generalizing ys with
  | nil =>
    obtain rfl : ys = [] := (Except.ok.inj h).symm
    exact nofun
  | cons x xs ih =>
    rw [List.mapM_cons] at h
    obtain ⟨z, hz, h⟩ := bind_eq_ok_iff.mp h
    obtain ⟨zs, hzs, h⟩ := bind_eq_ok_iff.mp h
    obtain rfl : ys = z :: zs := (Except.ok.inj h).symm
    intro y hy
    rcases List.mem_cons.mp hy with rfl | hy
    · exact ⟨x, List.mem_cons_self, hz⟩
    · obtain ⟨w, hw, hfw⟩ := ih hzs y hy
      exact ⟨w, List.mem_cons_of_mem _ hw, hfw⟩

theorem Value.need_eq_ok_iff {v w : Value} :
    v.need name = .ok w ↔ ∃ d, v = .doc d ∧ Document.get? d name = some w := by
  cases v with
  | doc d =>
    rw [Value.need]
    cases hget : Document.get? d name with
    | none =>
      refine ⟨nofun, ?_⟩
      rintro ⟨d', hd, h⟩
      obtain rfl := Value.doc.inj hd
      rw [hget] at h
      cases h
    | some u =>
      refine ⟨fun h => ⟨d, rfl, by rw [hget, Except.ok.inj h]⟩, ?_⟩
      rintro ⟨d', hd, h⟩
      obtain rfl := Value.doc.inj hd
      rw [hget] at h
      rw [Option.some.inj h]
  | _ => exact ⟨nofun, by rintro ⟨d, ⟨⟩, -⟩⟩

theorem Value.need_doc_eq_ok_iff {w : Value} : (Value.doc d).need name = .ok w ↔ d.get? name = some w := by
  rw [need_eq_ok_iff]
  refine ⟨?_, fun h => ⟨d, rfl, h⟩⟩
  rintro ⟨_, ⟨⟩, h⟩
  exact h

end SqlGateway
