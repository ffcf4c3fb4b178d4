import SqlGateway.Proofs.Sql.Node.Tail

/-!
# Passes over nodes with a loose tail

`Trails ns ms` says that `ms` are the nodes `ns` with a loose tail behind them.  **A pass is `Sound` if it
hands this on**: gathering stops before the tail (`Halts.sound`), attaching puts a comment into the last
group, and joining finds nothing there to take (`Joint.sound`).
-/

namespace SqlGateway.Sql.Node

open List

variable {f g : List Node → List Node} {first : Node → Bool}
variable {ns tail : List Node} {p : Node → Bool}

/-- The nodes with a loose tail, the insides of groups left aside. -/
def Trails (ns ms : List Node) : Prop :=
  ∃ tail, (∀ n ∈ tail, n.isLoose) ∧ ms.map flat = (ns ++ tail).map flat

/-- A pass that keeps nodes fit and their tail loose. -/
structure Sound (f : List Node → List Node) : Prop where
  tidy : Tidy f
  trails {ns ms : List Node} : Fit ns → Trails ns ms → Trails (f ns) (f ms)

theorem Sound.comp (hf : Sound f) (hg : Sound g) : Sound fun ns => g (f ns) where
  tidy := hf.tidy.comp hg.tidy
  trails hfit h := hg.trails (hf.tidy.fit hfit) (hf.trails hfit h)

theorem sound_rebuildAll (enters : Kind → Bool) (f : Option Kind → List Node → List Node) :
    Sound (rebuildAll enters f) where
  tidy := tidy_rebuildAll enters f
  trails _ h := by
    obtain ⟨tail, htail, hflat⟩ := h
    refine ⟨tail, htail, ?_⟩
    rw [map_flat_rebuildAll, hflat, map_append, map_append, map_flat_rebuildAll]

theorem Sound.everywhereBut (hf : Sound f) (kind : Kind) : Sound (everywhereBut kind f) :=
  (sound_rebuildAll _ _).comp hf

/-- A pass that does not look into groups. -/
def Blind (f : List Node → List Node) : Prop :=
  ∀ ns, (f (ns.map flat)).map flat = (f ns).map flat

theorem Blind.sound (hf : Blind f) (htidy : Tidy f)
    (happend : ∀ {ns tail : List Node}, Fit ns → (∀ n ∈ tail, n.isLoose) →
      Trails (f ns) (f (ns ++ tail))) : Sound f where
  tidy := htidy
  trails {ns ms} hfit h := by
    obtain ⟨tail, htail, hflat⟩ := h
    obtain ⟨tail', htail', hflat'⟩ := happend hfit htail
    refine ⟨tail', htail', ?_⟩
    rw [← hf ms, hflat, hf, hflat']

theorem trails_append (htail : ∀ n ∈ tail, n.isLoose) : Trails ns (ns ++ tail) :=
  ⟨tail, htail, rfl⟩

theorem Trails.cons {n n' : Node} {ms : List Node} (h : Trails ns ms) (hn : flat n' = flat n) :
    Trails (n :: ns) (n' :: ms) := by
  obtain ⟨tail, htail, hflat⟩ := h
  refine ⟨tail, htail, ?_⟩
  rw [map_cons, hflat, hn]
  rfl

/-! ### Gathering -/

section

variable {begins : Node → List Node → Bool} {size : Node → List Node → Nat} {kind : Kind} {grows : Bool}

theorem blind_gather (hbegins : ∀ n rest, begins (flat n) (rest.map flat) = begins n rest)
    (hsize : ∀ n rest, size (flat n) (rest.map flat) = size n rest) :
    Blind (gatherNext kind grows begins size) := by
  intro ns
  rw [gatherNext, gather, gather]
  generalize 0 = skip
  induction ns generalizing skip with
  | nil => rfl
  | cons n ns ih =>
    rw [map_cons]
    cases skip with
    | succ skip => exact ih skip
    | zero =>
      rw [gatherFrom, gatherFrom, hbegins, hsize]
      by_cases h : begins n ns
      · rw [if_pos h, if_pos h, withNext, withNext]
        simp only [map_cons, flat_bundle, ih]
      · rw [if_neg h, if_neg h, map_cons, map_cons, flat_flat, ih]

theorem Halts.sound (h : Halts begins size) (hkind : kind ≠ .comment)
    (hbegins : ∀ n rest, begins (flat n) (rest.map flat) = begins n rest)
    (hsize : ∀ n rest, size (flat n) (rest.map flat) = size n rest) :
    Sound (gatherNext kind grows begins size) := by
  refine (blind_gather hbegins hsize).sound (tidy_gather_next fun h => absurd h hkind) ?_
  intro ns tail _ htail
  rw [h.gather_append kind grows htail]
  exact trails_append htail

end

theorem Firm.any_flat (hp : Firm p) (rest : List Node) :
    (firstSolid? (rest.map Node.flat)).any p = (firstSolid? rest).any p := by
  rw [firstSolid?_flat, Option.any_map]
  exact congrArg (Option.any · _) (funext hp.flat)

theorem Firm.halts (hfirst : Firm first) (hp : Firm p) :
    Halts (fun n rest => first n && (firstSolid? rest).any p) fun _ rest => countToSolid rest where
  loose h := by rw [hfirst.loose h]; rfl
  same htail := by rw [any_firstSolid? (fun _ => hp.loose) htail]
  size _ h := countToSolid_of_any (Bool.and_eq_true_iff.mp h).2 _

theorem Firm.sound_gather (hfirst : Firm first) (hp : Firm p) {kind : Kind}
    (hkind : kind ≠ .comment) (grows : Bool) :
    Sound (gatherNext kind grows (fun n rest => first n && (firstSolid? rest).any p) fun _ => countToSolid) :=
  (hfirst.halts hp).sound hkind (fun n rest => by rw [hfirst.flat, hp.any_flat]) fun _ => countToSolid_flat

theorem gatherFrom_length {take : Node → List Node → Option (Node × Nat)} : ∀ ns : List Node,
    gatherFrom take ns.length ns = []
  | [] => rfl
  | _ :: ns => gatherFrom_length ns

def inCondition (n : Node) : Bool :=
  !conditionEnds.any n.isWord

theorem condition?_eq (n : Node) (rest : List Node) : condition? false n rest =
    if n.isWord "WHERE" then some (withNext .condition false n rest (rest.takeWhile inCondition).length)
    else none :=
  rfl

/-- A condition goes on to one of the keywords that end it, or it takes the tail too. -/
theorem trails_condition (htail : ∀ n ∈ tail, n.isLoose) {ns : List Node} {skip : Nat}
    (hskip : skip ≤ ns.length) :
    Trails (gatherFrom (condition? false) skip ns) (gatherFrom (condition? false) skip (ns ++ tail)) := by
  induction ns generalizing skip with
  | nil =>
    obtain rfl : skip = 0 := Nat.le_zero.mp hskip
    have hnone : gatherFrom (condition? false) 0 tail = tail := by
      refine gatherFrom_of_none fun n hn rest => ?_
      rw [condition?_eq, (firm_isWord "WHERE").loose (htail n hn)]
      rfl
    rw [nil_append, hnone]
    exact trails_append htail
  | cons n ns ih =>
    rw [cons_append]
    cases skip with
    | succ skip => exact ih (Nat.le_of_succ_le_succ hskip)
    | zero =>
      rw [gatherFrom, gatherFrom, condition?_eq, condition?_eq]
      by_cases hn : n.isWord "WHERE"
      · rw [if_pos hn, if_pos hn]
        refine Trails.cons ?_ (by rw [flat_bundle, flat_bundle])
        by_cases hstop : ∃ m ∈ ns, inCondition m = false
        · obtain ⟨m, hm, hstop⟩ := hstop
          obtain ⟨hsame, hlt⟩ := takeWhile_append_of_mem hm hstop
          rw [hsame]
          exact ih (Nat.le_of_lt hlt)
        · have hall : ∀ m ∈ ns ++ tail, inCondition m := by
            intro m hm
            rcases mem_append.mp hm with hm | hm
            · rw [← Bool.not_eq_false]
              exact fun hno => hstop ⟨m, hm, hno⟩
            · rw [inCondition, (firm_any_isWord conditionEnds).loose (htail m hm)]
              rfl
          rw [takeWhile_eq_self_iff.mpr hall, takeWhile_eq_self_iff.mpr fun m hm =>
            hall m (by simp [hm]), gatherFrom_length, gatherFrom_length]
          exact trails_append (by simp)
      · rw [if_neg hn, if_neg hn]
        exact (ih (Nat.zero_le _)).cons rfl

theorem sound_condition : Sound (gather (condition? false)) := by
  have hflat : inCondition ∘ flat = inCondition :=
    funext fun n => congrArg (!·) ((firm_any_isWord conditionEnds).flat n)
  have hblind : Blind (gather (condition? false)) := by
    refine blind_gather (fun n rest => isWord_flat n _) fun n rest => ?_
    show ((rest.map flat).takeWhile inCondition).length = (rest.takeWhile inCondition).length
    rw [takeWhile_map, length_map, hflat]
  refine hblind.sound (tidy_gather_next (by nofun)) fun _ htail => ?_
  exact trails_condition htail (Nat.zero_le _)

/-! ### Attaching -/

section

variable {follows : Node → Bool} {join : Node → List Node → Option Node}

section

variable (hfollows : ∀ n, follows (flat n) = follows n) (hjoin : ∀ last more, (join (flat last) (more.map flat)).map flat = (join last more).map flat)
include hfollows hjoin

theorem map_flat_attachStep
    (done : List Node) (n : Node) : (attachStep follows join (done.map flat) (flat n)).map flat =
      (attachStep follows join done n).map flat := by
  rw [attachStep, attachStep, hfollows]
  split
  case isFalse => simp
  case isTrue =>
    rw [attachTo, attachTo, span_eq_takeWhile_dropWhile, span_eq_takeWhile_dropWhile,
      takeWhile_map, dropWhile_map, isSpace_comp_flat]
    cases hdrop : done.dropWhile isSpace with
    | nil => simp
    | cons last others =>
      have hmore : ((done.takeWhile isSpace).map flat).reverse ++ [flat n] =
          ((done.takeWhile isSpace).reverse ++ [n]).map flat := by simp
      have hmade := hjoin last ((done.takeWhile isSpace).reverse ++ [n])
      rw [← hmore] at hmade
      simp only [map_cons]
      cases hright : join last ((done.takeWhile isSpace).reverse ++ [n]) with
      | none =>
        rw [hright] at hmade
        simp [Option.map_eq_none_iff.mp hmade]
      | some made =>
        rw [hright] at hmade
        obtain ⟨made', hleft, hflat⟩ := Option.map_eq_some_iff.mp hmade
        simp [hleft, hflat]

theorem blind_attach
    :
    Blind (attach follows join) := by
  have hsteps : ∀ (ns : List Node) {done done' : List Node}, done'.map flat = done.map flat →
      ((ns.map flat).foldl (attachStep follows join) done').map flat =
        (ns.foldl (attachStep follows join) done).map flat := by
    intro ns
    induction ns with
    | nil => intro done done' h; exact h
    | cons n ns ih =>
      intro done done' h
      refine ih ?_
      rw [← map_flat_attachStep hfollows hjoin, h, flat_flat, map_flat_attachStep hfollows hjoin]
  intro ns
  rw [attach_eq, attach_eq, map_reverse, map_reverse, hsteps ns rfl]

end

/-- What is attached to a node of the tail stays in the tail. -/
theorem exists_attachStep (hmade : ∀ last more made, join last more = some made → flat made = flat last)
    {state done : List Node} (hstate : state.map flat = (tail ++ done).map flat)
    (htail : ∀ n ∈ tail, n.isLoose) (hdone : ∀ n, done.head? = some n → n.isLoose = false) {n : Node}
    (hn : n.isLoose) : ∃ tail', (∀ m ∈ tail', m.isLoose) ∧
      (attachStep follows join state n).map flat = (tail' ++ done).map flat := by
  rcases attachStep_cases follows join state n with hstep |
    ⟨blanks, last, others, made, -, rfl, hblanks, -, hjoin, hstep⟩
  · refine ⟨n :: tail, by simpa [hn] using htail, ?_⟩
    rw [hstep, map_cons, hstate]
    rfl
  · have hle : blanks.length ≤ tail.length := by
      refine Nat.le_of_not_lt fun hlt => ?_
      -- Otherwise the last node before the tail would be one of the blanks.
      obtain ⟨b, more, hb⟩ := exists_cons_of_ne_nil (l := blanks.drop tail.length)
        (by rw [ne_eq, drop_eq_nil_iff]; omega)
      have hdrop := congrArg (drop tail.length) hstate
      rw [← map_drop, ← map_drop, drop_left, drop_append_of_le_length (Nat.le_of_lt hlt), hb] at hdrop
      cases done with
      | nil => cases hdrop
      | cons d done =>
        have hspace : d.isSpace := by
          rw [← isSpace_flat, ← (cons.inj hdrop).1, isSpace_flat]
          exact hblanks b (mem_of_mem_drop (by rw [hb]; exact mem_cons_self))
        exact absurd (isLoose_of_isSpace hspace) (Bool.eq_false_iff.mp (hdone d rfl))
    refine ⟨tail.drop blanks.length, fun m hm => htail m (mem_of_mem_drop hm), ?_⟩
    have hdrop := congrArg (drop blanks.length) hstate
    rw [← map_drop, ← map_drop, drop_left, drop_append_of_le_length hle] at hdrop
    rw [hstep, ← hdrop, map_cons, map_cons, hmade last _ made hjoin]

theorem trails_attach (hmade : ∀ last more made, join last more = some made → flat made = flat last)
    (hlast : ∀ n, (attach follows join ns).getLast? = some n → n.isLoose = false)
    (htail : ∀ n ∈ tail, n.isLoose) :
    Trails (attach follows join ns) (attach follows join (ns ++ tail)) := by
  rw [attach_eq, getLast?_reverse] at hlast
  rw [attach_eq, attach_eq, foldl_append]
  generalize ns.foldl (attachStep follows join) [] = done at hlast
  have hsteps : ∀ {tail : List Node}, (∀ n ∈ tail, n.isLoose) → ∀ {state passed : List Node},
      state.map flat = (passed ++ done).map flat → (∀ n ∈ passed, n.isLoose) →
        ∃ passed', (∀ n ∈ passed', n.isLoose) ∧
          (tail.foldl (attachStep follows join) state).map flat = (passed' ++ done).map flat := by
    intro tail
    induction tail with
    | nil => intro _ state passed hstate hpassed; exact ⟨passed, hpassed, hstate⟩
    | cons n tail ih =>
      intro htail state passed hstate hpassed
      obtain ⟨passed', hpassed', hstep⟩ := exists_attachStep hmade hstate hpassed hlast (htail n (by simp))
      exact ih (fun m hm => htail m (by simp [hm])) hstep hpassed'
  obtain ⟨passed, hpassed, hend⟩ := hsteps htail (show done.map flat = ([] ++ done).map flat from rfl) (by simp)
  refine ⟨passed.reverse, by simpa using hpassed, ?_⟩
  rw [map_reverse, hend, ← map_reverse, reverse_append]

end

theorem sound_attach_directed : Sound (attach (·.isTokenOf (· == .orderKeyword)) fun last more =>
    if last.isGroupOf [.named] || last.isTokenOf Token.Kind.isNumeric then
      some (bundle .named false (last :: more))
    else none) := by
  have hfollows : Firm (isTokenOf (· == .orderKeyword)) := firm_isTokenOf (by decide)
  refine (blind_attach hfollows.flat fun last more => ?_).sound
    (.of_bundled (bundled_attach attaches_directed)) ?_
  · rw [isGroupOf_flat, isTokenOf_flat]
    split
    · exact congrArg some (by rw [flat_bundle, flat_bundle])
    · rfl
  · intro ns tail _ htail
    rw [attach_eq, attach_eq, foldl_append, attachSteps_pass fun n hn => hfollows.loose (htail n hn),
      reverse_append, reverse_reverse]
    exact trails_append htail

theorem sound_attach_comments : Sound (attach (·.isGroupOf [.comment]) fun last more => extended? more last) := by
  have htidy : Tidy (attach (·.isGroupOf [.comment]) fun last more => extended? more last) :=
    .of_bundled (bundled_attach attaches_extended?)
  refine (blind_attach (isGroupOf_flat _) fun last more => ?_).sound htidy fun hfit htail => ?_
  · cases last <;> rfl
  · refine trails_attach (fun last more made h => ?_) (htidy.fit hfit).solid htail
    cases last with
    | token => cases h
    | group kind inside => rw [← Option.some.inj h, flat_group, flat_group]

/-! ### Joining -/

/-- The state without what is inside its nodes. -/
def Joining.flat (s : Joining) : Joining :=
  ⟨s.nodes.map Node.flat, s.moved, s.last.map fun last => (last.1, last.2.flat)⟩

theorem flat_comp_flat : flat ∘ flat = flat :=
  funext flat_flat

theorem Joining.flat_flat (s : Joining) : s.flat.flat = s.flat := by
  obtain ⟨nodes, moved, last⟩ := s
  simp only [Joining.flat, map_map, Option.map_map, flat_comp_flat]
  congr 2
  funext last
  rw [Function.comp_apply, Node.flat_flat]

namespace Joint

/-- What a joint has to satisfy for a loose tail to stay behind the nodes. -/
structure Blunt (j : Joint) : Prop where
  kind : j.kind ≠ .comment
  middle : Firm j.isMiddle
  before (n : Node) : j.before (flat n) = j.before n
  behind (next? : Option Node) : j.behind (next?.map flat) = j.behind next?
  reach_flat (rest : List Node) : j.reach (rest.map flat) = j.reach rest
  reach {rest t : List Node} : (∀ n ∈ t, n.isLoose) → j.behind (firstSolid? rest) →
    j.reach (rest ++ t) = j.reach rest ∧ j.reach rest ≤ rest.length

variable {j : Joint}

theorem Blunt.around_flat (hj : Blunt j) (s : Joining) (here : Nat) (last : Nat × Node) :
    (j.around s.flat here (last.1, last.2.flat)).map Joining.flat =
      (j.around s here last).map Joining.flat := by
  have hrest : s.flat.nodes.drop (here + 1) = (s.nodes.drop (here + 1)).map flat := (map_drop ..).symm
  simp only [around, hrest, hj.before, firstSolid?_flat, hj.behind, hj.reach_flat]
  split
  · refine congrArg some ?_
    simp only [Joining.flat, map_append, map_cons, flat_bundle, map_take, map_drop,
      map_map, flat_comp_flat, Option.map_some]
  · rfl

theorem Blunt.step_flat (hj : Blunt j) (s : Joining) (n : Node) (place : Nat) :
    (j.step s.flat (flat n, place)).flat = (j.step s (n, place)).flat := by
  simp only [step, isSpace_flat, hj.middle.flat, show s.flat.moved = s.moved from rfl]
  split
  · exact s.flat_flat
  · have hpassed : (⟨s.flat.nodes, s.moved, some (place - s.moved, flat n)⟩ : Joining).flat =
        (⟨s.nodes, s.moved, some (place - s.moved, n)⟩ : Joining).flat := by
      simp only [Joining.flat, map_map, flat_comp_flat, Option.map_some, Node.flat_flat]
    split
    · cases hlast : s.last with
      | none =>
        rw [show s.flat.last = none by rw [Joining.flat, hlast]; rfl]
        exact hpassed
      | some last =>
        rw [show s.flat.last = some (last.1, last.2.flat) by rw [Joining.flat, hlast]; rfl,
          Option.bind_some, Option.bind_some, ← Option.getD_map Joining.flat, ← Option.getD_map Joining.flat,
          hj.around_flat, hpassed]
    · exact hpassed

theorem Blunt.blind (hj : Blunt j) : Blind j.joinFlat := by
  have hsteps : ∀ (ns : List Node) (place : Nat) {s s' : Joining}, s'.flat = s.flat →
      (((ns.map flat).zipIdx place).foldl j.step s').flat = ((ns.zipIdx place).foldl j.step s).flat := by
    intro ns
    induction ns with
    | nil => intro place s s' h; exact h
    | cons n ns ih =>
      intro place s s' h
      refine ih _ ?_
      rw [← hj.step_flat, h, Node.flat_flat, hj.step_flat]
  intro ns
  have hstart : (⟨ns.map flat, 0, none⟩ : Joining).flat = (⟨ns, 0, none⟩ : Joining).flat := by
    simp only [Joining.flat, map_map, flat_comp_flat, Option.map_none]
  exact congrArg Joining.nodes (hsteps ns 0 hstart)

def extend (tail : List Node) (s : Joining) : Joining :=
  { s with nodes := s.nodes ++ tail }

/-- The places of all `total` nodes are inside the list, as far as they are ahead, and the list does not end
in a blank. -/
structure Within (total : Nat) (s : Joining) : Prop where
  places : total ≤ s.nodes.length + s.moved
  last : ∀ i l, s.last = some (i, l) → i < s.nodes.length
  solid : ∀ n, s.nodes.getLast? = some n → n.isSpace = false

section

variable {total place : Nat} {s : Joining} {n : Node} {tail : List Node}

theorem Blunt.around_extend (hj : Blunt j) (hs : Within total s) (htail : ∀ n ∈ tail, n.isLoose)
    {here i : Nat} {l : Node} (hlast : s.last = some (i, l)) (hhere : here < s.nodes.length)
    (hbehind : j.behind (firstSolid? (s.nodes.drop (here + 1) ++ tail)) =
      j.behind (firstSolid? (s.nodes.drop (here + 1)))) :
    j.around (extend tail s) here (i, l) = (j.around s here (i, l)).map (extend tail) := by
  have hrest : (s.nodes ++ tail).drop (here + 1) = s.nodes.drop (here + 1) ++ tail :=
    drop_append_of_le_length hhere
  simp only [around, extend, hrest, hbehind]
  split
  case isFalse => rfl
  case isTrue h =>
    obtain ⟨hreach, hle⟩ := hj.reach htail (Bool.and_eq_true_iff.mp h).2
    have hi := hs.last i l hlast
    rw [length_drop] at hle
    rw [hreach]
    generalize j.reach (s.nodes.drop (here + 1)) = reach at hle
    have hstart : (if j.takesBefore then i else here) < s.nodes.length := by
      split
      · exact hi
      · exact hhere
    generalize (if j.takesBefore then i else here) = start at hstart
    have hsize : start + (here + 1 + reach - start) ≤ s.nodes.length := by omega
    have hsize' : here + 1 + reach - start ≤ (s.nodes.drop start).length := by
      rw [length_drop]
      omega
    rw [take_append_of_le_length (Nat.le_of_lt hstart), drop_append_of_le_length (Nat.le_of_lt hstart),
      take_append_of_le_length hsize', drop_append_of_le_length hsize, Option.map_some]
    simp [extend]

/-- Where something stands behind the middle node, it is the same with and without the tail; where nothing
does, the tail is as good as nothing, or the node is no middle node. -/
theorem behind_append (hs : Within total s) (htail : ∀ n ∈ tail, n.isLoose) (hmoved : s.moved ≤ place)
    (hend : (∀ m, m.isLoose → j.behind (some m) = j.behind none) ∨ place + 1 < total) :
    j.behind (firstSolid? (s.nodes.drop (place - s.moved + 1) ++ tail)) =
      j.behind (firstSolid? (s.nodes.drop (place - s.moved + 1))) := by
  have hplaces := hs.places
  cases hrest : (s.nodes.drop (place - s.moved + 1)).getLast? with
  | some x =>
    have hx : x.isSpace = false := by
      rw [getLast?_drop] at hrest
      split at hrest
      · cases hrest
      · exact hs.solid x hrest
    have hsome : (firstSolid? (s.nodes.drop (place - s.moved + 1))).isSome :=
      find?_isSome.mpr ⟨x, mem_of_getLast? hrest, by rw [hx]; rfl⟩
    obtain ⟨m, hm⟩ := Option.isSome_iff_exists.mp hsome
    rw [hm, firstSolid?, find?_append, show find? _ _ = some m from hm]
    rfl
  | none =>
    rw [getLast?_eq_none_iff] at hrest
    rw [hrest, nil_append]
    have hnil : s.nodes.length ≤ place - s.moved + 1 := drop_eq_nil_iff.mp hrest
    rcases hend with hend | hend
    · cases hfound : firstSolid? tail with
      | none => rfl
      | some m => exact hend m (htail m (mem_of_find?_eq_some hfound))
    · omega

theorem Blunt.within_step (hj : Blunt j) (hs : Within total s) (hplace : place < total) (n : Node) :
    Within total (j.step s (n, place)) := by
  have hplaces := hs.places
  rcases step_cases j s n place with ⟨-, h⟩ | ⟨-, hmoved, h⟩ |
    ⟨-, hmoved, -, i, l, start, size, made, hlast, -, hbehind, hstart, hsize, ⟨inside, rfl⟩, h⟩
  · rwa [h]
  · rw [h]
    refine ⟨hplaces, fun i l hlast => ?_, hs.solid⟩
    obtain ⟨rfl, -⟩ := Prod.mk.inj (Option.some.inj hlast)
    show place - s.moved < s.nodes.length
    omega
  · obtain ⟨-, hreach⟩ := hj.reach (t := []) (by simp) hbehind
    have hi := hs.last i l hlast
    have hstart' : start < s.nodes.length := by
      rw [hstart]
      split
      · exact hi
      · omega
    have hlength : (s.nodes.take start ++ group j.kind inside :: s.nodes.drop (start + size)).length =
        start + 1 + (s.nodes.length - (start + size)) := by
      simp only [length_append, length_cons, length_drop, length_take]
      omega
    rw [h]
    refine ⟨?_, fun i' l' hlast' => ?_, fun m hm => ?_⟩
    · show total ≤ (_ : List Node).length + (s.moved + (size - 1))
      rw [hlength]
      omega
    · obtain ⟨rfl, -⟩ := Prod.mk.inj (Option.some.inj hlast')
      rw [hlength]
      omega
    · rw [getLast?_append, getLast?_cons, getLast?_drop] at hm
      by_cases hle : s.nodes.length ≤ start + size
      · rw [if_pos hle] at hm
        rw [← Option.some.inj hm]
        rfl
      · rw [if_neg hle] at hm
        cases hnodes : s.nodes.getLast? with
        | none =>
          rw [getLast?_eq_none_iff.mp hnodes] at hle
          simp at hle
        | some r =>
          rw [hnodes] at hm
          rw [← Option.some.inj hm]
          exact hs.solid r hnodes

/-- **A step with a tail behind the nodes** is a step without it. -/
theorem Blunt.step_extend (hj : Blunt j) (hs : Within total s) (htail : ∀ n ∈ tail, n.isLoose)
    (hplace : place < total) (hend : j.isMiddle n →
      (∀ m, m.isLoose → j.behind (some m) = j.behind none) ∨ place + 1 < total) :
    j.step (extend tail s) (n, place) = extend tail (j.step s (n, place)) := by
  have hplaces := hs.places
  simp only [step, show (extend tail s).moved = s.moved from rfl, show (extend tail s).last = s.last from rfl]
  by_cases hskip : (n.isSpace || decide (place < s.moved))
  · rw [if_pos hskip, if_pos hskip]
  · rw [if_neg hskip, if_neg hskip]
    by_cases hmiddle : j.isMiddle n
    · rw [if_pos hmiddle, if_pos hmiddle]
      cases hlast : s.last with
      | none => rfl
      | some last =>
        have hmoved : s.moved ≤ place := by
          simp only [Bool.or_eq_true, decide_eq_true_eq] at hskip
          omega
        rw [Option.bind_some, Option.bind_some, hj.around_extend hs htail hlast (by omega)
          (behind_append hs htail hmoved (hend hmiddle))]
        exact Option.getD_map (extend tail) ⟨s.nodes, s.moved, some (place - s.moved, n)⟩
          (j.around s (place - s.moved) last)
    · rw [if_neg hmiddle, if_neg hmiddle]
      rfl

theorem Blunt.steps_extend (hj : Blunt j) (htail : ∀ n ∈ tail, n.isLoose) {todo : List Node}
    {place : Nat} {s : Joining} (htotal : place + todo.length = total) (hs : Within total s)
    (hend : (∀ m, m.isLoose → j.behind (some m) = j.behind none) ∨
      ∀ n, todo.getLast? = some n → j.isMiddle n = false) :
    (todo.zipIdx place).foldl j.step (extend tail s) = extend tail ((todo.zipIdx place).foldl j.step s) := by
  induction todo generalizing place s with
  | nil => rfl
  | cons n todo ih =>
    rw [length_cons] at htotal
    rw [zipIdx_cons, foldl_cons, foldl_cons, hj.step_extend hs htail (by omega)]
    · refine ih (by omega) (hj.within_step hs (by omega) n) (hend.imp id fun hlast m hm => ?_)
      exact hlast m (by rw [getLast?_cons, hm]; rfl)
    · intro hmiddle
      refine hend.imp id fun hlast => ?_
      cases todo with
      | nil =>
        rw [hlast n rfl] at hmiddle
        cases hmiddle
      | cons m todo =>
        rw [length_cons] at htotal
        omega

theorem nodes_steps {todo : List Node} (h : ∀ n ∈ todo, j.isMiddle n = false) (place : Nat) (s : Joining) :
    ((todo.zipIdx place).foldl j.step s).nodes = s.nodes := by
  induction todo generalizing place s with
  | nil => rfl
  | cons n todo ih =>
    rw [zipIdx_cons, foldl_cons, ih fun m hm => h m (by simp [hm])]
    rcases step_cases j s n place with ⟨-, hstep⟩ | ⟨-, -, hstep⟩ | ⟨-, -, hmiddle, -⟩
    · rw [hstep]
    · rw [hstep]
    · rw [h n (by simp)] at hmiddle
      cases hmiddle

end

/-- **Joining leaves the tail behind the nodes.** -/
theorem Blunt.sound (hj : Blunt j) (hend : (∀ m, m.isLoose → j.behind (some m) = j.behind none) ∨
    ∀ n : Node, n.isWord "AS" = false ∧ n.isSign "::" = false → j.isMiddle n = false) : Sound j.joinFlat := by
  refine hj.blind.sound (.of_bundled (bundled_joinFlat hj.kind)) ?_
  intro ns tail hfit htail
  have hstart : Within ns.length ⟨ns, 0, none⟩ := by
    refine ⟨Nat.le_refl _, fun i l h => ?_, fun n hn => ?_⟩
    · cases h
    · rw [Bool.eq_false_iff]
      exact fun hspace => absurd (isLoose_of_isSpace hspace) (Bool.eq_false_iff.mp (hfit.solid n hn))
  have hsteps : ns.zipIdx.foldl j.step (extend tail ⟨ns, 0, none⟩) =
      extend tail (ns.zipIdx.foldl j.step ⟨ns, 0, none⟩) :=
    hj.steps_extend htail (Nat.zero_add _) hstart (hend.imp id fun h n hn => h n (hfit.complete n hn))
  have happend : j.joinFlat (ns ++ tail) = j.joinFlat ns ++ tail := by
    rw [joinFlat, joinFlat, zipIdx_append, foldl_append, nodes_steps fun n hn => hj.middle.loose (htail n hn)]
    exact congrArg Joining.nodes hsteps
  rw [happend]
  exact trails_append htail

theorem sound_of_calm (hkind : j.kind ≠ .comment) (hmiddle : j.isMiddle = isTokenOf (· == .assignment)) :
    Sound j.joinFlat where
  tidy := .of_bundled (bundled_joinFlat hkind)
  trails {ns ms} hfit h := by
    have hfirm : Firm j.isMiddle := hmiddle ▸ firm_isTokenOf (by decide)
    have hns : ∀ n ∈ ns, j.isMiddle n = false := by
      intro n hn
      rw [hmiddle]
      cases n with
      | token t => exact beq_eq_false_iff_ne.mpr (hfit.calm t hn)
      | group => rfl
    obtain ⟨tail, htail, hflat⟩ := h
    have hms : ∀ m ∈ ms, j.isMiddle m = false := by
      intro m hm
      have hmem : flat m ∈ (ns ++ tail).map flat := hflat ▸ mem_map_of_mem hm
      obtain ⟨n, hn, hnm⟩ := mem_map.mp hmem
      rw [← hfirm.flat, ← hnm, hfirm.flat]
      rcases mem_append.mp hn with hn | hn
      · exact hns n hn
      · exact hfirm.loose (htail n hn)
    rw [joinFlat, joinFlat, nodes_steps hns, nodes_steps hms]
    exact ⟨tail, htail, hflat⟩

end Joint

end SqlGateway.Sql.Node
