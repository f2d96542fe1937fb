import ClassCoupling.Grouping
import ClassCoupling.Proofs.GraphAssembly
import Mathlib.Algebra.BigOperators.Group.List.Lemmas
import Mathlib.Algebra.GroupWithZero.Nat

/-!
What grouping gives. The nodes of each key are collected in one pass, so the keys
of the groups are the keys of the nodes, in ascending order and each once; the
number of a group is the place of its key. Between two groups there is an edge
exactly when their keys differ and some member of the one has an edge to some
member of the other, on either side of the graph.
-/
namespace ClassCoupling

attribute [ext] Group

namespace Grouping

variable {κ : Type} [Ord κ] {grouping : Grouping κ} {place other : Nat}

theorem mem_efferents_iff : other ∈ grouping.efferents place ↔
    ∃ group, grouping.groups[place]? = some group ∧ other ∈ group.efferents.toList := by
  unfold efferents
  cases grouping.groups[place]? <;> simp

theorem mem_afferents_iff : other ∈ grouping.afferents place ↔
    ∃ group, grouping.groups[place]? = some group ∧ other ∈ group.afferents.toList := by
  unfold afferents
  cases grouping.groups[place]? <;> simp

end Grouping

namespace Graph

variable {κ : Type} [Ord κ]

def withKey (count : Nat) (key : Nat → κ) (wanted : κ) : List Nat :=
  (List.range count).filter fun id => compare (key id) wanted = .eq

theorem withKey_succ (count : Nat) (key : Nat → κ) (wanted : κ) :
    withKey (count + 1) key wanted =
      if compare (key count) wanted = .eq then withKey count key wanted ++ [count]
      else withKey count key wanted := by
  by_cases same : compare (key count) wanted = .eq
  · simp [withKey, List.range_succ, same]
  · simp [withKey, List.range_succ, same]

theorem mem_withKey_iff [Std.LawfulEqOrd κ] {count : Nat} {key : Nat → κ} {wanted : κ} {id : Nat} :
    id ∈ withKey count key wanted ↔ id < count ∧ key id = wanted := by
  rw [withKey, List.mem_filter, List.mem_range, decide_eq_true_eq, Std.compare_eq_iff_eq]

theorem length_withKey [Std.LawfulEqOrd κ] [DecidableEq κ] (count : Nat) (key : Nat → κ)
    (wanted : κ) :
    (withKey count key wanted).length = (List.range count).countP fun id => key id = wanted := by
  rw [List.countP_eq_length_filter, withKey]
  simp only [Std.compare_eq_iff_eq]

variable [Std.TransOrd κ]

def groupKeys (graph : Graph) (key : Nat → κ) : List κ := (membersBy graph.size key).keys

theorem groupKeys_ascend (graph : Graph) (key : Nat → κ) :
    (graph.groupKeys key).Pairwise fun first second => compare first second = .lt :=
  Std.TreeMap.ordered_keys

theorem nodup_groupKeys (graph : Graph) (key : Nat → κ) : (graph.groupKeys key).Nodup :=
  Std.TreeMap.nodup_keys

variable [Std.LawfulEqOrd κ]

theorem getElem?_membersBy (count : Nat) (key : Nat → κ) (wanted : κ) :
    (membersBy count key)[wanted]? =
      if withKey count key wanted = [] then none else some (withKey count key wanted).reverse := by
  -- Each step of the pass puts one node before the others of its key.
  induction count with
  | zero => rfl
  | succ count ih =>
      have step : membersBy (count + 1) key = (membersBy count key).alter (key count)
          fun ids => some (count :: ids.getD []) := by
        rw [membersBy, List.range_succ, List.foldl_append]
        rfl
      rw [step, Std.TreeMap.getElem?_alter, withKey_succ]
      split
      case isTrue same =>
        rw [Std.LawfulEqOrd.eq_of_compare same, ih]
        -- The first node of its key finds no entry, and a later one the reverse of the others.
        split
        case isTrue none => simp [none]
        case isFalse => simp
      case isFalse => exact ih

/-- Numbering ascending keys and looking one up gives its place. -/
theorem getElem?_ofList_zipIdx_iff {keys : List κ} {wanted : κ} {place : Nat}
    (ascending : keys.Pairwise fun first second => compare first second = .lt) :
    (Std.TreeMap.ofList keys.zipIdx)[wanted]? = some place ↔ keys[place]? = some wanted := by
  have distinct : keys.zipIdx.Pairwise fun first second => ¬compare first.1 second.1 = .eq := by
    rw [← List.zipIdx_map_fst 0 keys, List.pairwise_map] at ascending
    refine ascending.imp ?_
    intro first second before same
    rw [before] at same
    cases same
  have found : ∀ {place}, keys[place]? = some wanted →
      (Std.TreeMap.ofList keys.zipIdx)[wanted]? = some place := by
    intro place present
    exact Std.TreeMap.getElem?_ofList_of_mem Std.ReflCmp.compare_self distinct
      (List.mem_zipIdx_iff_getElem?.mpr present)
  constructor
  · intro located
    classical
    by_cases present : wanted ∈ keys
    · obtain ⟨other, present⟩ := List.mem_iff_getElem?.mp present
      rw [found present, Option.some.injEq] at located
      exact located ▸ present
    · rw [Std.TreeMap.getElem?_ofList_of_contains_eq_false] at located
      · cases located
      · rw [List.zipIdx_map_fst]
        simpa using present
  · exact found

section Keys

variable (graph : Graph) (key : Nat → κ)

theorem mem_groupKeys_iff {wanted : κ} :
    wanted ∈ graph.groupKeys key ↔ ∃ id < graph.size, key id = wanted := by
  rw [groupKeys, Std.TreeMap.mem_keys, Std.TreeMap.mem_iff_isSome_getElem?, getElem?_membersBy,
    Option.isSome_ite', List.eq_nil_iff_forall_not_mem, not_forall_not]
  simp only [mem_withKey_iff]

theorem find?_groupBy_iff {wanted : κ} {place : Nat} :
    (graph.groupBy key).find? wanted = some place ↔
      (graph.groupKeys key)[place]? = some wanted :=
  getElem?_ofList_zipIdx_iff (graph.groupKeys_ascend key)

def placeOf (wanted : κ) : Nat := (Std.TreeMap.ofList (graph.groupKeys key).zipIdx).getD wanted 0

theorem placeOf_eq {wanted : κ} {place : Nat}
    (present : (graph.groupKeys key)[place]? = some wanted) : graph.placeOf key wanted = place := by
  have found := (graph.find?_groupBy_iff key).mpr present
  rw [placeOf, Std.TreeMap.getD_eq_getD_getElem?]
  exact congrArg (Option.getD · 0) found

def groupOf (id : Nat) : Nat :=
  ((Array.ofFn fun id : Fin graph.size => key id).map (graph.placeOf key)).getD id 0

theorem groupOf_eq_iff {id place : Nat} (bound : id < graph.size) :
    graph.groupOf key id = place ↔ (graph.groupKeys key)[place]? = some (key id) := by
  have table : graph.groupOf key id = graph.placeOf key (key id) := by
    simp [groupOf, Array.getD_eq_getD_getElem?, bound]
  have present := (graph.mem_groupKeys_iff key).mpr ⟨id, bound, rfl⟩
  obtain ⟨own, present⟩ := List.mem_iff_getElem?.mp present
  rw [table, graph.placeOf_eq key present]
  constructor
  · rintro rfl
    exact present
  · intro other
    have bound := (List.getElem?_eq_some_iff.mp present).1
    exact (List.getElem?_inj bound (graph.nodup_groupKeys key)).mp (present.trans other.symm)

def groupAt (place : Nat) (wanted : κ) : Group κ where
  key := wanted
  memberCount := (withKey graph.size key wanted).length
  efferents := neighbours graph.efferents (graph.groupOf key) place
    (withKey graph.size key wanted).reverse
  afferents := neighbours graph.afferents (graph.groupOf key) place
    (withKey graph.size key wanted).reverse

theorem getElem?_groups (place : Nat) :
    (graph.groupBy key).groups[place]? =
      (graph.groupKeys key)[place]?.map (graph.groupAt key place) := by
  have listed : (graph.groupKeys key)[place]? =
      (membersBy graph.size key).toList[place]?.map Prod.fst := by
    rw [groupKeys, ← Std.TreeMap.map_fst_toList_eq_keys, List.getElem?_map]
  rw [groupBy]
  simp only [List.getElem?_toArray, List.getElem?_map]
  cases present : (membersBy graph.size key).toList[place]? with
  | none =>
      rw [listed, present]
      rfl
  | some entry =>
      rw [present] at listed
      have members := Std.TreeMap.mem_toList_iff_getElem?_eq_some.mp (List.mem_of_getElem? present)
      rw [getElem?_membersBy] at members
      have ids : entry.2 = (withKey graph.size key entry.1).reverse := by
        split at members
        case isTrue => cases members
        case isFalse => exact (Option.some.inj members).symm
      have own :
          (Std.TreeMap.ofList (membersBy graph.size key).keys.zipIdx).getD entry.1 0 = place :=
        graph.placeOf_eq key listed
      rw [listed]
      simp only [Option.map_some, own, ids, List.length_reverse]
      rfl

theorem efferents_groupAt {place : Nat} {wanted : κ}
    (present : (graph.groupKeys key)[place]? = some wanted) :
    (graph.groupAt key place wanted).efferents.toList = (graph.groupBy key).efferents place := by
  rw [Grouping.efferents, getElem?_groups, present]
  rfl

theorem afferents_groupAt {place : Nat} {wanted : κ}
    (present : (graph.groupKeys key)[place]? = some wanted) :
    (graph.groupAt key place wanted).afferents.toList = (graph.groupBy key).afferents place := by
  rw [Grouping.afferents, getElem?_groups, present]
  rfl

/-- Two groups are neighbours when some members of theirs are, on either side of a graph. -/
theorem mem_side_groupBy_iff {side : Group κ → Ascending Nat} {neighboursOf : Nat → List Nat}
    {place other : Nat}
    (gathers : ∀ wanted, side (graph.groupAt key place wanted) =
      neighbours neighboursOf (graph.groupOf key) place (withKey graph.size key wanted).reverse)
    (within : ∀ {id neighbour}, neighbour ∈ neighboursOf id →
      id < graph.size ∧ neighbour < graph.size) :
    (∃ group, (graph.groupBy key).groups[place]? = some group ∧ other ∈ (side group).toList) ↔
      other ≠ place ∧ ∃ id neighbour, neighbour ∈ neighboursOf id ∧
        (graph.groupKeys key)[place]? = some (key id) ∧
        (graph.groupKeys key)[other]? = some (key neighbour) := by
  rw [getElem?_groups]
  simp only [Option.map_eq_some_iff]
  constructor
  · rintro ⟨group, ⟨wanted, present, rfl⟩, edge⟩
    rw [gathers, neighbours, Ascending.mem_ofList, List.mem_filter, decide_eq_true_eq] at edge
    simp only [List.mem_flatMap, List.mem_reverse, mem_withKey_iff, List.mem_map] at edge
    obtain ⟨⟨id, ⟨-, rfl⟩, neighbour, edge, found⟩, distinct⟩ := edge
    exact ⟨distinct, id, neighbour, edge, present,
      (graph.groupOf_eq_iff key (within edge).2).mp found⟩
  · rintro ⟨distinct, id, neighbour, edge, present, found⟩
    obtain ⟨idBound, bound⟩ := within edge
    refine ⟨_, ⟨key id, present, rfl⟩, ?_⟩
    rw [gathers, neighbours, Ascending.mem_ofList, List.mem_filter, decide_eq_true_eq]
    simp only [List.mem_flatMap, List.mem_reverse, mem_withKey_iff, List.mem_map]
    exact ⟨⟨id, ⟨idBound, rfl⟩, neighbour, edge, (graph.groupOf_eq_iff key bound).mpr found⟩,
      distinct⟩

variable {graph}

theorem mem_efferents_groupBy_iff (sound : graph.Sound) {place other : Nat} :
    other ∈ (graph.groupBy key).efferents place ↔
      other ≠ place ∧ ∃ source target, target ∈ graph.efferents source ∧
        (graph.groupKeys key)[place]? = some (key source) ∧
        (graph.groupKeys key)[other]? = some (key target) := by
  rw [Grouping.mem_efferents_iff]
  refine graph.mem_side_groupBy_iff key (fun _ => rfl) ?_
  intro source target edge
  exact ⟨lt_size_of_mem_efferents edge, sound.efferents_lt edge⟩

theorem mem_efferents_groupBy_iff_dependsOn (sound : graph.Sound) {first second : κ}
    {place other : Nat} (firstFound : (graph.groupBy key).find? first = some place)
    (secondFound : (graph.groupBy key).find? second = some other) :
    other ∈ (graph.groupBy key).efferents place ↔ first ≠ second ∧ ∃ source target,
      key source = first ∧ key target = second ∧ graph.dependsOn source target = true := by
  rw [find?_groupBy_iff] at firstFound secondFound
  have distinct : other = place ↔ first = second := by
    have bound := (List.getElem?_eq_some_iff.mp secondFound).1
    rw [← List.getElem?_inj bound (graph.nodup_groupKeys key), firstFound, secondFound,
      Option.some.injEq, eq_comm]
  rw [mem_efferents_groupBy_iff key sound, firstFound, secondFound, ne_eq, distinct]
  simp only [Option.some.injEq, mem_efferents_iff_dependsOn]
  refine and_congr_right fun _ => exists_congr fun source => exists_congr fun target => ?_
  constructor
  · rintro ⟨edge, rfl, rfl⟩
    exact ⟨rfl, rfl, edge⟩
  · rintro ⟨rfl, rfl, edge⟩
    exact ⟨edge, rfl, rfl⟩

theorem mem_afferents_groupBy_iff (sound : graph.Sound) {place other : Nat} :
    other ∈ (graph.groupBy key).afferents place ↔ place ∈ (graph.groupBy key).efferents other := by
  have sides : other ∈ (graph.groupBy key).afferents place ↔
      other ≠ place ∧ ∃ target source, source ∈ graph.afferents target ∧
        (graph.groupKeys key)[place]? = some (key target) ∧
        (graph.groupKeys key)[other]? = some (key source) := by
    rw [Grouping.mem_afferents_iff]
    refine graph.mem_side_groupBy_iff key (fun _ => rfl) ?_
    intro target source edge
    rw [sound.mirrored] at edge
    exact ⟨sound.efferents_lt edge, lt_size_of_mem_efferents edge⟩
  rw [sides, mem_efferents_groupBy_iff key sound]
  constructor
  · rintro ⟨distinct, target, source, edge, atPlace, atOther⟩
    exact ⟨distinct.symm, source, target, (sound.mirrored source target).mp edge, atOther, atPlace⟩
  · rintro ⟨distinct, source, target, edge, atOther, atPlace⟩
    exact ⟨distinct.symm, target, source, (sound.mirrored source target).mpr edge, atPlace, atOther⟩

variable (graph)

theorem map_groups {β : Type} {read : Group κ → β} {value : κ → β}
    (reads : ∀ place wanted, read (graph.groupAt key place wanted) = value wanted) :
    (graph.groupBy key).groups.toList.map read = (graph.groupKeys key).map value := by
  apply List.ext_getElem?
  intro place
  rw [List.getElem?_map, Array.getElem?_toList, getElem?_groups, List.getElem?_map, Option.map_map]
  congr 1
  funext wanted
  exact reads place wanted

theorem map_key_groups :
    (graph.groupBy key).groups.toList.map Group.key = graph.groupKeys key :=
  (graph.map_groups key fun _ _ => rfl).trans (List.map_id _)

theorem size_groupBy : (graph.groupBy key).size = (graph.groupKeys key).length := by
  rw [← map_key_groups, List.length_map, Array.length_toList, Grouping.size]

theorem groupKeys_perm_dedup [DecidableEq κ] :
    (graph.groupKeys key).Perm ((List.range graph.size).map key).dedup := by
  refine (List.perm_ext_iff_of_nodup (graph.nodup_groupKeys key) (List.nodup_dedup _)).mpr ?_
  intro wanted
  rw [List.mem_dedup, mem_groupKeys_iff]
  simp

omit [Std.TransOrd κ] in
theorem memberCount_groupAt [DecidableEq κ] (place : Nat) (wanted : κ) :
    (graph.groupAt key place wanted).memberCount =
      ((List.range graph.size).map key).count wanted := by
  rw [List.count, List.countP_map]
  exact length_withKey graph.size key wanted

theorem sum_memberCount_filter (holds : κ → Bool) :
    (((graph.groupBy key).groups.toList.filter fun part => holds part.key).map
        Group.memberCount).sum =
      (List.range graph.size).countP fun id => holds (key id) := by
  classical
  let keys := (List.range graph.size).map key
  have counts : (graph.groupBy key).groups.toList.map (fun part => (part.key, part.memberCount)) =
      (graph.groupKeys key).map fun wanted => (wanted, keys.count wanted) := by
    refine graph.map_groups key fun place wanted => ?_
    rw [memberCount_groupAt]
    rfl
  calc (((graph.groupBy key).groups.toList.filter fun part => holds part.key).map
          Group.memberCount).sum
      = ((((graph.groupBy key).groups.toList.map
          fun part => (part.key, part.memberCount)).filter
            fun entry => holds entry.1).map Prod.snd).sum := by
        rw [List.filter_map, List.map_map]
        rfl
    _ = (((graph.groupKeys key).filter holds).map fun wanted => keys.count wanted).sum := by
        rw [counts, List.filter_map, List.map_map]
        rfl
    _ = ((keys.dedup.filter holds).map fun wanted => keys.count wanted).sum :=
        (((graph.groupKeys_perm_dedup key).filter holds).map _).sum_eq
    _ = keys.countP holds := List.sum_map_count_dedup_filter_eq_countP holds keys
    _ = (List.range graph.size).countP fun id => holds (key id) := List.countP_map ..

theorem sum_memberCount :
    ((graph.groupBy key).groups.toList.map Group.memberCount).sum = graph.size := by
  simpa using graph.sum_memberCount_filter key fun _ => true

end Keys

/-- The groups of a graph by the keys of its nodes, with the edges between them. -/
structure IsQuotient [DecidableEq κ] (graph : Graph) (key : Nat → κ) (grouping : Grouping κ) :
    Prop where
  keys_ascend : (grouping.groups.toList.map Group.key).Pairwise
    fun first second => compare first second = .lt
  key_iff : ∀ wanted,
    wanted ∈ grouping.groups.toList.map Group.key ↔ ∃ id < graph.size, key id = wanted
  found_iff : ∀ wanted place, grouping.find? wanted = some place ↔
    (grouping.groups[place]?).map Group.key = some wanted
  isFound_iff : ∀ wanted,
    (grouping.find? wanted).isSome = true ↔ ∃ id < graph.size, key id = wanted
  memberCount_eq : ∀ group ∈ grouping.groups.toList,
    group.memberCount = (List.range graph.size).countP fun id => key id = group.key
  memberCount_sum : (grouping.groups.toList.map Group.memberCount).sum = graph.size
  efferent_iff : ∀ first second place other,
    grouping.find? first = some place → grouping.find? second = some other →
      (other ∈ grouping.efferents place ↔ first ≠ second ∧ ∃ source target,
        key source = first ∧ key target = second ∧ graph.dependsOn source target = true)
  efferent_lt : ∀ place other, other ∈ grouping.efferents place →
    place < grouping.size ∧ other < grouping.size
  afferent_iff : ∀ place other,
    other ∈ grouping.afferents place ↔ place ∈ grouping.efferents other
  irreflexive : ∀ place,
    place ∉ grouping.efferents place ∧ place ∉ grouping.afferents place

theorem groupBy_is_quotient [DecidableEq κ] (records : List ClassRecord) (key : Nat → κ) :
    IsQuotient (assemble records) key ((assemble records).groupBy key) := by
  have sound := assemble_sound records
  have mirrored : ∀ place other, other ∈ ((assemble records).groupBy key).afferents place ↔
      place ∈ ((assemble records).groupBy key).efferents other := by
    intro place other
    exact mem_afferents_groupBy_iff key sound
  have self : ∀ place, place ∉ ((assemble records).groupBy key).efferents place := by
    intro place edge
    exact ((mem_efferents_groupBy_iff key sound).mp edge).1 rfl
  exact {
    keys_ascend := by
      rw [map_key_groups]
      exact groupKeys_ascend _ key
    key_iff := by
      intro wanted
      rw [map_key_groups, mem_groupKeys_iff]
    found_iff := by
      intro wanted place
      rw [find?_groupBy_iff, ← map_key_groups, List.getElem?_map, Array.getElem?_toList]
    isFound_iff := by
      intro wanted
      simp only [Option.isSome_iff_exists, find?_groupBy_iff, ← List.mem_iff_getElem?,
        mem_groupKeys_iff]
    memberCount_eq := by
      intro group present
      obtain ⟨place, present⟩ := List.mem_iff_getElem?.mp present
      rw [Array.getElem?_toList, getElem?_groups] at present
      obtain ⟨wanted, -, rfl⟩ := Option.map_eq_some_iff.mp present
      exact length_withKey _ key wanted
    memberCount_sum := sum_memberCount _ key
    efferent_iff := fun _ _ _ _ => mem_efferents_groupBy_iff_dependsOn key sound
    efferent_lt := by
      intro place other edge
      obtain ⟨-, source, target, -, atPlace, atOther⟩ :=
        (mem_efferents_groupBy_iff key sound).mp edge
      rw [size_groupBy]
      exact ⟨(List.getElem?_eq_some_iff.mp atPlace).1, (List.getElem?_eq_some_iff.mp atOther).1⟩
    afferent_iff := mirrored
    irreflexive := by
      intro place
      refine ⟨self place, ?_⟩
      rw [mirrored]
      exact self place }

def entangled : List ClassRecord :=
  [{ name := "app.Main", references := .ofList ["app.Util", "lib.Log", "Loose"] },
    { name := "app.Util", references := .ofList ["app.Main"] },
    { name := "lib.Log", references := .ofList ["app.Util"] }]

theorem groupBy_is_quotient_entangled :
    (assemble entangled).packages.groups.toList.map Group.key = ["Default", "app", "lib"] ∧
      IsQuotient (assemble entangled) (fun id => ((assemble entangled).record id).package)
        (assemble entangled).packages :=
  ⟨by decide +kernel, groupBy_is_quotient entangled _⟩

end Graph

end ClassCoupling
