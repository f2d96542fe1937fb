import ClassCoupling.Proofs.CycleDetection

/-!
Groupings of groupings. Seen through its keys, a grouping has an edge between two keys when
they differ and some nodes with these keys have one. Putting the groups of a finer
grouping together by a coarser key therefore loses nothing: an edge inside a fine group
has equal keys on both ends, and equal keys stay equal when they are made coarser.
The coarse groups, with their members and edges, follow from the fine ones alone.
-/
namespace ClassCoupling

namespace Grouping

section Keyed

variable {κ : Type} [Ord κ]

def keyAt? (grouping : Grouping κ) (place : Nat) : Option κ :=
  (grouping.groups[place]?).map Group.key

/-- Keys ascend and are found at their places, and both sides list the same edges. -/
structure Sound (grouping : Grouping κ) : Prop where
  keys_ascend : (grouping.groups.toList.map Group.key).Pairwise
    fun first second => compare first second = .lt
  found_iff : ∀ wanted place, grouping.find? wanted = some place ↔
    grouping.keyAt? place = some wanted
  efferents_lt : ∀ {place other}, other ∈ grouping.efferents place → other < grouping.size
  mirrored : ∀ place other, other ∈ grouping.afferents place ↔ place ∈ grouping.efferents other

variable {grouping : Grouping κ} {place other : Nat}

theorem exists_keyAt? (bound : place < grouping.size) : ∃ key, grouping.keyAt? place = some key := by
  rw [keyAt?, Array.getElem?_eq_getElem bound]
  exact ⟨_, rfl⟩

theorem lt_size_of_mem_efferents (edge : other ∈ grouping.efferents place) :
    place < grouping.size := by
  obtain ⟨group, present, -⟩ := mem_efferents_iff.mp edge
  exact (Array.getElem?_eq_some_iff.mp present).1

theorem Sound.mem_efferents_iff_dependsOn (sound : grouping.Sound) :
    other ∈ grouping.efferents place ↔ ∃ source target, grouping.keyAt? place = some source ∧
      grouping.keyAt? other = some target ∧ grouping.DependsOn source target := by
  constructor
  · intro edge
    obtain ⟨source, atPlace⟩ := exists_keyAt? (lt_size_of_mem_efferents edge)
    obtain ⟨target, atOther⟩ := exists_keyAt? (sound.efferents_lt edge)
    exact ⟨source, target, atPlace, atOther, place, other, (sound.found_iff source place).mpr atPlace,
      (sound.found_iff target other).mpr atOther, edge⟩
  · rintro ⟨source, target, atPlace, atOther, start, stop, atStart, atStop, edge⟩
    rw [← sound.found_iff] at atPlace atOther
    obtain rfl : start = place := Option.some.inj (atStart.symm.trans atPlace)
    obtain rfl : stop = other := Option.some.inj (atStop.symm.trans atOther)
    exact edge

end Keyed

section Coarsens

variable {κ μ : Type} [Ord κ] [Ord μ] [DecidableEq μ]

/-- The groups of one grouping are those of another, put together where `widen` sends their
keys to one key. -/
structure Coarsens (widen : κ → μ) (fine : Grouping κ) (coarse : Grouping μ) : Prop where
  key_iff : ∀ wanted, wanted ∈ coarse.groups.toList.map Group.key ↔
    ∃ part ∈ fine.groups.toList, widen part.key = wanted
  memberCount_eq : ∀ group ∈ coarse.groups.toList, group.memberCount =
    ((fine.groups.toList.filter fun part => widen part.key = group.key).map
      Group.memberCount).sum
  dependsOn_iff : ∀ source target, coarse.DependsOn source target ↔ source ≠ target ∧
    ∃ first second, widen first = source ∧ widen second = target ∧ fine.DependsOn first second

variable {widen : κ → μ} {fine : Grouping κ} {coarse other : Grouping μ}

theorem Coarsens.groups_eq [Std.TransOrd μ] (coarsens : Coarsens widen fine coarse)
    (sound : coarse.Sound) (again : Coarsens widen fine other) (otherSound : other.Sound) :
    coarse.groups = other.groups := by
  have keys : coarse.groups.toList.map Group.key = other.groups.toList.map Group.key := by
    apply eq_of_ascending sound.keys_ascend otherSound.keys_ascend
    intro wanted
    rw [coarsens.key_iff, again.key_iff]
  have keyAt : ∀ place, coarse.keyAt? place = other.keyAt? place := by
    intro place
    simpa [keyAt?] using congrArg (·[place]?) keys
  have efferents : ∀ place target,
      target ∈ coarse.efferents place ↔ target ∈ other.efferents place := by
    intro place target
    simp only [sound.mem_efferents_iff_dependsOn, otherSound.mem_efferents_iff_dependsOn, keyAt,
      coarsens.dependsOn_iff, again.dependsOn_iff]
  apply Array.ext_getElem?
  intro place
  have same := keyAt place
  rw [keyAt?, keyAt?] at same
  cases here : coarse.groups[place]? with
  | none =>
      rw [here] at same
      exact (Option.map_eq_none_iff.mp same.symm).symm
  | some group =>
      rw [here] at same
      obtain ⟨twin, there, sameKey⟩ := Option.map_eq_some_iff.mp same.symm
      rw [there, Option.some.injEq]
      ext1
      case key => exact sameKey.symm
      case memberCount =>
        have member := Array.mem_toList_iff.mpr (Array.mem_of_getElem? here)
        have twinMember := Array.mem_toList_iff.mpr (Array.mem_of_getElem? there)
        rw [coarsens.memberCount_eq group member, again.memberCount_eq twin twinMember, sameKey]
      case efferents =>
        apply Ascending.eq_of_mem_iff
        intro target
        simpa [Grouping.efferents, here, there] using efferents place target
      case afferents =>
        apply Ascending.eq_of_mem_iff
        intro source
        have sides := (sound.mirrored place source).trans
          ((efferents source place).trans (otherSound.mirrored place source).symm)
        simpa [Grouping.afferents, here, there] using sides

end Coarsens

end Grouping

namespace Graph

variable {κ μ : Type} [Ord κ] [Std.TransOrd κ] [Std.LawfulEqOrd κ] {graph : Graph}
  {key : Nat → κ}

theorem keyAt?_groupBy (place : Nat) :
    (graph.groupBy key).keyAt? place = (graph.groupKeys key)[place]? := by
  rw [Grouping.keyAt?, ← map_key_groups, List.getElem?_map, Array.getElem?_toList]

theorem Sound.groupBy (sound : graph.Sound) : (graph.groupBy key).Sound where
  keys_ascend := by
    rw [map_key_groups]
    exact groupKeys_ascend graph key
  found_iff := by
    intro wanted place
    rw [find?_groupBy_iff, keyAt?_groupBy]
  efferents_lt := by
    intro place other edge
    rw [size_groupBy]
    exact lt_size_of_mem_efferents_groupBy sound edge
  mirrored := fun place other => mem_afferents_groupBy_iff key sound

theorem Sound.dependsOn_groupBy_iff (sound : graph.Sound) {source target : κ} :
    (graph.groupBy key).DependsOn source target ↔ source ≠ target ∧
      ∃ id other, other ∈ graph.efferents id ∧ key id = source ∧ key other = target := by
  rw [Graph.dependsOn_groupBy_iff]
  simp only [mem_efferents_groupBy_iff key sound]
  constructor
  · rintro ⟨place, stop, atPlace, atStop, distinct, id, other, edge, atId, atOther⟩
    rw [atPlace, Option.some.injEq] at atId
    rw [atStop, Option.some.injEq] at atOther
    refine ⟨?_, id, other, edge, atId.symm, atOther.symm⟩
    rintro rfl
    exact distinct (place_unique atStop atPlace)
  · rintro ⟨distinct, id, other, edge, rfl, rfl⟩
    have known := (graph.mem_groupKeys_iff key).mpr ⟨id, lt_size_of_mem_efferents edge, rfl⟩
    have otherKnown := (graph.mem_groupKeys_iff key).mpr ⟨other, sound.efferents_lt edge, rfl⟩
    obtain ⟨place, atPlace⟩ := List.mem_iff_getElem?.mp known
    obtain ⟨stop, atStop⟩ := List.mem_iff_getElem?.mp otherKnown
    refine ⟨place, stop, atPlace, atStop, ?_, id, other, edge, atPlace, atStop⟩
    rintro rfl
    exact distinct (Option.some.inj (atPlace.symm.trans atStop))

section Coarse

variable [Ord μ] [Std.TransOrd μ] [Std.LawfulEqOrd μ] [DecidableEq μ]

theorem Sound.coarsens (sound : graph.Sound) (key : Nat → κ) (widen : κ → μ) :
    Grouping.Coarsens widen (graph.groupBy key) (graph.groupBy (widen ∘ key)) where
  key_iff := by
    intro wanted
    have parts : (∃ part ∈ (graph.groupBy key).groups.toList, widen part.key = wanted) ↔
        ∃ fine ∈ (graph.groupBy key).groups.toList.map Group.key, widen fine = wanted := by
      simp
    rw [parts, map_key_groups, map_key_groups, mem_groupKeys_iff]
    simp only [mem_groupKeys_iff, Function.comp_apply]
    constructor
    · rintro ⟨id, bound, rfl⟩
      exact ⟨key id, ⟨id, bound, rfl⟩, rfl⟩
    · rintro ⟨fine, ⟨id, bound, rfl⟩, rfl⟩
      exact ⟨id, bound, rfl⟩
  memberCount_eq := by
    intro group listed
    obtain ⟨place, present⟩ := List.mem_iff_getElem?.mp listed
    rw [Array.getElem?_toList, getElem?_groups] at present
    obtain ⟨wanted, -, rfl⟩ := Option.map_eq_some_iff.mp present
    exact (length_withKey graph.size (widen ∘ key) wanted).trans
      (graph.sum_memberCount_filter key fun fine => widen fine = wanted).symm
  dependsOn_iff := by
    intro source target
    rw [sound.dependsOn_groupBy_iff]
    refine and_congr_right fun distinct => ?_
    simp only [sound.dependsOn_groupBy_iff, Function.comp_apply]
    constructor
    · rintro ⟨id, other, edge, rfl, rfl⟩
      -- Ends that differ under the coarse key differ under the fine one, so this edge shows.
      exact ⟨key id, key other, rfl, rfl, fun same => distinct (congrArg widen same), id, other,
        edge, rfl, rfl⟩
    · rintro ⟨first, second, rfl, rfl, -, id, other, edge, rfl, rfl⟩
      exact ⟨id, other, edge, rfl, rfl⟩

omit [Ord μ] [Std.TransOrd μ] [Std.LawfulEqOrd μ] [DecidableEq μ] in
theorem Sound.coarsens_classes (sound : graph.Sound) :
    Grouping.Coarsens packageOf graph.classes graph.packages :=
  sound.coarsens graph.name packageOf

/-- Grouping by a coarser key gives the groups of a finer grouping, put together; the members
and edges of the coarse groups are determined by those of the fine ones. -/
theorem coarse_groups_follow_from_fine (records : List ClassRecord) (key : Nat → κ)
    (widen : κ → μ) :
    ((assemble records).groupBy (widen ∘ key)).Sound ∧
      Grouping.Coarsens widen ((assemble records).groupBy key)
        ((assemble records).groupBy (widen ∘ key)) ∧
      (∀ other : Grouping μ, other.Sound →
        Grouping.Coarsens widen ((assemble records).groupBy key) other →
          other.groups = ((assemble records).groupBy (widen ∘ key)).groups) ∧
      Grouping.Coarsens packageOf (assemble records).classes (assemble records).packages := by
  have sound := assemble_sound records
  refine ⟨sound.groupBy, sound.coarsens key widen, ?_, sound.coarsens_classes⟩
  intro other otherSound again
  exact again.groups_eq otherSound (sound.coarsens key widen) sound.groupBy

end Coarse

theorem coarse_groups_follow_from_fine_entangled :
    (assemble entangled).packages.groups.toList.map Group.memberCount = [1, 2, 1] ∧
      (assemble entangled).packages.Sound ∧
      Grouping.Coarsens packageOf ((assemble entangled).groupBy (assemble entangled).name)
        (assemble entangled).packages ∧
      (assemble entangled).packages.groups =
        ((assemble entangled).groupBy (packageOf ∘ (assemble entangled).name)).groups := by
  have sound : (assemble entangled).packages.Sound := (assemble_sound entangled).groupBy
  have coarsens := (assemble_sound entangled).coarsens_classes
  refine ⟨by decide +kernel, sound, coarsens, ?_⟩
  exact (coarse_groups_follow_from_fine entangled (assemble entangled).name packageOf).2.2.1
    (assemble entangled).packages sound coarsens

end Graph

end ClassCoupling
