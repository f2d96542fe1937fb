import ClassCoupling.Proofs.AscendingSets
import ClassCoupling.Proofs.Components
import ClassCoupling.Proofs.GroupQuotient

/-!
The cycles of a grouping are the classes of two or more keys that depend on each other,
directly or through others. The numbers of the groups are in the order of their keys, so
the components of the numbers, each ascending and in the order of their least vertices,
give lists of keys that are ascending and in lexicographic order.
-/
namespace ClassCoupling

namespace Grouping

variable {κ : Type} [Ord κ]

/-- The group of one key has an edge to the group of another. -/
def DependsOn (grouping : Grouping κ) (source target : κ) : Prop :=
  ∃ place other, grouping.find? source = some place ∧ grouping.find? target = some other ∧
    other ∈ grouping.efferents place

/-- Paths along the edges lead from each of two keys to the other. -/
def Entangled (grouping : Grouping κ) (first second : κ) : Prop :=
  Relation.ReflTransGen grouping.DependsOn first second ∧
    Relation.ReflTransGen grouping.DependsOn second first

namespace Entangled

variable {grouping : Grouping κ} {first second third : κ}

theorem symm (both : grouping.Entangled first second) : grouping.Entangled second first :=
  ⟨both.2, both.1⟩

theorem trans (left : grouping.Entangled first second) (right : grouping.Entangled second third) :
    grouping.Entangled first third :=
  ⟨left.1.trans right.1, right.2.trans left.2⟩

theorem exists_place (both : grouping.Entangled first second) (distinct : first ≠ second) :
    ∃ place, grouping.find? first = some place := by
  obtain same | ⟨middle, edge, -⟩ := both.1.cases_head
  · exact absurd same distinct
  · obtain ⟨place, other, found, -⟩ := edge
    exact ⟨place, found⟩

end Entangled

structure ListsCycles (grouping : Grouping κ) (cycles : List (List κ)) : Prop where
  /-- The lists are the classes of two or more keys, each written in ascending order. -/
  mem_iff : ∀ keys, keys ∈ cycles ↔ 2 ≤ keys.length ∧
    keys.Pairwise (fun first second => compare first second = .lt) ∧
    ∃ first, ∀ second, second ∈ keys ↔ grouping.Entangled first second
  together_iff : ∀ {first second}, first ≠ second →
    ((∃ keys ∈ cycles, first ∈ keys ∧ second ∈ keys) ↔ grouping.Entangled first second)
  two_or_more : ∀ keys ∈ cycles, 2 ≤ keys.length
  nodup : cycles.flatten.Nodup
  keys_ascend : ∀ keys ∈ cycles, keys.Pairwise fun first second => compare first second = .lt
  lists_ascend : cycles.Pairwise fun first second => compare first second = .lt

end Grouping

namespace Graph

open Reachability

variable {κ : Type} [Ord κ] [Std.TransOrd κ] {graph : Graph} {key : Nat → κ}

theorem place_unique {wanted : κ} {place other : Nat}
    (present : (graph.groupKeys key)[place]? = some wanted)
    (again : (graph.groupKeys key)[other]? = some wanted) : place = other := by
  have bound := (List.getElem?_eq_some_iff.mp present).1
  exact (List.getElem?_inj bound (graph.nodup_groupKeys key)).mp (present.trans again.symm)

theorem compare_groupKeys {first second : κ} {place other : Nat} (before : place < other)
    (firstPlace : (graph.groupKeys key)[place]? = some first)
    (secondPlace : (graph.groupKeys key)[other]? = some second) :
    compare first second = .lt := by
  obtain ⟨firstBound, rfl⟩ := List.getElem?_eq_some_iff.mp firstPlace
  obtain ⟨secondBound, rfl⟩ := List.getElem?_eq_some_iff.mp secondPlace
  exact List.pairwise_iff_getElem.mp (graph.groupKeys_ascend key) place other firstBound secondBound
    before

variable [Std.LawfulEqOrd κ]

theorem keysOf_groupBy (places : List Nat) :
    (graph.groupBy key).keysOf places =
      places.filterMap fun place => (graph.groupKeys key)[place]? := by
  have keyAt : ∀ place : Nat, ((graph.groupBy key).groups[place]?).map Group.key =
      (graph.groupKeys key)[place]? := by
    intro place
    rw [getElem?_groups, Option.map_map]
    exact congrFun Option.map_id _
  simp only [Grouping.keysOf, keyAt]

theorem mem_keysOf_groupBy_iff {places : List Nat} {wanted : κ} :
    wanted ∈ (graph.groupBy key).keysOf places ↔
      ∃ place ∈ places, (graph.groupKeys key)[place]? = some wanted := by
  rw [keysOf_groupBy, List.mem_filterMap]

theorem keysOf_groupBy_ascend {places : List Nat} (ascends : places.Pairwise (· < ·)) :
    ((graph.groupBy key).keysOf places).Pairwise
      fun first second => compare first second = .lt := by
  rw [keysOf_groupBy]
  refine ascends.filterMap _ ?_
  intro first second before wanted atFirst other atSecond
  exact compare_groupKeys before atFirst atSecond

theorem length_keysOf_groupBy {places : List Nat}
    (bounded : ∀ place ∈ places, place < (graph.groupBy key).size) :
    ((graph.groupBy key).keysOf places).length = places.length := by
  rw [keysOf_groupBy, List.length_filterMap_eq_countP, List.countP_eq_length]
  intro place listed
  have bound := bounded place listed
  rw [size_groupBy] at bound
  simp [bound]

theorem dependsOn_groupBy_iff {source target : κ} :
    (graph.groupBy key).DependsOn source target ↔ ∃ place other,
      (graph.groupKeys key)[place]? = some source ∧ (graph.groupKeys key)[other]? = some target ∧
        other ∈ (graph.groupBy key).efferents place := by
  simp only [Grouping.DependsOn, find?_groupBy_iff]

section Sound

variable (sound : graph.Sound)

include sound

theorem efferents_groupBy_mirrored :
    Mirrored (graph.groupBy key).efferents (graph.groupBy key).afferents := by
  intro place other
  exact mem_afferents_groupBy_iff key sound

theorem exists_keys_of_mem_efferents {place other : Nat}
    (edge : other ∈ (graph.groupBy key).efferents place) :
    (∃ source, (graph.groupKeys key)[place]? = some source) ∧
      ∃ target, (graph.groupKeys key)[other]? = some target := by
  obtain ⟨-, source, target, -, atPlace, atOther⟩ := (mem_efferents_groupBy_iff key sound).mp edge
  exact ⟨⟨key source, atPlace⟩, key target, atOther⟩

theorem lt_size_of_mem_efferents_groupBy {place other : Nat}
    (edge : other ∈ (graph.groupBy key).efferents place) :
    other < (graph.groupKeys key).length := by
  obtain ⟨-, target, present⟩ := exists_keys_of_mem_efferents sound edge
  exact (List.getElem?_eq_some_iff.mp present).1

theorem path_groupBy_iff {place other : Nat} {first second : κ}
    (firstPlace : (graph.groupKeys key)[place]? = some first)
    (secondPlace : (graph.groupKeys key)[other]? = some second) :
    Relation.ReflTransGen (graph.groupBy key).DependsOn first second ↔
      Relation.ReflTransGen (Edge (graph.groupBy key).efferents) place other := by
  constructor
  · intro path
    induction path generalizing other with
    | refl =>
        rw [place_unique firstPlace secondPlace]
    | tail path edge ih =>
        obtain ⟨source, target, atSource, atTarget, listed⟩ := dependsOn_groupBy_iff.mp edge
        obtain rfl := place_unique atTarget secondPlace
        exact (ih atSource).tail listed
  · intro path
    induction path generalizing second with
    | refl =>
        obtain rfl : first = second := Option.some.inj (firstPlace.symm.trans secondPlace)
        exact .refl
    | tail path edge ih =>
        obtain ⟨⟨middle, atMiddle⟩, -⟩ := exists_keys_of_mem_efferents sound edge
        have last : (graph.groupBy key).DependsOn middle second :=
          dependsOn_groupBy_iff.mpr ⟨_, _, atMiddle, secondPlace, edge⟩
        exact (ih atMiddle).tail last

theorem entangled_groupBy_iff {place other : Nat} {first second : κ}
    (firstPlace : (graph.groupKeys key)[place]? = some first)
    (secondPlace : (graph.groupKeys key)[other]? = some second) :
    (graph.groupBy key).Entangled first second ↔
      Mutual (graph.groupBy key).efferents place other :=
  and_congr (path_groupBy_iff sound firstPlace secondPlace)
    (path_groupBy_iff sound secondPlace firstPlace)

end Sound

section Classes

variable (graph key)

noncomputable def classKeys (place : Nat) : List κ :=
  (graph.groupBy key).keysOf (classOf (graph.groupBy key).size (graph.groupBy key).efferents place)

variable {graph key}

theorem mem_classKeys_iff {place : Nat} {wanted : κ} :
    wanted ∈ graph.classKeys key place ↔ ∃ other, (graph.groupKeys key)[other]? = some wanted ∧
      Mutual (graph.groupBy key).efferents place other := by
  rw [classKeys, mem_keysOf_groupBy_iff, size_groupBy]
  simp only [mem_classOf_iff]
  constructor
  · rintro ⟨other, ⟨-, both⟩, present⟩
    exact ⟨other, present, both⟩
  · rintro ⟨other, present, both⟩
    exact ⟨other, ⟨(List.getElem?_eq_some_iff.mp present).1, both⟩, present⟩

theorem classKeys_ascend (place : Nat) :
    (graph.classKeys key place).Pairwise fun first second => compare first second = .lt :=
  keysOf_groupBy_ascend (classOf_ascends place)

theorem length_classKeys (place : Nat) :
    (graph.classKeys key place).length =
      (classOf (graph.groupBy key).size (graph.groupBy key).efferents place).length := by
  apply length_keysOf_groupBy
  intro other listed
  exact (mem_classOf_iff.mp listed).1

theorem head?_classKeys {place : Nat} {first : κ}
    (present : (graph.groupKeys key)[place]? = some first)
    (leads : Leads (graph.groupBy key).efferents place) :
    (graph.classKeys key place).head? = some first := by
  have bound : place < (graph.groupBy key).size := by
    rw [size_groupBy]
    exact (List.getElem?_eq_some_iff.mp present).1
  obtain ⟨others, members⟩ := List.head?_eq_some_iff.mp (head?_classOf leads bound)
  rw [classKeys, keysOf_groupBy, members, List.filterMap_cons_some present, List.head?_cons]

theorem cycles_groupBy (sound : graph.Sound) :
    (graph.groupBy key).cycles =
      ((leaders (graph.groupBy key).efferents (graph.groupBy key).size).map
        (graph.classKeys key)).filter fun keys => 1 < keys.length := by
  have bounded : ∀ {place other}, other ∈ (graph.groupBy key).efferents place →
      other < (graph.groupBy key).size := by
    intro place other edge
    rw [size_groupBy]
    exact lt_size_of_mem_efferents_groupBy sound edge
  rw [Grouping.cycles, components_eq (efferents_groupBy_mirrored sound) bounded, List.filter_map,
    List.map_map, List.filter_map]
  congr 1
  refine List.filter_congr ?_
  intro place _
  simp only [Function.comp_apply, length_classKeys]

/-- A list is a cycle when it holds the class of a group and another key besides. -/
theorem mem_cycles_groupBy_iff (sound : graph.Sound) {keys : List κ} :
    keys ∈ (graph.groupBy key).cycles ↔
      2 ≤ keys.length ∧ ∃ place < (graph.groupBy key).size,
        Leads (graph.groupBy key).efferents place ∧ graph.classKeys key place = keys := by
  rw [cycles_groupBy sound, List.mem_filter, decide_eq_true_eq, List.mem_map]
  simp only [mem_leaders_iff, and_assoc]
  exact and_comm

theorem mem_classKeys_iff_entangled (sound : graph.Sound) {place : Nat} {first second : κ}
    (present : (graph.groupKeys key)[place]? = some first) :
    second ∈ graph.classKeys key place ↔ (graph.groupBy key).Entangled first second := by
  rw [mem_classKeys_iff]
  constructor
  · rintro ⟨other, atOther, both⟩
    exact (entangled_groupBy_iff sound present atOther).mpr both
  · intro both
    by_cases same : first = second
    · subst same
      exact ⟨place, present, .refl place⟩
    · obtain ⟨other, found⟩ := both.symm.exists_place (Ne.symm same)
      rw [find?_groupBy_iff] at found
      exact ⟨other, found, (entangled_groupBy_iff sound present found).mp both⟩

theorem exists_classKeys (sound : graph.Sound) {first : κ} {place : Nat}
    (present : (graph.groupKeys key)[place]? = some first) :
    ∃ leader < (graph.groupBy key).size, Leads (graph.groupBy key).efferents leader ∧
      ∀ second, second ∈ graph.classKeys key leader ↔
        (graph.groupBy key).Entangled first second := by
  have bound := (List.getElem?_eq_some_iff.mp present).1
  obtain ⟨leader, below, leads, both⟩ := exists_leader (graph.groupBy key).efferents place
  have leaderBound : leader < (graph.groupKeys key).length := by omega
  have leaderKey : (graph.groupKeys key)[leader]? = some ((graph.groupKeys key)[leader]) :=
    List.getElem?_eq_getElem leaderBound
  refine ⟨leader, by rwa [size_groupBy], leads, ?_⟩
  intro second
  have toFirst := (entangled_groupBy_iff sound leaderKey present).mpr both
  rw [mem_classKeys_iff_entangled sound leaderKey]
  exact ⟨fun other => toFirst.symm.trans other, fun other => toFirst.trans other⟩

theorem mem_cycles_groupBy_iff_entangled (sound : graph.Sound) {keys : List κ} :
    keys ∈ (graph.groupBy key).cycles ↔ 2 ≤ keys.length ∧
      keys.Pairwise (fun first second => compare first second = .lt) ∧
      ∃ first, ∀ second, second ∈ keys ↔ (graph.groupBy key).Entangled first second := by
  rw [mem_cycles_groupBy_iff sound]
  refine and_congr_right fun length => ?_
  constructor
  · rintro ⟨place, bound, -, rfl⟩
    rw [size_groupBy] at bound
    exact ⟨classKeys_ascend place, _, fun second =>
      mem_classKeys_iff_entangled sound (List.getElem?_eq_getElem bound)⟩
  · rintro ⟨ascends, first, members⟩
    -- A second key makes the first one the key of a group.
    obtain ⟨second, listed, distinct⟩ := exists_ne_of_ascending length ascends first
    obtain ⟨place, found⟩ := ((members second).mp listed).exists_place distinct
    rw [find?_groupBy_iff] at found
    obtain ⟨leader, bound, leads, same⟩ := exists_classKeys sound found
    refine ⟨leader, bound, leads, eq_of_ascending (classKeys_ascend leader) ascends ?_⟩
    intro second
    rw [same, members]

theorem exists_mem_cycles_groupBy_iff (sound : graph.Sound) {first second : κ}
    (distinct : first ≠ second) :
    (∃ keys ∈ (graph.groupBy key).cycles, first ∈ keys ∧ second ∈ keys) ↔
      (graph.groupBy key).Entangled first second := by
  constructor
  · rintro ⟨keys, listed, firstIn, secondIn⟩
    obtain ⟨-, -, base, members⟩ := (mem_cycles_groupBy_iff_entangled sound).mp listed
    exact ((members first).mp firstIn).symm.trans ((members second).mp secondIn)
  · intro both
    obtain ⟨place, found⟩ := both.exists_place distinct
    rw [find?_groupBy_iff] at found
    obtain ⟨leader, bound, leads, members⟩ := exists_classKeys sound found
    have firstIn : first ∈ graph.classKeys key leader := (members first).mpr ⟨.refl, .refl⟩
    have secondIn : second ∈ graph.classKeys key leader := (members second).mpr both
    have length : 2 ≤ (graph.classKeys key leader).length := by
      match keys : graph.classKeys key leader with
      | [] => simp [keys] at firstIn
      | [only] =>
          rw [keys, List.mem_singleton] at firstIn secondIn
          exact absurd (firstIn.trans secondIn.symm) distinct
      | _ :: _ :: _ => simp
    exact ⟨_, (mem_cycles_groupBy_iff sound).mpr ⟨length, leader, bound, leads, rfl⟩, firstIn,
      secondIn⟩

theorem cycles_groupBy_ascend (sound : graph.Sound) :
    (graph.groupBy key).cycles.Pairwise fun first second => compare first second = .lt := by
  rw [cycles_groupBy sound]
  refine List.Pairwise.filter _ (List.pairwise_map.mpr ?_)
  refine (leaders_ascend _).imp_of_mem ?_
  intro place other placeLeads otherLeads before
  rw [mem_leaders_iff, size_groupBy] at placeLeads otherLeads
  have atPlace := List.getElem?_eq_getElem placeLeads.1
  have atOther := List.getElem?_eq_getElem otherLeads.1
  obtain ⟨rest, first⟩ := List.head?_eq_some_iff.mp (head?_classKeys atPlace placeLeads.2)
  obtain ⟨more, second⟩ := List.head?_eq_some_iff.mp (head?_classKeys atOther otherLeads.2)
  -- The lists begin with their least keys, and these differ.
  have heads := compare_groupKeys before atPlace atOther
  rw [first, second]
  change List.compareLex compare _ _ = .lt
  rw [List.compareLex_cons_cons, heads]
  rfl

theorem eq_of_mem_cycles_groupBy (sound : graph.Sound) {keys others : List κ} {wanted : κ}
    (keysListed : keys ∈ (graph.groupBy key).cycles)
    (othersListed : others ∈ (graph.groupBy key).cycles) (inKeys : wanted ∈ keys)
    (inOthers : wanted ∈ others) : keys = others := by
  obtain ⟨-, keysAscend, first, keysMembers⟩ :=
    (mem_cycles_groupBy_iff_entangled sound).mp keysListed
  obtain ⟨-, othersAscend, second, othersMembers⟩ :=
    (mem_cycles_groupBy_iff_entangled sound).mp othersListed
  have both := ((keysMembers wanted).mp inKeys).trans ((othersMembers wanted).mp inOthers).symm
  refine eq_of_ascending keysAscend othersAscend ?_
  intro item
  rw [keysMembers, othersMembers]
  exact ⟨fun other => both.symm.trans other, fun other => both.trans other⟩

theorem nodup_flatten_cycles_groupBy (sound : graph.Sound) :
    (graph.groupBy key).cycles.flatten.Nodup := by
  rw [List.nodup_flatten]
  refine ⟨?_, (cycles_groupBy_ascend sound).imp_of_mem ?_⟩
  · intro keys listed
    exact nodup_of_ascending ((mem_cycles_groupBy_iff_entangled sound).mp listed).2.1
  · intro keys others keysListed othersListed before wanted inKeys inOthers
    have same := eq_of_mem_cycles_groupBy sound keysListed othersListed inKeys inOthers
    rw [same] at before
    exact compare_self_ne_lt others before

end Classes

theorem cycles_are_entangled_classes (records : List ClassRecord) (key : Nat → κ) :
    ((assemble records).groupBy key).ListsCycles ((assemble records).groupBy key).cycles := by
  have sound := assemble_sound records
  exact {
    mem_iff := fun _ => mem_cycles_groupBy_iff_entangled sound
    together_iff := exists_mem_cycles_groupBy_iff sound
    two_or_more := fun _ listed => ((mem_cycles_groupBy_iff_entangled sound).mp listed).1
    nodup := nodup_flatten_cycles_groupBy sound
    keys_ascend := fun _ listed => ((mem_cycles_groupBy_iff_entangled sound).mp listed).2.1
    lists_ascend := cycles_groupBy_ascend sound }

def circuit : List ClassRecord :=
  [{ name := "web.Page", references := .ofList ["app.Main", "util.Text"] },
    { name := "app.Main", references := .ofList ["lib.Log", "util.Text"] },
    { name := "lib.Log", references := .ofList ["web.Page"] },
    { name := "util.Text" }]

theorem cycles_are_entangled_classes_circuit :
    (∃ keys ∈ (assemble circuit).packages.cycles, "app" ∈ keys ∧ "lib" ∈ keys) ∧
      (assemble circuit).packages.ListsCycles (assemble circuit).packages.cycles := by
  have lists : (assemble circuit).packages.ListsCycles (assemble circuit).packages.cycles :=
    cycles_are_entangled_classes circuit _
  have appLib : (assemble circuit).packages.DependsOn "app" "lib" :=
    ⟨0, 1, by decide +kernel, by decide +kernel, by decide +kernel⟩
  have libWeb : (assemble circuit).packages.DependsOn "lib" "web" :=
    ⟨1, 3, by decide +kernel, by decide +kernel, by decide +kernel⟩
  have webApp : (assemble circuit).packages.DependsOn "web" "app" :=
    ⟨3, 0, by decide +kernel, by decide +kernel, by decide +kernel⟩
  have both : (assemble circuit).packages.Entangled "app" "lib" :=
    ⟨.single appLib, (Relation.ReflTransGen.single libWeb).tail webApp⟩
  exact ⟨(lists.together_iff (by decide)).mpr both, lists⟩

end Graph

end ClassCoupling
