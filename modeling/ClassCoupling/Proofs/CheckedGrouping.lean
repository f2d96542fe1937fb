import ClassCoupling.Proofs.CheckedReader
import ClassCoupling.Proofs.Coarsening
import ClassCoupling.Proofs.GraphColumns

/-!
Grouping and the search for cycles with look-ups that have to hit. The keys of the nodes are
kept in a table by number and the numbers of the groups in a map by key; edges lead to nodes
there are, each of them has a key in the table, and each key has a group. The search follows
edges between groups and looks up only those it has not met, so the components hold numbers of
groups, and these are mapped back to keys.
-/
namespace ClassCoupling

namespace Columns

variable {κ : Type} [Ord κ]

def membersOf (keys : List κ) : Std.TreeMap κ (List Nat) :=
  keys.zipIdx.foldl
    (fun members entry => members.alter entry.1 fun ids => some (entry.2 :: ids.getD [])) ∅

def groupOf (ids : Std.TreeMap κ Nat) (keys : List κ) (id : Nat) : Lookup Nat :=
  Lookup.element keys.toArray id >>= Lookup.value ids

def neighbours (sets : Array (Std.TreeSet Nat)) (groupOf : Nat → Lookup Nat) (own : Nat)
    (members : List Nat) : Lookup (Ascending Nat) := do
  let found ← members.mapM fun id => do
    let set ← Lookup.element sets id
    set.toList.mapM groupOf
  return .ofList (found.flatten.filter (· ≠ own))

def group (columns : Columns) (ids : Std.TreeMap κ Nat) (keys : List κ) (entry : κ × List Nat) :
    Lookup (Group κ) := do
  let own ← Lookup.value ids entry.1
  let efferents ← neighbours columns.efferents (groupOf ids keys) own entry.2
  let afferents ← neighbours columns.afferents (groupOf ids keys) own entry.2
  return { key := entry.1, memberCount := entry.2.length, efferents, afferents }

def groupBy (columns : Columns) (extract : Nat → ClassRecord → κ) : Lookup (Grouping κ) := do
  let keys ← (List.range columns.records.size).mapM fun id =>
    extract id <$> Lookup.element columns.records id
  let members := membersOf keys
  let ids : Std.TreeMap κ Nat := Std.TreeMap.ofList members.keys.zipIdx
  let groups ← members.toList.mapM (columns.group ids keys)
  return { groups := groups.toArray, ids }

theorem membersOf_map_range (count : Nat) (key : Nat → κ) :
    membersOf ((List.range count).map key) = Graph.membersBy count key := by
  have numbered : ((List.range count).map key).zipIdx =
      (List.range count).map fun id => (key id, id) := by
    apply List.ext_getElem?
    intro id
    by_cases bound : id < count
    · simp [bound]
    · simp [Nat.le_of_not_lt bound]
  rw [membersOf, numbered, List.foldl_map, Graph.membersBy]

end Columns

namespace Graph

variable {κ : Type} [Ord κ] [Std.TransOrd κ] [Std.LawfulEqOrd κ] {graph : Graph} {key : Nat → κ}

theorem value_placeOf {wanted : κ} (present : wanted ∈ graph.groupKeys key) :
    Lookup.value (Std.TreeMap.ofList (graph.groupKeys key).zipIdx) wanted =
      .ok (graph.placeOf key wanted) := by
  obtain ⟨place, found⟩ := List.mem_iff_getElem?.mp present
  rw [graph.placeOf_eq key found]
  exact Lookup.value_eq ((graph.find?_groupBy_iff key).mpr found)

theorem groupOf_columns {id : Nat} (bound : id < graph.size) :
    Columns.groupOf (Std.TreeMap.ofList (graph.groupKeys key).zipIdx)
      ((List.range graph.size).map key) id = .ok (graph.groupOf key id) := by
  have keyed : ((List.range graph.size).map key).toArray[id]? = some (key id) := by
    simp [bound]
  have present : key id ∈ graph.groupKeys key := (graph.mem_groupKeys_iff key).mpr ⟨id, bound, rfl⟩
  obtain ⟨place, found⟩ := List.mem_iff_getElem?.mp present
  have same : graph.groupOf key id = graph.placeOf key (key id) := by
    rw [(graph.groupOf_eq_iff key bound).mpr found, graph.placeOf_eq key found]
  rw [Columns.groupOf, Lookup.element_eq keyed, same]
  exact value_placeOf present

theorem neighbours_columns (key : Nat → κ) {side : Node → Std.TreeSet Nat} {members : List Nat}
    (within : ∀ id other, other ∈ listed side graph id → other < graph.size)
    (bounds : ∀ id ∈ members, id < graph.size) (own : Nat) :
    Columns.neighbours (graph.nodes.map side)
        (Columns.groupOf (Std.TreeMap.ofList (graph.groupKeys key).zipIdx)
          ((List.range graph.size).map key)) own members =
      .ok (neighbours (listed side graph) (graph.groupOf key) own members) := by
  have each : members.mapM (fun id => do
        let set ← Lookup.element (graph.nodes.map side) id
        set.toList.mapM (Columns.groupOf (Std.TreeMap.ofList (graph.groupKeys key).zipIdx)
          ((List.range graph.size).map key))) =
      .ok (members.map fun id => (listed side graph id).map (graph.groupOf key)) := by
    apply Checked.mapM_eq
    intro id member
    obtain ⟨node, present⟩ : ∃ node, graph.nodes[id]? = some node :=
      ⟨_, Array.getElem?_eq_getElem (bounds id member)⟩
    have held : (graph.nodes.map side)[id]? = some (side node) := by
      rw [Array.getElem?_map, present, Option.map_some]
    have lists : listed side graph id = (side node).toList := by
      rw [listed, present, Option.elim_some]
    rw [Lookup.element_eq held, lists]
    refine Checked.mapM_eq fun other edge => groupOf_columns (within id other ?_)
    rwa [lists]
  rw [Columns.neighbours, each, neighbours, List.flatMap_def]
  rfl

theorem lt_size_of_mem_membersBy {count : Nat} {entry : κ × List Nat}
    (listed : entry ∈ (membersBy count key).toList) {id : Nat} (member : id ∈ entry.2) :
    id < count := by
  have found : (membersBy count key)[entry.1]? = some entry.2 :=
    Std.TreeMap.mem_toList_iff_getElem?_eq_some.mp listed
  rw [getElem?_membersBy] at found
  split at found
  case isTrue => cases found
  case isFalse =>
    rw [Option.some.injEq] at found
    rw [← found, List.mem_reverse, mem_withKey_iff] at member
    exact member.1

theorem Sound.group_columns (sound : graph.Sound) (key : Nat → κ) {entry : κ × List Nat}
    (listed : entry ∈ (membersBy graph.size key).toList) :
    graph.columns.group (Std.TreeMap.ofList (graph.groupKeys key).zipIdx)
        ((List.range graph.size).map key) entry =
      .ok { key := entry.1
            memberCount := entry.2.length
            efferents := neighbours graph.efferents (graph.groupOf key)
              (graph.placeOf key entry.1) entry.2
            afferents := neighbours graph.afferents (graph.groupOf key)
              (graph.placeOf key entry.1) entry.2 } := by
  have present : entry.1 ∈ graph.groupKeys key := by
    rw [groupKeys, ← Std.TreeMap.map_fst_toList_eq_keys]
    exact List.mem_map_of_mem listed
  have bounds : ∀ id ∈ entry.2, id < graph.size := fun id => lt_size_of_mem_membersBy listed
  have efferents_lt : ∀ id other, other ∈ Graph.listed Node.efferents graph id →
      other < graph.size := by
    intro id other edge
    rw [← efferents_eq_listed] at edge
    exact sound.efferents_lt edge
  have afferents_lt : ∀ id other, other ∈ Graph.listed Node.afferents graph id →
      other < graph.size := by
    intro id other edge
    rw [← afferents_eq_listed] at edge
    exact sound.afferents_lt edge
  rw [Columns.group, value_placeOf present, Lookup.ok_bind, columns,
    neighbours_columns key efferents_lt bounds, Lookup.ok_bind,
    neighbours_columns key afferents_lt bounds, Lookup.ok_bind, funext graph.efferents_eq_listed,
    funext graph.afferents_eq_listed]
  rfl

theorem Sound.groupBy_columns (sound : graph.Sound) (extract : Nat → ClassRecord → κ) :
    graph.columns.groupBy extract = .ok (graph.groupBy fun id => extract id (graph.record id)) := by
  let key : Nat → κ := fun id => extract id (graph.record id)
  have keys : (List.range graph.columns.records.size).mapM (fun id =>
        extract id <$> Lookup.element graph.columns.records id) =
      .ok ((List.range graph.size).map key) := by
    rw [size_columns]
    apply Checked.mapM_eq
    intro id listed
    rw [Lookup.element_eq (graph.getElem?_records_columns (List.mem_range.mp listed))]
    rfl
  have groups : (membersBy graph.size key).toList.mapM (graph.columns.group
        (Std.TreeMap.ofList (membersBy graph.size key).keys.zipIdx)
        ((List.range graph.size).map key)) = .ok _ :=
    Checked.mapM_eq fun entry => sound.group_columns key
  rw [Columns.groupBy, keys, Lookup.ok_bind, Columns.membersOf_map_range]
  -- The numbers of the groups are bound before the groups are made.
  dsimp only
  rw [groups]
  rfl

end Graph

/-! ### The search -/

namespace Lookup

/-- The vertices that a search leaves unseen; `next` has to know every vertex it takes out. -/
def unreached (next : Nat → Lookup (List Nat)) (unseen : Std.TreeSet Nat) (todo : List Nat) :
    Lookup (Std.TreeSet Nat) :=
  if filled : todo ≠ [] then
    if _member : unseen.contains (todo.head filled) = true then do
      let others ← next (todo.head filled)
      unreached next (unseen.erase (todo.head filled)) (others ++ todo.tail)
    else unreached next unseen todo.tail
  else .ok unseen
termination_by (unseen.size, todo.length)
decreasing_by
  · exact Prod.Lex.left _ _ (Reachability.size_erase_lt _member)
  · refine Prod.Lex.right _ ?_
    rw [List.length_tail]
    exact Nat.sub_one_lt (List.length_eq_zero_iff.not.mpr filled)

def component (next previous : Nat → Lookup (List Nat)) (left : Std.TreeSet Nat) (vertex : Nat) :
    Lookup (List Nat) := do
  let ahead ← unreached next left [vertex]
  let behind ← unreached previous left [vertex]
  return left.toList.filter fun other => !ahead.contains other && !behind.contains other

def place (next previous : Nat → Lookup (List Nat)) (state : Reachability.Partition)
    (vertex : Nat) : Lookup Reachability.Partition :=
  if state.left.contains vertex then do
    let part ← component next previous state.left vertex
    return {
      left := part.foldl (fun left other => left.erase other) state.left
      found := part :: state.found }
  else .ok state

def components (count : Nat) (next previous : Nat → Lookup (List Nat)) :
    Lookup (List (List Nat)) := do
  let start : Reachability.Partition := { left := Std.TreeSet.ofList (List.range count) }
  let state ← (List.range count).foldlM (place next previous) start
  return state.found.reverse

section Search

variable {next previous : Nat → Lookup (List Nat)} {ahead behind : Nat → List Nat}

theorem unreached_cons (unseen : Std.TreeSet Nat) (vertex : Nat) (todo : List Nat) :
    unreached next unseen (vertex :: todo) =
      if unseen.contains vertex then do
        let others ← next vertex
        unreached next (unseen.erase vertex) (others ++ todo)
      else unreached next unseen todo := by
  rw [unreached, dif_pos (List.cons_ne_nil vertex todo)]
  rfl

theorem unreached_eq {unseen : Std.TreeSet Nat}
    (hits : ∀ vertex ∈ unseen, next vertex = .ok (ahead vertex)) (todo : List Nat) :
    unreached next unseen todo = .ok (Reachability.unreached ahead unseen todo) := by
  -- What is unseen only shrinks, so the look-ups that hit at the start hit all along.
  induction unseen, todo using Reachability.unreached.induct ahead with
  | case1 unseen => rw [unreached, Reachability.unreached, dif_neg (not_not.mpr rfl)]
  | case2 unseen vertex todo member ih =>
      have within : vertex ∈ unseen := Std.TreeSet.contains_iff_mem.mp member
      rw [unreached_cons, Reachability.unreached, dif_pos member, if_pos member,
        hits vertex within, ok_bind]
      exact ih fun other left => hits other (Std.TreeSet.mem_of_mem_erase left)
  | case3 unseen vertex todo absent ih =>
      rw [unreached_cons, Reachability.unreached, dif_neg absent, if_neg absent]
      exact ih hits

theorem component_eq {left : Std.TreeSet Nat}
    (aheadHits : ∀ vertex ∈ left, next vertex = .ok (ahead vertex))
    (behindHits : ∀ vertex ∈ left, previous vertex = .ok (behind vertex)) (vertex : Nat) :
    component next previous left vertex =
      .ok (Reachability.component ahead behind left vertex) := by
  rw [component, unreached_eq aheadHits, ok_bind, unreached_eq behindHits, ok_bind]
  rfl

theorem place_eq {state : Reachability.Partition}
    (aheadHits : ∀ vertex ∈ state.left, next vertex = .ok (ahead vertex))
    (behindHits : ∀ vertex ∈ state.left, previous vertex = .ok (behind vertex)) (vertex : Nat) :
    place next previous state vertex = .ok (state.place ahead behind vertex) := by
  rw [place, Reachability.Partition.place]
  split
  case isTrue =>
    rw [component_eq aheadHits behindHits, ok_bind]
    rfl
  case isFalse => rfl

theorem mem_left_of_mem_left_place {state : Reachability.Partition} {vertex other : Nat}
    (present : other ∈ (state.place ahead behind vertex).left) : other ∈ state.left := by
  rw [Reachability.Partition.place] at present
  split at present
  case isTrue => exact (Reachability.mem_foldl_erase_iff.mp present).1
  case isFalse => exact present

theorem foldlM_place_eq {state : Reachability.Partition}
    (aheadHits : ∀ vertex ∈ state.left, next vertex = .ok (ahead vertex))
    (behindHits : ∀ vertex ∈ state.left, previous vertex = .ok (behind vertex))
    (vertices : List Nat) :
    vertices.foldlM (place next previous) state =
      .ok (vertices.foldl (Reachability.Partition.place ahead behind) state) := by
  induction vertices generalizing state with
  | nil => rfl
  | cons vertex vertices ih =>
      rw [List.foldlM_cons, place_eq aheadHits behindHits, ok_bind, List.foldl_cons]
      exact ih (fun other present => aheadHits other (mem_left_of_mem_left_place present))
        fun other present => behindHits other (mem_left_of_mem_left_place present)

theorem components_eq {count : Nat} (aheadHits : ∀ vertex < count, next vertex = .ok (ahead vertex))
    (behindHits : ∀ vertex < count, previous vertex = .ok (behind vertex)) :
    components count next previous = .ok (Reachability.components count ahead behind) := by
  have start : ∀ vertex, vertex ∈ Std.TreeSet.ofList (List.range count) → vertex < count := by
    intro vertex present
    simpa using present
  rw [components, foldlM_place_eq (fun vertex present => aheadHits vertex (start vertex present))
    fun vertex present => behindHits vertex (start vertex present)]
  rfl

end Search

end Lookup

namespace Grouping

variable {κ : Type} [Ord κ]

def ends (grouping : Grouping κ) (side : Group κ → Ascending Nat) (place : Nat) :
    Lookup (List Nat) := do
  let group ← Lookup.element grouping.groups place
  (side group).toList.mapM fun other => (fun _ => other) <$> Lookup.element grouping.groups other

/-- The cycles, with the numbers of groups mapped back to keys that have to be there. -/
def lookedUpCycles (grouping : Grouping κ) : Lookup (List (List κ)) := do
  let parts ← Lookup.components grouping.size (grouping.ends Group.efferents)
    (grouping.ends Group.afferents)
  (parts.filter fun part => 1 < part.length).mapM fun part =>
    part.mapM fun place => Group.key <$> Lookup.element grouping.groups place

section Cycles

variable {grouping : Grouping κ}

theorem ends_eq {side : Group κ → Ascending Nat} {neighboursOf : Nat → List Nat} {place : Nat}
    (lists : ∀ group, grouping.groups[place]? = some group → neighboursOf place = (side group).toList)
    (within : ∀ other ∈ neighboursOf place, other < grouping.size) (bound : place < grouping.size) :
    grouping.ends side place = .ok (neighboursOf place) := by
  obtain ⟨group, present⟩ : ∃ group, grouping.groups[place]? = some group :=
    ⟨_, Array.getElem?_eq_getElem bound⟩
  have each : (neighboursOf place).mapM (fun other =>
        (fun _ => other) <$> Lookup.element grouping.groups other) =
      .ok ((neighboursOf place).map id) := by
    apply Checked.mapM_eq
    intro other edge
    rw [Lookup.element_eq (Array.getElem?_eq_getElem (within other edge))]
    rfl
  rw [ends, Lookup.element_eq present, Lookup.ok_bind, ← lists group present, each, List.map_id]

theorem Sound.ends_efferents (sound : grouping.Sound) {place : Nat} (bound : place < grouping.size) :
    grouping.ends Group.efferents place = .ok (grouping.efferents place) := by
  refine ends_eq (fun group present => ?_) (fun other edge => sound.efferents_lt edge) bound
  rw [efferents, present]

theorem Sound.ends_afferents (sound : grouping.Sound) {place : Nat} (bound : place < grouping.size) :
    grouping.ends Group.afferents place = .ok (grouping.afferents place) := by
  refine ends_eq (fun group present => ?_) (fun other edge => ?_) bound
  · rw [afferents, present]
  · exact lt_size_of_mem_efferents ((sound.mirrored place other).mp edge)

theorem Sound.lt_size_of_mem_components (sound : grouping.Sound) {part : List Nat}
    (listed : part ∈ Reachability.components grouping.size grouping.efferents grouping.afferents)
    {place : Nat} (member : place ∈ part) : place < grouping.size := by
  rw [Reachability.components_eq sound.mirrored sound.efferents_lt] at listed
  obtain ⟨least, -, rfl⟩ := List.mem_map.mp listed
  exact (Reachability.mem_classOf_iff.mp member).1

theorem mapM_key_eq {places : List Nat} (bounds : ∀ place ∈ places, place < grouping.size) :
    places.mapM (fun place => Group.key <$> Lookup.element grouping.groups place) =
      .ok (grouping.keysOf places) := by
  induction places with
  | nil => rfl
  | cons place places ih =>
      obtain ⟨group, present⟩ : ∃ group, grouping.groups[place]? = some group :=
        ⟨_, Array.getElem?_eq_getElem (bounds place List.mem_cons_self)⟩
      have keys : grouping.keysOf (place :: places) = group.key :: grouping.keysOf places := by
        rw [keysOf, List.filterMap_cons, present]
        rfl
      rw [List.mapM_cons, Lookup.element_eq present,
        ih fun other member => bounds other (List.mem_cons_of_mem place member), keys]
      rfl

theorem Sound.lookedUpCycles_eq (sound : grouping.Sound) :
    grouping.lookedUpCycles = .ok grouping.cycles := by
  rw [lookedUpCycles, Lookup.components_eq (fun place => sound.ends_efferents)
    fun place => sound.ends_afferents, Lookup.ok_bind]
  refine Checked.mapM_eq fun part listed => mapM_key_eq fun place member => ?_
  exact sound.lt_size_of_mem_components (List.mem_filter.mp listed).1 member

end Cycles

end Grouping

namespace Graph

/-- Whatever steps a graph has come from, its containers are in step, interning leaves them as
they were, and neither grouping nor the search for cycles misses. Assembly is such steps. -/
theorem containers_stay_in_step {κ : Type} [Ord κ] [Std.TransOrd κ] [Std.LawfulEqOrd κ]
    {steps : List Step} (fit : Fit {} steps) (extract : Nat → ClassRecord → κ) :
    Columns.built steps = .ok (built steps).columns ∧
      (built steps).columns.InStep ∧
      (∀ name, (built steps).Interns name) ∧
      (∃ grouping, (built steps).columns.groupBy extract = .ok grouping ∧
        grouping = (built steps).groupBy (fun id => extract id ((built steps).record id)) ∧
        grouping.lookedUpCycles = .ok grouping.cycles) ∧
      ∀ records, Columns.assemble records = .ok (assemble records).columns ∧
        ∃ others, Fit {} others ∧ built others = assemble records := by
  have followed := fit.follows
  rw [columns_empty] at followed
  have sound : (built steps).Sound := followed.grows.sound .empty
  refine ⟨followed.hits, followed.grows.inStep, (built steps).interns, ?_, ?_⟩
  · exact ⟨_, sound.groupBy_columns extract, rfl, sound.groupBy.lookedUpCycles_eq⟩
  · intro records
    have assembled := assemble_follows records
    exact ⟨assembled.hits, assembled.grows.exists_fit⟩

def handshake : List Step :=
  [.push { name := "app.Main" }, .intern "lib.Log", .mark, .link 0 1, .push { name := "Loose" },
    .link 1 0, .intern "lib.Log", .link 1 1, .link 2 1]

theorem containers_stay_in_step_handshake :
    Fit {} handshake ∧
      Columns.built handshake = .ok (built handshake).columns ∧
      (built handshake).columns.InStep ∧
      (∃ grouping, (built handshake).columns.groupBy (fun _ record => record.package) =
          .ok grouping ∧ grouping.groups.toList.map Group.key = ["Default", "app", "lib"] ∧
        grouping.lookedUpCycles = .ok grouping.cycles) ∧
      Columns.built [.link 0 1] = .error (.index 0 0) := by
  have fit : Fit {} handshake := by decide +kernel
  have keys : ((built handshake).groupBy fun id =>
      ((built handshake).record id).package).groups.toList.map Group.key =
        ["Default", "app", "lib"] := by
    decide +kernel
  obtain ⟨containers, inStep, -, ⟨grouping, grouped, same, searched⟩, -⟩ :=
    containers_stay_in_step fit fun _ record => record.package
  rw [← same] at keys
  exact ⟨fit, containers, inStep, ⟨grouping, grouped, keys, searched⟩, rfl⟩

end Graph

end ClassCoupling
