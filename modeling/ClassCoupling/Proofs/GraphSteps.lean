import ClassCoupling.Graph

/-!
What the steps that build a graph do to it. A graph is looked at through its
records, its look-up by name and the lists of its edges: appending a node adds a
record and no edge, and an edge adds one entry on either side and no record. A
graph is sound when look-ups find exactly the nodes there are and the two sides
of its edges agree; every step keeps a graph sound.
-/
namespace ClassCoupling.Graph

def records (graph : Graph) : List ClassRecord := graph.nodes.toList.map Node.record

def names (graph : Graph) : List String := graph.records.map ClassRecord.name

theorem length_records (graph : Graph) : graph.records.length = graph.size := by
  simp [records, size]

theorem length_names (graph : Graph) : graph.names.length = graph.size := by
  rw [names, List.length_map, length_records]

theorem getElem?_records (graph : Graph) (id : Nat) :
    graph.records[id]? = (graph.nodes[id]?).map Node.record := by
  rw [records, List.getElem?_map, Array.getElem?_toList]

theorem record_eq (graph : Graph) (id : Nat) :
    graph.record id = graph.records[id]?.getD default := by
  rw [record, getElem?_records]
  cases graph.nodes[id]? <;> rfl

theorem name_eq_of_getElem? {graph : Graph} {id : Nat} {name : String}
    (found : graph.names[id]? = some name) : graph.name id = name := by
  rw [names, List.getElem?_map] at found
  obtain ⟨record, present, rfl⟩ := Option.map_eq_some_iff.mp found
  rw [Graph.name, record_eq, present]
  rfl

theorem getElem?_names_iff {graph : Graph} {id : Nat} {name : String} :
    graph.names[id]? = some name ↔ id < graph.size ∧ graph.name id = name := by
  constructor
  · intro found
    obtain ⟨bound, -⟩ := List.getElem?_eq_some_iff.mp found
    exact ⟨length_names graph ▸ bound, name_eq_of_getElem? found⟩
  · rintro ⟨bound, rfl⟩
    have present := List.getElem?_eq_getElem (length_names graph ▸ bound)
    rw [present, name_eq_of_getElem? present]

def listed (side : Node → Std.TreeSet Nat) (graph : Graph) (id : Nat) : List Nat :=
  (graph.nodes[id]?).elim [] fun node => (side node).toList

theorem efferents_eq_listed (graph : Graph) (id : Nat) :
    graph.efferents id = listed Node.efferents graph id := by
  unfold efferents listed
  cases graph.nodes[id]? <;> rfl

theorem afferents_eq_listed (graph : Graph) (id : Nat) :
    graph.afferents id = listed Node.afferents graph id := by
  unfold afferents listed
  cases graph.nodes[id]? <;> rfl

theorem mem_listed_iff {side : Node → Std.TreeSet Nat} {graph : Graph} {id other : Nat} :
    other ∈ listed side graph id ↔ ∃ node, graph.nodes[id]? = some node ∧ other ∈ side node := by
  unfold listed
  cases graph.nodes[id]? with
  | none => simp
  | some node => simp [Std.TreeSet.mem_toList]

theorem lt_size_of_mem_efferents {graph : Graph} {source target : Nat}
    (edge : target ∈ graph.efferents source) : source < graph.size := by
  rw [efferents_eq_listed] at edge
  obtain ⟨node, present, -⟩ := mem_listed_iff.mp edge
  exact (Array.getElem?_eq_some_iff.mp present).1

theorem mem_efferents_iff_dependsOn {graph : Graph} {source target : Nat} :
    target ∈ graph.efferents source ↔ graph.dependsOn source target = true := by
  unfold efferents dependsOn
  cases graph.nodes[source]? with
  | none => simp
  | some node => simp [Std.TreeSet.mem_toList]

section Push

variable (graph : Graph) (record : ClassRecord)

theorem records_push : (graph.push record).records = graph.records ++ [record] := by
  simp [push, records]

theorem names_push : (graph.push record).names = graph.names ++ [record.name] := by
  simp [names, records_push]

theorem find?_push (name : String) :
    (graph.push record).find? name =
      if record.name = name then some graph.size else graph.find? name := by
  simp [push, find?, Std.TreeMap.getElem?_insert, size]

theorem decoded_push : (graph.push record).decoded = graph.decoded := rfl

theorem listed_push {side : Node → Std.TreeSet Nat} (fresh : side { record } = ∅) (id : Nat) :
    listed side (graph.push record) id = listed side graph id := by
  by_cases last : id = graph.nodes.size
  · simp only [listed, push, last, Array.getElem?_push_size, Array.getElem?_size, Option.elim,
      fresh]
    rfl
  · simp [listed, push, Array.getElem?_push, last]

theorem efferents_push (id : Nat) : (graph.push record).efferents id = graph.efferents id := by
  rw [efferents_eq_listed, efferents_eq_listed, listed_push graph record rfl]

theorem afferents_push (id : Nat) : (graph.push record).afferents id = graph.afferents id := by
  rw [afferents_eq_listed, afferents_eq_listed, listed_push graph record rfl]

end Push

section Link

variable (graph : Graph) (source target : Nat)

def linkedNode (source target id : Nat) (node : Node) : Node :=
  { node with
    efferents := if id = source then node.efferents.insert target else node.efferents
    afferents := if id = target then node.afferents.insert source else node.afferents }

theorem getElem?_nodes_link (distinct : source ≠ target) (id : Nat) :
    (graph.link source target).nodes[id]? =
      (graph.nodes[id]?).map (linkedNode source target id) := by
  rw [link, if_neg distinct]
  simp only [Array.getElem?_modify, eq_comm (b := id)]
  -- The ends differ, so each node is changed by one of the two updates at most.
  by_cases atSource : id = source
  · have atTarget : id ≠ target := fun equal => distinct (atSource.symm.trans equal)
    cases graph.nodes[id]? <;> simp only [if_pos atSource, if_neg atTarget, linkedNode, Option.map]
  · by_cases atTarget : id = target
    · cases graph.nodes[id]? <;> simp only [if_neg atSource, if_pos atTarget, linkedNode, Option.map]
    · cases graph.nodes[id]? <;> simp only [if_neg atSource, if_neg atTarget, linkedNode, Option.map]

theorem records_link : (graph.link source target).records = graph.records := by
  by_cases same : source = target
  · rw [link, if_pos same]
  · apply List.ext_getElem?
    intro id
    rw [getElem?_records, getElem?_records, getElem?_nodes_link graph source target same]
    cases graph.nodes[id]? <;> rfl

theorem find?_link (name : String) :
    (graph.link source target).find? name = graph.find? name := by
  unfold link
  split <;> rfl

theorem decoded_link : (graph.link source target).decoded = graph.decoded := by
  unfold link
  split <;> rfl

theorem mem_listed_link {side : Node → Std.TreeSet Nat} {place added : Nat}
    (distinct : source ≠ target)
    (changes : ∀ id node, side (linkedNode source target id node) =
      if id = place then (side node).insert added else side node) (id other : Nat) :
    other ∈ listed side (graph.link source target) id ↔
      other ∈ listed side graph id ∨ id = place ∧ other = added ∧ place < graph.size := by
  simp only [mem_listed_iff, getElem?_nodes_link graph source target distinct]
  cases present : graph.nodes[id]? with
  | none =>
      have bound : graph.size ≤ id := Array.getElem?_eq_none_iff.mp present
      simp only [Option.map_none, reduceCtorEq, false_and, exists_false, false_or, false_iff]
      omega
  | some node =>
      have bound : id < graph.size := (Array.getElem?_eq_some_iff.mp present).1
      by_cases here : id = place
      · subst here
        simp [changes, Std.TreeSet.mem_insert, bound, or_comm, eq_comm (b := other)]
      · simp [changes, here]

theorem mem_efferents_link (id other : Nat) :
    other ∈ (graph.link source target).efferents id ↔
      other ∈ graph.efferents id ∨
        source ≠ target ∧ id = source ∧ other = target ∧ source < graph.size := by
  by_cases same : source = target
  · simp [link, same]
  · have added : other ∈ listed Node.efferents (graph.link source target) id ↔
        other ∈ listed Node.efferents graph id ∨
          id = source ∧ other = target ∧ source < graph.size :=
      mem_listed_link graph source target same (fun _ _ => rfl) id other
    rw [efferents_eq_listed, efferents_eq_listed, added]
    simp [same]

theorem mem_afferents_link (id other : Nat) :
    other ∈ (graph.link source target).afferents id ↔
      other ∈ graph.afferents id ∨
        source ≠ target ∧ id = target ∧ other = source ∧ target < graph.size := by
  by_cases same : source = target
  · simp [link, same]
  · have added : other ∈ listed Node.afferents (graph.link source target) id ↔
        other ∈ listed Node.afferents graph id ∨
          id = target ∧ other = source ∧ target < graph.size :=
      mem_listed_link graph source target same (fun _ _ => rfl) id other
    rw [afferents_eq_listed, afferents_eq_listed, added]
    simp [same]

end Link

/-- Look-ups find the nodes there are, and the two sides of every edge agree. -/
structure Sound (graph : Graph) : Prop where
  find_iff : ∀ name id, graph.find? name = some id ↔ graph.names[id]? = some name
  efferents_lt : ∀ {source target}, target ∈ graph.efferents source → target < graph.size
  mirrored : ∀ source target, source ∈ graph.afferents target ↔ target ∈ graph.efferents source
  irreflexive : ∀ id, id ∉ graph.efferents id

namespace Sound

variable {graph : Graph}

theorem nodup_names (sound : graph.Sound) : graph.names.Nodup := by
  rw [List.nodup_iff_pairwise_ne, List.pairwise_iff_getElem]
  intro first second firstBound secondBound before same
  have firstFound := (sound.find_iff _ first).mpr (List.getElem?_eq_getElem firstBound)
  have secondFound := (sound.find_iff _ second).mpr (List.getElem?_eq_getElem secondBound)
  rw [same, secondFound, Option.some.injEq] at firstFound
  omega

theorem mem_names_iff (sound : graph.Sound) {name : String} :
    name ∈ graph.names ↔ ∃ id, graph.find? name = some id := by
  simp only [sound.find_iff, List.mem_iff_getElem?]

theorem not_mem_names_iff (sound : graph.Sound) {name : String} :
    name ∉ graph.names ↔ graph.find? name = none := by
  rw [sound.mem_names_iff, Option.eq_none_iff_forall_ne_some, not_exists]

theorem lt_size (sound : graph.Sound) {name : String} {id : Nat}
    (found : graph.find? name = some id) : id < graph.size := by
  obtain ⟨bound, -⟩ := List.getElem?_eq_some_iff.mp ((sound.find_iff name id).mp found)
  exact length_names graph ▸ bound

theorem empty : ({} : Graph).Sound where
  find_iff := by simp [find?, names, records]
  efferents_lt := by simp [efferents]
  mirrored := by simp [efferents, afferents]
  irreflexive := by simp [efferents]

theorem push (sound : graph.Sound) {record : ClassRecord} (fresh : record.name ∉ graph.names) :
    (graph.push record).Sound where
  find_iff := by
    intro name id
    rw [find?_push, names_push, List.getElem?_append, length_names]
    by_cases same : record.name = name
    · have absent : graph.names[id]? ≠ some name := by
        intro found
        exact fresh (same ▸ List.mem_of_getElem? found)
      by_cases bound : id < graph.size
      · have other : graph.size ≠ id := by omega
        simp [same, bound, absent, other]
      · have last : graph.size = id ↔ id - graph.size = 0 := by omega
        simp [same, bound, List.getElem?_singleton, last]
    · by_cases bound : id < graph.size
      · simp [same, bound, sound.find_iff]
      · have absent : graph.names[id]? = none := by
          rw [List.getElem?_eq_none_iff, length_names]
          omega
        simp [same, bound, sound.find_iff, absent, List.getElem?_singleton]
  efferents_lt := by
    intro source target edge
    rw [efferents_push] at edge
    rw [size_push]
    exact Nat.lt_succ_of_lt (sound.efferents_lt edge)
  mirrored := by
    intro source target
    rw [efferents_push, afferents_push, sound.mirrored]
  irreflexive := by
    intro id
    rw [efferents_push]
    exact sound.irreflexive id

theorem link (sound : graph.Sound) {source target : Nat} (sourceBound : source < graph.size)
    (targetBound : target < graph.size) : (graph.link source target).Sound where
  find_iff := by
    intro name id
    rw [find?_link, names, records_link]
    exact sound.find_iff name id
  efferents_lt := by
    intro first second edge
    rw [size_link]
    obtain edge | ⟨-, -, rfl, -⟩ := (mem_efferents_link ..).mp edge
    · exact sound.efferents_lt edge
    · exact targetBound
  mirrored := by
    intro first second
    rw [mem_efferents_link, mem_afferents_link, sound.mirrored]
    simp only [sourceBound, targetBound, and_true]
    rw [and_comm (a := first = source)]
  irreflexive := by
    intro id edge
    obtain edge | ⟨distinct, rfl, rfl, -⟩ := (mem_efferents_link ..).mp edge
    · exact sound.irreflexive id edge
    · exact distinct rfl

end Sound

/-- A name that is found keeps its number; a new name gets a placeholder at the end. -/
theorem intern_cases (graph : Graph) (name : String) :
    (∃ id, graph.find? name = some id ∧ graph.intern name = (id, graph)) ∨
      graph.find? name = none ∧
        graph.intern name = (graph.size, graph.push (.placeholder name)) := by
  unfold intern
  cases graph.find? name with
  | none => exact .inr ⟨rfl, rfl⟩
  | some id => exact .inl ⟨id, rfl, rfl⟩

theorem find?_intern (graph : Graph) (name : String) :
    (graph.intern name).2.find? name = some (graph.intern name).1 := by
  obtain ⟨id, found, same⟩ | ⟨-, added⟩ := graph.intern_cases name
  · rw [same, found]
  · rw [added, find?_push]
    exact if_pos rfl

theorem efferents_intern (graph : Graph) (name : String) (id : Nat) :
    (graph.intern name).2.efferents id = graph.efferents id := by
  obtain ⟨id, -, same⟩ | ⟨-, added⟩ := graph.intern_cases name
  · rw [same]
  · rw [added, efferents_push]

theorem decoded_intern (graph : Graph) (name : String) :
    (graph.intern name).2.decoded = graph.decoded := by
  obtain ⟨id, -, same⟩ | ⟨-, added⟩ := graph.intern_cases name
  · rw [same]
  · rw [added, decoded_push]

theorem size_le_intern (graph : Graph) (name : String) :
    graph.size ≤ (graph.intern name).2.size := by
  obtain ⟨id, -, same⟩ | ⟨-, added⟩ := graph.intern_cases name
  · simp only [same, Nat.le_refl]
  · simp only [added, size_push, Nat.le_succ]

theorem Sound.intern {graph : Graph} (sound : graph.Sound) (name : String) :
    (graph.intern name).2.Sound := by
  obtain ⟨id, -, same⟩ | ⟨absent, added⟩ := graph.intern_cases name
  · rwa [same]
  · rw [added]
    exact sound.push (sound.not_mem_names_iff.mpr absent)

theorem find?_intern_of_mem {graph : Graph} (sound : graph.Sound) (name : String) {known : String}
    (present : known ∈ graph.names) :
    (graph.intern name).2.find? known = graph.find? known := by
  obtain ⟨id, -, same⟩ | ⟨absent, added⟩ := graph.intern_cases name
  · rw [same]
  · have other : name ≠ known := by
      rintro rfl
      exact sound.not_mem_names_iff.mpr absent present
    rw [added, find?_push]
    exact if_neg other

end ClassCoupling.Graph
