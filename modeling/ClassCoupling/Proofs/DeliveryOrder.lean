import ClassCoupling.Proofs.InputCollection
import Mathlib.Data.List.Forall2

/-!
Files below a directory are delivered in no particular order. Each has a place of its own, so
which input a place gets from one directory does not depend on the order; between two paths
that lead to a place the earlier one decides. What is collected is therefore one list, in the
order of the places, and a path that leads to no new place adds nothing to it.
-/
namespace ClassCoupling

/-- The same files, in any order and each at least once. -/
def SameFiles (first second : List Delivery) : Prop :=
  ∀ delivery, delivery ∈ first ↔ delivery ∈ second

section Merging

variable {filter : NameFilter}

theorem inputAt?_flatten (place : Place) (runs : List (List Delivery)) :
    inputAt? filter place runs.flatten = runs.findSome? (inputAt? filter place) := by
  induction runs with
  | nil => rfl
  | cons run runs ih =>
      rw [List.flatten_cons, inputAt?, List.findSome?_append, ← inputAt?, ← inputAt?, ih,
        List.findSome?_cons]
      cases inputAt? filter place run <;> rfl

theorem mergeInputs_congr {first second : List (List Delivery)}
    (same : ∀ place, first.findSome? (inputAt? filter place) =
      second.findSome? (inputAt? filter place)) :
    mergeInputs filter first = mergeInputs filter second := by
  apply Std.TreeMap.Equiv.values_eq
  apply Std.TreeMap.Equiv.of_forall_constGet?_eq
  intro place
  rw [getElem?_foldl_addInput, getElem?_foldl_addInput, inputAt?_flatten, inputAt?_flatten, same]

theorem mergeInputs_listed (filter : NameFilter) (runs : List (List Delivery)) :
    ∃ places : List Place,
      places.Pairwise (fun first second => compare first second = .lt) ∧
      (∀ place, place ∈ places ↔ ∃ input, runs.findSome? (inputAt? filter place) = some input) ∧
      List.Forall₂ (fun place input => runs.findSome? (inputAt? filter place) = some input)
        places (mergeInputs filter runs) := by
  have found : ∀ place, (runs.flatten.foldl (addInput filter) ∅)[place]? =
      runs.findSome? (inputAt? filter place) := by
    intro place
    rw [getElem?_foldl_addInput, Std.TreeMap.getElem?_emptyc, Option.none_or, inputAt?_flatten]
  refine ⟨(runs.flatten.foldl (addInput filter) ∅).keys, Std.TreeMap.ordered_keys, ?_, ?_⟩
  · intro place
    rw [Std.TreeMap.mem_keys, Std.TreeMap.mem_iff_isSome_getElem?, found, Option.isSome_iff_exists]
  · rw [mergeInputs, values_eq_map_snd, ← Std.TreeMap.map_fst_toList_eq_keys,
      List.forall₂_map_left_iff, List.forall₂_map_right_iff, List.forall₂_same]
    rintro ⟨place, input⟩ listed
    rw [← found]
    exact Std.TreeMap.mem_toList_iff_getElem?_eq_some.mp listed

theorem SameFiles.inputAt?_eq {first second : List Delivery} (same : SameFiles first second)
    (apart : Apart second) (place : Place) :
    inputAt? filter place first = inputAt? filter place second := by
  have apartToo : Apart first := by
    intro one oneListed other otherListed
    exact apart one ((same one).mp oneListed) other ((same other).mp otherListed)
  apply Option.ext
  intro input
  rw [apartToo.inputAt?_eq_some_iff, apart.inputAt?_eq_some_iff]
  simp only [same _]

theorem mergeInputs_eq_of_sameFiles {first second : List (List Delivery)}
    (same : List.Forall₂ SameFiles first second) (apart : ∀ run ∈ second, Apart run) :
    mergeInputs filter first = mergeInputs filter second := by
  apply mergeInputs_congr
  intro place
  induction same with
  | nil => rfl
  | cons here _ ih =>
      rw [List.forall_mem_cons] at apart
      rw [List.findSome?_cons, List.findSome?_cons, here.inputAt?_eq apart.1, ih apart.2]

end Merging

namespace Volume

def Reaches (volume : Volume) (filter : NameFilter) (root : String) (place : Place)
    (input : Input) : Prop :=
  ∃ delivery ∈ volume.deliveries root, delivery.place = place ∧ delivery.input? filter = some input

/-- The input that the first of some paths leads to at a place. -/
def FirstReaches (volume : Volume) (filter : NameFilter) (roots : List String) (place : Place)
    (input : Input) : Prop :=
  ∃ before root after, roots = before ++ root :: after ∧ volume.Reaches filter root place input ∧
    ∀ earlier ∈ before, ∀ other, ¬ volume.Reaches filter earlier place other

section Deliveries

variable {volume : Volume} {filter : NameFilter} {place : Place}

theorem deliveries_apart (volume : Volume) (root : String) : Apart (volume.deliveries root) := by
  unfold deliveries
  split
  case h_1 place found =>
    by_cases walked : Path.components root = [.name "-"]
    · rw [filesBelow, if_pos walked]
      simp [Apart]
    · exact filesBelow_apart walked
  case h_2 => exact .singleton _
  case h_3 => simp [Apart]

theorem inputAt?_deliveries_iff {root : String} {input : Input} :
    inputAt? filter place (volume.deliveries root) = some input ↔
      volume.Reaches filter root place input :=
  (volume.deliveries_apart root).inputAt?_eq_some_iff

theorem inputAt?_deliveries_eq_none_iff {root : String} :
    inputAt? filter place (volume.deliveries root) = none ↔
      ∀ input, ¬ volume.Reaches filter root place input := by
  simp only [Option.eq_none_iff_forall_ne_some, ne_eq, inputAt?_deliveries_iff]

theorem findSome?_deliveries_iff {roots : List String} {input : Input} :
    (roots.map volume.deliveries).findSome? (inputAt? filter place) = some input ↔
      volume.FirstReaches filter roots place input := by
  rw [List.findSome?_map, List.findSome?_eq_some_iff]
  simp only [Function.comp_apply, inputAt?_deliveries_iff, inputAt?_deliveries_eq_none_iff]
  rfl

theorem exists_findSome?_deliveries_iff {roots : List String} :
    (∃ input, (roots.map volume.deliveries).findSome? (inputAt? filter place) = some input) ↔
      ∃ root ∈ roots, ∃ input, volume.Reaches filter root place input := by
  rw [← Option.isSome_iff_exists, List.findSome?_isSome_iff]
  simp only [List.mem_map, exists_exists_and_eq_and, Option.isSome_iff_exists,
    inputAt?_deliveries_iff]

theorem not_reaches_of_missing {root : String} (missing : volume.isThere root = false)
    (input : Input) : ¬ volume.Reaches filter root place input := by
  rintro ⟨delivery, listed, -⟩
  unfold isThere at missing
  unfold deliveries at listed
  cases found : volume.find root with
  | error fault => simp [found] at listed
  | ok target => simp [found, Except.isOk, Except.toBool] at missing

theorem collectInputs_append {roots more : List String}
    (covered : ∀ root ∈ more, ∀ place input, volume.Reaches filter root place input →
      ∃ earlier ∈ roots, ∃ input, volume.Reaches filter earlier place input) :
    collectInputs volume filter (roots ++ more) = collectInputs volume filter roots := by
  apply mergeInputs_congr
  intro place
  rw [List.map_append, List.findSome?_append]
  cases found : (roots.map volume.deliveries).findSome? (inputAt? filter place) with
  | some input => rfl
  | none =>
      rw [Option.none_or, List.findSome?_eq_none_iff, List.forall_mem_map]
      intro root listed
      rw [inputAt?_deliveries_eq_none_iff]
      intro input reaches
      have taken := exists_findSome?_deliveries_iff.mpr (covered root listed place input reaches)
      rw [found] at taken
      simp at taken

end Deliveries

end Volume

/-- The inputs are the same in whatever order files are delivered. They stand in the order of
their places, which are those of all files that are inputs, each under the spelling that the first
path gives it. Paths that lead nowhere or to no new place change nothing. -/
theorem collection_ignores_delivery_order (volume : Volume) (filter : NameFilter)
    (roots : List String) :
    (∀ runs, List.Forall₂ (fun run root => SameFiles run (volume.deliveries root)) runs roots →
      mergeInputs filter runs = collectInputs volume filter roots) ∧
    (∃ places : List Place,
      places.Pairwise (fun first second => compare first second = .lt) ∧
      (∀ place, place ∈ places ↔ ∃ root ∈ roots, ∃ input,
        volume.Reaches filter root place input) ∧
      List.Forall₂ (volume.FirstReaches filter roots) places
        (collectInputs volume filter roots)) ∧
    (∀ more, (∀ root ∈ more, ∀ place input, volume.Reaches filter root place input →
        ∃ earlier ∈ roots, ∃ input, volume.Reaches filter earlier place input) →
      collectInputs volume filter (roots ++ more) = collectInputs volume filter roots) ∧
    ∀ root, volume.isThere root = false →
      collectInputs volume filter (roots ++ [root]) = collectInputs volume filter roots := by
  refine ⟨?_, ?_, fun more => Volume.collectInputs_append, ?_⟩
  · intro runs same
    refine mergeInputs_eq_of_sameFiles (List.forall₂_map_right_iff.mpr same) ?_
    simp only [List.forall_mem_map]
    exact fun root _ => volume.deliveries_apart root
  · obtain ⟨places, ascend, listed, inOrder⟩ :=
      mergeInputs_listed filter (roots.map volume.deliveries)
    simp only [Volume.exists_findSome?_deliveries_iff] at listed
    simp only [Volume.findSome?_deliveries_iff] at inOrder
    exact ⟨places, ascend, listed, inOrder⟩
  · intro root missing
    refine Volume.collectInputs_append ?_
    simp only [List.forall_mem_singleton]
    exact fun place input reaches => absurd reaches (Volume.not_reaches_of_missing missing input)

def rack : Volume where
  items := (({} : Std.TreeMap Place Item).insert ["A.class"] (.file [])).insert ["B.class"]
    (.file [])

theorem find_rack :
    rack.find "." = .ok ([], .directory) ∧ rack.find "B.class" = .ok (["B.class"], .file []) ∧
      rack.find "gone" = .error .missing := by
  have root : rack.item? [] = some .directory := rfl
  have top : rack.current = [] := rfl
  have present : rack.item? ["B.class"] = some (.file []) := rfl
  have absent : rack.item? ["gone"] = none := rfl
  have steps : Volume.steps "." = ["."] ∧ Volume.steps "B.class" = ["B.class"] ∧
      Volume.steps "gone" = ["gone"] := by
    decide +kernel
  have relative : Path.isRooted "." = false ∧ Path.isRooted "B.class" = false ∧
      Path.isRooted "gone" = false := by
    decide +kernel
  have size : ".".utf8ByteSize = 1 ∧ "B.class".utf8ByteSize = 7 ∧ "gone".utf8ByteSize = 4 := by
    decide +kernel
  refine ⟨?_, ?_, ?_⟩
  · have place : rack.resolve {} "." = .ok [] := by
      simp [Volume.resolve, steps, relative, size, top, Volume.walk, root]
    simp only [Volume.find, place, bind, Except.bind, root]
    rfl
  · have place : rack.resolve {} "B.class" = .ok ["B.class"] := by
      simp [Volume.resolve, steps, relative, size, top, Volume.walk, root, present]
    simp only [Volume.find, place, bind, Except.bind, present]
    rfl
  · have place : rack.resolve {} "gone" = .error .missing := by
      simp [Volume.resolve, steps, relative, size, top, Volume.walk, root, absent]
    simp only [Volume.find, place, bind, Except.bind]

theorem deliveries_rack : [".", "B.class"].map rack.deliveries =
    [[⟨"./A.class", ["A.class"]⟩, ⟨"./B.class", ["B.class"]⟩], [⟨"B.class", ["B.class"]⟩]] := by
  obtain ⟨here, file, -⟩ := find_rack
  have below : rack.filesBelow "." [] =
      [⟨"./A.class", ["A.class"]⟩, ⟨"./B.class", ["B.class"]⟩] := by
    decide +kernel
  simp only [List.map_cons, List.map_nil, Volume.deliveries, here, file, below]

theorem collection_ignores_delivery_order_rack :
    let swapped : List (List Delivery) :=
      [[⟨"./B.class", ["B.class"]⟩, ⟨"./A.class", ["A.class"]⟩], [⟨"B.class", ["B.class"]⟩]]
    List.Forall₂ (fun run root => SameFiles run (rack.deliveries root)) swapped
        [".", "B.class"] ∧
      mergeInputs {} swapped = collectInputs rack {} [".", "B.class"] ∧
      collectInputs rack {} [".", "B.class"] =
        [⟨"./A.class", .classFile⟩, ⟨"./B.class", .classFile⟩] ∧
      rack.isThere "gone" = false ∧
      collectInputs rack {} [".", "B.class", "gone"] = collectInputs rack {} [".", "B.class"] := by
  intro swapped
  have same : List.Forall₂ (fun run root => SameFiles run (rack.deliveries root)) swapped
      [".", "B.class"] := by
    rw [← List.forall₂_map_right_iff, deliveries_rack]
    simp [swapped, SameFiles, or_comm]
  have missing : rack.isThere "gone" = false := by
    rw [Volume.isThere, find_rack.2.2]
    rfl
  obtain ⟨anyOrder, -, -, nothing⟩ := collection_ignores_delivery_order rack {} [".", "B.class"]
  refine ⟨same, anyOrder swapped same, ?_, missing, nothing "gone" missing⟩
  rw [collectInputs, deliveries_rack]
  decide +kernel

end ClassCoupling
