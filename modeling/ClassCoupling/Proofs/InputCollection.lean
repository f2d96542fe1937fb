import ClassCoupling.Inputs
import Mathlib.Data.List.Basic

/-!
What is collected from the files that were found. Each place has at most one input, which is
that of the first file there that is an input at all. Files below one directory have places
of their own, so each of them that is an input is collected.
-/
namespace ClassCoupling

theorem values_eq_map_snd {κ α : Type} [Ord κ] (map : Std.TreeMap κ α) :
    map.values = map.toList.map Prod.snd := by
  change map.inner.inner.values =
    (Std.DTreeMap.Internal.Impl.Const.toList map.inner.inner).map Prod.snd
  rw [Std.DTreeMap.Internal.Impl.values_eq_map_snd,
    Std.DTreeMap.Internal.Impl.Const.toList_eq_toListModel_map, List.map_map]
  rfl

theorem mem_values_iff {κ α : Type} [Ord κ] [Std.TransOrd κ] [Std.LawfulEqOrd κ]
    {map : Std.TreeMap κ α} {value : α} :
    value ∈ map.values ↔ ∃ key : κ, map[key]? = some value := by
  rw [values_eq_map_snd, List.mem_map]
  constructor
  · rintro ⟨⟨key, _⟩, listed, rfl⟩
    exact ⟨key, Std.TreeMap.mem_toList_iff_getElem?_eq_some.mp listed⟩
  · rintro ⟨key, found⟩
    exact ⟨(key, value), Std.TreeMap.mem_toList_iff_getElem?_eq_some.mpr found, rfl⟩

def Delivery.input? (filter : NameFilter) (delivery : Delivery) : Option Input :=
  (Input.classify filter delivery.path).map (Input.mk delivery.path)

/-- The input of a place: that of the first file there that is one. -/
def inputAt? (filter : NameFilter) (place : Place) (deliveries : List Delivery) : Option Input :=
  deliveries.findSome? fun delivery =>
    if delivery.place = place then delivery.input? filter else none

def Apart (run : List Delivery) : Prop :=
  ∀ first ∈ run, ∀ second ∈ run, first.place = second.place → first = second

theorem Apart.singleton (delivery : Delivery) : Apart [delivery] := by
  intro first firstListed second secondListed _
  rw [List.mem_singleton.mp firstListed, List.mem_singleton.mp secondListed]

section Merging

variable {filter : NameFilter}

theorem getElem?_addInput (inputs : Std.TreeMap Place Input) (delivery : Delivery) (place : Place) :
    (addInput filter inputs delivery)[place]? =
      inputs[place]?.or (if delivery.place = place then delivery.input? filter else none) := by
  rw [addInput, Delivery.input?]
  cases Input.classify filter delivery.path with
  | none => simp
  | some kind =>
      simp only [Std.TreeMap.getElem?_insertIfNew, Std.LawfulEqCmp.compare_eq_iff_eq]
      by_cases here : delivery.place = place
      · subst here
        by_cases taken : delivery.place ∈ inputs
        · rw [if_neg (by simp [taken]), Std.TreeMap.getElem?_eq_some_getElem taken, Option.some_or]
        · rw [if_pos ⟨rfl, taken⟩, Std.TreeMap.getElem?_eq_none taken]
          simp
      · simp [here]

/-- Files that come later take no place that has an input. -/
theorem getElem?_foldl_addInput (deliveries : List Delivery) (inputs : Std.TreeMap Place Input)
    (place : Place) :
    (deliveries.foldl (addInput filter) inputs)[place]? =
      inputs[place]?.or (inputAt? filter place deliveries) := by
  induction deliveries generalizing inputs with
  | nil => simp [inputAt?]
  | cons delivery deliveries ih =>
      rw [List.foldl_cons, ih, getElem?_addInput, Option.or_assoc, inputAt?, inputAt?,
        List.findSome?_cons]
      congr 1
      cases (if delivery.place = place then delivery.input? filter else none) <;> rfl

theorem mem_mergeInputs_iff {deliveries : List (List Delivery)} {input : Input} :
    input ∈ mergeInputs filter deliveries ↔
      ∃ place, inputAt? filter place deliveries.flatten = some input := by
  simp only [mergeInputs, mem_values_iff, getElem?_foldl_addInput, Std.TreeMap.getElem?_emptyc,
    Option.none_or]

theorem Apart.inputAt?_eq_some_iff {run : List Delivery} (apart : Apart run) {place : Place}
    {input : Input} :
    inputAt? filter place run = some input ↔
      ∃ delivery ∈ run, delivery.place = place ∧ delivery.input? filter = some input := by
  constructor
  · intro first
    obtain ⟨delivery, listed, found⟩ := List.exists_of_findSome?_eq_some first
    split at found
    case isTrue here => exact ⟨delivery, listed, here, found⟩
    case isFalse => cases found
  · rintro ⟨delivery, listed, here, found⟩
    cases first : inputAt? filter place run with
    | none =>
        have passed := List.findSome?_eq_none_iff.mp first delivery listed
        rw [if_pos here, found] at passed
        cases passed
    | some other =>
        obtain ⟨earlier, before, taken⟩ := List.exists_of_findSome?_eq_some first
        split at taken
        case isTrue there =>
          rw [apart earlier before delivery listed (there.trans here.symm), found] at taken
          exact taken.symm
        case isFalse => cases taken

theorem Apart.mem_mergeInputs_singleton_iff {run : List Delivery} (apart : Apart run)
    {input : Input} :
    input ∈ mergeInputs filter [run] ↔ ∃ delivery ∈ run, delivery.input? filter = some input := by
  rw [mem_mergeInputs_iff, List.flatten_singleton]
  simp only [apart.inputAt?_eq_some_iff]
  constructor
  · rintro ⟨place, delivery, listed, -, found⟩
    exact ⟨delivery, listed, found⟩
  · rintro ⟨delivery, listed, found⟩
    exact ⟨delivery.place, delivery, listed, rfl, found⟩

end Merging

namespace Volume

def searchBelow (volume : Volume) (root : String) (place : Place) : Search :=
  { root, place, rules := volume.ignoreRules }

theorem mem_filesBelow_iff {volume : Volume} {root : String} {place : Place}
    (walked : Path.components root ≠ [.name "-"]) {delivery : Delivery} :
    delivery ∈ volume.filesBelow root place ↔
      ∃ names bytes, volume.items[place ++ names]? = some (.file bytes) ∧
        (volume.searchBelow root place).finds names = true ∧
        delivery = ⟨(volume.searchBelow root place).pathOf names, place ++ names⟩ := by
  rw [filesBelow, if_neg walked]
  simp only [List.mem_filterMap, Prod.exists, Std.TreeMap.mem_toList_iff_getElem?_eq_some]
  constructor
  · rintro ⟨file, item, present, chosen⟩
    cases item with
    | directory => cases chosen
    | link target => cases chosen
    | file bytes =>
        dsimp only at chosen
        split at chosen
        case isFalse => cases chosen
        case isTrue kept =>
          rw [Bool.and_eq_true, List.isPrefixOf_iff_prefix] at kept
          obtain ⟨⟨names, rfl⟩, finds⟩ := kept
          rw [List.drop_left] at finds chosen
          exact ⟨names, bytes, present, finds, (Option.some.inj chosen).symm⟩
  · rintro ⟨names, bytes, present, finds, rfl⟩
    refine ⟨place ++ names, .file bytes, present, ?_⟩
    have below : place.isPrefixOf (place ++ names) = true :=
      List.isPrefixOf_iff_prefix.mpr (List.prefix_append place names)
    have kept : (place.isPrefixOf (place ++ names) &&
        (volume.searchBelow root place).finds names) = true := by
      rw [below, finds, Bool.and_self]
    simp only [List.drop_left]
    exact if_pos kept

theorem filesBelow_apart {volume : Volume} {root : String} {place : Place}
    (walked : Path.components root ≠ [.name "-"]) : Apart (volume.filesBelow root place) := by
  intro first firstListed second secondListed same
  obtain ⟨names, -, -, -, rfl⟩ := (mem_filesBelow_iff walked).mp firstListed
  obtain ⟨others, -, -, -, rfl⟩ := (mem_filesBelow_iff walked).mp secondListed
  obtain rfl : names = others := List.append_cancel_left same
  rfl

end Volume

theorem Delivery.input?_eq_some_iff {filter : NameFilter} {delivery : Delivery} {input : Input} :
    delivery.input? filter = some input ↔
      ∃ kind, Input.classify filter delivery.path = some kind ∧ input = ⟨delivery.path, kind⟩ := by
  simp only [input?, Option.map_eq_some_iff, eq_comm (a := input)]

section Collecting

variable {volume : Volume} {filter : NameFilter} {place : Place} {input : Input}

theorem mem_collectInputs_directory_iff {root : String}
    (found : volume.find root = .ok (place, .directory))
    (walked : Path.components root ≠ [.name "-"]) :
    input ∈ collectInputs volume filter [root] ↔
      ∃ names bytes, volume.items[place ++ names]? = some (.file bytes) ∧
        (volume.searchBelow root place).finds names = true ∧
        ∃ kind, Input.classify filter ((volume.searchBelow root place).pathOf names) = some kind ∧
          input = ⟨(volume.searchBelow root place).pathOf names, kind⟩ := by
  have delivered : volume.deliveries root = volume.filesBelow root place := by
    rw [Volume.deliveries, found]
  rw [collectInputs, List.map_singleton, delivered,
    (Volume.filesBelow_apart walked).mem_mergeInputs_singleton_iff]
  constructor
  · rintro ⟨delivery, listed, isInput⟩
    obtain ⟨names, bytes, present, finds, rfl⟩ := (Volume.mem_filesBelow_iff walked).mp listed
    rw [Delivery.input?_eq_some_iff] at isInput
    exact ⟨names, bytes, present, finds, isInput⟩
  · rintro ⟨names, bytes, present, finds, isInput⟩
    refine ⟨⟨(volume.searchBelow root place).pathOf names, place ++ names⟩,
      (Volume.mem_filesBelow_iff walked).mpr ⟨names, bytes, present, finds, rfl⟩, ?_⟩
    rw [Delivery.input?_eq_some_iff]
    exact isInput

theorem mem_collectInputs_file_iff {path : String} {bytes : List UInt8}
    (found : volume.find path = .ok (place, .file bytes)) :
    input ∈ collectInputs volume filter [path] ↔
      ∃ kind, Input.classify filter path = some kind ∧ input = ⟨path, kind⟩ := by
  have delivered : volume.deliveries path = [⟨path, place⟩] := by
    rw [Volume.deliveries, found]
  rw [collectInputs, List.map_singleton, delivered,
    (Apart.singleton _).mem_mergeInputs_singleton_iff]
  simp only [List.mem_singleton, exists_eq_left, Delivery.input?_eq_some_iff]

end Collecting

end ClassCoupling
