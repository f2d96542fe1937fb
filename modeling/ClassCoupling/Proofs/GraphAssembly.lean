import ClassCoupling.Proofs.ByteOrder
import ClassCoupling.Proofs.GraphSteps
import Mathlib.Data.List.Induction

/-!
What assembling a graph gives. Of records with one name the first is kept, and
the kept records come first among the nodes. Going through the references of the
kept records in order, every name met for the first time that is not a kept one
adds a placeholder. One node depends on another exactly when its record is kept
and refers to the name of the other.
-/
namespace ClassCoupling

section Firsts

variable {α : Type} (key : α → String)

def firstBy : List α → List α
  | [] => []
  | item :: rest => item :: (firstBy rest).filter (fun other => key other ≠ key item)

theorem mem_of_mem_firstBy {items : List α} {item : α} (listed : item ∈ firstBy key items) :
    item ∈ items := by
  induction items with
  | nil => exact listed
  | cons first items ih =>
      obtain same | later := List.mem_cons.mp listed
      · exact same ▸ List.mem_cons_self
      · exact List.mem_cons_of_mem first (ih (List.mem_filter.mp later).1)

theorem firstBy_concat (items : List α) (item : α) :
    firstBy key (items ++ [item]) =
      if key item ∈ items.map key then firstBy key items else firstBy key items ++ [item] := by
  induction items with
  | nil => simp [firstBy]
  | cons first items ih =>
      simp only [List.cons_append, firstBy, ih]
      by_cases later : key item ∈ items.map key
      · have within : key item ∈ (first :: items).map key := List.mem_cons_of_mem _ later
        rw [if_pos later, if_pos within]
      · rw [if_neg later, List.filter_append]
        by_cases same : key item = key first
        · simp [same]
        · simp only [List.map_cons, List.mem_cons, same, later, or_self, ↓reduceIte]
          simp [same]

theorem mem_map_firstBy {items : List α} {value : String} :
    value ∈ (firstBy key items).map key ↔ value ∈ items.map key := by
  induction items using List.reverseRecOn with
  | nil => rfl
  | append_singleton items item ih =>
      rw [firstBy_concat]
      split
      case isTrue present =>
        rw [ih, List.map_append, List.mem_append, List.map_singleton, List.mem_singleton]
        constructor
        · exact .inl
        · rintro (within | rfl)
          · exact within
          · exact present
      case isFalse => simp only [List.map_append, List.mem_append, ih]

theorem nodup_map_firstBy (items : List α) : ((firstBy key items).map key).Nodup := by
  induction items using List.reverseRecOn with
  | nil => exact List.nodup_nil
  | append_singleton items item ih =>
      rw [firstBy_concat]
      split
      case isTrue => exact ih
      case isFalse absent =>
        rw [List.map_append, List.nodup_append]
        refine ⟨ih, by simp, ?_⟩
        rintro value within other last rfl
        rw [mem_map_firstBy] at within
        rw [List.map_singleton, List.mem_singleton] at last
        exact absent (last ▸ within)

theorem firstBy_of_nodup {items : List α} (distinct : (items.map key).Nodup) :
    firstBy key items = items := by
  induction items with
  | nil => rfl
  | cons item items ih =>
      rw [List.map_cons, List.nodup_cons] at distinct
      rw [firstBy, ih distinct.2, List.filter_eq_self.mpr]
      intro other within
      have different : key other ≠ key item := by
        intro same
        exact distinct.1 (same ▸ List.mem_map_of_mem within)
      simpa using different

end Firsts

namespace Graph

theorem ids_contains_iff {graph : Graph} (sound : graph.Sound) {name : String} :
    graph.ids.contains name = true ↔ name ∈ graph.names := by
  rw [sound.mem_names_iff, Std.TreeMap.contains_eq_isSome_getElem?, Option.isSome_iff_exists]
  rfl

theorem records_foldl_push (items : List ClassRecord) (graph : Graph) :
    (items.foldl push graph).records = graph.records ++ items := by
  induction items generalizing graph with
  | nil => simp
  | cons item items ih =>
      rw [List.foldl_cons, ih, records_push, List.append_assoc, List.singleton_append]

theorem efferents_foldl_push (items : List ClassRecord) (graph : Graph) (id : Nat) :
    (items.foldl push graph).efferents id = graph.efferents id := by
  induction items generalizing graph with
  | nil => rfl
  | cons item items ih => rw [List.foldl_cons, ih, efferents_push]

theorem Sound.foldl_push {items : List ClassRecord} {graph : Graph} (sound : graph.Sound)
    (fresh : (graph.names ++ items.map ClassRecord.name).Nodup) :
    (items.foldl Graph.push graph).Sound := by
  induction items generalizing graph with
  | nil => exact sound
  | cons item items ih =>
      rw [List.map_cons, ← List.singleton_append, ← List.append_assoc] at fresh
      have first : item.name ∉ graph.names := by
        intro present
        have distinct := (List.nodup_append.mp (List.nodup_append.mp fresh).1).2.2
        exact distinct item.name present item.name (by simp) rfl
      refine ih (sound.push first) ?_
      rwa [names_push]

/-- The records that are kept: of several with one name the first. -/
def kept (records : List ClassRecord) : List ClassRecord := firstBy ClassRecord.name records

/-- Of the names met, those of no kept record, each where it is met first. -/
def missing (kept : List ClassRecord) (met : List String) : List String :=
  firstBy id (met.filter (fun name => name ∉ kept.map ClassRecord.name))

theorem mem_missing_iff {kept : List ClassRecord} {met : List String} {name : String} :
    name ∈ missing kept met ↔ name ∈ met ∧ name ∉ kept.map ClassRecord.name := by
  rw [missing, ← List.map_id (firstBy id _), mem_map_firstBy, List.map_id, List.mem_filter,
    decide_eq_true_eq]

theorem missing_concat (kept : List ClassRecord) (met : List String) (name : String) :
    missing kept (met ++ [name]) =
      if name ∈ kept.map ClassRecord.name ∨ name ∈ met then missing kept met
      else missing kept met ++ [name] := by
  unfold missing
  by_cases found : name ∈ kept.map ClassRecord.name
  · have dropped : [name].filter (fun name => name ∉ kept.map ClassRecord.name) = [] :=
      List.filter_cons_of_neg (by simpa using found)
    rw [List.filter_append, dropped, List.append_nil, if_pos (.inl found)]
  · have passed : [name].filter (fun name => name ∉ kept.map ClassRecord.name) = [name] :=
      List.filter_cons_of_pos (decide_eq_true found)
    rw [List.filter_append, passed, firstBy_concat, List.map_id]
    simp only [id, List.mem_filter, found, not_false_eq_true, decide_true, and_true, false_or]

def mentions (kept : List ClassRecord) : List (Nat × String) :=
  kept.zipIdx.flatMap fun (record, id) => record.references.toList.map (id, ·)

theorem mem_mentions_iff {kept : List ClassRecord} {source : Nat} {name : String} :
    (source, name) ∈ mentions kept ↔
      ∃ record, kept[source]? = some record ∧ name ∈ record.references.toList := by
  simp only [mentions, List.mem_flatMap, List.mem_map, Prod.mk.injEq, Prod.exists,
    List.mem_zipIdx_iff_getElem?]
  constructor
  · rintro ⟨record, id, present, name, within, rfl, rfl⟩
    exact ⟨record, present, within⟩
  · rintro ⟨record, present, within⟩
    exact ⟨record, source, present, name, within, rfl, rfl⟩

theorem foldl_keep (records : List ClassRecord) :
    records.foldl keep {} = (kept records).foldl push {} := by
  induction records using List.reverseRecOn with
  | nil => rfl
  | append_singleton records record ih =>
      have sound : ((kept records).foldl push {}).Sound :=
        Sound.empty.foldl_push (nodup_map_firstBy ClassRecord.name records)
      have present : ((kept records).foldl push {}).ids.contains record.name = true ↔
          record.name ∈ records.map ClassRecord.name := by
        rw [ids_contains_iff sound, names, records_foldl_push]
        exact mem_map_firstBy ClassRecord.name
      have next : kept (records ++ [record]) = if record.name ∈ records.map ClassRecord.name
          then kept records else kept records ++ [record] := firstBy_concat ..
      rw [List.foldl_append, List.foldl_cons, List.foldl_nil, ih, keep, next]
      simp only [present]
      split
      case isTrue => rfl
      case isFalse => rw [List.foldl_append, List.foldl_cons, List.foldl_nil]

/-- The graph once some of the references have been gone through. -/
structure Progress (kept : List ClassRecord) (met : List (Nat × String)) (graph : Graph) :
    Prop where
  sound : graph.Sound
  decoded : graph.decoded = kept.length
  records : graph.records =
    kept ++ (missing kept (met.map Prod.snd)).map ClassRecord.placeholder
  edges : ∀ source target, target ∈ graph.efferents source ↔
    source ≠ target ∧ ∃ name, (source, name) ∈ met ∧ graph.find? name = some target

namespace Progress

variable {kept : List ClassRecord} {met : List (Nat × String)} {graph : Graph}

theorem names_eq (progress : Progress kept met graph) :
    graph.names = kept.map ClassRecord.name ++ missing kept (met.map Prod.snd) := by
  rw [names, progress.records, List.map_append, List.map_map]
  congr 1
  exact List.map_id _

theorem mem_names_iff (progress : Progress kept met graph) {name : String} :
    name ∈ graph.names ↔ name ∈ kept.map ClassRecord.name ∨ name ∈ met.map Prod.snd := by
  rw [progress.names_eq, List.mem_append, mem_missing_iff]
  by_cases found : name ∈ kept.map ClassRecord.name <;> simp [found]

theorem mem_names_of_met (progress : Progress kept met graph) {source : Nat} {name : String}
    (before : (source, name) ∈ met) : name ∈ graph.names :=
  progress.mem_names_iff.mpr (.inr (List.mem_map_of_mem before))

theorem length_le (progress : Progress kept met graph) : kept.length ≤ graph.size := by
  rw [← length_records, progress.records, List.length_append]
  exact Nat.le_add_right _ _

theorem refer (progress : Progress kept met graph) {source : Nat} (bound : source < kept.length)
    (name : String) : Progress kept (met ++ [(source, name)]) (graph.refer source name) where
  sound := by
    have within : source < graph.size := Nat.lt_of_lt_of_le bound progress.length_le
    refine (progress.sound.intern name).link ?_ ?_
    · exact Nat.lt_of_lt_of_le within (graph.size_le_intern name)
    · exact (progress.sound.intern name).lt_size (graph.find?_intern name)
  decoded := by
    rw [Graph.refer, decoded_link, decoded_intern, progress.decoded]
  records := by
    rw [Graph.refer, records_link, List.map_append, List.map_singleton, missing_concat]
    simp only [← progress.mem_names_iff]
    obtain ⟨id, found, same⟩ | ⟨absent, added⟩ := graph.intern_cases name
    · rw [same, if_pos (progress.sound.mem_names_iff.mpr ⟨id, found⟩), progress.records]
    · rw [added, if_neg (progress.sound.not_mem_names_iff.mpr absent), records_push,
        progress.records, List.map_append, List.append_assoc, List.map_singleton]
  edges := by
    intro first second
    have within : source < (graph.intern name).2.size :=
      Nat.lt_of_lt_of_le bound (Nat.le_trans progress.length_le (graph.size_le_intern name))
    rw [Graph.refer, mem_efferents_link, efferents_intern, progress.edges]
    simp only [find?_link, List.mem_append, List.mem_singleton, Prod.mk.injEq]
    -- A name that was met before leads where it led; the new one leads to its interned node.
    constructor
    · rintro (⟨distinct, known, before, found⟩ | ⟨distinct, rfl, rfl, -⟩)
      · refine ⟨distinct, known, .inl before, ?_⟩
        rw [find?_intern_of_mem progress.sound name (progress.mem_names_of_met before), found]
      · exact ⟨distinct, name, .inr ⟨rfl, rfl⟩, graph.find?_intern name⟩
    · rintro ⟨distinct, known, before | ⟨rfl, rfl⟩, found⟩
      · rw [find?_intern_of_mem progress.sound name (progress.mem_names_of_met before)] at found
        exact .inl ⟨distinct, known, before, found⟩
      · rw [find?_intern, Option.some.injEq] at found
        exact .inr ⟨found ▸ distinct, rfl, found.symm, within⟩

theorem foldl_refer (progress : Progress kept met graph) {steps : List (Nat × String)}
    (bounds : ∀ step ∈ steps, step.1 < kept.length) :
    Progress kept (met ++ steps)
      (steps.foldl (fun graph step => Graph.refer step.1 graph step.2) graph) := by
  induction steps generalizing met graph with
  | nil => simpa using progress
  | cons step steps ih =>
      simp only [List.forall_mem_cons] at bounds
      rw [← List.singleton_append, ← List.append_assoc]
      exact ih (progress.refer bounds.1 step.2) bounds.2

end Progress

theorem Progress.start {kept : List ClassRecord} (distinct : (kept.map ClassRecord.name).Nodup) :
    Progress kept [] { kept.foldl push {} with decoded := kept.length } := by
  have sound : (kept.foldl push {}).Sound := Sound.empty.foldl_push distinct
  refine ⟨⟨sound.find_iff, sound.efferents_lt, sound.mirrored, sound.irreflexive⟩, rfl, ?_, ?_⟩
  · exact (records_foldl_push kept {}).trans (List.append_nil kept).symm
  · intro source target
    have unlinked : target ∉ (kept.foldl push {}).efferents source := by
      rw [efferents_foldl_push]
      exact List.not_mem_nil
    constructor
    · intro edge
      exact absurd edge unlinked
    · rintro ⟨-, name, before, -⟩
      exact absurd before List.not_mem_nil

theorem assemble_eq_foldl (records : List ClassRecord) :
    assemble records = (mentions (kept records)).foldl
      (fun graph mention => refer mention.1 graph mention.2)
      { (kept records).foldl push {} with decoded := (kept records).length } := by
  have listed : ((kept records).foldl push {}).nodes.toList.map Node.record = kept records :=
    records_foldl_push (kept records) {}
  have size : ((kept records).foldl push {}).size = (kept records).length := by
    rw [← length_records, Graph.records, listed]
  rw [assemble, foldl_keep, mentions, List.foldl_flatMap]
  simp only [listed, size, List.foldl_map]
  rfl

theorem assemble_progress (records : List ClassRecord) :
    Progress (kept records) (mentions (kept records)) (assemble records) := by
  rw [assemble_eq_foldl]
  refine (Progress.start (nodup_map_firstBy ClassRecord.name records)).foldl_refer ?_
  intro step within
  obtain ⟨record, present, -⟩ := mem_mentions_iff.mp within
  exact (List.getElem?_eq_some_iff.mp present).1

theorem map_snd_mentions (kept : List ClassRecord) :
    (mentions kept).map Prod.snd = kept.flatMap fun record => record.references.toList := by
  have names : ∀ entry : ClassRecord × Nat,
      (entry.1.references.toList.map (entry.2, ·)).map Prod.snd = entry.1.references.toList := by
    intro entry
    rw [List.map_map]
    exact List.map_id _
  conv => rhs; rw [← List.zipIdx_map_fst 0 kept, List.flatMap_map]
  rw [mentions, List.map_flatMap]
  simp only [names]

section Assembled

variable (records : List ClassRecord)

theorem assemble_sound : (assemble records).Sound := (assemble_progress records).sound

theorem assemble_records :
    (assemble records).records = kept records ++ (missing (kept records)
      ((kept records).flatMap fun record => record.references.toList)).map .placeholder := by
  rw [(assemble_progress records).records, map_snd_mentions]

theorem find?_assemble_iff {name : String} {id : Nat} :
    (assemble records).find? name = some id ↔
      id < (assemble records).size ∧ (assemble records).name id = name := by
  rw [(assemble_sound records).find_iff, getElem?_names_iff]

theorem record_assemble {id : Nat} {record : ClassRecord}
    (present : (kept records)[id]? = some record) : (assemble records).record id = record := by
  have bound : id < (kept records).length := (List.getElem?_eq_some_iff.mp present).1
  rw [record_eq, assemble_records, List.getElem?_append_left bound, present]
  rfl

theorem dependsOn_assemble_iff {source target : Nat} :
    (assemble records).dependsOn source target = true ↔
      source < (assemble records).decoded ∧ target < (assemble records).size ∧ source ≠ target ∧
        (assemble records).name target ∈ ((assemble records).record source).references.toList := by
  have progress := assemble_progress records
  rw [← mem_efferents_iff_dependsOn, progress.edges, progress.decoded]
  constructor
  · rintro ⟨distinct, name, mentioned, found⟩
    obtain ⟨record, present, within⟩ := mem_mentions_iff.mp mentioned
    obtain ⟨bound, rfl⟩ := (find?_assemble_iff records).mp found
    rw [record_assemble records present]
    exact ⟨(List.getElem?_eq_some_iff.mp present).1, bound, distinct, within⟩
  · rintro ⟨sourceBound, targetBound, distinct, within⟩
    have present := List.getElem?_eq_getElem sourceBound
    rw [record_assemble records present] at within
    exact ⟨distinct, _, mem_mentions_iff.mpr ⟨_, present, within⟩,
      (find?_assemble_iff records).mpr ⟨targetBound, rfl⟩⟩

theorem efferents_placeholder {id : Nat} (placed : (assemble records).decoded ≤ id) :
    (assemble records).efferents id = [] := by
  rw [List.eq_nil_iff_forall_not_mem]
  intro target edge
  have bound := ((dependsOn_assemble_iff records).mp (mem_efferents_iff_dependsOn.mp edge)).1
  omega

theorem exists_afferent_placeholder {id : Nat} (placed : (assemble records).decoded ≤ id)
    (bound : id < (assemble records).size) :
    ∃ source, source ∈ (assemble records).afferents id := by
  have progress := assemble_progress records
  rw [progress.decoded] at placed
  have named := getElem?_names_iff.mpr ⟨bound, rfl⟩
  rw [progress.names_eq, List.getElem?_append_right (by rwa [List.length_map])] at named
  -- The name of a placeholder was met in the references of a kept record.
  obtain ⟨met, -⟩ := mem_missing_iff.mp (List.mem_of_getElem? named)
  obtain ⟨⟨source, name⟩, mentioned, same⟩ := List.mem_map.mp met
  obtain ⟨record, present, -⟩ := mem_mentions_iff.mp mentioned
  have sourceBound : source < (kept records).length := (List.getElem?_eq_some_iff.mp present).1
  refine ⟨source, (progress.sound.mirrored source id).mpr ((progress.edges source id).mpr ?_)⟩
  refine ⟨by omega, name, mentioned, ?_⟩
  exact (find?_assemble_iff records).mpr ⟨bound, same.symm⟩

theorem assemble_kept : assemble (kept records) = assemble records := by
  have same : kept (kept records) = kept records :=
    firstBy_of_nodup ClassRecord.name (nodup_map_firstBy ClassRecord.name records)
  rw [assemble_eq_foldl, assemble_eq_foldl, same]

end Assembled

structure ReferenceGraph (classes : List ClassRecord) (graph : Graph) : Prop where
  decoded_eq : graph.decoded = classes.length
  /-- The classes come first; then a placeholder for each other name, where it is first met. -/
  records_eq : graph.records = classes ++ (missing classes
    (classes.flatMap fun record => record.references.toList)).map .placeholder
  met_in_byte_order : ∀ record ∈ classes, record.references.toList.Pairwise
    fun first second => Utf8.encode first < Utf8.encode second
  named_iff : ∀ name, name ∈ graph.names ↔
    name ∈ classes.map ClassRecord.name ∨ ∃ record ∈ classes, name ∈ record.references.toList
  names_distinct : graph.names.Nodup
  found_iff : ∀ name id, graph.find? name = some id ↔ id < graph.size ∧ graph.name id = name
  depends_iff : ∀ source target, graph.dependsOn source target = true ↔
    source < graph.decoded ∧ target < graph.size ∧ source ≠ target ∧
      graph.name target ∈ (graph.record source).references.toList
  efferent_iff : ∀ source target,
    target ∈ graph.efferents source ↔ graph.dependsOn source target = true
  afferent_iff : ∀ source target,
    source ∈ graph.afferents target ↔ graph.dependsOn source target = true
  placeholder_edges : ∀ id, graph.decoded ≤ id → id < graph.size →
    graph.efferents id = [] ∧ ∃ source, source ∈ graph.afferents id

/-- A graph is assembled from the first record of each name, and is the same without the others. -/
theorem assemble_is_reference_graph (records : List ClassRecord) :
    ReferenceGraph (kept records) (assemble records) ∧
      assemble (kept records) = assemble records := by
  have progress := assemble_progress records
  have mirrored : ∀ source target, source ∈ (assemble records).afferents target ↔
      (assemble records).dependsOn source target = true := by
    intro source target
    rw [progress.sound.mirrored, mem_efferents_iff_dependsOn]
  refine ⟨?_, assemble_kept records⟩
  exact {
    decoded_eq := progress.decoded
    records_eq := assemble_records records
    met_in_byte_order := fun record _ =>
      record.references.sorted.imp Utf8.compare_eq_lt_iff.mp
    named_iff := by
      intro name
      rw [progress.mem_names_iff, map_snd_mentions, List.mem_flatMap]
    names_distinct := progress.sound.nodup_names
    found_iff := fun _ _ => find?_assemble_iff records
    depends_iff := fun _ _ => dependsOn_assemble_iff records
    efferent_iff := fun _ _ => mem_efferents_iff_dependsOn
    afferent_iff := mirrored
    placeholder_edges := fun _ placed bound =>
      ⟨efferents_placeholder records placed, exists_afferent_placeholder records placed bound⟩ }

-- The second record called `A` is dropped, and with it the only mention of `Lost`.
example :
    (assemble [{ name := "A", references := .ofList ["C", "B"] }, { name := "B" },
      { name := "A", references := .ofList ["Lost"] }]).names = ["A", "B", "C"] := by
  decide +kernel

end Graph

end ClassCoupling
