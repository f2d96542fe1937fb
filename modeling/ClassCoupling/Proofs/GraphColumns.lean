import ClassCoupling.Proofs.GraphAssembly
import Mathlib.Logic.Relation

/-!
A graph as four containers side by side: the records, the numbers by name and the two sides of
the edges. A look-up by index or by key has to hit. Whatever sequence of steps a graph has come
from, the containers stay in step with each other, so that the next step finds what it looks up
and gives the containers of the next graph. Interning leaves all that was there as it was, and a
name keeps the number it got.
-/
namespace ClassCoupling

inductive Miss where
  | index (index size : Nat)
  | key
deriving DecidableEq, Repr

/-- The result of look-ups that have to hit. -/
abbrev Lookup := Except Miss

namespace Lookup

variable {α κ : Type}

def ofOption (miss : Miss) (found : Option α) : Lookup α := found.elim (.error miss) .ok

def element (items : Array α) (index : Nat) : Lookup α :=
  ofOption (.index index items.size) items[index]?

def value [Ord κ] (map : Std.TreeMap κ α) (key : κ) : Lookup α := ofOption .key map[key]?

def change (items : Array α) (index : Nat) (make : α → α) : Lookup (Array α) :=
  if index < items.size then .ok (items.modify index make) else .error (.index index items.size)

theorem ok_bind {β : Type} (value : α) (next : α → Lookup β) :
    (Except.ok value >>= next) = next value := rfl

theorem element_eq {items : Array α} {index : Nat} {item : α} (found : items[index]? = some item) :
    element items index = .ok item := by
  rw [element, found]
  rfl

theorem value_eq [Ord κ] {map : Std.TreeMap κ α} {key : κ} {item : α}
    (found : map[key]? = some item) : value map key = .ok item := by
  rw [value, found]
  rfl

theorem change_eq {items : Array α} {index : Nat} (inside : index < items.size) (make : α → α) :
    change items index make = .ok (items.modify index make) :=
  if_pos inside

end Lookup

structure Columns where
  records : Array ClassRecord := #[]
  ids : Std.TreeMap String Nat := ∅
  efferents : Array (Std.TreeSet Nat) := #[]
  afferents : Array (Std.TreeSet Nat) := #[]
  decoded : Nat := 0

namespace Columns

def push (columns : Columns) (record : ClassRecord) : Columns :=
  { columns with
    ids := columns.ids.insert record.name columns.records.size
    records := columns.records.push record
    efferents := columns.efferents.push ∅
    afferents := columns.afferents.push ∅ }

def intern (columns : Columns) (name : String) : Nat × Columns :=
  (columns.ids[name]?).elim (columns.records.size, columns.push (.placeholder name)) (·, columns)

def link (columns : Columns) (source target : Nat) : Lookup Columns :=
  if source = target then .ok columns
  else do
    let efferents ← Lookup.change columns.efferents source fun set => set.insert target
    let afferents ← Lookup.change columns.afferents target fun set => set.insert source
    return { columns with efferents, afferents }

def Holds (sets : Array (Std.TreeSet Nat)) (id other : Nat) : Prop :=
  ∃ set, sets[id]? = some set ∧ other ∈ set

/-- The containers agree on which nodes there are, what they are called and how they are linked. -/
structure InStep (columns : Columns) : Prop where
  efferents_size : columns.efferents.size = columns.records.size
  afferents_size : columns.afferents.size = columns.records.size
  ids_size : columns.ids.size = columns.records.size
  id_iff : ∀ name id, columns.ids[name]? = some id ↔
    (columns.records[id]?).map ClassRecord.name = some name
  efferent_lt : ∀ {id other}, Holds columns.efferents id other → other < columns.records.size
  afferent_lt : ∀ {id other}, Holds columns.afferents id other → other < columns.records.size
  mirrored : ∀ source target,
    Holds columns.efferents source target ↔ Holds columns.afferents target source
  irreflexive : ∀ id, ¬ Holds columns.efferents id id

end Columns

namespace Graph

def columns (graph : Graph) : Columns where
  records := graph.nodes.map Node.record
  ids := graph.ids
  efferents := graph.nodes.map Node.efferents
  afferents := graph.nodes.map Node.afferents
  decoded := graph.decoded

section Containers

variable (graph : Graph)

theorem size_columns : graph.columns.records.size = graph.size := Array.size_map

theorem getElem?_records_columns {id : Nat} (bound : id < graph.size) :
    graph.columns.records[id]? = some (graph.record id) := by
  have present : graph.nodes[id]? = some graph.nodes[id] := Array.getElem?_eq_getElem bound
  rw [columns, Array.getElem?_map, record, present]
  rfl

theorem holds_iff_listed {side : Node → Std.TreeSet Nat} {id other : Nat} :
    Columns.Holds (graph.nodes.map side) id other ↔ other ∈ listed side graph id := by
  simp only [Columns.Holds, mem_listed_iff, Array.getElem?_map, Option.map_eq_some_iff,
    exists_exists_and_eq_and]

theorem holds_efferents_iff {id other : Nat} :
    Columns.Holds graph.columns.efferents id other ↔ other ∈ graph.efferents id := by
  rw [efferents_eq_listed]
  exact graph.holds_iff_listed

theorem holds_afferents_iff {id other : Nat} :
    Columns.Holds graph.columns.afferents id other ↔ other ∈ graph.afferents id := by
  rw [afferents_eq_listed]
  exact graph.holds_iff_listed

theorem columns_empty : ({} : Graph).columns = {} := by
  simp [columns]

theorem columns_push (record : ClassRecord) :
    (graph.push record).columns = graph.columns.push record := by
  simp [columns, push, Columns.push]

theorem intern_columns (name : String) :
    graph.columns.intern name = ((graph.intern name).1, (graph.intern name).2.columns) := by
  obtain ⟨id, found, same⟩ | ⟨absent, added⟩ := graph.intern_cases name
  · have known : graph.columns.ids[name]? = some id := found
    rw [Columns.intern, known, same]
    rfl
  · have unknown : graph.columns.ids[name]? = none := absent
    rw [Columns.intern, unknown, added, columns_push, Option.elim_none, size_columns]

theorem map_nodes_link {source target : Nat} {side : Node → Std.TreeSet Nat} {place added : Nat}
    (distinct : source ≠ target)
    (changes : ∀ id node, side (linkedNode source target id node) =
      if id = place then (side node).insert added else side node) :
    (graph.link source target).nodes.map side =
      (graph.nodes.map side).modify place fun set => set.insert added := by
  apply Array.ext_getElem?
  intro id
  rw [Array.getElem?_map, getElem?_nodes_link graph source target distinct, Array.getElem?_modify,
    Array.getElem?_map]
  cases graph.nodes[id]? with
  | none => simp
  | some node =>
      by_cases here : id = place
      · simp [changes, here]
      · simp [changes, here, eq_comm (a := place)]

theorem columns_link {source target : Nat} (distinct : source ≠ target) :
    (graph.link source target).columns =
      { graph.columns with
        efferents := graph.columns.efferents.modify source fun set => set.insert target
        afferents := graph.columns.afferents.modify target fun set => set.insert source } := by
  have records : (graph.link source target).nodes.map Node.record =
      graph.nodes.map Node.record := by
    apply Array.toList_inj.mp
    rw [Array.toList_map, Array.toList_map]
    exact records_link graph source target
  have ids : (graph.link source target).ids = graph.ids := by
    rw [link, if_neg distinct]
  rw [columns, records, ids, decoded_link, graph.map_nodes_link distinct fun _ _ => rfl,
    graph.map_nodes_link distinct fun _ _ => rfl]
  rfl

theorem link_columns {source target : Nat} (sourceBound : source < graph.size)
    (targetBound : target < graph.size) :
    graph.columns.link source target = .ok (graph.link source target).columns := by
  by_cases same : source = target
  · rw [Columns.link, if_pos same, link, if_pos same]
  · have sourceInside : source < graph.columns.efferents.size := by
      rwa [columns, Array.size_map]
    have targetInside : target < graph.columns.afferents.size := by
      rwa [columns, Array.size_map]
    rw [Columns.link, if_neg same, Lookup.change_eq sourceInside, Lookup.change_eq targetInside,
      columns_link graph same]
    rfl

end Containers

theorem Sound.afferents_lt {graph : Graph} (sound : graph.Sound) {id other : Nat}
    (edge : other ∈ graph.afferents id) : other < graph.size :=
  lt_size_of_mem_efferents ((sound.mirrored other id).mp edge)

theorem Sound.inStep {graph : Graph} (sound : graph.Sound) (count : graph.ids.size = graph.size) :
    graph.columns.InStep where
  efferents_size := by simp [columns]
  afferents_size := by simp [columns]
  ids_size := by rw [size_columns, ← count, columns]
  id_iff := by
    intro name id
    have found := sound.find_iff name id
    rw [names, List.getElem?_map, getElem?_records] at found
    rw [columns, Array.getElem?_map]
    exact found
  efferent_lt := by
    intro id other edge
    rw [size_columns]
    exact sound.efferents_lt (graph.holds_efferents_iff.mp edge)
  afferent_lt := by
    intro id other edge
    rw [size_columns]
    exact sound.afferents_lt (graph.holds_afferents_iff.mp edge)
  mirrored := by
    intro source target
    rw [holds_efferents_iff, holds_afferents_iff, sound.mirrored]
  irreflexive := by
    intro id edge
    exact sound.irreflexive id (graph.holds_efferents_iff.mp edge)

/-! ### Steps -/

inductive Step where
  | push (record : ClassRecord)
  | intern (name : String)
  | link (source target : Nat)
  /-- The nodes there are were found, and those to come are not. -/
  | mark

def after (graph : Graph) : Step → Graph
  | .push record => graph.push record
  | .intern name => (graph.intern name).2
  | .link source target => graph.link source target
  | .mark => { graph with decoded := graph.size }

/-- A class is pushed under a new name, and nodes that are there are linked. -/
def Step.Fits (graph : Graph) : Step → Prop
  | .push record => graph.find? record.name = none
  | .intern _ => True
  | .link source target => source < graph.size ∧ target < graph.size
  | .mark => True

end Graph

def Columns.after (columns : Columns) : Graph.Step → Lookup Columns
  | .push record => .ok (columns.push record)
  | .intern name => .ok (columns.intern name).2
  | .link source target => columns.link source target
  | .mark => .ok { columns with decoded := columns.records.size }

def Columns.built (steps : List Graph.Step) : Lookup Columns := steps.foldlM Columns.after {}

namespace Graph

def Fit : Graph → List Step → Prop
  | _, [] => True
  | graph, step :: steps => step.Fits graph ∧ Fit (graph.after step) steps

instance Step.decidableFits (graph : Graph) : (step : Step) → Decidable (step.Fits graph)
  | .push record => inferInstanceAs (Decidable (graph.find? record.name = none))
  | .intern _ => inferInstanceAs (Decidable True)
  | .link source target => inferInstanceAs (Decidable (source < graph.size ∧ target < graph.size))
  | .mark => inferInstanceAs (Decidable True)

instance decidableFit : (graph : Graph) → (steps : List Step) → Decidable (Fit graph steps)
  | _, [] => inferInstanceAs (Decidable True)
  | graph, step :: steps =>
      have := decidableFit (graph.after step) steps
      inferInstanceAs (Decidable (step.Fits graph ∧ Fit (graph.after step) steps))

def built (steps : List Step) : Graph := steps.foldl after {}

def GrowsTo : Graph → Graph → Prop :=
  Relation.ReflTransGen fun graph next => ∃ step : Step, step.Fits graph ∧ next = graph.after step

section Steps

variable {graph : Graph} {step : Step}

theorem after_columns (fits : step.Fits graph) :
    graph.columns.after step = .ok (graph.after step).columns := by
  cases step with
  | push record => rw [after, columns_push, Columns.after]
  | intern name => rw [Columns.after, intern_columns, after]
  | link source target => exact graph.link_columns fits.1 fits.2
  | mark =>
      rw [Columns.after, size_columns]
      rfl

theorem Sound.after (sound : graph.Sound) (fits : step.Fits graph) :
    (graph.after step).Sound := by
  cases step with
  | push record => exact sound.push (sound.not_mem_names_iff.mpr fits)
  | intern name => exact sound.intern name
  | link source target => exact sound.link fits.1 fits.2
  | mark => exact ⟨sound.find_iff, sound.efferents_lt, sound.mirrored, sound.irreflexive⟩

theorem ids_size_push {record : ClassRecord} (fresh : graph.find? record.name = none)
    (count : graph.ids.size = graph.size) :
    (graph.push record).ids.size = (graph.push record).size := by
  have absent : graph.ids.contains record.name = false := by
    rw [Std.TreeMap.contains_eq_isSome_getElem?]
    exact Option.isSome_eq_false_iff.mpr (Option.isNone_iff_eq_none.mpr fresh)
  rw [size_push, push, Std.TreeMap.size_insert, absent, count]
  rfl

theorem ids_size_after (fits : step.Fits graph) (count : graph.ids.size = graph.size) :
    (graph.after step).ids.size = (graph.after step).size := by
  cases step with
  | push record => exact ids_size_push fits count
  | intern name =>
      rw [Graph.after]
      obtain ⟨id, -, same⟩ | ⟨absent, added⟩ := graph.intern_cases name
      · rw [same, count]
      · rw [added]
        exact ids_size_push absent count
  | link source target =>
      rw [Graph.after, size_link, ← count, link]
      split <;> rfl
  | mark => exact count

theorem find?_push_of_fresh {record : ClassRecord} (fresh : graph.find? record.name = none)
    {name : String} {id : Nat} (found : graph.find? name = some id) :
    (graph.push record).find? name = some id := by
  have other : record.name ≠ name := by
    intro same
    rw [same, found] at fresh
    cases fresh
  rw [find?_push, if_neg other, found]

theorem find?_after (fits : step.Fits graph) {name : String} {id : Nat}
    (found : graph.find? name = some id) : (graph.after step).find? name = some id := by
  cases step with
  | push record => exact find?_push_of_fresh fits found
  | intern other =>
      rw [Graph.after]
      obtain ⟨known, -, same⟩ | ⟨absent, added⟩ := graph.intern_cases other
      · rw [same, found]
      · rw [added]
        exact find?_push_of_fresh absent found
  | link source target => rw [Graph.after, find?_link, found]
  | mark => exact found

theorem getElem?_nodes_intern (name : String) {id : Nat} (bound : id < graph.size) :
    (graph.intern name).2.nodes[id]? = graph.nodes[id]? := by
  obtain ⟨known, -, same⟩ | ⟨-, added⟩ := graph.intern_cases name
  · rw [same]
  · rw [added]
    exact (Array.getElem?_push_lt bound).trans (Array.getElem?_eq_getElem bound).symm

theorem records_isPrefix_after (graph : Graph) (step : Step) :
    graph.records <+: (graph.after step).records := by
  cases step with
  | push record =>
      rw [Graph.after, records_push]
      exact List.prefix_append _ _
  | intern name =>
      rw [Graph.after]
      obtain ⟨id, -, same⟩ | ⟨-, added⟩ := graph.intern_cases name
      · exact ⟨[], by rw [List.append_nil, same]⟩
      · rw [added, records_push]
        exact List.prefix_append _ _
  | link source target => exact ⟨[], by rw [List.append_nil, Graph.after, records_link]⟩
  | mark => exact List.prefix_rfl

end Steps

namespace GrowsTo

variable {graph next later : Graph}

theorem single {step : Step} (fits : step.Fits graph) : graph.GrowsTo (graph.after step) :=
  Relation.ReflTransGen.single ⟨step, fits, rfl⟩

theorem keeps (holds : Graph → Prop)
    (each : ∀ {graph : Graph} {step : Step}, step.Fits graph → holds graph →
      holds (graph.after step))
    (grown : graph.GrowsTo later) (start : holds graph) : holds later := by
  induction grown with
  | refl => exact start
  | tail _ stepped ih =>
      obtain ⟨step, fits, rfl⟩ := stepped
      exact each fits ih

theorem sound (grown : graph.GrowsTo later) (start : graph.Sound) : later.Sound :=
  grown.keeps Sound (fun fits sound => sound.after fits) start

theorem ids_size (grown : graph.GrowsTo later) (start : graph.ids.size = graph.size) :
    later.ids.size = later.size :=
  grown.keeps (fun graph => graph.ids.size = graph.size) ids_size_after start

theorem find?_eq (grown : graph.GrowsTo later) {name : String} {id : Nat}
    (found : graph.find? name = some id) : later.find? name = some id :=
  grown.keeps (fun graph => graph.find? name = some id) (fun fits => find?_after fits) found

theorem records_isPrefix (grown : graph.GrowsTo later) : graph.records <+: later.records :=
  grown.keeps (fun later => graph.records <+: later.records)
    (fun _ before => before.trans (records_isPrefix_after _ _)) List.prefix_rfl

theorem getElem?_records (grown : graph.GrowsTo later) {id : Nat} {record : ClassRecord}
    (found : graph.records[id]? = some record) : later.records[id]? = some record := by
  obtain ⟨more, whole⟩ := grown.records_isPrefix
  rw [← whole, List.getElem?_append_left (List.getElem?_eq_some_iff.mp found).1, found]

theorem size_le (grown : graph.GrowsTo later) : graph.size ≤ later.size := by
  rw [← length_records, ← length_records]
  exact grown.records_isPrefix.length_le

theorem inStep (grown : GrowsTo {} graph) : graph.columns.InStep :=
  (grown.sound .empty).inStep (grown.ids_size rfl)

theorem intern_fst_eq {name : String} (grown : (graph.intern name).2.GrowsTo later) :
    (later.intern name).1 = (graph.intern name).1 := by
  have found := grown.find?_eq (graph.find?_intern name)
  obtain ⟨id, known, same⟩ | ⟨absent, -⟩ := later.intern_cases name
  · rw [same]
    rw [known, Option.some.injEq] at found
    exact found
  · rw [absent] at found
    cases found

theorem exists_fit (grown : graph.GrowsTo later) :
    ∃ steps, Fit graph steps ∧ steps.foldl Graph.after graph = later := by
  induction grown using Relation.ReflTransGen.head_induction_on with
  | refl => exact ⟨[], trivial, rfl⟩
  | head stepped _ ih =>
      obtain ⟨step, fits, rfl⟩ := stepped
      obtain ⟨steps, fit, reached⟩ := ih
      exact ⟨step :: steps, ⟨fits, fit⟩, reached⟩

end GrowsTo

/-- What interning a name leaves as it was. -/
structure Interns (graph : Graph) (name : String) : Prop where
  number_eq : (graph.columns.intern name).1 = (graph.intern name).1
  node_eq : ∀ id < graph.size, (graph.intern name).2.nodes[id]? = graph.nodes[id]?
  find?_eq : ∀ known id, graph.find? known = some id →
    (graph.intern name).2.find? known = some id
  again_eq : ∀ later, (graph.intern name).2.GrowsTo later →
    (later.intern name).1 = (graph.intern name).1

theorem interns (graph : Graph) (name : String) : graph.Interns name where
  number_eq := by rw [intern_columns]
  node_eq := fun _ bound => getElem?_nodes_intern name bound
  find?_eq := fun _ _ found => @find?_after graph (.intern name) trivial _ _ found
  again_eq := fun _ grown => grown.intern_fst_eq

end Graph

/-! ### Assembly -/

namespace Columns

def keep (columns : Columns) (record : ClassRecord) : Columns :=
  if columns.ids.contains record.name then columns else columns.push record

def refer (source : Nat) (columns : Columns) (name : String) : Lookup Columns :=
  (columns.intern name).2.link source (columns.intern name).1

def connect (columns : Columns) (source : Nat) : Lookup Columns := do
  let record ← Lookup.element columns.records source
  record.references.toList.foldlM (refer source) columns

def assemble (records : List ClassRecord) : Lookup Columns :=
  let kept := records.foldl keep {}
  (List.range kept.records.size).foldlM connect { kept with decoded := kept.records.size }

end Columns

namespace Graph

/-- A graph is led to the next one by steps, and the containers to those of the next. -/
structure Follows (graph next : Graph) (result : Lookup Columns) : Prop where
  grows : graph.GrowsTo next
  hits : result = .ok next.columns

theorem Follows.foldl {α : Type} {step : Graph → α → Graph} {run : Columns → α → Lookup Columns}
    {start : Graph} {items : List α}
    (each : ∀ graph, start.GrowsTo graph → ∀ item ∈ items,
      Follows graph (step graph item) (run graph.columns item)) :
    Follows start (items.foldl step start) (items.foldlM run start.columns) := by
  induction items generalizing start with
  | nil => exact ⟨.refl, rfl⟩
  | cons item items ih =>
      have first := each start .refl item List.mem_cons_self
      have others : Follows (step start item) (items.foldl step (step start item))
          (items.foldlM run (step start item).columns) := by
        refine ih fun graph grown other listed => ?_
        exact each graph (first.grows.trans grown) other (List.mem_cons_of_mem item listed)
      refine ⟨first.grows.trans others.grows, ?_⟩
      rw [List.foldlM_cons, first.hits]
      exact others.hits

theorem Fit.follows {graph : Graph} {steps : List Step} (fit : Fit graph steps) :
    Follows graph (steps.foldl after graph) (steps.foldlM Columns.after graph.columns) := by
  induction steps generalizing graph with
  | nil => exact ⟨.refl, rfl⟩
  | cons step steps ih =>
      obtain ⟨fits, fit⟩ := fit
      have others := ih fit
      refine ⟨(GrowsTo.single fits).trans others.grows, ?_⟩
      rw [List.foldlM_cons, after_columns fits]
      exact others.hits

section Assembly

variable {graph : Graph}

theorem refer_follows (sound : graph.Sound) {source : Nat} (bound : source < graph.size)
    (name : String) :
    Follows graph (graph.refer source name) (graph.columns.refer source name) := by
  have sourceBound := Nat.lt_of_lt_of_le bound (graph.size_le_intern name)
  have targetBound := (sound.intern name).lt_size (graph.find?_intern name)
  have interned : graph.GrowsTo (graph.intern name).2 :=
    @GrowsTo.single graph (.intern name) trivial
  have linked : (graph.intern name).2.GrowsTo (graph.refer source name) :=
    @GrowsTo.single _ (.link source (graph.intern name).1) ⟨sourceBound, targetBound⟩
  refine ⟨interned.trans linked, ?_⟩
  rw [Columns.refer, intern_columns]
  exact (graph.intern name).2.link_columns sourceBound targetBound

theorem connect_follows (sound : graph.Sound) {record : ClassRecord} {source : Nat}
    (found : graph.records[source]? = some record) :
    Follows graph (graph.connect (record, source)) (graph.columns.connect source) := by
  have bound : source < graph.size := by
    rw [← length_records]
    exact (List.getElem?_eq_some_iff.mp found).1
  have present : graph.columns.records[source]? = some record := by
    rwa [columns, Array.getElem?_map, ← getElem?_records]
  rw [Columns.connect, Lookup.element_eq present]
  refine Follows.foldl fun later grown name _ => ?_
  exact refer_follows (grown.sound sound) (Nat.lt_of_lt_of_le bound grown.size_le) name

theorem keep_follows (graph : Graph) (record : ClassRecord) :
    Follows graph (graph.keep record) (.ok (graph.columns.keep record)) := by
  have present : graph.columns.ids.contains record.name = graph.ids.contains record.name := rfl
  rw [keep, Columns.keep, present]
  split
  case isTrue => exact ⟨.refl, rfl⟩
  case isFalse absent =>
    rw [Std.TreeMap.contains_eq_isSome_getElem?, Option.not_isSome_iff_eq_none] at absent
    refine ⟨@GrowsTo.single graph (.push record) absent, ?_⟩
    rw [columns_push]

theorem foldl_keep_follows (records : List ClassRecord) :
    Follows {} (records.foldl keep {}) (.ok (records.foldl Columns.keep {})) := by
  induction records using List.reverseRecOn with
  | nil => exact ⟨.refl, congrArg Except.ok columns_empty.symm⟩
  | append_singleton records record ih =>
      have last := keep_follows (records.foldl keep {}) record
      rw [List.foldl_append, List.foldl_append]
      refine ⟨ih.grows.trans last.grows, ?_⟩
      rw [Except.ok.inj ih.hits]
      exact last.hits

theorem foldl_connect_follows (sound : graph.Sound) :
    Follows graph (graph.records.zipIdx.foldl connect graph)
      ((List.range graph.size).foldlM Columns.connect graph.columns) := by
  have numbers : List.range graph.size = graph.records.zipIdx.map Prod.snd := by
    rw [List.zipIdx_map_snd, length_records, List.range_eq_range']
  rw [numbers, List.foldlM_map]
  refine Follows.foldl fun later grown entry listed => ?_
  -- A record stays at its number while the graph grows.
  have found := List.mem_zipIdx_iff_getElem?.mp listed
  exact connect_follows (grown.sound sound) (grown.getElem?_records found)

theorem assemble_follows (records : List ClassRecord) :
    Follows {} (assemble records) (Columns.assemble records) := by
  have kept := foldl_keep_follows records
  have marked : (records.foldl keep {}).GrowsTo ((records.foldl keep {}).after .mark) :=
    @GrowsTo.single _ .mark trivial
  have connected := foldl_connect_follows (marked.sound (kept.grows.sound .empty))
  refine ⟨kept.grows.trans (marked.trans connected.grows), ?_⟩
  rw [Columns.assemble, Except.ok.inj kept.hits]
  simp only [size_columns]
  exact connected.hits

end Assembly

end Graph

end ClassCoupling
