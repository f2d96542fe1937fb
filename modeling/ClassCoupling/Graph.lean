import Std.Data.TreeMap
import Std.Data.TreeSet
import ClassCoupling.ClassRecord

/-!
The graph of classes. Nodes are numbered from zero: first the classes that were
found, one for each name, then a placeholder for every other name they refer to.
An edge is written on both of its ends at once, and no node has an edge to itself.
-/
namespace ClassCoupling

structure Node where
  record : ClassRecord
  efferents : Std.TreeSet Nat := ∅
  afferents : Std.TreeSet Nat := ∅

structure Graph where
  nodes : Array Node := #[]
  ids : Std.TreeMap String Nat := ∅
  /-- Nodes below this number were found; the others are placeholders. -/
  decoded : Nat := 0

namespace Graph

def size (graph : Graph) : Nat := graph.nodes.size

def isEmpty (graph : Graph) : Bool := graph.nodes.isEmpty

def find? (graph : Graph) (name : String) : Option Nat := graph.ids[name]?

def record (graph : Graph) (id : Nat) : ClassRecord :=
  match graph.nodes[id]? with
  | some node => node.record
  | none => default

def name (graph : Graph) (id : Nat) : String := (graph.record id).name

def efferents (graph : Graph) (id : Nat) : List Nat :=
  match graph.nodes[id]? with
  | some node => node.efferents.toList
  | none => []

def afferents (graph : Graph) (id : Nat) : List Nat :=
  match graph.nodes[id]? with
  | some node => node.afferents.toList
  | none => []

def dependsOn (graph : Graph) (source target : Nat) : Bool :=
  match graph.nodes[source]? with
  | some node => node.efferents.contains target
  | none => false

def isPlaceholder (graph : Graph) (id : Nat) : Bool := graph.decoded ≤ id

def efferentCoupling (graph : Graph) (id : Nat) : Nat := (graph.efferents id).length

def afferentCoupling (graph : Graph) (id : Nat) : Nat := (graph.afferents id).length

def push (graph : Graph) (record : ClassRecord) : Graph :=
  { graph with
    ids := graph.ids.insert record.name graph.nodes.size
    nodes := graph.nodes.push { record } }

/-- The node of a name, and the graph that has it: a name that is new gets a placeholder. -/
def intern (graph : Graph) (name : String) : Nat × Graph :=
  match graph.find? name with
  | some id => (id, graph)
  | none => (graph.size, graph.push (.placeholder name))

def link (graph : Graph) (source target : Nat) : Graph :=
  if source = target then graph
  else
    { graph with
      nodes := (graph.nodes.modify source fun node =>
          { node with efferents := node.efferents.insert target }).modify target fun node =>
          { node with afferents := node.afferents.insert source } }

def keep (graph : Graph) (record : ClassRecord) : Graph :=
  if graph.ids.contains record.name then graph else graph.push record

def refer (source : Nat) (graph : Graph) (name : String) : Graph :=
  let (target, graph) := graph.intern name
  graph.link source target

def connect (graph : Graph) (entry : ClassRecord × Nat) : Graph :=
  entry.1.references.toList.foldl (refer entry.2) graph

/-- The graph of some classes. Of several with one name the first is kept. -/
def assemble (records : List ClassRecord) : Graph :=
  let kept := records.foldl keep {}
  let found := { kept with decoded := kept.size }
  (kept.nodes.toList.map Node.record).zipIdx.foldl connect found

theorem size_push (graph : Graph) (record : ClassRecord) :
    (graph.push record).size = graph.size + 1 := by
  simp [push, size]

theorem size_link (graph : Graph) (source target : Nat) :
    (graph.link source target).size = graph.size := by
  unfold link
  split <;> simp [size]

end Graph

end ClassCoupling
