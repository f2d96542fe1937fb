import ClassCoupling.Fault
import ClassCoupling.Grouping

/-! What one run over some inputs found. -/
namespace ClassCoupling

structure Analysis where
  graph : Graph := {}
  failures : List Failure := []
  inputs : Nat := 0
  /-- How many archive members hold no class. -/
  skipped : Nat := 0

def Analysis.ofRecords (records : List ClassRecord) : Analysis :=
  { graph := .assemble records }

end ClassCoupling
