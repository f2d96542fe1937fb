import ClassCoupling.Analysis
import ClassCoupling.Inputs
import ClassCoupling.Archive.Contents
import ClassCoupling.ClassFile.Decoder

/-!
Analyses over files. Every input holds class files, one or many, and each of them
contributes a class or a failure, whatever the others do. The classes that the
filter accepts by their names make the graph. Listeners see every class that was
decoded and have no part in the analysis.
-/
namespace ClassCoupling

structure Analyzer (σ : Type) where
  paths : List String := []
  filter : NameFilter := {}
  listeners : List (Listener σ) := []

/-- The bytes of one class file, with the label of its failure and the origin of its
class. -/
structure ClassUnit where
  label : String
  origin : Option String
  bytes : List UInt8
deriving DecidableEq, Repr

structure Opened where
  units : List ClassUnit := []
  failures : List Failure := []
  /-- How many archive members hold no class. -/
  skipped : Nat := 0
deriving DecidableEq, Repr

structure Contribution where
  records : List ClassRecord := []
  failures : List Failure := []
  skipped : Nat := 0
deriving DecidableEq

namespace Contribution

def concat (contributions : List Contribution) : Contribution :=
  { records := contributions.flatMap records
    failures := contributions.flatMap failures
    skipped := contributions.foldr (fun contribution total => contribution.skipped + total) 0 }

theorem concat_skipped_cons (contribution : Contribution) (rest : List Contribution) :
    (concat (contribution :: rest)).skipped = contribution.skipped + (concat rest).skipped := rfl

theorem concat_append (first second : List Contribution) :
    concat (first ++ second) =
      { records := (concat first).records ++ (concat second).records
        failures := (concat first).failures ++ (concat second).failures
        skipped := (concat first).skipped + (concat second).skipped } := by
  have total : (concat (first ++ second)).skipped =
      (concat first).skipped + (concat second).skipped := by
    induction first with
    | nil => simp [concat]
    | cons contribution rest ih =>
        rw [List.cons_append, concat_skipped_cons, concat_skipped_cons, ih]
        omega
  simp [concat] at total ⊢
  exact total

def ofUnit (filter : NameFilter) (unit : ClassUnit) : Contribution :=
  match ClassFile.decode filter unit.origin unit.bytes with
  | .ok record => { records := [record] }
  | .error fault => { failures := [⟨unit.label, fault⟩] }

def ofOpened (filter : NameFilter) (opened : Opened) : Contribution :=
  let units := concat (opened.units.map (ofUnit filter))
  { units with failures := opened.failures ++ units.failures, skipped := opened.skipped }

end Contribution

namespace Volume

def archiveContents (volume : Volume) (filter : NameFilter) (path : String) :
    Except Fault Archive.Contents :=
  match volume.read .noDevice path with
  | .ok bytes => Archive.Contents.read filter bytes
  | .error fault => .error (.unreadable fault.message)

/-- What an input holds. A member of an archive is labelled with the path of the archive and
its own name, and its class has the name of the archive as its origin. -/
def openInput (volume : Volume) (filter : NameFilter) (input : Input) : Opened :=
  match input.kind with
  | .classFile =>
      match volume.read .isADirectory input.path with
      | .ok bytes => { units := [{ label := input.path, origin := none, bytes }] }
      | .error fault => { failures := [⟨input.path, .unreadable fault.message⟩] }
  | .archive =>
      match volume.archiveContents filter input.path with
      | .ok contents =>
          { units := contents.entries.map fun entry =>
              { label := input.path ++ "!" ++ entry.name
                origin := input.archiveName
                bytes := entry.bytes }
            skipped := contents.skipped.length }
      | .error fault => { failures := [⟨input.path, fault⟩] }

end Volume

namespace Analyzer

variable {σ : Type}

def openAll (analyzer : Analyzer σ) (volume : Volume) (inputs : List Input) : List Opened :=
  inputs.map (volume.openInput analyzer.filter)

def contribution (analyzer : Analyzer σ) (opened : List Opened) : Contribution :=
  .concat (opened.map (Contribution.ofOpened analyzer.filter))

def conclude (analyzer : Analyzer σ) (inputs : Nat) (all : Contribution) : Analysis :=
  { graph := .assemble (all.records.filter fun record => analyzer.filter.accepts record.name)
    failures := all.failures
    inputs
    skipped := all.skipped }

def analyzeOpened (analyzer : Analyzer σ) (opened : List Opened) : Analysis :=
  analyzer.conclude opened.length (analyzer.contribution opened)

theorem analyzeOpened_eq (analyzer : Analyzer σ) (opened : List Opened) :
    analyzer.analyzeOpened opened =
      { graph := .assemble ((analyzer.contribution opened).records.filter
          fun record => analyzer.filter.accepts record.name)
        failures := (analyzer.contribution opened).failures
        inputs := opened.length
        skipped := (analyzer.contribution opened).skipped } := rfl

def analyzeInputs (analyzer : Analyzer σ) (volume : Volume) (inputs : List Input) : Analysis :=
  analyzer.analyzeOpened (analyzer.openAll volume inputs)

def inputs (analyzer : Analyzer σ) (volume : Volume) : List Input :=
  collectInputs volume analyzer.filter analyzer.paths

def analyze (analyzer : Analyzer σ) (volume : Volume) : Analysis :=
  analyzer.analyzeInputs volume (analyzer.inputs volume)

end Analyzer

end ClassCoupling
