import ClassCoupling.Analysis
import ClassCoupling.Coupling
import ClassCoupling.Json.Printer

/-!
Reports of an analysis: the groups with their couplings, the cycles among them, the
classes and the failures; or the cycles of packages alone. Both are written as JSON
or as lines of text.
-/
namespace ClassCoupling

inductive GroupBy where
  | byPackage
  | byClass
deriving DecidableEq, Repr

inductive ReportFormat where
  | json
  | text
deriving DecidableEq, Repr

def GroupBy.label : GroupBy → String
  | .byPackage => "package"
  | .byClass => "class"

def GroupBy.grouping (choice : GroupBy) (graph : Graph) : Grouping String :=
  match choice with
  | .byPackage => graph.packages
  | .byClass => graph.classes

structure Summary where
  inputs : Nat
  classes : Nat
  decoded : Nat
  placeholders : Nat
  failures : Nat
  skipped : Nat
deriving DecidableEq, Repr

structure ClassRow where
  name : String
  package : String
  sourceFile : Option String
  origin : Option String
  placeholder : Bool
  isAbstract : Bool
  isInterface : Bool
  afferentCoupling : Nat
  efferentCoupling : Nat
deriving DecidableEq, Repr

structure GroupRow where
  name : String
  memberCount : Nat
  afferentCoupling : Nat
  efferentCoupling : Nat
  efferents : List String
  afferents : List String
deriving DecidableEq, Repr

structure FailureRow where
  origin : String
  error : String
deriving DecidableEq, Repr

structure Report where
  summary : Summary
  groupBy : GroupBy
  groups : List GroupRow
  cycles : List (List String)
  classes : List ClassRow
  failures : List FailureRow
deriving DecidableEq, Repr

structure CycleReport where
  packages : Nat
  cycles : List (List String)
  failures : List FailureRow
deriving DecidableEq, Repr

/-- A share in JSON has a point for numbers from a hundred-thousandth up to sixteen
digits, and an exponent otherwise. -/
def shareLayout : Number.Decimal.Layout := ⟨16, -5⟩

def shareJson (afferent efferent : Nat) : Json :=
  .number ((Number.Decimal.shortest (instabilityOf afferent efferent)).text shareLayout)

def shareText (afferent efferent : Nat) : String :=
  Number.Decimal.fixed 2 (instabilityOf afferent efferent)

namespace Analysis

def classRow (graph : Graph) (id : Nat) : ClassRow :=
  let record := graph.record id
  { name := record.name
    package := record.package
    sourceFile := record.sourceFile
    origin := record.origin
    placeholder := graph.isPlaceholder id
    isAbstract := record.isAbstract
    isInterface := record.isInterface
    afferentCoupling := graph.afferentCoupling id
    efferentCoupling := graph.efferentCoupling id }

def groupRow (grouping : Grouping String) (group : Group String) : GroupRow :=
  { name := group.key
    memberCount := group.memberCount
    afferentCoupling := group.afferents.size
    efferentCoupling := group.efferents.size
    efferents := grouping.keysOf group.efferents.toList
    afferents := grouping.keysOf group.afferents.toList }

def failureRows (analysis : Analysis) : List FailureRow :=
  analysis.failures.map fun failure => ⟨failure.origin, failure.fault.message⟩

def summary (analysis : Analysis) : Summary :=
  let graph := analysis.graph
  { inputs := analysis.inputs
    classes := graph.size
    decoded := graph.decoded
    placeholders := graph.size - graph.decoded
    failures := analysis.failures.length
    skipped := analysis.skipped }

def report (analysis : Analysis) (choice : GroupBy) : Report :=
  let graph := analysis.graph
  let grouping := choice.grouping graph
  { summary := analysis.summary
    groupBy := choice
    groups := grouping.groups.toList.map (groupRow grouping)
    cycles := grouping.cycles
    classes := (List.range graph.size).map (classRow graph)
    failures := analysis.failureRows }

def cycleReport (analysis : Analysis) : CycleReport :=
  let packages := analysis.graph.packages
  { packages := packages.size
    cycles := packages.cycles
    failures := analysis.failureRows }

end Analysis

/-! ### JSON -/

def Summary.toJson (summary : Summary) : Json :=
  .object [
    ("inputs", .ofNat summary.inputs),
    ("classes", .ofNat summary.classes),
    ("decoded", .ofNat summary.decoded),
    ("placeholders", .ofNat summary.placeholders),
    ("failures", .ofNat summary.failures),
    ("skipped_entries", .ofNat summary.skipped)]

def ClassRow.toJson (row : ClassRow) : Json :=
  .object [
    ("name", .string row.name),
    ("package", .string row.package),
    ("source_file", .ofOption row.sourceFile),
    ("origin", .ofOption row.origin),
    ("placeholder", .bool row.placeholder),
    ("is_abstract", .bool row.isAbstract),
    ("is_interface", .bool row.isInterface),
    ("afferent_coupling", .ofNat row.afferentCoupling),
    ("efferent_coupling", .ofNat row.efferentCoupling),
    ("instability", shareJson row.afferentCoupling row.efferentCoupling)]

def GroupRow.toJson (row : GroupRow) : Json :=
  .object [
    ("name", .string row.name),
    ("member_count", .ofNat row.memberCount),
    ("afferent_coupling", .ofNat row.afferentCoupling),
    ("efferent_coupling", .ofNat row.efferentCoupling),
    ("instability", shareJson row.afferentCoupling row.efferentCoupling),
    ("efferents", .strings row.efferents),
    ("afferents", .strings row.afferents)]

def FailureRow.toJson (row : FailureRow) : Json :=
  .object [("origin", .string row.origin), ("error", .string row.error)]

def cyclesJson (cycles : List (List String)) : Json := .array (cycles.map .strings)

def Report.toJson (report : Report) : Json :=
  .object [
    ("summary", report.summary.toJson),
    ("group_by", .string report.groupBy.label),
    ("groups", .array (report.groups.map GroupRow.toJson)),
    ("cycles", cyclesJson report.cycles),
    ("classes", .array (report.classes.map ClassRow.toJson)),
    ("failures", .array (report.failures.map FailureRow.toJson))]

def CycleReport.toJson (report : CycleReport) : Json :=
  .object [
    ("packages", .ofNat report.packages),
    ("cycles", cyclesJson report.cycles),
    ("failures", .array (report.failures.map FailureRow.toJson))]

/-! ### Text -/

def GroupRow.line (row : GroupRow) : String :=
  let targets := if row.efferents.isEmpty then "" else " -> " ++ ", ".intercalate row.efferents
  "- " ++ row.name ++ " members=" ++ toString row.memberCount ++
    " ca=" ++ toString row.afferentCoupling ++ " ce=" ++ toString row.efferentCoupling ++
    " instability=" ++ shareText row.afferentCoupling row.efferentCoupling ++ targets

def cycleLines (cycles : List (List String)) : List String :=
  if cycles.isEmpty then ["cycles: none"]
  else "cycles:" :: cycles.map fun cycle => "- " ++ " <-> ".intercalate cycle

def FailureRow.line (row : FailureRow) : String := "! " ++ row.origin ++ ": " ++ row.error

def lines (items : List String) : String :=
  items.foldl (fun text line => text ++ line ++ "\n") ""

def Report.toText (report : Report) : String :=
  let summary := report.summary
  lines ([
    "inputs: " ++ toString summary.inputs,
    "classes: " ++ toString summary.classes ++ " (decoded: " ++ toString summary.decoded ++
      ", placeholders: " ++ toString summary.placeholders ++ ")",
    "failures: " ++ toString summary.failures,
    "groups by " ++ report.groupBy.label ++ ":"] ++
    report.groups.map GroupRow.line ++ cycleLines report.cycles ++
    report.failures.map FailureRow.line)

def CycleReport.toText (report : CycleReport) : String :=
  lines (("packages: " ++ toString report.packages) :: cycleLines report.cycles ++
    report.failures.map FailureRow.line)

def Report.render (report : Report) : ReportFormat → String
  | .json => report.toJson.pretty
  | .text => report.toText

def CycleReport.render (report : CycleReport) : ReportFormat → String
  | .json => report.toJson.pretty
  | .text => report.toText

end ClassCoupling
