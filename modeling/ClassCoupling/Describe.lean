import ClassCoupling.Analyzer
import ClassCoupling.Text.Quoted

/-!
One-line descriptions of the parts of an analysis, for logs and error reports:
the type, and its fields in braces.
-/
namespace ClassCoupling

def describeFields (type : String) (fields : List (String × String)) : String :=
  type ++ " \x7b " ++ ", ".intercalate (fields.map fun (name, value) => name ++ ": " ++ value) ++
    " \x7d"

def NameFilter.describe (filter : NameFilter) : String :=
  describeFields "Filter" [
    ("include_inner_classes", toString filter.includeInner),
    ("includes", Text.quoteAll filter.includes),
    ("excludes", Text.quoteAll filter.excludes)]

def Decoder.describe {σ : Type} (decoder : Decoder σ) : String :=
  describeFields "ClassDecoder" [
    ("filter", decoder.filter.describe), ("listeners", toString decoder.listeners.length)]

def Analyzer.describe {σ : Type} (analyzer : Analyzer σ) : String :=
  describeFields "Analyzer" [
    ("paths", Text.quoteAll analyzer.paths),
    ("filter", analyzer.filter.describe), ("listeners", toString analyzer.listeners.length)]

def Graph.describe (graph : Graph) (id : Nat) : String :=
  describeFields "NodeRef" [
    ("id", toString id), ("name", Text.quote (graph.name id))]

def Group.describe (group : Group String) : String :=
  describeFields "GroupRef" [
    ("key", Text.quote group.key), ("member_count", toString group.memberCount)]

end ClassCoupling
