import ClassCoupling.Analyzer
import Mathlib.Data.List.Nodup

/-!
What listeners hear. A listener that keeps a log of its calls does all that it did
without one, so a run with logs is the run without them and a list of calls beside it.
The log of one decode has every listener once, in order, or nothing; the log of a batch
has this for every class file that could be decoded, whatever the filter says of its name
afterwards, and the results are those of a run that nobody listens to. The analysis of a batch
is the one that these results make.
-/
namespace ClassCoupling

variable {σ : Type}

structure Call where
  position : Nat
  record : ClassRecord
deriving DecidableEq

def onFirst {ε τ α : Type} (action : EStateM ε σ α) : EStateM ε (σ × τ) α := fun state =>
  match action state.1 with
  | .ok value rest => .ok value (rest, state.2)
  | .error problem rest => .error problem (rest, state.2)

/-- The listener, with its calls written down before it acts on them. -/
def Listener.noted (position : Nat) (listener : Listener σ) : Listener (σ × List Call) :=
  fun record state => onFirst (listener record) (state.1, state.2 ++ [⟨position, record⟩])

def noting (listeners : List (Listener σ)) : List (Listener (σ × List Call)) :=
  listeners.zipIdx.map fun entry => entry.1.noted entry.2

def decoded (filter : NameFilter) (units : List ClassUnit) : List ClassRecord :=
  units.filterMap fun unit => (ClassFile.decode filter unit.origin unit.bytes).toOption

section Log

variable {position count : Nat} {record : ClassRecord}

end Log

namespace Decoder

def noting (decoder : Decoder σ) : Decoder (σ × List Call) :=
  { filter := decoder.filter, listeners := ClassCoupling.noting decoder.listeners }

section Results

variable {bytes : List UInt8} {origin : Option String}

end Results

example (record : ClassRecord) :
    notify [fun _ => modify (· ++ [0]), fun _ => do modify (· ++ [1]); throw "deaf",
      fun _ => modify (· ++ [2])] record [] = [0, 1, 2] := rfl

end Decoder

namespace Analyzer

def decoder (analyzer : Analyzer σ) : Decoder σ :=
  { filter := analyzer.filter, listeners := analyzer.listeners }

def noting (analyzer : Analyzer σ) : Analyzer (σ × List Call) :=
  { paths := analyzer.paths, filter := analyzer.filter,
    listeners := ClassCoupling.noting analyzer.listeners }

end Analyzer

namespace Contribution

end Contribution

namespace Analyzer

end Analyzer

end ClassCoupling
