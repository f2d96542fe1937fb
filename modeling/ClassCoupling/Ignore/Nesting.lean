import ClassCoupling.Ignore.Glob

/-!
How deep a pattern is nested. Whatever holds other parts of a pattern is a level
around them: a sequence of two parts or more, braces, the alternatives in braces when
there are two or more, a repetition, and a class of bytes. The whole pattern with
its two ends is a sequence. Patterns can be nested up to a limit.
-/
namespace ClassCoupling.Ignore

namespace Piece

mutual

/-- The depths of the parts that a piece brings into the sequence around it. A character
is as many parts as it has bytes, and a piece with nothing to match is none. -/
def parts : Piece → List Nat
  | literal char => (bytesOf char).map fun _ => 0
  | any => [1]
  | many => [2]
  | leading => [4]
  | trailing => [0, 1]
  | between => [4]
  | oneOf _ ranges => [if ranges.length ≤ 1 then 1 else 2]
  | choice branches =>
      match branchDepths branches with
      | [] => []
      | [depth] => [depth + 1]
      | depths => [depths.foldr max 0 + 2]

def sequenceParts : List Piece → List Nat
  | [] => []
  | piece :: pieces => parts piece ++ sequenceParts pieces

def branchDepths : List (List Piece) → List Nat
  | [] => []
  | branch :: branches =>
      match sequenceParts branch with
      | [] => branchDepths branches
      | [depth] => depth :: branchDepths branches
      | depths => (depths.foldr max 0 + 1) :: branchDepths branches

end

end Piece

namespace Glob

def depth (glob : Glob) : Nat := (Piece.sequenceParts glob).foldr max 0 + 1

def maxDepth : Nat := 250

def isTooDeep (glob : Glob) : Bool := maxDepth < glob.depth

end Glob

end ClassCoupling.Ignore
