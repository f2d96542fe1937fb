/-!
Type descriptors and the class names in them. A class type is `L`, a name and
`;`; an array type puts `[` in front of its element; all other types are one
letter. `classNames` cuts a descriptor at each `;` and keeps what follows the
first `L` of each piece, which needs no parsing of the rest.
-/
namespace ClassCoupling.Descriptor

def afterFirstL (piece : List Char) : Option (List Char) :=
  match piece.dropWhile (· ≠ 'L') with
  | [] => none
  | _ :: name => some name

def classNames (descriptor : String) : List String :=
  ((descriptor.toList.splitOn ';').filterMap afterFirstL).map String.ofList

/-- The class named by a descriptor, arrays standing for their element class.
The closing `;` stays; a type of one letter names none. -/
def elementClass? (descriptor : String) : Option String :=
  match descriptor.toList.dropWhile (· = '[') with
  | 'L' :: name => if name.isEmpty then none else some (String.ofList name)
  | _ => none

end ClassCoupling.Descriptor
