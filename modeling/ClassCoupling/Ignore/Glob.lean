/-!
Patterns for paths. A star stands for any bytes but a slash, two stars that fill a
place between slashes stand for any number of directories, and braces hold
alternatives. A pattern is matched against the bytes of a whole path: the places
up to which the first pieces of the pattern can reach are followed piece by piece.
-/
namespace ClassCoupling.Ignore

inductive Piece where
  | literal (char : Char)
  | any
  | many
  /-- Directories in front of the path, or none. -/
  | leading
  /-- Everything in a directory. -/
  | trailing
  /-- Directories between two others, or none. -/
  | between
  | oneOf (negated : Bool) (ranges : List (UInt8 × UInt8))
  | choice (branches : List (List Piece))

namespace Piece

def slash : UInt8 := '/'.toUInt8

def bytesOf (char : Char) : List UInt8 := (String.singleton char).toUTF8.data.toList

def afterBytes (path : Array UInt8) : List UInt8 → Nat → List Nat
  | [], place => [place]
  | byte :: bytes, place =>
      if path[place]? = some byte then afterBytes path bytes (place + 1) else []

def onward (path : Array UInt8) (place : Nat) : List Nat :=
  (List.range (path.size + 1)).filter (place ≤ ·)

def behindSlashes (path : Array UInt8) (place : Nat) : List Nat :=
  ((onward path place).filter fun other => path[other]? = some slash).map (· + 1)

def upToSlash (path : Array UInt8) (place : Nat) : List Nat :=
  let others := (onward path place).takeWhile fun other =>
    other < path.size && path[other]? ≠ some slash
  others ++ [place + others.length]

def inRanges (ranges : List (UInt8 × UInt8)) (byte : UInt8) : Bool :=
  ranges.any fun range => range.1 ≤ byte && byte ≤ range.2

mutual

def isVoid : Piece → Bool
  | choice branches => areVoid branches
  | _ => false

def isVoidSequence : List Piece → Bool
  | [] => true
  | piece :: pieces => isVoid piece && isVoidSequence pieces

def areVoid : List (List Piece) → Bool
  | [] => true
  | branch :: branches => isVoidSequence branch && areVoid branches

end

mutual

def reach (path : Array UInt8) (place : Nat) : Piece → List Nat
  | literal char => afterBytes path (bytesOf char) place
  | any =>
      match path[place]? with
      | some byte => if byte = slash then [] else [place + 1]
      | none => []
  | many => upToSlash path place
  | leading => place :: behindSlashes path place
  | trailing => if path[place]? = some slash then onward path (place + 1) else []
  | between =>
      if path[place]? = some slash then (place + 1) :: behindSlashes path (place + 1) else []
  | oneOf negated ranges =>
      match path[place]? with
      | some byte => if inRanges ranges byte = negated then [] else [place + 1]
      | none => []
  | choice branches => if areVoid branches then [place] else reachAny path place branches

def reachAll (path : Array UInt8) (places : List Nat) : List Piece → List Nat
  | [] => places
  | piece :: pieces =>
      reachAll path (places.flatMap fun place => reach path place piece).eraseDups pieces

def reachAny (path : Array UInt8) (place : Nat) : List (List Piece) → List Nat
  | [] => []
  | branch :: branches =>
      (if isVoidSequence branch then [] else reachAll path [place] branch) ++
        reachAny path place branches

end

end Piece

abbrev Glob := List Piece

/-- Whether a pattern describes a whole path. Leading directories alone describe every
path. -/
def Glob.matches (glob : Glob) (path : Array UInt8) : Bool :=
  match glob with
  | [.leading] => true
  | _ => (Piece.reachAll path [0] glob).contains path.size

/-! ### Reading patterns -/

structure ClassDraft where
  ranges : List (Char × Char) := []
  open' : Bool := false

def ClassDraft.finish (draft : ClassDraft) (char : Char) : Option ClassDraft :=
  match draft.ranges with
  | (low, _) :: ranges =>
      if char < low then none else some { ranges := (low, char) :: ranges }
  | [] => none

inductive ClassResult where
  | closed (ranges : List (Char × Char)) (rest : List Char)
  | unclosed
  | refused

def readClass (draft : ClassDraft) (first : Bool) : List Char → ClassResult
  | [] => .unclosed
  | char :: text =>
      if char = ']' && !first then
        let ranges := if draft.open' then ('-', '-') :: draft.ranges else draft.ranges
        .closed ranges.reverse text
      else if char = '-' && !first && !draft.open' then
        readClass { draft with open' := true } false text
      else if draft.open' then
        match draft.finish char with
        | some draft => readClass draft false text
        | none => .refused
      else readClass { draft with ranges := (char, char) :: draft.ranges } false text

/-- The bytes of a range of characters. Characters of several bytes count by their bytes,
and the range runs between the two in the middle. -/
def byteRanges (range : Char × Char) : List (UInt8 × UInt8) :=
  let single := fun byte : UInt8 => (byte, byte)
  if range.1 = range.2 then (Piece.bytesOf range.1).map single
  else
    let low := Piece.bytesOf range.1
    let high := Piece.bytesOf range.2
    low.dropLast.map single ++ [(low.getLast?.getD 0, high.head?.getD 0)] ++
      (high.drop 1).map single

structure OpenChoice where
  outer : List Piece
  branches : List (List Piece)

structure Draft where
  pieces : List Piece := []
  choices : List OpenChoice := []
  plainBrackets : Bool := false

namespace Draft

def push (draft : Draft) (piece : Piece) : Draft :=
  { draft with pieces := piece :: draft.pieces }

def openChoice (draft : Draft) : Draft :=
  { draft with pieces := [], choices := ⟨draft.pieces, []⟩ :: draft.choices }

def nextBranch (draft : Draft) : Draft :=
  match draft.choices with
  | [] => draft.push (.literal ',')
  | choice :: choices =>
      { draft with
        pieces := []
        choices := { choice with branches := draft.pieces.reverse :: choice.branches } :: choices }

def closeChoice (draft : Draft) : Option Draft :=
  match draft.choices with
  | [] => none
  | choice :: choices =>
      let branches := (draft.pieces.reverse :: choice.branches).reverse
      some { draft with pieces := .choice branches :: choice.outer, choices }

/-- Two stars behind other pieces: the slash in front of them becomes part of what they
stand for. -/
def directories (draft : Draft) (atEnd : Bool) : Draft :=
  match draft.pieces with
  | .leading :: pieces => { draft with pieces := .leading :: pieces }
  | .trailing :: pieces => { draft with pieces := .trailing :: pieces }
  | _ :: pieces => { draft with pieces := (if atEnd then .trailing else .between) :: pieces }
  | [] => draft

def plainStars (draft : Draft) : Draft := (draft.push .many).push .many

def stars (draft : Draft) (before : Option Char) (text : List Char) : Draft × List Char :=
  if draft.pieces.isEmpty then
    match text with
    | [] => (draft.push .leading, [])
    | '/' :: rest => (draft.push .leading, rest)
    | _ => (draft.plainStars, text)
  else
    let inChoice := !draft.choices.isEmpty
    let atStart := before = some '/' || (inChoice && (before = some ',' || before = some '\x7b'))
    if !atStart then (draft.plainStars, text)
    else
      match text with
      | [] => (draft.directories true, [])
      | '/' :: rest => (draft.directories false, rest)
      | next :: _ =>
          if inChoice && (next = ',' || next = '\x7d') then (draft.directories true, text)
          else (draft.plainStars, text)

end Draft

/-- Reads a pattern, with the character in front of the text. Each step takes a character,
so the length of the text is enough steps. -/
def readPieces : Nat → Option Char → Draft → List Char → Option Draft
  | 0, _, draft, text => if text.isEmpty then some draft else none
  | _, _, draft, [] => some draft
  | steps + 1, before, draft, char :: text =>
      if char = '?' then readPieces steps (some char) (draft.push .any) text
      else if char = '*' then
        match text with
        | '*' :: text =>
            let (draft, rest) := draft.stars before text
            let last := if rest.length < text.length then '/' else '*'
            readPieces steps (some last) draft rest
        | text => readPieces steps (some char) (draft.push .many) text
      else if char = '[' && !draft.plainBrackets then
        let (negated, content) := match text with
          | '!' :: content => (true, content)
          | '^' :: content => (true, content)
          | content => (false, content)
        match readClass {} true content with
        | .closed ranges rest =>
            readPieces steps (some ']') (draft.push (.oneOf negated (ranges.flatMap byteRanges))) rest
        | .unclosed =>
            readPieces steps (some char) { draft.push (.literal char) with plainBrackets := true } text
        | .refused => none
      else if char = '\x7b' then readPieces steps (some char) draft.openChoice text
      else if char = '\x7d' then
        match draft.closeChoice with
        | some draft => readPieces steps (some char) draft text
        | none => none
      else if char = ',' then readPieces steps (some char) draft.nextBranch text
      else if char = '\\' then
        match text with
        | [] => none
        | escaped :: text => readPieces steps (some escaped) (draft.push (.literal escaped)) text
      else readPieces steps (some char) (draft.push (.literal char)) text

def Glob.parse? (text : List Char) : Option Glob := do
  let draft ← readPieces text.length none {} text
  if draft.choices.isEmpty then return draft.pieces.reverse else none

end ClassCoupling.Ignore
