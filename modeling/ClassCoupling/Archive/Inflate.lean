import ClassCoupling.Archive.Image

/-!
Compressed members. The data is a sequence of blocks, read bit by bit with the
lowest bit of each byte first. A block holds bytes as they are, or symbols of a
prefix code: a symbol is a byte, the end of the block, or the length of a copy of
earlier output, which a distance follows. A code is given by the lengths of its
words alone: words are numbered by length and then by symbol.
-/
namespace ClassCoupling.Archive.Inflate

structure BitStream where
  bytes : Array UInt8
  position : Nat := 0

abbrev BitReader := StateT BitStream (Except Problem)

def bit : BitReader Nat := fun stream =>
  match stream.bytes[stream.position / 8]? with
  | none => .error .unfinishedData
  | some byte =>
      .ok ((byte.toNat >>> (stream.position % 8)) % 2,
        { stream with position := stream.position + 1 })

def corrupt {α : Type} : BitReader α := throw .corruptData

def bits : Nat → BitReader Nat
  | 0 => return 0
  | count + 1 => do
      let low ← bit
      let high ← bits count
      return low + 2 * high

def align : BitReader Unit :=
  modify fun stream => { stream with position := (stream.position + 7) / 8 * 8 }

/-! ### Prefix codes -/

structure Code where
  counts : List Nat
  symbols : Array Nat

def maxLength : Nat := 15

def Code.ofLengths (lengths : List Nat) : Code :=
  let wordLengths := (List.range maxLength).map (· + 1)
  { counts := wordLengths.map fun length => lengths.count length
    symbols := (wordLengths.flatMap fun length =>
      (lengths.zipIdx.filter fun entry => entry.1 = length).map Prod.snd).toArray }

/-- How many words of the greatest length a code leaves room for: zero when every
sequence of bits begins with a word. Nothing when there are too many words. -/
def Code.room? (code : Code) : Option Nat :=
  code.counts.foldlM
    (fun room count => if count ≤ 2 * room then some (2 * room - count) else none) 1

def Code.isComplete (code : Code) : Bool := code.room? == some 0

/-- A code for bytes or distances may have no word, or a single word of one bit. -/
def Code.isUsable (code : Code) : Bool :=
  code.isComplete || code.symbols.isEmpty ||
    (code.symbols.size == 1 && code.counts.head? == some 1)

/-- Reads bits until they are a word. `word` is the number read so far, `first` the
first word of this length, and `index` the place of its symbol. Bits that no word begins
with are corrupt as soon as no word of a greater length is left. -/
def readWord (symbols : Array Nat) : List Nat → Nat → Nat → Nat → BitReader Nat
  | [], _, _, _ => corrupt
  | count :: counts, word, first, index => do
      let word := word + (← bit)
      if word < first + count then
        match symbols[index + (word - first)]? with
        | some symbol => return symbol
        | none => corrupt
      else if symbols.size ≤ index + count then corrupt
      else readWord symbols counts (2 * word) (2 * (first + count)) (index + count)

def Code.read (code : Code) : BitReader Nat := readWord code.symbols code.counts 0 0 0

/-! ### Symbols -/

structure Codes where
  literals : Code
  distances : Code

def fixedCodes : Codes where
  literals := .ofLengths (List.replicate 144 8 ++ List.replicate 112 9 ++
    List.replicate 24 7 ++ List.replicate 8 8)
  distances := .ofLengths (List.replicate 32 5)

def lengthTable : Array (Nat × Nat) := #[
  (3, 0), (4, 0), (5, 0), (6, 0), (7, 0), (8, 0), (9, 0), (10, 0),
  (11, 1), (13, 1), (15, 1), (17, 1), (19, 2), (23, 2), (27, 2), (31, 2),
  (35, 3), (43, 3), (51, 3), (59, 3), (67, 4), (83, 4), (99, 4), (115, 4),
  (131, 5), (163, 5), (195, 5), (227, 5), (258, 0)]

def distanceTable : Array (Nat × Nat) := #[
  (1, 0), (2, 0), (3, 0), (4, 0), (5, 1), (7, 1), (9, 2), (13, 2), (17, 3), (25, 3),
  (33, 4), (49, 4), (65, 5), (97, 5), (129, 6), (193, 6), (257, 7), (385, 7),
  (513, 8), (769, 8), (1025, 9), (1537, 9), (2049, 10), (3073, 10), (4097, 11), (6145, 11),
  (8193, 12), (12289, 12), (16385, 13), (24577, 13)]

def extended (table : Array (Nat × Nat)) (symbol : Nat) : BitReader Nat := do
  match table[symbol]? with
  | some (least, count) => return least + (← bits count)
  | none => corrupt

/-- Copies output from `distance` back. Before the start there are zeros. -/
def copyBack (distance : Nat) : Nat → Array UInt8 → Array UInt8
  | 0, output => output
  | count + 1, output =>
      let byte := if distance ≤ output.size then output.getD (output.size - distance) 0 else 0
      copyBack distance count (output.push byte)

def endOfBlock : Nat := 256

/-- Reads symbols up to the end of the block. Each takes a bit at least, so as many
steps as there are bits are enough. -/
def symbolsAfter (codes : Codes) : Nat → Array UInt8 → BitReader (Array UInt8)
  | 0, _ => corrupt
  | steps + 1, output => do
      let symbol ← codes.literals.read
      if symbol < endOfBlock then symbolsAfter codes steps (output.push (UInt8.ofNat symbol))
      else if symbol = endOfBlock then return output
      else
        let length ← extended lengthTable (symbol - endOfBlock - 1)
        let distance ← extended distanceTable (← codes.distances.read)
        symbolsAfter codes steps (copyBack distance length output)

/-! ### Blocks -/

def lengthOrder : List Nat :=
  [16, 17, 18, 0, 8, 7, 9, 6, 10, 5, 11, 4, 12, 3, 13, 2, 14, 1, 15]

def triples : Nat → List Nat → BitReader (List Nat)
  | 0, found => return found.reverse
  | count + 1, found => do triples count ((← bits 3) :: found)

/-- Reads lengths until there are `wanted`; `found` has the latest first. A symbol is a
length, or says how often to repeat the latest one or a zero. -/
def lengthsAfter (code : Code) (wanted : Nat) : Nat → List Nat → BitReader (List Nat)
  | 0, _ => corrupt
  | steps + 1, found => do
      if wanted < found.length then corrupt
      else if found.length = wanted then return found.reverse
      else
        let symbol ← code.read
        if symbol < 16 then lengthsAfter code wanted steps (symbol :: found)
        else if symbol = 16 then
          match found with
          | [] => corrupt
          | latest :: _ =>
              let times := 3 + (← bits 2)
              lengthsAfter code wanted steps (List.replicate times latest ++ found)
        else
          let times ← if symbol = 17 then (3 + ·) <$> bits 3 else (11 + ·) <$> bits 7
          lengthsAfter code wanted steps (List.replicate times 0 ++ found)

def readCodes : BitReader Codes := do
  let literalCount := 257 + (← bits 5)
  let distanceCount := 1 + (← bits 5)
  let lengthCount := 4 + (← bits 4)
  if 286 < literalCount || 30 < distanceCount then corrupt
  else
    let given ← triples lengthCount []
    let placed := lengthOrder.zip given
    let code := Code.ofLengths ((List.range 19).map fun symbol => (placed.lookup symbol).getD 0)
    if !code.isComplete then corrupt
    else
      let wanted := literalCount + distanceCount
      let lengths ← lengthsAfter code wanted (wanted + 1) []
      let literals := Code.ofLengths (lengths.take literalCount)
      let distances := Code.ofLengths (lengths.drop literalCount)
      if literals.isUsable && distances.isUsable then return { literals, distances }
      else corrupt

def stored (output : Array UInt8) : BitReader (Array UInt8) := do
  align
  let length ← bits 16
  let complement ← bits 16
  if length + complement ≠ 0xFFFF then corrupt
  else
    let stream ← get
    let start := stream.position / 8
    if start + length ≤ stream.bytes.size then
      set { stream with position := stream.position + 8 * length }
      return output ++ stream.bytes.extract start (start + length)
    else throw .unfinishedData

/-- Reads blocks up to the last one. Each takes three bits at least. -/
def blocksAfter (steps : Nat) : Nat → Array UInt8 → BitReader (Array UInt8)
  | 0, _ => corrupt
  | blocks + 1, output => do
      let last ← bit
      let kind ← bits 2
      let output ←
        match kind with
        | 0 => stored output
        | 1 => symbolsAfter fixedCodes steps output
        | 2 => do symbolsAfter (← readCodes) steps output
        | _ => corrupt
      if last = 1 then return output else blocksAfter steps blocks output

def inflate (compressed : Array UInt8) : Except Problem (Array UInt8) := do
  let steps := 8 * compressed.size + 1
  let (output, _) ← blocksAfter steps steps #[] { bytes := compressed }
  return output

end ClassCoupling.Archive.Inflate
