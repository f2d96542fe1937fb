/-!
The checksum of archive members: the remainder of the bytes, taken bit by bit with
the lowest bit first, under division by a fixed polynomial over two elements. A
table holds what each byte does to the remainder.
-/
namespace ClassCoupling.Archive.Crc32

def polynomial : UInt32 := 0xEDB88320

def shift (remainder : UInt32) : UInt32 :=
  if remainder &&& 1 = 1 then (remainder >>> 1) ^^^ polynomial else remainder >>> 1

def shifts : Nat → UInt32 → UInt32
  | 0, remainder => remainder
  | count + 1, remainder => shifts count (shift remainder)

def table : Array UInt32 := Array.ofFn fun byte : Fin 256 => shifts 8 (UInt32.ofNat byte)

def step (remainder : UInt32) (byte : UInt8) : UInt32 :=
  let index := (remainder ^^^ byte.toUInt32) &&& 0xFF
  table.getD index.toNat 0 ^^^ (remainder >>> 8)

def checksum (bytes : List UInt8) : UInt32 := bytes.foldl step 0xFFFFFFFF ^^^ 0xFFFFFFFF

end ClassCoupling.Archive.Crc32
