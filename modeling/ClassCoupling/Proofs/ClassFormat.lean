import ClassCoupling.ClassFile.Basic
import ClassCoupling.Proofs.PoolFormat

/-!
The format of class files. A file fits when its counts and lengths have room in
their fields, and it is linked when the indices that reading looks up lead to
constants of the right kind. The reader is exact for files that fit and are
linked. The encoding of files that fit says by itself where it ends, linked or
not, so the bytes of a file belong to no other file.
-/
namespace ClassCoupling

open Reader

theorem countFits_and_iff {α : Type} {fits linked : α → Prop} {items : List α} :
    CountFits (fun item => fits item ∧ linked item) items ↔
      CountFits fits items ∧ ∀ item ∈ items, linked item := by
  simp only [CountFits, forall_and, and_assoc]

namespace Attribute

def Fits (item : Attribute) : Prop := item.payload.length < 4294967296

/-- The name index is zero or leads to a text. -/
def Linked (pool : Pool) (item : Attribute) : Prop :=
  item.nameIndex = 0 ∨ pool.NamesText item.nameIndex

theorem nameAt_eq_ok_iff {pool : Pool} {index : UInt16} {name : Option String} :
    nameAt pool index = .ok name ↔
      index = 0 ∧ name = none ∨ index ≠ 0 ∧ ∃ text, pool.TextAt index text ∧ name = some text := by
  unfold nameAt
  by_cases zero : index = 0
  · simp [zero, eq_comm]
  · simp only [zero, ↓reduceIte, false_and, not_false_eq_true, ne_eq, true_and, false_or]
    rw [map_eq_pure_bind, except_bind_eq_ok_iff]
    simp only [Pool.text_eq_ok_iff, pure, Except.pure, Except.ok.injEq, eq_comm (a := name)]

theorem linked_iff_nameAt {pool : Pool} {item : Attribute} :
    item.Linked pool ↔ ∃ name, nameAt pool item.nameIndex = .ok name := by
  simp only [nameAt_eq_ok_iff, Linked, Pool.NamesText]
  by_cases zero : item.nameIndex = 0 <;> simp [zero]

theorem read_exact (pool : Pool) :
    Exact (read pool) encode (fun item => item.Fits ∧ item.Linked pool) where
  accepts := by
    rintro ⟨nameIndex, payload⟩ ⟨fits, linked⟩ offset rest
    obtain ⟨name, found⟩ := linked_iff_nameAt.mp linked
    have length : (UInt32.ofNat payload.length).toNat = payload.length :=
      UInt32.toNat_ofNat_of_lt' fits
    simp only [encode, List.append_assoc]
    rw [read, u16_exact.bind_accepts trivial, lift_bind_accepts found,
      u32_exact.bind_accepts trivial, length, (take_exact payload.length).bind_accepts rfl]
    simp [pure_eq_ok_iff, Nat.add_assoc]
  inverts := by
    intro offset bytes item after read
    obtain ⟨nameIndex, tail, -, rfl, afterIndex⟩ := u16_exact.bind_inverts read
    obtain ⟨name, found, afterName⟩ := lift_bind_inverts afterIndex
    obtain ⟨length, tail, -, rfl, afterLength⟩ := u32_exact.bind_inverts afterName
    obtain ⟨payload, rest, size, rfl, done⟩ := (take_exact length.toNat).bind_inverts afterLength
    obtain ⟨rfl, rfl⟩ := pure_eq_ok_iff.mp done
    have small := length.toNat_lt
    have encoding : encode ⟨nameIndex, payload⟩ =
        u16Bytes nameIndex ++ u32Bytes length ++ payload := by
      rw [encode, size, UInt32.ofNat_toNat]
    refine ⟨⟨?_, linked_iff_nameAt.mpr ⟨name, found⟩⟩, by simp [encoding], ?_⟩
    · rw [Fits, size]
      exact small
    · simp [encoding, Nat.add_assoc]

theorem encode_selfDelimiting : SelfDelimiting encode Fits := by
  rintro ⟨nameIndex, payload⟩ ⟨otherIndex, otherPayload⟩ rest other fits otherFits same
  simp only [encode, List.append_assoc] at same
  obtain ⟨rfl, tails⟩ := u16Bytes_selfDelimiting trivial trivial same
  obtain ⟨count, payloads⟩ := u32_exact.selfDelimiting trivial trivial tails
  have length : payload.length = otherPayload.length := by
    have numbers := congrArg UInt32.toNat count
    rwa [UInt32.toNat_ofNat_of_lt' fits, UInt32.toNat_ofNat_of_lt' otherFits] at numbers
  obtain ⟨rfl, rfl⟩ := List.append_inj payloads length
  exact ⟨rfl, rfl⟩

end Attribute

namespace Member

def Fits (member : Member) : Prop := CountFits Attribute.Fits member.attributes

structure Linked (pool : Pool) (member : Member) : Prop where
  descriptor : pool.NamesText member.descriptorIndex
  attributes : ∀ item ∈ member.attributes, item.Linked pool

theorem read_exact (pool : Pool) :
    Exact (read pool) encode (fun member => member.Fits ∧ member.Linked pool) where
  accepts := by
    rintro ⟨access, nameIndex, descriptorIndex, attributes⟩ ⟨fits, linked⟩ offset rest
    obtain ⟨descriptor, found⟩ := linked.descriptor
    have countFits := countFits_and_iff.mpr ⟨fits, linked.attributes⟩
    simp only [encode, Attribute.encodeAll, List.append_assoc]
    rw [read, u16_exact.bind_accepts trivial, u16_exact.bind_accepts trivial,
      u16_exact.bind_accepts trivial, lift_bind_accepts (Pool.text_eq_ok_iff.mpr found),
      Attribute.readAll, (counted_exact (Attribute.read_exact pool)).bind_accepts countFits]
    simp [pure_eq_ok_iff, Nat.add_assoc]
  inverts := by
    intro offset bytes member after read
    obtain ⟨access, tail, -, rfl, afterAccess⟩ := u16_exact.bind_inverts read
    obtain ⟨nameIndex, tail, -, rfl, afterName⟩ := u16_exact.bind_inverts afterAccess
    obtain ⟨descriptorIndex, tail, -, rfl, afterIndex⟩ := u16_exact.bind_inverts afterName
    obtain ⟨descriptor, found, afterDescriptor⟩ := lift_bind_inverts afterIndex
    obtain ⟨attributes, rest, countFits, rfl, done⟩ :=
      (counted_exact (Attribute.read_exact pool)).bind_inverts afterDescriptor
    obtain ⟨rfl, rfl⟩ := pure_eq_ok_iff.mp done
    obtain ⟨fits, named⟩ := countFits_and_iff.mp countFits
    refine ⟨⟨fits, ⟨descriptor, Pool.text_eq_ok_iff.mp found⟩, named⟩, ?_, ?_⟩
    · simp [encode, Attribute.encodeAll]
    · simp [encode, Attribute.encodeAll, Nat.add_assoc]

theorem encode_selfDelimiting : SelfDelimiting encode Fits := by
  rintro ⟨access, nameIndex, descriptorIndex, attributes⟩
    ⟨otherAccess, otherName, otherDescriptor, otherAttributes⟩ rest other fits otherFits same
  simp only [encode, List.append_assoc] at same
  obtain ⟨rfl, names⟩ := u16Bytes_selfDelimiting trivial trivial same
  obtain ⟨rfl, descriptors⟩ := u16Bytes_selfDelimiting trivial trivial names
  obtain ⟨rfl, counts⟩ := u16Bytes_selfDelimiting trivial trivial descriptors
  obtain ⟨rfl, rfl⟩ := Attribute.encode_selfDelimiting.counted fits otherFits counts
  exact ⟨rfl, rfl⟩

end Member

namespace ClassFile

/-- The pool is that of a list of constants, and every count and length has room in its field. -/
structure Fits (file : ClassFile) : Prop where
  constants : ∃ constants, file.pool = .ofConstants constants
  pool : file.pool.Fits
  interfaces : file.interfaces.length < 65536
  fields : CountFits Member.Fits file.fields
  methods : CountFits Member.Fits file.methods
  attributes : CountFits Attribute.Fits file.attributes

structure Linked (file : ClassFile) : Prop where
  thisClass : file.pool.NamesClass file.thisClass
  superClass : file.superClass = 0 ∨ file.pool.NamesClass file.superClass
  interfaces : ∀ index ∈ file.interfaces, file.pool.NamesClass index
  fields : ∀ member ∈ file.fields, member.Linked file.pool
  methods : ∀ member ∈ file.methods, member.Linked file.pool
  attributes : ∀ item ∈ file.attributes, item.Linked file.pool

theorem readClassIndex_exact (pool : Pool) :
    Exact (readClassIndex pool) u16Bytes pool.NamesClass where
  accepts := by
    rintro index ⟨name, found⟩ offset rest
    rw [readClassIndex, u16_exact.bind_accepts trivial,
      lift_bind_accepts (Pool.className_eq_ok_iff.mpr found)]
    rfl
  inverts := by
    intro offset bytes index after read
    obtain ⟨index, rest, -, rfl, afterIndex⟩ := u16_exact.bind_inverts read
    obtain ⟨name, found, done⟩ := lift_bind_inverts afterIndex
    obtain ⟨rfl, rfl⟩ := pure_eq_ok_iff.mp done
    exact ⟨⟨name, Pool.className_eq_ok_iff.mp found⟩, rfl, rfl⟩

theorem readSuperIndex_exact (pool : Pool) :
    Exact (readSuperIndex pool) u16Bytes (fun index => index = 0 ∨ pool.NamesClass index) where
  accepts := by
    intro index linked offset rest
    rw [readSuperIndex, u16_exact.bind_accepts trivial]
    by_cases zero : index = 0
    · simp [zero, pure_eq_ok_iff]
    · obtain ⟨name, found⟩ := linked.resolve_left zero
      simp only [ne_eq, zero, not_false_eq_true, ↓reduceIte]
      rw [lift_bind_accepts (Pool.className_eq_ok_iff.mpr found)]
      rfl
  inverts := by
    intro offset bytes index after read
    obtain ⟨index, rest, -, rfl, afterIndex⟩ := u16_exact.bind_inverts read
    by_cases zero : index = 0
    · simp only [ne_eq, zero, not_true_eq_false, ↓reduceIte] at afterIndex
      obtain ⟨rfl, rfl⟩ := pure_eq_ok_iff.mp afterIndex
      exact ⟨.inl rfl, by rw [zero], rfl⟩
    · simp only [ne_eq, zero, not_false_eq_true, ↓reduceIte] at afterIndex
      obtain ⟨name, found, done⟩ := lift_bind_inverts afterIndex
      obtain ⟨rfl, rfl⟩ := pure_eq_ok_iff.mp done
      exact ⟨.inr ⟨name, Pool.className_eq_ok_iff.mp found⟩, rfl, rfl⟩

theorem members_exact (pool : Pool) :
    Exact (Member.readAll pool) Member.encodeAll
      (CountFits fun member => member.Fits ∧ member.Linked pool) :=
  counted_exact (Member.read_exact pool)

theorem attributes_exact (pool : Pool) :
    Exact (Attribute.readAll pool) Attribute.encodeAll
      (CountFits fun item => item.Fits ∧ item.Linked pool) :=
  counted_exact (Attribute.read_exact pool)

theorem exists_constants_of_namesClass {pool : Pool} {index : UInt16} (laid : pool.Laid)
    (named : pool.NamesClass index) : ∃ constants, pool = .ofConstants constants := by
  obtain rfl | constants := laid
  · obtain ⟨name, nameIndex, held, -⟩ := named
    simp [Pool.Holds, Pool.empty] at held
  · exact constants

theorem read_exact : Exact read encode (fun file => file.Fits ∧ file.Linked) where
  accepts := by
    rintro file ⟨fits, linked⟩ offset rest
    have interfaces : CountFits file.pool.NamesClass file.interfaces :=
      ⟨fits.interfaces, linked.interfaces⟩
    simp only [encode, List.append_assoc]
    rw [read, u32_exact.bind_accepts trivial]
    simp only [ne_eq, not_true_eq_false, ↓reduceIte]
    rw [u16_exact.bind_accepts trivial, u16_exact.bind_accepts trivial,
      Pool.read_exact.bind_accepts ⟨.inr fits.constants, fits.pool⟩, u16_exact.bind_accepts trivial,
      (readClassIndex_exact file.pool).bind_accepts linked.thisClass,
      (readSuperIndex_exact file.pool).bind_accepts linked.superClass,
      (counted_exact (readClassIndex_exact file.pool)).bind_accepts interfaces,
      (members_exact file.pool).bind_accepts (countFits_and_iff.mpr ⟨fits.fields, linked.fields⟩),
      (members_exact file.pool).bind_accepts (countFits_and_iff.mpr ⟨fits.methods, linked.methods⟩),
      (attributes_exact file.pool).bind_accepts
        (countFits_and_iff.mpr ⟨fits.attributes, linked.attributes⟩)]
    simp [pure_eq_ok_iff, Nat.add_assoc]
  inverts := by
    intro offset bytes file after read
    obtain ⟨found, tail, -, rfl, afterMagic⟩ := u32_exact.bind_inverts read
    by_cases genuine : found = magic
    · simp only [ne_eq, genuine, not_true_eq_false, ↓reduceIte] at afterMagic
      obtain ⟨minor, tail, -, rfl, afterMinor⟩ := u16_exact.bind_inverts afterMagic
      obtain ⟨major, tail, -, rfl, afterMajor⟩ := u16_exact.bind_inverts afterMinor
      obtain ⟨pool, tail, ⟨laid, poolFits⟩, rfl, afterPool⟩ :=
        Pool.read_exact.bind_inverts afterMajor
      obtain ⟨access, tail, -, rfl, afterAccess⟩ := u16_exact.bind_inverts afterPool
      obtain ⟨thisClass, tail, named, rfl, afterThis⟩ :=
        (readClassIndex_exact pool).bind_inverts afterAccess
      obtain ⟨superClass, tail, parent, rfl, afterSuper⟩ :=
        (readSuperIndex_exact pool).bind_inverts afterThis
      obtain ⟨interfaces, tail, interfacesRead, rfl, afterInterfaces⟩ :=
        (counted_exact (readClassIndex_exact pool)).bind_inverts afterSuper
      obtain ⟨fields, tail, fieldsRead, rfl, afterFields⟩ :=
        (members_exact pool).bind_inverts afterInterfaces
      obtain ⟨methods, tail, methodsRead, rfl, afterMethods⟩ :=
        (members_exact pool).bind_inverts afterFields
      obtain ⟨attributes, rest, attributesRead, rfl, done⟩ :=
        (attributes_exact pool).bind_inverts afterMethods
      obtain ⟨rfl, rfl⟩ := pure_eq_ok_iff.mp done
      obtain ⟨fieldsFit, fieldsLinked⟩ := countFits_and_iff.mp fieldsRead
      obtain ⟨methodsFit, methodsLinked⟩ := countFits_and_iff.mp methodsRead
      obtain ⟨attributesFit, attributesLinked⟩ := countFits_and_iff.mp attributesRead
      -- The class has a name in the pool, so the pool is not the one that declares no slots.
      have constants := exists_constants_of_namesClass laid named
      refine ⟨⟨⟨constants, poolFits, interfacesRead.1, fieldsFit, methodsFit, attributesFit⟩,
        ⟨named, parent, interfacesRead.2, fieldsLinked, methodsLinked, attributesLinked⟩⟩, ?_, ?_⟩
      · simp [encode, genuine]
      · simp [encode, Nat.add_assoc]
    · simp only [ne_eq, genuine, not_false_eq_true, ↓reduceIte] at afterMagic
      obtain ⟨_, middle, thrown, -⟩ := bind_eq_ok_iff.mp afterMagic
      exact absurd thrown throw_ne_ok

theorem encode_selfDelimiting : SelfDelimiting encode Fits := by
  rintro ⟨minor, major, pool, access, thisClass, superClass, interfaces, fields, methods,
      attributes⟩
    ⟨minor', major', pool', access', thisClass', superClass', interfaces', fields', methods',
      attributes'⟩ rest other fits otherFits same
  simp only [encode, List.append_assoc] at same
  -- The readers of the lists look names up, so their exactness does not cover unlinked files.
  obtain ⟨-, minors⟩ := u32_exact.selfDelimiting trivial trivial same
  obtain ⟨rfl, majors⟩ := u16Bytes_selfDelimiting trivial trivial minors
  obtain ⟨rfl, pools⟩ := u16Bytes_selfDelimiting trivial trivial majors
  obtain ⟨rfl, accesses⟩ := Pool.read_exact.selfDelimiting ⟨.inr fits.constants, fits.pool⟩
    ⟨.inr otherFits.constants, otherFits.pool⟩ pools
  obtain ⟨rfl, classes⟩ := u16Bytes_selfDelimiting trivial trivial accesses
  obtain ⟨rfl, parents⟩ := u16Bytes_selfDelimiting trivial trivial classes
  obtain ⟨rfl, lists⟩ := u16Bytes_selfDelimiting trivial trivial parents
  obtain ⟨rfl, members⟩ := u16Bytes_selfDelimiting.counted ⟨fits.interfaces, fun _ _ => trivial⟩
    ⟨otherFits.interfaces, fun _ _ => trivial⟩ lists
  obtain ⟨rfl, methods⟩ := Member.encode_selfDelimiting.counted fits.fields otherFits.fields members
  obtain ⟨rfl, attributes⟩ :=
    Member.encode_selfDelimiting.counted fits.methods otherFits.methods methods
  obtain ⟨rfl, rfl⟩ :=
    Attribute.encode_selfDelimiting.counted fits.attributes otherFits.attributes attributes
  exact ⟨rfl, rfl⟩

end ClassFile

end ClassCoupling
