import ClassCoupling.ClassFile.Decoder
import ClassCoupling.Proofs.ClassFormat
import Mathlib.Data.Nat.Bitwise

/-!
What decoding makes of a class file. A file resolves when every index that
decoding follows leads to a constant of the right kind. The names a file mentions
are said by where they stand in the file, and the record of the file lists those
names in normal form, without the class itself and those that the filter refuses.
Decoding accepts exactly the encodings of files that fit and resolve, whatever
follows them, and its result is their record.
-/
namespace ClassCoupling

open Reader

/-- An attempt to list things: when it succeeds, and what is on the list then. -/
structure Collects {α : Type} (attempt : Except Fault (List α)) (ready : Prop)
    (listed : α → Prop) : Prop where
  succeeds : ready → ∃ found, attempt = .ok found
  ready_of_ok : ∀ {found}, attempt = .ok found → ready
  mem_iff : ∀ {found}, attempt = .ok found → ∀ value, value ∈ found ↔ listed value

namespace Collects

variable {α β : Type}

theorem mapM {fetch : α → Except Fault β} {finds : α → β → Prop}
    (fetch_iff : ∀ {item value}, fetch item = .ok value ↔ finds item value) (items : List α) :
    Collects (items.mapM fetch) (∀ item ∈ items, ∃ value, finds item value)
      (fun value => ∃ item ∈ items, finds item value) where
  succeeds := by
    intro ready
    induction items with
    | nil => exact ⟨[], rfl⟩
    | cons item items ih =>
        simp only [List.forall_mem_cons] at ready
        obtain ⟨value, first⟩ := ready.1
        obtain ⟨values, others⟩ := ih ready.2
        refine ⟨value :: values, ?_⟩
        rw [List.mapM_cons, fetch_iff.mpr first, others]
        rfl
  ready_of_ok := by
    intro found success
    induction items generalizing found with
    | nil => simp
    | cons item items ih =>
        rw [List.mapM_cons] at success
        obtain ⟨value, first, following⟩ := except_bind_eq_ok_iff.mp success
        obtain ⟨values, others, -⟩ := except_bind_eq_ok_iff.mp following
        simpa using ⟨⟨value, fetch_iff.mp first⟩, ih others⟩
  mem_iff := by
    intro found success
    induction items generalizing found with
    | nil =>
        obtain rfl : [] = found := Except.ok.inj success
        simp
    | cons item items ih =>
        rw [List.mapM_cons] at success
        obtain ⟨first, fetched, following⟩ := except_bind_eq_ok_iff.mp success
        obtain ⟨values, others, done⟩ := except_bind_eq_ok_iff.mp following
        obtain rfl : first :: values = found := Except.ok.inj done
        intro value
        have head : value = first ↔ finds item value := by
          rw [← fetch_iff, fetched]
          simp [eq_comm]
        simp [ih others, head]

variable {attempt : Except Fault (List α)} {ready : Prop} {listed : α → Prop}

theorem expand (collects : Collects attempt ready listed) {after : List α → List β}
    {yields : α → β → Prop}
    (mem_after : ∀ found value, value ∈ after found ↔ ∃ item ∈ found, yields item value) :
    Collects (do return after (← attempt)) ready
      (fun value => ∃ item, listed item ∧ yields item value) where
  succeeds := by
    intro holds
    obtain ⟨found, success⟩ := collects.succeeds holds
    exact ⟨after found, by rw [success]; rfl⟩
  ready_of_ok := by
    intro result success
    obtain ⟨found, fetched, -⟩ := except_bind_eq_ok_iff.mp success
    exact collects.ready_of_ok fetched
  mem_iff := by
    intro result success value
    obtain ⟨found, fetched, done⟩ := except_bind_eq_ok_iff.mp success
    obtain rfl : after found = result := Except.ok.inj done
    simp only [mem_after found, collects.mem_iff fetched]

theorem filterMap (collects : Collects attempt ready listed) (choose : α → Option β) :
    Collects (do return (← attempt).filterMap choose) ready
      (fun value => ∃ item, listed item ∧ choose item = some value) :=
  collects.expand (fun _ _ => List.mem_filterMap)

theorem flatten {attempt : Except Fault (List (List α))} {ready : Prop} {listed : List α → Prop}
    (collects : Collects attempt ready listed) :
    Collects (do return (← attempt).flatten) ready
      (fun value => ∃ values, listed values ∧ value ∈ values) :=
  collects.expand (fun _ _ => List.mem_flatten)

theorem restate (collects : Collects attempt ready listed) {ready' : Prop} {listed' : α → Prop}
    (ready_iff : ready ↔ ready') (listed_iff : ready → ∀ value, listed value ↔ listed' value) :
    Collects attempt ready' listed' where
  succeeds := fun holds => collects.succeeds (ready_iff.mpr holds)
  ready_of_ok := fun success => ready_iff.mp (collects.ready_of_ok success)
  mem_iff := fun success value => (collects.mem_iff success value).trans
    (listed_iff (collects.ready_of_ok success) value)

end Collects

namespace Attribute

def HasName (pool : Pool) (name : String) (item : Attribute) : Prop :=
  item.nameIndex ≠ 0 ∧ pool.TextAt item.nameIndex name

def FirstNamed (pool : Pool) (name : String) (items : List Attribute) (item : Attribute) : Prop :=
  ∃ before after, items = before ++ item :: after ∧ item.HasName pool name ∧
    ∀ other ∈ before, ¬ other.HasName pool name

def LastNamed (pool : Pool) (name : String) (items : List Attribute) (item : Attribute) : Prop :=
  ∃ before after, items = before ++ item :: after ∧ item.HasName pool name ∧
    ∀ other ∈ after, ¬ other.HasName pool name

theorem isNamed_iff {pool : Pool} {name : String} {item : Attribute} :
    item.isNamed pool name = true ↔ item.HasName pool name := by
  have named : item.name pool = .ok (some name) ↔ item.HasName pool name := by
    rw [Attribute.name, nameAt_eq_ok_iff]
    simp [HasName]
  rw [← named]
  unfold isNamed
  split
  case h_1 text found => simp [found]
  case h_2 other =>
    simp only [Bool.false_eq_true, false_iff]
    exact other name

theorem find?_isNamed_iff {pool : Pool} {name : String} {items : List Attribute}
    {item : Attribute} :
    items.find? (isNamed pool name) = some item ↔ FirstNamed pool name items item := by
  rw [List.find?_eq_some_iff_append, isNamed_iff]
  simp only [Bool.not_eq_true', ← Bool.not_eq_true, isNamed_iff]
  constructor
  · rintro ⟨named, before, after, split, others⟩
    exact ⟨before, after, split, named, others⟩
  · rintro ⟨before, after, split, named, others⟩
    exact ⟨named, before, after, split, others⟩

theorem find?_isNamed_eq_none_iff {pool : Pool} {name : String} {items : List Attribute} :
    items.find? (isNamed pool name) = none ↔ ∀ item ∈ items, ¬ item.HasName pool name := by
  simp only [List.find?_eq_none, isNamed_iff]

theorem firstNamed_reverse_iff {pool : Pool} {name : String} {items : List Attribute}
    {item : Attribute} :
    FirstNamed pool name items.reverse item ↔ LastNamed pool name items item := by
  constructor
  · rintro ⟨before, after, split, named, others⟩
    refine ⟨after.reverse, before.reverse, ?_, named, by simpa using others⟩
    rw [← List.reverse_reverse items, split]
    simp
  · rintro ⟨before, after, rfl, named, others⟩
    exact ⟨after.reverse, before.reverse, by simp, named, by simpa using others⟩

end Attribute

theorem Member.annotations?_eq_some_iff {pool : Pool} {member : Member} {item : Attribute} :
    member.annotations? pool = some item ↔
      Attribute.LastNamed pool Attribute.visibleAnnotations member.attributes item := by
  rw [annotations?, Attribute.find?_isNamed_iff, Attribute.firstNamed_reverse_iff]

theorem Member.types_eq_ok_iff {pool : Pool} {member : Member} {names : List String} :
    member.types pool = .ok names ↔
      ∃ text, pool.TextAt member.descriptorIndex text ∧ Descriptor.classNames text = names := by
  rw [Member.types, map_eq_pure_bind, except_bind_eq_ok_iff]
  simp only [Pool.text_eq_ok_iff, pure, Except.pure, Except.ok.injEq]

namespace ClassFile

/-- The annotation payloads that count: all those of the class, and the last of each member. -/
inductive AnnotatedBy (file : ClassFile) : List UInt8 → Prop
  | onClass {item : Attribute} (listed : item ∈ file.attributes)
      (named : item.HasName file.pool Attribute.visibleAnnotations) : AnnotatedBy file item.payload
  | onMember {member : Member} {item : Attribute} (listed : member ∈ file.fields ++ file.methods)
      (last : Attribute.LastNamed file.pool Attribute.visibleAnnotations member.attributes item) :
      AnnotatedBy file item.payload

/-- Every index that decoding follows leads to a constant of the right kind. -/
structure Resolves (file : ClassFile) : Prop extends Linked file where
  constants : ∀ nameIndex, .classInfo nameIndex ∈ file.pool.constants →
    file.pool.NamesText nameIndex
  source : ∀ item, Attribute.FirstNamed file.pool Attribute.sourceFile file.attributes item →
    ∃ index rest, item.payload = u16Bytes index ++ rest ∧ file.pool.NamesText index
  annotations : ∀ payload, file.AnnotatedBy payload →
    ∃ trees, AnnotationTree.parse payload = .ok trees ∧
      ∀ tree ∈ trees, ∀ index ∈ tree.typeIndices, file.pool.NamesText index

/-- The names of classes that stand in a file, as they are written there. -/
inductive Mentions (file : ClassFile) : String → Prop
  | superClass {name : String} (given : file.superClass ≠ 0)
      (found : file.pool.ClassAt file.superClass name) : Mentions file name
  | interface {index : UInt16} {name : String} (listed : index ∈ file.interfaces)
      (found : file.pool.ClassAt index name) : Mentions file name
  | descriptor {member : Member} {text name : String}
      (listed : member ∈ file.fields ++ file.methods)
      (found : file.pool.TextAt member.descriptorIndex text)
      (part : name ∈ Descriptor.classNames text) : Mentions file name
  | constant {nameIndex : UInt16} {name : String}
      (listed : .classInfo nameIndex ∈ file.pool.constants)
      (found : file.pool.TextAt nameIndex name) (plain : name.toList.head? ≠ some '[') :
      Mentions file name
  | arrayConstant {nameIndex : UInt16} {text name : String}
      (listed : .classInfo nameIndex ∈ file.pool.constants)
      (found : file.pool.TextAt nameIndex text) (array : text.toList.head? = some '[')
      (element : Descriptor.elementClass? text = some name) : Mentions file name
  | annotationType {payload : List UInt8} {trees : List AnnotationTree} {tree : AnnotationTree}
      {index : UInt16} {text name : String} (present : file.AnnotatedBy payload)
      (parsed : AnnotationTree.parse payload = .ok trees) (listed : tree ∈ trees)
      (inside : index ∈ tree.typeIndices) (found : file.pool.TextAt index text)
      (element : Descriptor.elementClass? text = some name) : Mentions file name

/-- A file mentions the class, and `name` is the normal form of what is written. -/
def RefersTo (file : ClassFile) (name : String) : Prop :=
  ∃ written, file.Mentions written ∧ normalize? written = some name

/-- The first source attribute begins with the index of the source; without one there is none. -/
def SourceIs (file : ClassFile) : Option String → Prop
  | none => ∀ item ∈ file.attributes, ¬ item.HasName file.pool Attribute.sourceFile
  | some source => ∃ item index rest,
      Attribute.FirstNamed file.pool Attribute.sourceFile file.attributes item ∧
      item.payload = u16Bytes index ++ rest ∧ file.pool.TextAt index source

structure Describes (file : ClassFile) (filter : NameFilter) (origin : Option String)
    (record : ClassRecord) : Prop where
  minor : record.minor = file.minor
  major : record.major = file.major
  name : ∃ written, file.pool.ClassAt file.thisClass written ∧ record.name = dotted written
  isInterface : record.isInterface = file.access.toNat.testBit 9
  isAbstract : record.isAbstract = (file.access.toNat.testBit 10 && !file.access.toNat.testBit 9)
  source : file.SourceIs record.sourceFile
  origin : record.origin = origin
  references : ∀ name, name ∈ record.references.toList ↔
    file.RefersTo name ∧ name ≠ record.name ∧ filter.accepts name = true

theorem flag_ne_zero_iff {access flag : UInt16} {place : Nat} (single : flag.toNat = 2 ^ place) :
    access &&& flag ≠ 0 ↔ access.toNat.testBit place = true := by
  rw [← UInt16.toNat_inj.ne, UInt16.toNat_and, single, Nat.and_two_pow]
  cases access.toNat.testBit place <;> simp

theorem isInterface_eq_testBit (file : ClassFile) :
    file.isInterface = file.access.toNat.testBit 9 := by
  rw [Bool.eq_iff_iff, ClassFile.isInterface, bne_iff_ne]
  exact flag_ne_zero_iff rfl

theorem isAbstract_eq_testBit (file : ClassFile) :
    file.isAbstract = (file.access.toNat.testBit 10 && !file.access.toNat.testBit 9) := by
  have flag : (file.access &&& abstractFlag != 0) = file.access.toNat.testBit 10 := by
    rw [Bool.eq_iff_iff, bne_iff_ne]
    exact flag_ne_zero_iff rfl
  rw [ClassFile.isAbstract, flag, isInterface_eq_testBit]

theorem name_eq_ok_iff {file : ClassFile} {name : String} :
    file.name = .ok name ↔
      ∃ written, file.pool.ClassAt file.thisClass written ∧ name = dotted written := by
  rw [ClassFile.name, map_eq_pure_bind, except_bind_eq_ok_iff]
  simp only [Pool.className_eq_ok_iff, pure, Except.pure, Except.ok.injEq, eq_comm (a := name)]

theorem parentNames_collects (file : ClassFile) :
    Collects file.parentNames
      ((file.superClass = 0 ∨ file.pool.NamesClass file.superClass) ∧
        ∀ index ∈ file.interfaces, file.pool.NamesClass index)
      (fun name => file.superClass ≠ 0 ∧ file.pool.ClassAt file.superClass name ∨
        ∃ index ∈ file.interfaces, file.pool.ClassAt index name) := by
  refine (Collects.mapM Pool.className_eq_ok_iff _).restate ?_ ?_
  · by_cases zero : file.superClass = 0 <;> simp [zero, Pool.NamesClass]
  · intro _ name
    by_cases zero : file.superClass = 0 <;> simp [zero]

theorem descriptorNames_collects (file : ClassFile) :
    Collects file.descriptorNames
      (∀ member ∈ file.fields ++ file.methods, file.pool.NamesText member.descriptorIndex)
      (fun name => ∃ member ∈ file.fields ++ file.methods, ∃ text,
        file.pool.TextAt member.descriptorIndex text ∧ name ∈ Descriptor.classNames text) := by
  refine (Collects.mapM Member.types_eq_ok_iff _).flatten.restate ?_ ?_
  · simp [Pool.NamesText]
  · intro _ name
    constructor
    · rintro ⟨names, ⟨member, listed, text, found, rfl⟩, part⟩
      exact ⟨member, listed, text, found, part⟩
    · rintro ⟨member, listed, text, found, part⟩
      exact ⟨_, ⟨member, listed, text, found, rfl⟩, part⟩

theorem classNameIndex?_eq_some_iff {constant : Constant} {nameIndex : UInt16} :
    classNameIndex? constant = some nameIndex ↔ constant = .classInfo nameIndex := by
  cases constant <;> simp [classNameIndex?]

theorem constantNames_collects (file : ClassFile) :
    Collects file.constantNames
      (∀ nameIndex, .classInfo nameIndex ∈ file.pool.constants → file.pool.NamesText nameIndex)
      (fun name => ∃ nameIndex, .classInfo nameIndex ∈ file.pool.constants ∧ ∃ text,
        file.pool.TextAt nameIndex text ∧ constantName? text = some name) := by
  have mem_indices : ∀ nameIndex, nameIndex ∈ file.pool.constants.filterMap classNameIndex? ↔
      .classInfo nameIndex ∈ file.pool.constants := by
    intro nameIndex
    simp only [List.mem_filterMap, classNameIndex?_eq_some_iff, exists_eq_right]
  refine ((Collects.mapM Pool.text_eq_ok_iff _).filterMap constantName?).restate ?_ ?_
  · exact ⟨fun ready nameIndex listed => ready nameIndex ((mem_indices nameIndex).mpr listed),
      fun ready nameIndex listed => ready nameIndex ((mem_indices nameIndex).mp listed)⟩
  · intro _ name
    constructor
    · rintro ⟨text, ⟨nameIndex, listed, found⟩, chosen⟩
      exact ⟨nameIndex, (mem_indices nameIndex).mp listed, text, found, chosen⟩
    · rintro ⟨nameIndex, listed, text, found, chosen⟩
      exact ⟨text, ⟨nameIndex, (mem_indices nameIndex).mpr listed, found⟩, chosen⟩

theorem annotatedBy_iff {file : ClassFile} {payload : List UInt8} :
    file.AnnotatedBy payload ↔ ∃ item ∈ file.annotationAttributes, item.payload = payload := by
  simp only [annotationAttributes, List.mem_append, List.mem_filter, List.mem_filterMap,
    Attribute.isNamed_iff, Member.annotations?_eq_some_iff]
  constructor
  · rintro (⟨listed, named⟩ | ⟨listed, last⟩)
    · exact ⟨_, .inl ⟨listed, named⟩, rfl⟩
    · exact ⟨_, .inr ⟨_, List.mem_append.mp listed, last⟩, rfl⟩
  · rintro ⟨item, ⟨listed, named⟩ | ⟨member, listed, last⟩, rfl⟩
    · exact .onClass listed named
    · exact .onMember (List.mem_append.mpr listed) last

theorem namesInAnnotations_collects (pool : Pool) (item : Attribute) :
    Collects (namesInAnnotations pool item)
      (∃ trees, AnnotationTree.parse item.payload = .ok trees ∧
        ∀ tree ∈ trees, ∀ index ∈ tree.typeIndices, pool.NamesText index)
      (fun name => ∃ trees, AnnotationTree.parse item.payload = .ok trees ∧
        ∃ tree ∈ trees, ∃ index ∈ tree.typeIndices, ∃ text, pool.TextAt index text ∧
          Descriptor.elementClass? text = some name) := by
  cases parsed : AnnotationTree.parse item.payload with
  | error fault =>
      have failed : namesInAnnotations pool item = .error fault := by
        rw [namesInAnnotations, parsed]
        rfl
      constructor <;> simp [failed]
  | ok trees =>
      have unfolded : namesInAnnotations pool item = (do
          return (← (trees.flatMap AnnotationTree.typeIndices).mapM pool.text).filterMap
            Descriptor.elementClass?) := by
        rw [namesInAnnotations, parsed]
        rfl
      rw [unfolded]
      refine ((Collects.mapM Pool.text_eq_ok_iff _).filterMap Descriptor.elementClass?).restate ?_ ?_
      · simp only [List.mem_flatMap, Except.ok.injEq, exists_eq_left', Pool.NamesText]
        constructor
        · intro ready tree listed index inside
          exact ready index ⟨tree, listed, inside⟩
        · rintro ready index ⟨tree, listed, inside⟩
          exact ready tree listed index inside
      · intro _ name
        simp only [List.mem_flatMap, Except.ok.injEq, exists_eq_left']
        constructor
        · rintro ⟨text, ⟨index, ⟨tree, listed, inside⟩, found⟩, element⟩
          exact ⟨tree, listed, index, inside, text, found, element⟩
        · rintro ⟨tree, listed, index, inside, text, found, element⟩
          exact ⟨text, ⟨index, ⟨tree, listed, inside⟩, found⟩, element⟩

theorem annotationNames_collects (file : ClassFile) :
    Collects file.annotationNames
      (∀ payload, file.AnnotatedBy payload → ∃ trees, AnnotationTree.parse payload = .ok trees ∧
        ∀ tree ∈ trees, ∀ index ∈ tree.typeIndices, file.pool.NamesText index)
      (fun name => ∃ payload, file.AnnotatedBy payload ∧ ∃ trees,
        AnnotationTree.parse payload = .ok trees ∧ ∃ tree ∈ trees, ∃ index ∈ tree.typeIndices,
          ∃ text, file.pool.TextAt index text ∧ Descriptor.elementClass? text = some name) := by
  refine (Collects.mapM Iff.rfl _).flatten.restate ?_ ?_
  · constructor
    · intro ready payload present
      obtain ⟨item, listed, rfl⟩ := annotatedBy_iff.mp present
      obtain ⟨names, success⟩ := ready item listed
      exact (namesInAnnotations_collects file.pool item).ready_of_ok success
    · intro ready item listed
      exact (namesInAnnotations_collects file.pool item).succeeds
        (ready item.payload (annotatedBy_iff.mpr ⟨item, listed, rfl⟩))
  · intro ready name
    constructor
    · rintro ⟨names, ⟨item, listed, success⟩, inside⟩
      exact ⟨item.payload, annotatedBy_iff.mpr ⟨item, listed, rfl⟩,
        ((namesInAnnotations_collects file.pool item).mem_iff success name).mp inside⟩
    · rintro ⟨payload, present, trees, parsed, within⟩
      obtain ⟨item, listed, rfl⟩ := annotatedBy_iff.mp present
      obtain ⟨names, success⟩ := ready item listed
      exact ⟨names, ⟨item, listed, success⟩,
        ((namesInAnnotations_collects file.pool item).mem_iff success name).mpr
          ⟨trees, parsed, within⟩⟩

theorem eq_u16Bytes (high low : UInt8) :
    [high, low] = u16Bytes (UInt16.ofNat (high.toNat * 256 + low.toNat)) := by
  have small : high.toNat * 256 + low.toNat < 65536 := by
    have := high.toNat_lt
    have := low.toNat_lt
    omega
  have value : bigEndian [high, low] = high.toNat * 256 + low.toNat := by simp [bigEndian]
  rw [u16Bytes, UInt16.toNat_ofNat_of_lt' small, ← value]
  exact (bigEndianBytes_bigEndian [high, low]).symm

theorem payloadText_eq_ok_iff {pool : Pool} {payload : List UInt8} {source : Option String} :
    (match payload with
      | high :: low :: _ => some <$> pool.text (UInt16.ofNat (high.toNat * 256 + low.toNat))
      | _ => .error (.truncated 0 2)) = .ok source ↔
      ∃ index rest text, payload = u16Bytes index ++ rest ∧ pool.TextAt index text ∧
        source = some text := by
  split
  case h_1 high low rest =>
    have split : high :: low :: rest =
        u16Bytes (UInt16.ofNat (high.toNat * 256 + low.toNat)) ++ rest := by
      rw [← eq_u16Bytes]
      rfl
    rw [map_eq_pure_bind, except_bind_eq_ok_iff]
    simp only [Pool.text_eq_ok_iff, pure, Except.pure, Except.ok.injEq]
    constructor
    · rintro ⟨text, found, rfl⟩
      exact ⟨_, rest, text, split, found, rfl⟩
    · rintro ⟨index, others, text, same, found, rfl⟩
      obtain ⟨rfl, -⟩ := u16Bytes_selfDelimiting trivial trivial (split.symm.trans same)
      exact ⟨text, found, rfl⟩
  case h_2 short =>
    simp only [reduceCtorEq, false_iff, not_exists, not_and]
    rintro index rest text rfl
    have length : (u16Bytes index).length = 2 := bigEndianBytes_length 2 index.toNat
    match bytes : u16Bytes index with
    | high :: low :: others => exact absurd (by rw [bytes]; rfl) (short high low (others ++ rest))
    | [_] | [] => simp [bytes] at length

theorem sourceFile_eq_ok_iff {file : ClassFile} {source : Option String} :
    file.sourceFile = .ok source ↔ file.SourceIs source := by
  unfold sourceFile
  cases found : file.attributes.find? (Attribute.isNamed file.pool Attribute.sourceFile) with
  | none =>
      have absent := Attribute.find?_isNamed_eq_none_iff.mp found
      cases source with
      | none => simpa [SourceIs] using absent
      | some text =>
          simp only [Except.ok.injEq, reduceCtorEq, SourceIs, false_iff, not_exists, not_and]
          intro item index rest first
          rw [← Attribute.find?_isNamed_iff, found] at first
          cases first
  | some item =>
      have first := Attribute.find?_isNamed_iff.mp found
      -- The two `match`es agree only by unfolding, so this is no rewriting.
      refine payloadText_eq_ok_iff.trans ?_
      cases source with
      | none =>
          obtain ⟨before, after, split, named, -⟩ := first
          have listed : item ∈ file.attributes := by simp [split]
          simp only [reduceCtorEq, and_false, exists_false, SourceIs, false_iff]
          exact fun absent => absent item listed named
      | some text =>
          simp only [Option.some.injEq, SourceIs]
          constructor
          · rintro ⟨index, rest, text, payload, named, rfl⟩
            exact ⟨item, index, rest, first, payload, named⟩
          · rintro ⟨other, index, rest, otherFirst, payload, named⟩
            rw [← Attribute.find?_isNamed_iff, found, Option.some.injEq] at otherFirst
            subst otherFirst
            exact ⟨index, rest, text, payload, named, rfl⟩

theorem mentions_iff {file : ClassFile} {name : String} :
    file.Mentions name ↔
      (file.superClass ≠ 0 ∧ file.pool.ClassAt file.superClass name ∨
        ∃ index ∈ file.interfaces, file.pool.ClassAt index name) ∨
      (∃ member ∈ file.fields ++ file.methods, ∃ text,
        file.pool.TextAt member.descriptorIndex text ∧ name ∈ Descriptor.classNames text) ∨
      (∃ nameIndex, .classInfo nameIndex ∈ file.pool.constants ∧ ∃ text,
        file.pool.TextAt nameIndex text ∧ constantName? text = some name) ∨
      (∃ payload, file.AnnotatedBy payload ∧ ∃ trees,
        AnnotationTree.parse payload = .ok trees ∧ ∃ tree ∈ trees, ∃ index ∈ tree.typeIndices,
          ∃ text, file.pool.TextAt index text ∧ Descriptor.elementClass? text = some name) := by
  constructor
  · rintro (⟨given, found⟩ | ⟨listed, found⟩ | ⟨listed, found, part⟩ | ⟨listed, found, plain⟩ |
      ⟨listed, found, array, element⟩ | ⟨present, parsed, listed, inside, found, element⟩)
    · exact .inl (.inl ⟨given, found⟩)
    · exact .inl (.inr ⟨_, listed, found⟩)
    · exact .inr (.inl ⟨_, listed, _, found, part⟩)
    · exact .inr (.inr (.inl ⟨_, listed, _, found, by rw [constantName?, if_neg plain]⟩))
    · exact .inr (.inr (.inl ⟨_, listed, _, found, by rw [constantName?, if_pos array, element]⟩))
    · exact .inr (.inr (.inr ⟨_, present, _, parsed, _, listed, _, inside, _, found, element⟩))
  · rintro ((⟨given, found⟩ | ⟨index, listed, found⟩) | ⟨member, listed, text, found, part⟩ |
      ⟨nameIndex, listed, text, found, chosen⟩ |
      ⟨payload, present, trees, parsed, tree, listed, index, inside, text, found, element⟩)
    · exact .superClass given found
    · exact .interface listed found
    · exact .descriptor listed found part
    · by_cases array : text.toList.head? = some '['
      · rw [constantName?, if_pos array] at chosen
        exact .arrayConstant listed found array chosen
      · rw [constantName?, if_neg array, Option.some.injEq] at chosen
        subst chosen
        exact .constant listed found array
    · exact .annotationType present parsed listed inside found element

theorem mem_referencesOf_iff {own name : String} {names : List String} :
    name ∈ (ClassRecord.referencesOf own names).toList ↔ name ∈ names ∧ name ≠ own := by
  simp [ClassRecord.referencesOf, Ascending.mem_ofList]

theorem source_resolves_iff {file : ClassFile} :
    (∃ source, file.SourceIs source) ↔
      ∀ item, Attribute.FirstNamed file.pool Attribute.sourceFile file.attributes item →
        ∃ index rest, item.payload = u16Bytes index ++ rest ∧ file.pool.NamesText index := by
  constructor
  · rintro ⟨source, sourceIs⟩ item first
    cases source with
    | none =>
        obtain ⟨before, after, split, named, -⟩ := first
        exact absurd named (sourceIs item (by simp [split]))
    | some text =>
        obtain ⟨other, index, rest, otherFirst, payload, named⟩ := sourceIs
        rw [← Attribute.find?_isNamed_iff] at first otherFirst
        obtain rfl : other = item := Option.some.inj (otherFirst.symm.trans first)
        exact ⟨index, rest, payload, text, named⟩
  · intro resolves
    cases found : file.attributes.find? (Attribute.isNamed file.pool Attribute.sourceFile) with
    | none => exact ⟨none, Attribute.find?_isNamed_eq_none_iff.mp found⟩
    | some item =>
        have first := Attribute.find?_isNamed_iff.mp found
        obtain ⟨index, rest, payload, text, named⟩ := resolves item first
        exact ⟨some text, item, index, rest, first, payload, named⟩

theorem toRecord_succeeds {file : ClassFile} (resolves : file.Resolves) (filter : NameFilter)
    (origin : Option String) : ∃ record, file.toRecord filter origin = .ok record := by
  obtain ⟨written, found⟩ := resolves.thisClass
  have name := name_eq_ok_iff.mpr ⟨written, found, rfl⟩
  obtain ⟨parents, inParents⟩ := (parentNames_collects file).succeeds
    ⟨resolves.superClass, resolves.interfaces⟩
  have descriptors : ∀ member ∈ file.fields ++ file.methods,
      file.pool.NamesText member.descriptorIndex := by
    intro member listed
    obtain listed | listed := List.mem_append.mp listed
    · exact (resolves.fields member listed).descriptor
    · exact (resolves.methods member listed).descriptor
  obtain ⟨types, inDescriptors⟩ := (descriptorNames_collects file).succeeds descriptors
  obtain ⟨source, sourceIs⟩ := source_resolves_iff.mpr resolves.source
  obtain ⟨classes, inConstants⟩ := (constantNames_collects file).succeeds resolves.constants
  obtain ⟨marks, inAnnotations⟩ := (annotationNames_collects file).succeeds resolves.annotations
  rw [toRecord, name, inParents, inDescriptors, sourceFile_eq_ok_iff.mpr sourceIs, inConstants,
    inAnnotations]
  exact ⟨_, rfl⟩

theorem toRecord_inverts {file : ClassFile} {filter : NameFilter} {origin : Option String}
    {record : ClassRecord} (linked : file.Linked)
    (success : file.toRecord filter origin = .ok record) :
    file.Resolves ∧ file.Describes filter origin record := by
  obtain ⟨name, named, afterName⟩ := except_bind_eq_ok_iff.mp success
  obtain ⟨parents, inParents, afterParents⟩ := except_bind_eq_ok_iff.mp afterName
  obtain ⟨types, inDescriptors, afterDescriptors⟩ := except_bind_eq_ok_iff.mp afterParents
  obtain ⟨source, sourced, afterSource⟩ := except_bind_eq_ok_iff.mp afterDescriptors
  obtain ⟨classes, inConstants, afterConstants⟩ := except_bind_eq_ok_iff.mp afterSource
  obtain ⟨marks, inAnnotations, done⟩ := except_bind_eq_ok_iff.mp afterConstants
  obtain rfl := Except.ok.inj done
  have mentioned : ∀ written,
      written ∈ parents ++ types ++ classes ++ marks ↔ file.Mentions written := by
    intro written
    simp only [List.mem_append, mentions_iff, (parentNames_collects file).mem_iff inParents,
      (descriptorNames_collects file).mem_iff inDescriptors,
      (constantNames_collects file).mem_iff inConstants,
      (annotationNames_collects file).mem_iff inAnnotations, or_assoc]
  have sourceIs := sourceFile_eq_ok_iff.mp sourced
  refine ⟨⟨linked, (constantNames_collects file).ready_of_ok inConstants,
    source_resolves_iff.mp ⟨source, sourceIs⟩,
    (annotationNames_collects file).ready_of_ok inAnnotations⟩, ?_⟩
  refine ⟨rfl, rfl, name_eq_ok_iff.mp named, isInterface_eq_testBit file,
    isAbstract_eq_testBit file, sourceIs, rfl, ?_⟩
  intro reference
  simp only [mem_referencesOf_iff, List.mem_filter, List.mem_filterMap, mentioned, RefersTo]
  exact and_assoc.trans (and_congr_right' and_comm)

theorem decode_eq_ok_iff {filter : NameFilter} {origin : Option String} {bytes : List UInt8}
    {record : ClassRecord} :
    decode filter origin bytes = .ok record ↔
      ∃ (file : ClassFile) (trailing : List UInt8), bytes = file.encode ++ trailing ∧ file.Fits ∧
        file.Linked ∧ file.toRecord filter origin = .ok record := by
  unfold decode
  rw [except_bind_eq_ok_iff]
  constructor
  · rintro ⟨file, read, recorded⟩
    obtain ⟨after, read⟩ := run_eq_ok_iff.mp read
    obtain ⟨⟨fits, linked⟩, split, -⟩ := read_exact.inverts read
    exact ⟨file, after.rest, split, fits, linked, recorded⟩
  · rintro ⟨file, trailing, rfl, fits, linked, recorded⟩
    exact ⟨file, run_eq_ok_iff.mpr ⟨_, read_exact.accepts ⟨fits, linked⟩ 0 trailing⟩, recorded⟩

def sample : ClassFile where
  minor := 0
  major := 52
  pool := .ofConstants
    [.utf8 (Utf8.encode "a/A"), .classInfo 1, .long 5, .utf8 (Utf8.encode "b/B"), .classInfo 5,
      .utf8 (Utf8.encode "Lc/C;"), .utf8 (Utf8.encode "SourceFile"), .utf8 (Utf8.encode "A.java"),
      .utf8 (Utf8.encode "RuntimeVisibleAnnotations"), .utf8 (Utf8.encode "[Ld/D;"), .classInfo 11,
      .utf8 (Utf8.encode "Le/E;")]
  access := 0x0401
  thisClass := 2
  superClass := 6
  interfaces := []
  fields := [⟨1, 1, 7, [⟨10, [0, 1, 0, 13, 0, 0]⟩]⟩]
  methods := []
  attributes := [⟨8, [0, 9]⟩, ⟨0, [1, 2, 3]⟩]

theorem sample_fits_and_resolves : sample.Fits ∧ sample.Resolves := by
  have whole : read.run sample.encode = .ok sample := by decide +kernel
  obtain ⟨after, parsed⟩ := run_eq_ok_iff.mp whole
  obtain ⟨⟨fits, linked⟩, -⟩ := read_exact.inverts parsed
  have finished : (sample.toRecord {} none).isOk = true := by decide +kernel
  cases recorded : sample.toRecord {} none with
  | error fault => simp [recorded, Except.isOk, Except.toBool] at finished
  | ok record => exact ⟨fits, (toRecord_inverts linked recorded).1⟩

end ClassFile

namespace Decoder

variable {σ : Type}

/-- Decoding undoes encoding: the bytes of a file that fits and resolves, with anything behind
them, give the record of that file. -/
theorem decode_undoes_encode (decoder : Decoder σ) (file : ClassFile) (fits : file.Fits)
    (resolves : file.Resolves) (trailing : List UInt8) (origin : Option String) (state : σ) :
    ∃ record, (decoder.decode (file.encode ++ trailing) origin state).1 = .ok record ∧
      file.Describes decoder.filter origin record := by
  obtain ⟨record, recorded⟩ := ClassFile.toRecord_succeeds resolves decoder.filter origin
  refine ⟨record, ?_, (ClassFile.toRecord_inverts resolves.toLinked recorded).2⟩
  rw [decode_fst, ClassFile.decode_eq_ok_iff]
  exact ⟨file, trailing, rfl, fits, resolves.toLinked, recorded⟩

theorem decode_undoes_encode_sample :
    ClassFile.sample.Fits ∧ ClassFile.sample.Resolves ∧
      ∃ record, (({} : Decoder Unit).decode (ClassFile.sample.encode ++ [202, 254]) (some "x.jar")
          ()).1 = .ok record ∧ record.name = "a.A" ∧
        record.references = .ofList ["b.B", "c.C", "d.D", "e.E"] ∧
        ClassFile.sample.Describes {} (some "x.jar") record := by
  obtain ⟨fits, resolves⟩ := ClassFile.sample_fits_and_resolves
  obtain ⟨record, decoded, describes⟩ :=
    decode_undoes_encode ({} : Decoder Unit) _ fits resolves [202, 254] (some "x.jar") ()
  have found : (({} : Decoder Unit).decode (ClassFile.sample.encode ++ [202, 254]) (some "x.jar")
      ()).1 = .ok { name := "a.A", major := 52, sourceFile := some "A.java", isAbstract := true,
                    origin := some "x.jar",
                    references := .ofList ["b.B", "c.C", "d.D", "e.E"] } := by
    decide +kernel
  obtain rfl := Except.ok.inj (decoded.symm.trans found)
  exact ⟨fits, resolves, _, decoded, rfl, rfl, describes⟩

/-- What is decoded begins with the encoding of one file, and of no other. -/
theorem decode_accepts_only_files (decoder : Decoder σ) (bytes : List UInt8)
    (origin : Option String) (state : σ) (record : ClassRecord)
    (accepted : (decoder.decode bytes origin state).1 = .ok record) :
    ∃ (file : ClassFile) (trailing : List UInt8), bytes = file.encode ++ trailing ∧
      file.Fits ∧ file.Resolves ∧
      ∀ (other : ClassFile) (rest : List UInt8), other.Fits → bytes = other.encode ++ rest →
        other = file ∧ rest = trailing := by
  rw [decode_fst, ClassFile.decode_eq_ok_iff] at accepted
  obtain ⟨file, trailing, rfl, fits, linked, recorded⟩ := accepted
  refine ⟨file, trailing, rfl, fits, (ClassFile.toRecord_inverts linked recorded).1, ?_⟩
  intro other rest otherFits same
  obtain ⟨rfl, rfl⟩ := ClassFile.encode_selfDelimiting fits otherFits same
  exact ⟨rfl, rfl⟩

theorem decode_accepts_only_files_sample :
    ∃ record : ClassRecord, record.references = .ofList ["b.B", "c.C", "d.D", "e.E"] ∧
      (({} : Decoder Unit).decode (ClassFile.sample.encode ++ [202, 254]) none ()).1 = .ok record ∧
      ∃ (file : ClassFile) (trailing : List UInt8),
        ClassFile.sample.encode ++ [202, 254] = file.encode ++ trailing ∧
        file.Fits ∧ file.Resolves ∧
        ∀ (other : ClassFile) (rest : List UInt8), other.Fits →
          ClassFile.sample.encode ++ [202, 254] = other.encode ++ rest →
          other = file ∧ rest = trailing := by
  have accepted : (({} : Decoder Unit).decode (ClassFile.sample.encode ++ [202, 254]) none ()).1 =
      .ok { name := "a.A", major := 52, sourceFile := some "A.java", isAbstract := true,
            references := .ofList ["b.B", "c.C", "d.D", "e.E"] } := by
    decide +kernel
  exact ⟨_, rfl, accepted, decode_accepts_only_files {} _ none () _ accepted⟩

end Decoder

end ClassCoupling
