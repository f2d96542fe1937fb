import ClassCoupling.Proofs.AnnotationGrammar
import ClassCoupling.Proofs.CheckedPool
import ClassCoupling.Proofs.ClassDecoding

/-!
Decoding by index. A class is read in the order of the format, every index is looked up as
soon as it is read, and the class names in a descriptor are cut out of it there and then.
Attributes are kept with their names and members with the names and the annotations found in
them. What is gathered gives the record of the class and its package. Annotations count the
levels of nesting upwards, one past the limit at most. The outcome is that of decoding, for
every input: no operation is ever used outside of its domain.
-/
namespace ClassCoupling.Checked

open Scan

structure NamedPayload where
  name : Option String
  payload : List UInt8
deriving DecidableEq, Repr

def NamedPayload.isNamed (name : String) (item : NamedPayload) : Bool := item.name == some name

structure TypedMember where
  types : List String
  annotations : Option NamedPayload
deriving DecidableEq, Repr

structure Parts where
  minor : UInt16
  major : UInt16
  slots : List (Option Entry)
  access : UInt16
  name : String
  parents : List String
  fields : List TypedMember
  methods : List TypedMember
  attributes : List NamedPayload
deriving DecidableEq, Repr

section Reading

variable (limit : Nat) (image : List UInt8) (slots : List (Option Entry))

def readAttribute : Scan NamedPayload := do
  let index ← u16 limit image
  let name ← lift (ofResult (if index = 0 then .ok none else some <$> textAt slots index))
  let length ← u32 limit image
  let count ← lift (within limit length.toNat)
  return ⟨name, ← take limit image count⟩

def readMember : Scan TypedMember := do
  let _ ← u16 limit image
  let _ ← u16 limit image
  let index ← u16 limit image
  let descriptor ← lift (ofResult (textAt slots index))
  let types ← lift (typesIn descriptor)
  let attributes ← counted limit image (readAttribute limit image slots)
  return ⟨types, attributes.reverse.find? (·.isNamed Attribute.visibleAnnotations)⟩

def readClassName : Scan String := do
  let index ← u16 limit image
  lift (ofResult (classNameAt slots index))

def readSuperName : Scan (List String) := do
  let index ← u16 limit image
  if index ≠ 0 then
    let name ← lift (ofResult (classNameAt slots index))
    return [name]
  else return []

def readParts : Scan Parts := do
  let found ← u32 limit image
  if found ≠ ClassFile.magic then throw (.fault (.notAClassFile found))
  let minor ← u16 limit image
  let major ← u16 limit image
  let slots ← readSlots limit image
  let access ← u16 limit image
  let name ← readClassName limit image slots
  let superName ← readSuperName limit image slots
  let interfaces ← counted limit image (readClassName limit image slots)
  let fields ← counted limit image (readMember limit image slots)
  let methods ← counted limit image (readMember limit image slots)
  let attributes ← counted limit image (readAttribute limit image slots)
  return { minor, major, slots, access, fields, methods, attributes
           name := ClassFile.dotted name, parents := superName ++ interfaces }

end Reading

section ReadingAgrees

structure Names (limit : Nat) (pool : Pool) (item : Attribute) (named : NamedPayload) : Prop where
  name : item.name pool = .ok named.name
  payload : named.payload = item.payload
  length : named.payload.length ≤ limit

structure Types (limit : Nat) (pool : Pool) (member : Member) (typed : TypedMember) : Prop where
  types : member.types pool = .ok typed.types
  annotations : Option.Rel (Names limit pool) (member.annotations? pool) typed.annotations

structure Resolves (limit : Nat) (file : ClassFile) (parts : Parts) : Prop where
  minor : parts.minor = file.minor
  major : parts.major = file.major
  slots : Fills file.pool parts.slots
  access : parts.access = file.access
  name : file.name = .ok parts.name
  parents : file.parentNames = .ok parts.parents
  fields : List.Forall₂ (Types limit file.pool) file.fields parts.fields
  methods : List.Forall₂ (Types limit file.pool) file.methods parts.methods
  attributes : List.Forall₂ (Names limit file.pool) file.attributes parts.attributes

theorem rel_find? {α β : Type} {related : α → β → Prop} {test : α → Bool} {other : β → Bool}
    (same : ∀ {item found}, related item found → test item = other found) {items : List α}
    {others : List β} (each : List.Forall₂ related items others) :
    Option.Rel related (items.find? test) (others.find? other) := by
  induction each with
  | nil => exact .none
  | cons first _ ih =>
      rw [List.find?_cons, List.find?_cons, ← same first]
      split
      · exact .some first
      · exact ih

theorem Names.isNamed_eq {limit : Nat} {pool : Pool} {item : Attribute} {named : NamedPayload}
    (names : Names limit pool item named) (name : String) :
    item.isNamed pool name = named.isNamed name := by
  rw [Attribute.isNamed, names.name, NamedPayload.isNamed]
  cases named.name <;> simp

variable {limit : Nat} {image : List UInt8} {pool : Pool} {slots : List (Option Entry)}
  (fits : Addressable limit image) (fills : Fills pool slots)
include fits fills

theorem readAttribute_agrees :
    Agrees image (readAttribute limit image slots) (Attribute.read pool) (Names limit pool) := by
  -- The length of an attribute is a word, and only as many bytes are taken as there are.
  refine (Agrees.u16 fits).bind ?_
  rintro index _ rfl
  simp only [textAt_eq fills]
  refine Agrees.lookUp ?_
  intro name found
  refine (Agrees.u32 fits).bind ?_
  rintro length _ rfl
  have small : length.toNat ≤ limit := by
    have bound := length.toNat_lt
    have word := fits.word
    omega
  rw [within_eq small, lift_ok_bind]
  refine (Agrees.take fits length.toNat).map ?_
  rintro payload _ ⟨rfl, size⟩
  exact ⟨found, rfl, Nat.le_trans (Nat.le_of_eq size) small⟩

theorem readMember_agrees :
    Agrees image (readMember limit image slots) (Member.read pool) (Types limit pool) := by
  refine (Agrees.u16 fits).bind fun _ => (Agrees.u16 fits).bind fun _ => ?_
  refine (Agrees.u16 fits).bind ?_
  rintro index _ rfl
  rw [textAt_eq fills]
  refine Agrees.lookUp ?_
  intro descriptor found
  rw [typesIn_eq, lift_ok_bind]
  refine (Agrees.counted fits (readAttribute_agrees fits fills)).map ?_
  intro attributes named each
  refine ⟨by rw [Member.types, found]; rfl, ?_⟩
  exact rel_find? (fun names => names.isNamed_eq _) (List.rel_reverse each)

theorem readClassName_agrees :
    Agrees image (readClassName limit image slots) (ClassFile.readClassIndex pool)
      (fun index name => pool.className index = .ok name) := by
  refine (Agrees.u16 fits).bind ?_
  rintro index _ rfl
  rw [classNameAt_eq fills, ← bind_pure (lift _)]
  refine Agrees.lookUp ?_
  intro name found
  exact .pure found

theorem readSuperName_agrees :
    Agrees image (readSuperName limit image slots) (ClassFile.readSuperIndex pool)
      (fun index names => List.Forall₂ (fun place name => pool.className place = .ok name)
        (if index = 0 then [] else [index]) names) := by
  refine (Agrees.u16 fits).bind ?_
  rintro index _ rfl
  rw [classNameAt_eq fills]
  split
  case isTrue named =>
    refine Agrees.lookUp ?_
    intro name found
    exact .pure (by simp [named, found])
  case isFalse none => exact .pure (by simp_all)

omit fills in
theorem readParts_agrees :
    Agrees image (readParts limit image) ClassFile.read (Resolves limit) := by
  refine (Agrees.u32 fits).bind ?_
  rintro magic _ rfl
  split
  · exact (Agrees.fault _).bind False.elim
  refine (Agrees.u16 fits).bind ?_
  rintro minor _ rfl
  refine (Agrees.u16 fits).bind ?_
  rintro major _ rfl
  refine (readSlots_agrees fits).bind ?_
  intro pool slots fills
  refine (Agrees.u16 fits).bind ?_
  rintro access _ rfl
  refine (readClassName_agrees fits fills).bind ?_
  intro thisClass name named
  refine (readSuperName_agrees fits fills).bind ?_
  intro superClass superName super
  refine (Agrees.counted fits (readClassName_agrees fits fills)).bind ?_
  intro interfaces interfaceNames interface
  refine (Agrees.counted fits (readMember_agrees fits fills)).bind ?_
  intro fields typedFields fieldTypes
  refine (Agrees.counted fits (readMember_agrees fits fills)).bind ?_
  intro methods typedMethods methodTypes
  refine (Agrees.counted fits (readAttribute_agrees fits fills)).map ?_
  intro attributes namedPayloads attributeNames
  have parents : List.Forall₂ (fun place name => pool.className place = .ok name)
      (if superClass = 0 then interfaces else superClass :: interfaces)
      (superName ++ interfaceNames) := by
    have both := List.rel_append super interface
    split at both <;> simpa [*] using both
  constructor
  case name => rw [ClassFile.name, named]; rfl
  case parents => exact mapM_of_forall₂ parents
  case slots => exact fills
  case fields => exact fieldTypes
  case methods => exact methodTypes
  case attributes => exact attributeNames
  all_goals rfl

end ReadingAgrees

section Annotations

variable (limit : Nat) (image : List UInt8)

def readElement (deeper : Bool → Scan (List AnnotationValue)) : Scan (List AnnotationValue) := do
  let tag ← u8 limit image
  if tag = 'e'.toUInt8 then
    let typeIndex ← u16 limit image
    skip limit image 2
    return [.enumConstant typeIndex]
  else if tag = 'c'.toUInt8 then
    return [.classLiteral (← u16 limit image)]
  else if tag = '@'.toUInt8 then
    let typeIndex ← u16 limit image
    return [.nested typeIndex (← deeper true)]
  else if tag = '['.toUInt8 then
    deeper false
  else
    return [.scalar tag (← u16 limit image)]

def readValues (depth : Nat) (named : Bool) : Scan (List AnnotationValue) :=
  if AnnotationTree.maxNesting + 1 < depth then throw (.trap (.recursionTooDeep depth))
  else if AnnotationTree.maxNesting < depth then do
    throw (.fault (.annotationTooDeep (← get) AnnotationTree.maxNesting))
  else do
    let runs ← counted limit image do
      if named then skip limit image 2
      readElement limit image fun inner => do
        let _ ← lift (within limit (depth + 1))
        readValues (depth + 1) inner
    return runs.flatten
termination_by AnnotationTree.maxNesting + 2 - depth
decreasing_by omega

def readTree : Scan AnnotationTree := do
  let typeIndex ← u16 limit image
  return ⟨typeIndex, ← readValues limit image 0 true⟩

def parse (payload : List UInt8) : Outcome (List AnnotationTree) :=
  (counted limit payload (readTree limit payload)).run

end Annotations

section AnnotationsAgree

variable {limit : Nat} {image : List UInt8}

theorem readElement_agrees (fits : Addressable limit image)
    {deeper : Bool → Scan (List AnnotationValue)}
    {below : Bool → Reader (List AnnotationValue)}
    (agrees : ∀ named, Agrees image (deeper named) (below named) Eq) :
    Agrees image (readElement limit image deeper) (AnnotationSource.readElement below) Eq := by
  refine (Agrees.u8 fits).bind ?_
  rintro tag _ rfl
  split
  · refine (Agrees.u16 fits).bind ?_
    rintro typeIndex _ rfl
    exact (Agrees.skip fits 2).bind fun _ => .pure rfl
  split
  · exact (Agrees.u16 fits).transform _
  split
  · refine (Agrees.u16 fits).bind ?_
    rintro typeIndex _ rfl
    exact (agrees true).transform _
  split
  · exact agrees false
  · exact (Agrees.u16 fits).transform _

/-- The depth goes up to one past the limit, where there is no room left. -/
theorem readValues_agrees (fits : Addressable limit image) {room depth : Nat} (named : Bool)
    (level : depth + room = AnnotationTree.maxNesting + 1) :
    Agrees image (readValues limit image depth named) (AnnotationTree.readValues room named)
      Eq := by
  have word := fits.word
  induction room generalizing depth named with
  | zero =>
      rw [readValues, if_neg (by omega), if_pos (by omega)]
      refine Agrees.offset.bind ?_
      rintro offset _ rfl
      exact .fault _
  | succ room ih =>
      have small : depth + 1 ≤ limit := by
        simp only [AnnotationTree.maxNesting] at level
        omega
      rw [readValues, if_neg (by omega), if_neg (by omega), AnnotationSource.readValues_succ,
        within_eq small]
      have next : depth + 1 + room = AnnotationTree.maxNesting + 1 := by omega
      have element := readElement_agrees fits fun inner => ih inner next
      have item : Agrees image
          (do
            if named then skip limit image 2
            readElement limit image fun inner => readValues limit image (depth + 1) inner)
          (AnnotationSource.readItem room named) Eq := by
        cases named with
        | true => exact (Agrees.skip fits 2).bind fun _ => element
        | false => exact element
      refine (Agrees.counted fits item).map ?_
      intro runs found same
      rw [List.forall₂_eq_eq_eq] at same
      rw [same]

theorem parse_eq {payload : List UInt8} (fits : Addressable limit payload) :
    parse limit payload = ofResult (AnnotationTree.parse payload) := by
  have tree : Agrees payload (readTree limit payload) AnnotationTree.read Eq := by
    refine (Agrees.u16 fits).bind ?_
    rintro typeIndex _ rfl
    exact (readValues_agrees fits true (Nat.zero_add _)).transform _
  have same := (Agrees.counted fits tree).run
  rw [List.forall₂_eq_eq_eq] at same
  obtain ⟨trees, _, read, scanned, rfl⟩ | ⟨fault, read, scanned⟩ := same
  · rw [parse, AnnotationTree.parse, AnnotationTree.readAll, read, scanned]
    rfl
  · rw [parse, AnnotationTree.parse, AnnotationTree.readAll, read, scanned]
    rfl

end AnnotationsAgree

section Gathering

variable (limit : Nat) (slots : List (Option Entry))

def sourceIndex : List UInt8 → Outcome UInt16
  | high :: low :: _ => do
      let scaled ← within 65535 (high.toNat * 256)
      narrow (scaled + low.toNat)
  | _ => .error (.fault (.truncated 0 2))

def sourceFileIn (attributes : List NamedPayload) : Outcome (Option String) :=
  match attributes.find? (·.isNamed Attribute.sourceFile) with
  | none => .ok none
  | some item => do
      let index ← sourceIndex item.payload
      some <$> ofResult (textAt slots index)

def constantNamesIn : Outcome (List String) := do
  let entries ← numbered slots
  let indices := entries.filterMap (·.2.classNameIndex?)
  return (← ofResult (indices.mapM (textAt slots))).filterMap ClassFile.constantName?

def annotationNamesIn (item : NamedPayload) : Outcome (List String) := do
  let annotations ← parse limit item.payload
  let indices := annotations.flatMap AnnotationTree.typeIndices
  return (← ofResult (indices.mapM (textAt slots))).filterMap Descriptor.elementClass?

def Parts.members (parts : Parts) : List TypedMember := parts.fields ++ parts.methods

def Parts.annotated (parts : Parts) : List NamedPayload :=
  parts.attributes.filter (·.isNamed Attribute.visibleAnnotations) ++
    parts.members.filterMap (·.annotations)

def annotationNamesOf (parts : Parts) : Outcome (List String) := do
  return (← parts.annotated.mapM (annotationNamesIn limit parts.slots)).flatten

def Parts.isInterface (parts : Parts) : Bool := parts.access &&& ClassFile.interfaceFlag != 0

def gather (filter : NameFilter) (origin : Option String) (parts : Parts) :
    Outcome (ClassRecord × String) := do
  let sourceFile ← sourceFileIn parts.slots parts.attributes
  let inConstants ← constantNamesIn parts.slots
  let inAnnotations ← annotationNamesOf limit parts
  let references := (parts.parents ++ parts.members.flatMap (·.types) ++ inConstants ++
    inAnnotations).filterMap ClassFile.normalize?
  let package ← packageIn parts.name
  let record := {
    name := parts.name
    minor := parts.minor
    major := parts.major
    sourceFile
    origin
    isAbstract := parts.access &&& ClassFile.abstractFlag != 0 && !parts.isInterface
    isInterface := parts.isInterface
    references := ClassRecord.referencesOf parts.name (references.filter filter.accepts) }
  return (record, package)

def decode (filter : NameFilter) (origin : Option String) (bytes : List UInt8) :
    Outcome (ClassRecord × String) := do
  gather limit filter origin (← (readParts limit bytes).run)

end Gathering

section Outcome

variable {limit : Nat} {file : ClassFile} {parts : Parts}

theorem sourceIndex_cons (high low : UInt8) (rest : List UInt8) :
    sourceIndex (high :: low :: rest) = .ok (UInt16.ofNat (high.toNat * 256 + low.toNat)) := by
  have highBound := high.toNat_lt
  have lowBound := low.toNat_lt
  rw [sourceIndex, within_eq (by omega)]
  exact narrow_eq (by omega)

theorem sourceFileIn_eq (resolves : Resolves limit file parts) :
    sourceFileIn parts.slots parts.attributes = ofResult file.sourceFile := by
  have found := rel_find? (fun names => names.isNamed_eq Attribute.sourceFile) resolves.attributes
  rw [sourceFileIn, ClassFile.sourceFile]
  generalize file.attributes.find? _ = item, parts.attributes.find? _ = named at found ⊢
  cases found with
  | none => rfl
  | @some item named names =>
      simp only [names.payload, textAt_eq resolves.slots]
      match item.payload with
      | [] | [_] => rfl
      | high :: low :: rest =>
          rw [sourceIndex_cons, ofResult_map]
          rfl

theorem constantNamesIn_eq (resolves : Resolves limit file parts) :
    constantNamesIn parts.slots = ofResult file.constantNames := by
  obtain ⟨entries, numbers, constants⟩ := numbered_eq resolves.slots
  have text : textAt parts.slots = file.pool.text := funext (textAt_eq resolves.slots)
  have indices : entries.filterMap (·.2.classNameIndex?) =
      file.pool.constants.filterMap ClassFile.classNameIndex? := by
    have spread := congrArg (List.filterMap Entry.classNameIndex?) constants
    simpa [List.filterMap_map, Function.comp_def] using spread
  rw [constantNamesIn, numbers, text, ClassFile.constantNames, ofResult_bind, ← indices]
  rfl

theorem annotationNamesIn_eq {pool : Pool} {slots : List (Option Entry)} {item : Attribute}
    {named : NamedPayload} (word : 4294967295 ≤ limit) (fills : Fills pool slots)
    (names : Names limit pool item named) :
    annotationNamesIn limit slots named = ofResult (ClassFile.namesInAnnotations pool item) := by
  have text : textAt slots = pool.text := funext (textAt_eq fills)
  rw [annotationNamesIn, parse_eq ⟨names.length, word⟩, names.payload, text,
    ClassFile.namesInAnnotations, ofResult_bind]
  refine bind_congr fun annotations => ?_
  rw [ofResult_bind]
  rfl

theorem Resolves.members (resolves : Resolves limit file parts) :
    List.Forall₂ (Types limit file.pool) (file.fields ++ file.methods) parts.members :=
  List.rel_append resolves.fields resolves.methods

theorem Resolves.descriptorNames (resolves : Resolves limit file parts) :
    file.descriptorNames = .ok (parts.members.flatMap (·.types)) := by
  have types : (file.fields ++ file.methods).mapM (Member.types file.pool) =
      .ok (parts.members.map (·.types)) :=
    mapM_of_forall₂
      (List.forall₂_map_right_iff.mpr (resolves.members.imp fun _ _ each => each.types))
  rw [ClassFile.descriptorNames, types, List.flatMap_def]
  rfl

theorem Resolves.annotated (resolves : Resolves limit file parts) :
    List.Forall₂ (Names limit file.pool) file.annotationAttributes parts.annotated := by
  refine List.rel_append (List.rel_filter ?_ resolves.attributes)
    (List.rel_filterMap ?_ resolves.members)
  · intro item named names
    exact Bool.eq_iff_iff.mp (names.isNamed_eq _)
  · intro member typed each
    exact each.annotations

theorem annotationNamesOf_eq (word : 4294967295 ≤ limit) (resolves : Resolves limit file parts) :
    annotationNamesOf limit parts = ofResult file.annotationNames := by
  rw [annotationNamesOf, ClassFile.annotationNames, ofResult_bind, mapM_ofResult
    (resolves.annotated.imp fun _ _ names => annotationNamesIn_eq word resolves.slots names)]
  rfl

theorem gather_eq (word : 4294967295 ≤ limit) (resolves : Resolves limit file parts)
    (filter : NameFilter) (origin : Option String) :
    gather limit filter origin parts = ofResult (do
      let record ← file.toRecord filter origin
      return (record, record.package)) := by
  rw [gather, ClassFile.toRecord, resolves.name, resolves.parents, resolves.descriptorNames,
    sourceFileIn_eq resolves, constantNamesIn_eq resolves, annotationNamesOf_eq word resolves,
    packageIn_eq, Parts.isInterface, resolves.minor, resolves.major, resolves.access]
  cases file.sourceFile with
  | error fault => rfl
  | ok sourceFile =>
      cases file.constantNames with
      | error fault => rfl
      | ok inConstants => cases file.annotationNames <;> rfl

theorem decode_eq {bytes : List UInt8} (fits : Addressable limit bytes) (filter : NameFilter)
    (origin : Option String) :
    decode limit filter origin bytes = ofResult (do
      let record ← ClassFile.decode filter origin bytes
      return (record, record.package)) := by
  rw [decode, ClassFile.decode]
  obtain ⟨file, parts, read, scanned, resolves⟩ | ⟨fault, read, scanned⟩ :=
    (readParts_agrees fits).run
  · rw [read, scanned]
    exact gather_eq fits.word resolves filter origin
  · rw [read, scanned]
    rfl

end Outcome

end ClassCoupling.Checked

namespace ClassCoupling.Decoder

variable {σ : Type}

/-- What decoding gives is what it gives by index, for every input that lies in memory:
no index, slice, sum, difference or conversion on the way is ever out of its domain. -/
theorem decode_never_traps (decoder : Decoder σ) (bytes : List UInt8) (origin : Option String)
    (state : σ) (limit : Nat) (fits : Checked.Addressable limit bytes) :
    (∀ trap, Checked.decode limit decoder.filter origin bytes ≠ .error (.trap trap)) ∧
      Checked.decode limit decoder.filter origin bytes =
        Checked.ofResult ((fun record => (record, record.package)) <$>
          (decoder.decode bytes origin state).1) := by
  rw [decode_fst, Checked.decode_eq fits]
  cases ClassFile.decode decoder.filter origin bytes with
  | error fault => exact ⟨by rintro trap ⟨⟩, rfl⟩
  | ok record => exact ⟨by rintro trap ⟨⟩, rfl⟩

theorem decode_never_traps_sample :
    Checked.Addressable 4294967295 ClassFile.sample.encode ∧
      (∀ trap, Checked.decode 4294967295 {} none ClassFile.sample.encode ≠ .error (.trap trap)) ∧
      (Checked.decode 4294967295 {} none ClassFile.sample.encode).isOk = true := by
  have fits : Checked.Addressable 4294967295 ClassFile.sample.encode :=
    ⟨by decide +kernel, Nat.le_refl _⟩
  obtain ⟨never, same⟩ :=
    decode_never_traps ({} : Decoder Unit) ClassFile.sample.encode none () 4294967295 fits
  refine ⟨fits, never, ?_⟩
  rw [same]
  decide +kernel

end ClassCoupling.Decoder
