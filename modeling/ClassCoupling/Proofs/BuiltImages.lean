import ClassCoupling.Proofs.BuilderSteps
import ClassCoupling.Proofs.ClassDecoding

/-!
Builder and decoder agree. The image of a run is the encoding of a file whose pool is
the list of constants written, and the tables of the builder say what stands at each
index; so the file fits and resolves, and its record can be read off the steps.
-/
namespace ClassCoupling

theorem Pool.TextAt.unique {pool : Pool} {index : UInt16} {text other : String}
    (first : pool.TextAt index text) (second : pool.TextAt index other) : text = other := by
  rw [← Pool.text_eq_ok_iff] at first second
  exact Except.ok.inj (first.symm.trans second)

theorem Pool.ClassAt.unique {pool : Pool} {index : UInt16} {name other : String}
    (first : pool.ClassAt index name) (second : pool.ClassAt index other) : name = other := by
  rw [← Pool.className_eq_ok_iff] at first second
  exact Except.ok.inj (first.symm.trans second)

theorem Pool.Holds.ne_zero {constants : List Constant} {index : UInt16} {constant : Constant}
    (holds : (Pool.ofConstants constants).Holds index constant) : index ≠ 0 := by
  rintro rfl
  simp [Pool.Holds, Pool.ofConstants] at holds

theorem Pool.ClassAt.ne_zero {constants : List Constant} {index : UInt16} {name : String}
    (named : (Pool.ofConstants constants).ClassAt index name) : index ≠ 0 := by
  obtain ⟨nameIndex, holds, -⟩ := named
  exact holds.ne_zero

theorem Pool.Stands.mem {constants : List Constant} {index : UInt16} {constant : Constant}
    (stands : (Pool.ofConstants constants).Stands index constant) : constant ∈ constants := by
  obtain ⟨slot, found, -⟩ := stands
  rw [← Pool.constants_ofConstants constants, Pool.constants, List.mem_filterMap]
  exact ⟨some constant, by simpa using Array.mem_of_getElem? found, rfl⟩

namespace ClassBuilder

def Request.textLength : Request → Nat
  | text written | className written => (Utf8.encode written).length
  | fresh _ => 0

/-- Every text and count has room in its field, and so has the next index. -/
structure Fits (name : String) (steps : List Step) : Prop where
  plain : ∀ step ∈ steps, step.isPlain = true
  texts : ∀ request ∈ asked name steps, request.textLength ≤ 65535
  indices : 1 + (run name steps).2.entries.size + (asked name steps).countP Request.isWide ≤ 65535
  interfaces : (outline steps).interfaces.length ≤ 65535
  fields : (outline steps).fields.length ≤ 65535
  methods : (outline steps).methods.length ≤ 65535
  sources : (outline steps).sources.length ≤ 65535

/-- The names of classes that steps write, where decoding looks for them. -/
inductive Mentioned (name : String) (steps : List Step) : String → Prop
  | superClass {parent : String} (last : (outline steps).superClass = some parent) :
      Mentioned name steps parent
  | interface {parent : String} (listed : parent ∈ (outline steps).interfaces) :
      Mentioned name steps parent
  | descriptor {member : String × String} {part : String}
      (listed : member ∈ (outline steps).fields ++ (outline steps).methods)
      (inside : part ∈ Descriptor.classNames member.2) : Mentioned name steps part
  | constant {written element : String} (wanted : .className written ∈ asked name steps)
      (named : ClassFile.constantName? written = some element) : Mentioned name steps element

def file (constants : List Constant) (builder : ClassBuilder) : ClassFile where
  minor := 0
  major := builder.major
  pool := .ofConstants constants
  access := builder.access
  thisClass := builder.thisClass
  superClass := builder.superClass
  interfaces := builder.interfaces.toList
  fields := builder.fields.toList
  methods := builder.methods.toList
  attributes := builder.attributes.toList

theorem image_eq_encode {requests : List Request} {constants : List Constant}
    {builder : ClassBuilder} (tracks : Tracks requests constants builder) :
    builder.image = (file constants builder).encode := by
  have entries : builder.entries.toList.flatten = constants.flatMap Constant.encode := by
    rw [tracks.entries, ← List.flatMap_def]
  simp only [image, ClassFile.encode, Pool.encode, file, tracks.nextIndex, entries,
    Pool.constants_ofConstants, List.append_assoc]

theorem fresh_of_asked {name : String} {steps : List Step} {constant : Constant}
    (wanted : .fresh constant ∈ asked name steps) :
    constant.Fits ∧ ∀ nameIndex, constant ≠ .classInfo nameIndex := by
  simp only [asked, List.mem_cons, reduceCtorEq, List.mem_flatMap, false_or] at wanted
  obtain ⟨step, -, inside⟩ := wanted
  cases step <;> simp [Step.requests, Step.wanted?] at inside
  all_goals
    rw [inside]
    exact ⟨trivial, by simp⟩

section Look

variable {requests : List Request} {constants : List Constant} {builder : ClassBuilder}

theorem textAt (tracks : Tracks requests constants builder)
    (room : (Pool.ofConstants constants).size < 65536) {text : String} {index : UInt16}
    (found : builder.texts[text]? = some index) : (Pool.ofConstants constants).TextAt index text :=
  ⟨_, (tracks.text_stands text index found).holds room, ModifiedUtf8.decode_encode text⟩

theorem classAt (tracks : Tracks requests constants builder)
    (room : (Pool.ofConstants constants).size < 65536) {name : String} {index : UInt16}
    (found : builder.classes[name]? = some index) :
    (Pool.ofConstants constants).ClassAt index name := by
  obtain ⟨nameIndex, spelled, stands⟩ := tracks.class_stands name index found
  exact ⟨nameIndex, stands.holds room, textAt tracks room spelled⟩

theorem classInfo_spelled {name : String} {steps : List Step}
    (tracks : Tracks (asked name steps) constants builder)
    (room : (Pool.ofConstants constants).size < 65536) {nameIndex : UInt16}
    (listed : .classInfo nameIndex ∈ constants) :
    ∃ written, .className written ∈ asked name steps ∧
      (Pool.ofConstants constants).TextAt nameIndex written := by
  generalize kind : Constant.classInfo nameIndex = constant at listed
  cases tracks.accounted constant listed with
  | text known => cases kind
  | @className written _ known found =>
      cases kind
      exact ⟨written, (tracks.class_asked written).mp known, textAt tracks room found⟩
  | fresh wanted => exact absurd kind.symm ((fresh_of_asked wanted).2 nameIndex)

theorem exists_classInfo_iff {name : String} {steps : List Step}
    (tracks : Tracks (asked name steps) constants builder)
    (room : (Pool.ofConstants constants).size < 65536) {written : String} :
    (∃ nameIndex, .classInfo nameIndex ∈ constants ∧
      (Pool.ofConstants constants).TextAt nameIndex written) ↔
      .className written ∈ asked name steps := by
  constructor
  · rintro ⟨nameIndex, listed, spelled⟩
    obtain ⟨other, wanted, found⟩ := classInfo_spelled tracks room listed
    rwa [spelled.unique found]
  · intro wanted
    have known := (tracks.class_asked written).mpr wanted
    obtain ⟨index, found⟩ := Option.isSome_iff_exists.mp
      (Std.TreeMap.mem_iff_isSome_getElem?.mp known)
    obtain ⟨nameIndex, spelled, stands⟩ := tracks.class_stands written index found
    exact ⟨nameIndex, stands.mem, textAt tracks room spelled⟩

end Look

section Files

variable {name : String} {steps : List Step} {constants : List Constant}
  {answers : List (Option UInt16)} {builder : ClassBuilder}

theorem size_lt (fits : Fits name steps)
    (tracks : Tracks (asked name steps) constants (run name steps).2) :
    (Pool.ofConstants constants).size < 65536 := by
  have length : (run name steps).2.entries.size = constants.length := by
    rw [← Array.length_toList, tracks.entries, List.length_map]
  have bound := fits.indices
  rw [Pool.size_eq_count, tracks.wide]
  omega

theorem forall₂_mem_right {α β : Type} {related : α → β → Prop} {items : List α} {others : List β}
    (each : List.Forall₂ related items others) {other : β} (listed : other ∈ others) :
    ∃ item ∈ items, related item other := by
  induction each with
  | nil => cases listed
  | cons first _ ih =>
      cases listed with
      | head => exact ⟨_, List.mem_cons_self, first⟩
      | tail _ listed =>
          obtain ⟨item, inside, isRelated⟩ := ih listed
          exact ⟨item, List.mem_cons_of_mem _ inside, isRelated⟩

theorem forall₂_mem_left {α β : Type} {related : α → β → Prop} {items : List α} {others : List β}
    (each : List.Forall₂ related items others) {item : α} (listed : item ∈ items) :
    ∃ other ∈ others, related item other :=
  forall₂_mem_right (List.Forall₂.flip each) listed

theorem members_fit {written : List (String × String)} {members : List Member}
    (each : List.Forall₂ (IsMember builder) written members) (bound : written.length ≤ 65535) :
    Reader.CountFits Member.Fits members := by
  have length := each.length_eq
  refine ⟨by omega, ?_⟩
  intro member listed
  obtain ⟨_, -, -, -, bare⟩ := forall₂_mem_right each listed
  simp [Member.Fits, Reader.CountFits, bare]

theorem members_linked (tracks : Tracks (asked name steps) constants builder)
    (room : (Pool.ofConstants constants).size < 65536) {written : List (String × String)}
    {members : List Member} (each : List.Forall₂ (IsMember builder) written members)
    {member : Member} (listed : member ∈ members) : member.Linked (.ofConstants constants) := by
  obtain ⟨names, -, -, described, bare⟩ := forall₂_mem_right each listed
  exact ⟨⟨names.2, textAt tracks room described⟩, by simp [bare]⟩

theorem source_hasName (tracks : Tracks (asked name steps) constants builder)
    (room : (Pool.ofConstants constants).size < 65536) {text : String} {item : Attribute}
    (isSource : IsSource builder text item) :
    item.HasName (.ofConstants constants) Attribute.sourceFile :=
  ⟨((tracks.text_stands _ _ isSource.1).holds room).ne_zero, textAt tracks room isSource.1⟩

theorem file_fits (fits : Fits name steps) (keeps : Keeps name steps constants answers builder)
    (room : (Pool.ofConstants constants).size < 65536) : (file constants builder).Fits where
  constants := ⟨constants, rfl⟩
  pool := by
    refine ⟨room, ?_⟩
    simp only [file, Pool.constants_ofConstants]
    intro constant listed
    cases keeps.tracks.accounted constant listed with
    | @text text known =>
        have bound : (Utf8.encode text).length ≤ 65535 :=
          (keeps.tracks.text_asked text known).elim (fits.texts _) (fits.texts _)
        rw [Constant.Fits]
        omega
    | className known spelled => trivial
    | fresh wanted => exact (fresh_of_asked wanted).1
  interfaces := by
    have length := keeps.shows.interfaces.length_eq
    have bound := fits.interfaces
    simp only [file]
    omega
  fields := members_fit keeps.shows.fields fits.fields
  methods := members_fit keeps.shows.methods fits.methods
  attributes := by
    have length := keeps.shows.sources.length_eq
    have bound := fits.sources
    refine ⟨by simp only [file]; omega, ?_⟩
    intro item listed
    obtain ⟨_, -, -, index, -, payload⟩ := forall₂_mem_right keeps.shows.sources listed
    rw [Attribute.Fits, payload, u16Bytes, bigEndianBytes_length]
    omega

theorem file_not_annotated (keeps : Keeps name steps constants answers builder)
    (room : (Pool.ofConstants constants).size < 65536) {payload : List UInt8} :
    ¬ (file constants builder).AnnotatedBy payload := by
  intro annotated
  cases annotated with
  | @onClass item listed named =>
      obtain ⟨text, -, isSource⟩ := forall₂_mem_right keeps.shows.sources listed
      have same := (source_hasName keeps.tracks room isSource).2.unique named.2
      revert same
      decide
  | @onMember member item listed last =>
      have bare : member.attributes = [] := by
        cases List.mem_append.mp listed with
        | inl inFields => exact (forall₂_mem_right keeps.shows.fields inFields).choose_spec.2.2.2
        | inr inMethods => exact (forall₂_mem_right keeps.shows.methods inMethods).choose_spec.2.2.2
      obtain ⟨before, after, split, -⟩ := last
      simp [bare] at split

theorem file_resolves (keeps : Keeps name steps constants answers builder)
    (room : (Pool.ofConstants constants).size < 65536) : (file constants builder).Resolves where
  thisClass := ⟨name, classAt keeps.tracks room keeps.named⟩
  superClass := by
    cases parent : (outline steps).superClass with
    | none => exact .inl (keeps.shows.noSuperClass parent)
    | some name => exact .inr ⟨name, classAt keeps.tracks room (keeps.shows.superClass name parent)⟩
  interfaces := by
    intro index listed
    obtain ⟨name, -, found⟩ := forall₂_mem_right keeps.shows.interfaces listed
    exact ⟨name, classAt keeps.tracks room found⟩
  fields := fun _ listed => members_linked keeps.tracks room keeps.shows.fields listed
  methods := fun _ listed => members_linked keeps.tracks room keeps.shows.methods listed
  attributes := by
    intro item listed
    obtain ⟨text, -, isSource⟩ := forall₂_mem_right keeps.shows.sources listed
    exact .inr ⟨_, (source_hasName keeps.tracks room isSource).2⟩
  constants := by
    simp only [file, Pool.constants_ofConstants]
    intro nameIndex listed
    obtain ⟨written, -, found⟩ := classInfo_spelled keeps.tracks room listed
    exact ⟨written, found⟩
  source := by
    rintro item ⟨before, after, split, -⟩
    have listed : item ∈ builder.attributes.toList := by
      change item ∈ (file constants builder).attributes
      simp [split]
    obtain ⟨text, -, -, index, found, payload⟩ := forall₂_mem_right keeps.shows.sources listed
    exact ⟨index, [], by simp [payload], text, textAt keeps.tracks room found⟩
  annotations := fun _ annotated => absurd annotated (file_not_annotated keeps room)

theorem file_mentions_iff (keeps : Keeps name steps constants answers builder)
    (room : (Pool.ofConstants constants).size < 65536) {written : String} :
    (file constants builder).Mentions written ↔ Mentioned name steps written := by
  rw [ClassFile.mentions_iff]
  constructor
  · rintro ((⟨given, found⟩ | ⟨index, listed, found⟩) | ⟨member, listed, text, found, inside⟩ |
      ⟨nameIndex, listed, text, found, named⟩ | ⟨payload, annotated, -⟩)
    · cases parent : (outline steps).superClass with
      | none => exact absurd (keeps.shows.noSuperClass parent) given
      | some name =>
          rw [found.unique (classAt keeps.tracks room (keeps.shows.superClass name parent))]
          exact .superClass parent
    · obtain ⟨name, inside, known⟩ := forall₂_mem_right keeps.shows.interfaces listed
      rw [found.unique (classAt keeps.tracks room known)]
      exact .interface inside
    · have each := List.rel_append keeps.shows.fields keeps.shows.methods
      obtain ⟨names, written, -, described, -⟩ := forall₂_mem_right each listed
      rw [found.unique (textAt keeps.tracks room described)] at inside
      exact .descriptor written inside
    · simp only [file, Pool.constants_ofConstants] at listed
      exact .constant ((exists_classInfo_iff keeps.tracks room).mp ⟨nameIndex, listed, found⟩) named
    · exact absurd annotated (file_not_annotated keeps room)
  · intro mentioned
    cases mentioned with
    | superClass last =>
        have found := classAt keeps.tracks room (keeps.shows.superClass written last)
        exact .inl (.inl ⟨found.ne_zero, found⟩)
    | interface listed =>
        obtain ⟨index, inside, known⟩ := forall₂_mem_left keeps.shows.interfaces listed
        exact .inl (.inr ⟨index, inside, classAt keeps.tracks room known⟩)
    | descriptor listed inside =>
        have each := List.rel_append keeps.shows.fields keeps.shows.methods
        obtain ⟨member, placed, -, described, -⟩ := forall₂_mem_left each listed
        exact .inr (.inl ⟨member, placed, _, textAt keeps.tracks room described, inside⟩)
    | constant wanted named =>
        obtain ⟨nameIndex, listed, found⟩ := (exists_classInfo_iff keeps.tracks room).mpr wanted
        refine .inr (.inr (.inl ⟨nameIndex, ?_, _, found, named⟩))
        simpa only [file, Pool.constants_ofConstants] using listed

theorem file_sourceIs (keeps : Keeps name steps constants answers builder)
    (room : (Pool.ofConstants constants).size < 65536) :
    (file constants builder).SourceIs (outline steps).sources.head? := by
  -- Only the first source counts.
  have each := keeps.shows.sources
  generalize (outline steps).sources = sources at each
  generalize attributes : builder.attributes.toList = items at each
  cases each with
  | nil =>
      have none : (file constants builder).attributes = [] := attributes
      simp [ClassFile.SourceIs, none]
  | @cons text item texts items isSource others =>
      obtain ⟨index, found, payload⟩ := isSource.2
      exact ⟨item, index, [], ⟨[], items, attributes, source_hasName keeps.tracks room isSource,
        by simp⟩, by simp [payload], textAt keeps.tracks room found⟩

end Files

def Provides (pool : Pool) : Request → UInt16 → Prop
  | .text text, index => pool.Holds index (.utf8 (Utf8.encode text)) ∧ pool.TextAt index text
  | .className name, index => pool.ClassAt index name
  | .fresh constant, index => pool.Holds index constant

/-- A decoded class agrees with the steps that built it: the pool with the indices they gave, the
record with what they wrote. -/
structure Agrees (name : String) (steps : List Step) (answers : List (Option UInt16))
    (file : ClassFile) (record : ClassRecord) : Prop where
  provided : List.Forall₂ (fun step => Option.Rel (Provides file.pool) step.wanted?) steps answers
  same_text : ∀ (first second : Nat) (text other : String), steps[first]? = some (.utf8 text) →
    steps[second]? = some (.utf8 other) → (answers[first]? = answers[second]? ↔ text = other)
  same_class : ∀ (first second : Nat) (name other : String),
    steps[first]? = some (.classInfo name) → steps[second]? = some (.classInfo other) →
    (answers[first]? = answers[second]? ↔ name = other)
  wide : ∀ index constant, file.pool.Holds index constant → constant.isWide = true →
    file.pool.slots[index.toNat + 1]? = some none
  named : record.name = ClassFile.dotted name
  minor : record.minor = 0
  major : record.major = (outline steps).major
  access : file.access = (outline steps).access
  isInterface : record.isInterface = (outline steps).access.toNat.testBit 9
  isAbstract : record.isAbstract =
    ((outline steps).access.toNat.testBit 10 && !(outline steps).access.toNat.testBit 9)
  sourceFile : record.sourceFile = (outline steps).sources.head?
  references : ∀ reference, reference ∈ record.references.toList ↔
    reference ≠ ClassFile.dotted name ∧
      ∃ written, Mentioned name steps written ∧ ClassFile.normalize? written = some reference

section Agreement

variable {name : String} {steps : List Step} {constants : List Constant}
  {answers : List (Option UInt16)} {builder : ClassBuilder}

theorem fulfilled_provides (tracks : Tracks (asked name steps) constants builder)
    (room : (Pool.ofConstants constants).size < 65536) {request : Request} {index : UInt16}
    (fulfilled : Fulfilled constants builder request index) :
    Provides (.ofConstants constants) request index := by
  cases request with
  | text text =>
      have stands := tracks.text_stands text index fulfilled
      exact ⟨stands.holds room, textAt tracks room fulfilled⟩
  | className name => exact classAt tracks room fulfilled
  | fresh constant => exact fulfilled.holds room

theorem answered_at (each : List.Forall₂ (Answered constants builder) steps answers) {place : Nat}
    {step : Step} {request : Request} (taken : steps[place]? = some step)
    (wants : step.wanted? = some request) :
    ∃ index, answers[place]? = some (some index) ∧ Fulfilled constants builder request index := by
  induction each generalizing place with
  | nil => simp at taken
  | @cons first answer _ _ answered _ ih =>
      cases place with
      | zero =>
          simp only [List.getElem?_cons_zero, Option.some.injEq] at taken
          rw [taken, Answered, wants] at answered
          cases answered with
          | some fulfilled => exact ⟨_, rfl, fulfilled⟩
      | succ place => exact ih (by simpa using taken)

/-- Two steps that ask for the same kind of thing under a name each get the same answer for the
same name, if the kind has one index for each name and one name for each index. -/
theorem same_answer_iff (each : List.Forall₂ (Answered constants builder) steps answers)
    (step : String → Step) (request : String → Request)
    (wants : ∀ name, (step name).wanted? = some (request name))
    (one_name : ∀ {index name other}, Fulfilled constants builder (request name) index →
      Fulfilled constants builder (request other) index → name = other)
    (one_index : ∀ {name index other}, Fulfilled constants builder (request name) index →
      Fulfilled constants builder (request name) other → index = other)
    {first second : Nat} {name other : String} (one : steps[first]? = some (step name))
    (two : steps[second]? = some (step other)) :
    answers[first]? = answers[second]? ↔ name = other := by
  obtain ⟨index, firstAnswer, found⟩ := answered_at each one (wants name)
  obtain ⟨otherIndex, secondAnswer, otherFound⟩ := answered_at each two (wants other)
  rw [firstAnswer, secondAnswer, Option.some.injEq, Option.some.injEq]
  constructor
  · intro same
    rw [same] at found
    exact one_name found otherFound
  · intro same
    rw [same] at found
    exact one_index found otherFound

theorem file_agrees (keeps : Keeps name steps constants answers builder)
    (room : (Pool.ofConstants constants).size < 65536) {origin : Option String}
    {record : ClassRecord} (describes : (file constants builder).Describes {} origin record) :
    Agrees name steps answers (file constants builder) record := by
  have named : record.name = ClassFile.dotted name := by
    obtain ⟨written, found, named⟩ := describes.name
    rw [named, found.unique (classAt keeps.tracks room keeps.named)]
  have provided : List.Forall₂ (fun step => Option.Rel (Provides (.ofConstants constants))
      step.wanted?) steps answers := by
    refine keeps.answered.imp fun step answer answered => ?_
    unfold Answered at answered
    generalize step.wanted? = wanted at answered ⊢
    cases answered with
    | some fulfilled => exact .some (fulfilled_provides keeps.tracks room fulfilled)
    | none => exact .none
  have sourceFile : record.sourceFile = (outline steps).sources.head? := by
    have first := ClassFile.sourceFile_eq_ok_iff.mpr (file_sourceIs keeps room)
    have second := ClassFile.sourceFile_eq_ok_iff.mpr describes.source
    exact Except.ok.inj (second.symm.trans first)
  exact {
    provided
    named
    sourceFile
    same_text := fun _ _ _ _ => same_answer_iff keeps.answered Step.utf8 Request.text (fun _ => rfl)
      (fun found other => (textAt keeps.tracks room found).unique (textAt keeps.tracks room other))
      (fun found other => Option.some.inj (found.symm.trans other))
    same_class := fun _ _ _ _ => same_answer_iff keeps.answered Step.classInfo Request.className
      (fun _ => rfl)
      (fun found other => (classAt keeps.tracks room found).unique (classAt keeps.tracks room other))
      (fun found other => Option.some.inj (found.symm.trans other))
    wide := fun _ _ holds wide => Pool.slot_after_wide holds wide
    minor := describes.minor
    major := describes.major.trans keeps.shows.major
    access := keeps.shows.access
    isInterface := by rw [describes.isInterface, file, keeps.shows.access]
    isAbstract := by rw [describes.isAbstract, file, keeps.shows.access]
    references := by
      intro reference
      simp only [describes.references reference, ClassFile.RefersTo, file_mentions_iff keeps room,
        NameFilter.accepts_default, named, and_true]
      exact and_comm }

end Agreement

/-- The image of a run that fits is decoded, and to what its steps wrote. -/
theorem image_decodes_to_steps {σ : Type} (name : String) (steps : List Step)
    (fits : Fits name steps) (origin : Option String) (state : σ) :
    ∃ file record,
      ClassFile.read ⟨0, (run name steps).2.image⟩ =
        .ok file ⟨(run name steps).2.image.length, []⟩ ∧
      (({} : Decoder σ).decode (run name steps).2.image origin state).1 = .ok record ∧
      record.origin = origin ∧ Agrees name steps (run name steps).1 file record := by
  obtain ⟨constants, keeps⟩ := run_keeps name steps fits.plain
  have room := size_lt fits keeps.tracks
  have fileFits := file_fits fits keeps room
  have resolves := file_resolves keeps room
  obtain ⟨record, recorded⟩ := ClassFile.toRecord_succeeds resolves {} origin
  have describes := (ClassFile.toRecord_inverts resolves.toLinked recorded).2
  have accepted := ClassFile.read_exact.accepts ⟨fileFits, resolves.toLinked⟩ 0 []
  rw [List.append_nil, Nat.zero_add] at accepted
  rw [image_eq_encode keeps.tracks]
  refine ⟨_, record, accepted, ?_, describes.origin, file_agrees keeps room describes⟩
  rw [Decoder.decode_fst, ClassFile.decode_eq_ok_iff]
  exact ⟨_, [], (List.append_nil _).symm, fileFits, resolves.toLinked, recorded⟩

def sampleSteps : List Step :=
  [.long 5, .utf8 "b/B", .classInfo "b/B", .utf8 "b/B", .classInfo "[Lc/C;", .classInfo "b/B",
    .integer (-1), .double 0, .methodHandle 1 3, .major 50, .major 55, .access 0x0401,
    .superClass "x/Old", .superClass "java/lang/Object", .interface "d/D;", .classReference "a/A",
    .field "f" "[[Le/E;" none, .method "b/B" "(ILf/F;)V" none, .sourceFile "A.java",
    .sourceFile "B.java"]

theorem image_decodes_to_steps_sample :
    Fits "a/A" sampleSteps ∧
      (run "a/A" sampleSteps).1.take 6 = [some 3, some 5, some 6, some 5, some 8, some 6] ∧
      ∃ file record,
        ClassFile.read ⟨0, (run "a/A" sampleSteps).2.image⟩ =
          .ok file ⟨(run "a/A" sampleSteps).2.image.length, []⟩ ∧
        (({} : Decoder Unit).decode (run "a/A" sampleSteps).2.image none ()).1 = .ok record ∧
        record.name = "a.A" ∧
        record.references =
          .ofList ["b.B", "c.C", "d.D", "e.E", "f.F", "java.lang.Object", "x.Old"] ∧
        record.origin = none ∧ Agrees "a/A" sampleSteps (run "a/A" sampleSteps).1 file record := by
  have fits : Fits "a/A" sampleSteps := by
    constructor <;> decide +kernel
  obtain ⟨file, record, read, decoded, origin, agrees⟩ :=
    image_decodes_to_steps "a/A" sampleSteps fits none ()
  have found : (({} : Decoder Unit).decode (run "a/A" sampleSteps).2.image none ()).1 =
      .ok { name := "a.A", major := 55, sourceFile := some "A.java", isAbstract := true,
            references := .ofList
              ["b.B", "c.C", "d.D", "e.E", "f.F", "java.lang.Object", "x.Old"] } := by
    decide +kernel
  obtain rfl := Except.ok.inj (decoded.symm.trans found)
  exact ⟨fits, by decide +kernel, file, _, read, decoded, rfl, rfl, origin, agrees⟩

end ClassBuilder

end ClassCoupling
