import ClassCoupling.Proofs.BatchAccounts
import ClassCoupling.Proofs.ClassPaths
import ClassCoupling.Proofs.FilteredRuns
import ClassCoupling.Proofs.InputCollection

/-!
Class files at the places that the names of their classes give them, in a directory or in an
archive. The files are the same, but what the filter sees of their names is not. From the
archive every class comes that the filter accepts, and from the directory those
among them that are not veiled.
-/
namespace ClassCoupling

structure ClassImage where
  name : String
  bytes : List UInt8
  isDotted : IsDotted name
  decodes : ∃ record, ClassFile.decode {} none bytes = .ok record ∧ record.name = name

theorem ClassImage.exists_record (image : ClassImage) (filter : NameFilter)
    (origin : Option String) :
    ∃ record, ClassFile.decode filter origin image.bytes = .ok record ∧
      record.name = image.name := by
  obtain ⟨record, decoded, named⟩ := image.decodes
  have everything : ∀ name, filter.accepts name = true → ({} : NameFilter).accepts name = true :=
    fun name _ => NameFilter.accepts_default name
  rw [ClassFile.decode_of_stricter everything, ClassFile.decode_of_origin {} none origin, decoded]
  exact ⟨_, rfl, named⟩

/-- A directory holds some class files, each where the name of its class leads, and no other
file. None of them is ignored, and each can be read. -/
structure LiesIn (volume : Volume) (root : String) (place : Place) (images : List ClassImage) :
    Prop where
  found : volume.find root = .ok (place, .directory)
  walked : Path.components root ≠ [.name "-"]
  only : ∀ names bytes, volume.items[place ++ names]? = some (.file bytes) →
    ∃ image ∈ images, names = stepsTo image.name
  all : ∀ image ∈ images, volume.items[place ++ stepsTo image.name]? = some (.file image.bytes)
  notIgnored : ∀ image ∈ images,
    (volume.searchBelow root place).finds (stepsTo image.name) = true
  readable : ∀ image ∈ images, volume.read .isADirectory
    ((volume.searchBelow root place).pathOf (stepsTo image.name)) = .ok image.bytes

/-- Members that are some class files, each under the name that its class gives it, and
directories. All of them can be opened, and the class files can be read. -/
structure Archive.Packs (images : List ClassImage) (members : List Member) : Prop where
  opens : ∀ member ∈ members, member.problem = none
  only : ∀ member ∈ members, member.isDirectory = true ∨
    ∃ image ∈ images, member.name = memberNameOf image.name ∧ member.content () = .ok image.bytes
  all : ∀ image ∈ images, ∃ member ∈ members,
    member.name = memberNameOf image.name ∧ member.content () = .ok image.bytes

structure PackedIn (volume : Volume) (path : String) (images : List ClassImage) : Prop where
  isArchive : Input.classify {} path = some .archive
  opens : ∃ bytes headers, volume.read .noDevice path = .ok bytes ∧
    Archive.Header.readAll bytes.toArray = .ok headers ∧
    Archive.Packs images (headers.map (Archive.Member.ofHeader bytes.toArray))

def Analysis.decodedNames (analysis : Analysis) : List String :=
  analysis.graph.found.map ClassRecord.name

section Runs

variable {σ : Type} (analyzer : Analyzer σ) (volume : Volume)

theorem Analyzer.records_contributed (inputs : List Input) :
    (analyzer.contributed volume inputs).records =
      inputs.flatMap fun input => (analyzer.contributed volume [input]).records := by
  simp only [contributed, contribution_singleton]
  simp [contribution, openAll, Contribution.concat, List.flatMap_map]

theorem Analyzer.mem_decodedNames_analyze_iff {name : String} :
    name ∈ (analyzer.analyze volume).decodedNames ↔ analyzer.filter.accepts name = true ∧
      ∃ input ∈ analyzer.inputs volume,
        name ∈ (analyzer.contributed volume [input]).records.map ClassRecord.name := by
  rw [analyze, analyzeInputs_eq, Analysis.decodedNames, Graph.found_assemble, Graph.kept,
    mem_map_firstBy, accepted, records_contributed]
  simp only [List.mem_map, List.mem_filter, List.mem_flatMap]
  constructor
  · rintro ⟨record, ⟨⟨input, listed, contributed⟩, accepted⟩, rfl⟩
    exact ⟨accepted, input, listed, record, contributed, rfl⟩
  · rintro ⟨accepted, input, listed, record, contributed, rfl⟩
    exact ⟨record, ⟨⟨input, listed, contributed⟩, accepted⟩, rfl⟩

theorem Analyzer.names_contributed_loose (image : ClassImage) {path : String}
    (readable : volume.read .isADirectory path = .ok image.bytes) :
    (analyzer.contributed volume [⟨path, .classFile⟩]).records.map ClassRecord.name =
      [image.name] := by
  have settles := @contributed_classFile σ analyzer volume ⟨path, .classFile⟩ rfl
  obtain ⟨record, decoded, named⟩ := image.exists_record analyzer.filter none
  have file : volume.decodeFile analyzer.filter path = .ok record := by
    rw [Volume.decodeFile, readable]
    exact decoded
  obtain ⟨same, success, contributes⟩ | ⟨fault, failure, -⟩ := settles.cases
  · rw [contributes, ← named]
    rw [file] at success
    cases success
    rfl
  · rw [file] at failure
    cases failure

end Runs

section Loose

variable {σ : Type} {volume : Volume} {root : String} {place : Place} {images : List ClassImage}

theorem LiesIn.mem_decodedNames_iff (lies : LiesIn volume root place images)
    (analyzer : Analyzer σ) {name : String} :
    name ∈ ({ analyzer with paths := [root] }.analyze volume).decodedNames ↔
      (∃ image ∈ images, image.name = name) ∧ analyzer.filter.accepts name = true ∧
        (analyzer.filter.includeInner = true ∨ ¬ Veiled name) := by
  rw [Analyzer.mem_decodedNames_analyze_iff]
  simp only [Analyzer.inputs, mem_collectInputs_directory_iff lies.found lies.walked]
  constructor
  · rintro ⟨accepted, _, ⟨names, bytes, present, finds, kind, classified, rfl⟩, contributed⟩
    obtain ⟨image, listed, steps⟩ := lies.only names bytes present
    rw [steps, image.isDotted.classify_pathOf] at classified
    split at classified
    case isFalse => cases classified
    case isTrue passes =>
      cases classified
      rw [steps, Analyzer.names_contributed_loose _ _ image (lies.readable image listed),
        List.mem_singleton] at contributed
      subst contributed
      exact ⟨⟨image, listed, rfl⟩, accepted, (acceptsInner_simpleName_iff accepted).mp passes⟩
  · rintro ⟨⟨image, listed, rfl⟩, accepted, unveiled⟩
    have passes := (acceptsInner_simpleName_iff accepted).mpr unveiled
    refine ⟨accepted, _, ⟨stepsTo image.name, image.bytes, lies.all image listed,
      lies.notIgnored image listed, .classFile, ?_, rfl⟩, ?_⟩
    · rw [image.isDotted.classify_pathOf, if_pos passes]
    · rw [Analyzer.names_contributed_loose _ _ image (lies.readable image listed)]
      exact List.mem_singleton_self _

end Loose

namespace Archive

section Members

variable {member : Member} {image : ClassImage} (named : member.name = memberNameOf image.name)

include named

theorem Member.isDirectory_eq_false : member.isDirectory = false := by
  have last : member.name.toList.getLast? = some 's' := by
    rw [named, toList_memberNameOf, List.getLast?_append]
    rfl
  rw [isDirectory, last]
  decide

theorem Member.isClassName_eq_true : isClassName member.name = true := by
  rw [isClassName, named, toList_memberNameOf, List.map_append, List.isSuffixOf_iff_suffix]
  exact List.suffix_append _ _

theorem Member.names_alone (content : member.content () = .ok image.bytes) (filter : NameFilter)
    (input : Input) :
    (member.alone filter input).records.map ClassRecord.name =
      if filter.acceptsInner image.name then [image.name] else [] := by
  obtain ⟨record, decoded, same⟩ := image.exists_record filter input.archiveName
  have passes : filter.acceptsInner member.name = filter.acceptsInner image.name := by
    rw [NameFilter.acceptsInner, NameFilter.acceptsInner, named, image.isDotted.isInner_memberName]
  rw [alone, isDirectory_eq_false named, isClassName_eq_true named, passes]
  cases filter.acceptsInner image.name with
  | false => rfl
  | true => simp [content, Contribution.ofUnit, decoded, same]

end Members

theorem Packs.sound {images : List ClassImage} {members : List Member}
    (packs : Packs images members) (filter : NameFilter) :
    ∀ member ∈ members, ∀ problem, ¬ member.Fails filter problem := by
  intro member listed problem fails
  cases fails with
  | opening closed =>
      rw [packs.opens member listed] at closed
      cases closed
  | reading opens wanted unreadable =>
      obtain isDirectory | ⟨image, -, -, content⟩ := packs.only member listed
      · rw [wanted.isFile] at isDirectory
        cases isDirectory
      · rw [content] at unreadable
        cases unreadable

theorem Packs.of_listing {images : List ClassImage} {members : List Member}
    (listing : images.map (fun image => (memberNameOf image.name, none, .ok image.bytes)) =
      members.map fun member => (member.name, member.problem, member.content ())) :
    Packs images members := by
  have imageOf (member : Member) (among : member ∈ members) : ∃ image ∈ images,
      (memberNameOf image.name, none, .ok image.bytes) =
        (member.name, member.problem, member.content ()) := by
    rw [← List.mem_map, listing]
    exact List.mem_map_of_mem among
  have memberOf (image : ClassImage) (packed : image ∈ images) : ∃ member ∈ members,
      (member.name, member.problem, member.content ()) =
        (memberNameOf image.name, none, .ok image.bytes) := by
    rw [← List.mem_map, ← listing]
    exact List.mem_map_of_mem packed
  simp only [Prod.mk.injEq] at imageOf memberOf
  constructor
  case opens =>
    intro member among
    obtain ⟨image, -, -, opens, -⟩ := imageOf member among
    exact opens.symm
  case only =>
    intro member among
    obtain ⟨image, packed, named, -, content⟩ := imageOf member among
    exact .inr ⟨image, packed, named.symm, content.symm⟩
  case all =>
    intro image packed
    obtain ⟨member, among, named, -, content⟩ := memberOf image packed
    exact ⟨member, among, named, content⟩

theorem contributed_of_packs {σ : Type} {analyzer : Analyzer σ} {volume : Volume} {path : String}
    {bytes : List UInt8} {headers : List Header} {images : List ClassImage}
    (readable : volume.read .noDevice path = .ok bytes)
    (listed : Header.readAll bytes.toArray = .ok headers)
    (packs : Packs images (headers.map (Member.ofHeader bytes.toArray))) :
    (analyzer.contributed volume [⟨path, .archive⟩]).records =
      (headers.map (Member.ofHeader bytes.toArray)).flatMap fun member =>
        (member.alone analyzer.filter ⟨path, .archive⟩).records := by
  obtain ⟨outcomes, opened, contributes⟩ := mapM_outcome_of_sound (packs.sound analyzer.filter)
  have contents : volume.archiveContents analyzer.filter path = .ok (.ofOutcomes outcomes) := by
    rw [Volume.archiveContents, readable]
    simp only [read_of_listed listed, Contents.ofMembers, opened]
    rfl
  have input :=
    @Analyzer.openInput_of_contents volume analyzer.filter ⟨path, .archive⟩ _ rfl contents
  rw [Analyzer.contributed, Analyzer.contribution_singleton, input, ofOpened_ofOutcomes,
    ← contributes, Contribution.concat, List.flatMap_map]

end Archive

theorem Input.classify_archive {path : String} (isArchive : classify {} path = some .archive)
    (filter : NameFilter) : classify filter path = some .archive := by
  rw [classify] at isArchive ⊢
  cases found : Path.extension? path with
  | none => simp [found] at isArchive
  | some ending =>
      by_cases isClass : String.ofList (ending.toList.map Char.toLower) = "class"
      · cases file : Path.fileName? path <;>
          simp [found, isClass, file, NameFilter.acceptsInner] at isArchive
      · simpa [found, isClass] using isArchive

theorem Volume.find_of_read {volume : Volume} {onDirectory : AccessFault} {path : String}
    {bytes : List UInt8} (readable : volume.read onDirectory path = .ok bytes) :
    ∃ place, volume.find path = .ok (place, .file bytes) := by
  obtain ⟨⟨place, item⟩, found, content⟩ := except_bind_eq_ok_iff.mp readable
  cases item with
  | file stored =>
      cases content
      exact ⟨place, found⟩
  | directory => cases content
  | link target => cases content

section Packed

variable {σ : Type} {volume : Volume} {path : String} {images : List ClassImage}

theorem PackedIn.mem_decodedNames_iff (packed : PackedIn volume path images)
    (analyzer : Analyzer σ) {name : String} :
    name ∈ ({ analyzer with paths := [path] }.analyze volume).decodedNames ↔
      (∃ image ∈ images, image.name = name) ∧ analyzer.filter.accepts name = true := by
  obtain ⟨bytes, headers, readable, listed, packs⟩ := packed.opens
  obtain ⟨place, found⟩ := Volume.find_of_read readable
  have classified := Input.classify_archive packed.isArchive analyzer.filter
  have collected (input : Input) :
      input ∈ ({ analyzer with paths := [path] } : Analyzer σ).inputs volume ↔
        input = ⟨path, .archive⟩ := by
    simp only [Analyzer.inputs, mem_collectInputs_file_iff found, classified, Option.some.injEq,
      exists_eq_left']
  rw [Analyzer.mem_decodedNames_analyze_iff]
  simp only [collected, exists_eq_left, Archive.contributed_of_packs readable listed packs,
    List.map_flatMap, List.mem_flatMap]
  constructor
  · rintro ⟨accepted, member, among, contributed⟩
    obtain isDirectory | ⟨image, packedImage, named, content⟩ := packs.only member among
    · simp [Archive.Member.alone, isDirectory] at contributed
    · rw [Archive.Member.names_alone named content] at contributed
      split at contributed
      case isTrue =>
        rw [List.mem_singleton] at contributed
        exact ⟨⟨image, packedImage, contributed.symm⟩, accepted⟩
      case isFalse => cases contributed
  · rintro ⟨⟨image, packedImage, rfl⟩, accepted⟩
    obtain ⟨member, among, named, content⟩ := packs.all image packedImage
    have passes : analyzer.filter.acceptsInner image.name = true := by
      rw [NameFilter.accepts, Bool.and_eq_true] at accepted
      exact accepted.2
    refine ⟨accepted, member, among, ?_⟩
    rw [Archive.Member.names_alone named content, if_pos passes]
    exact List.mem_singleton_self _

end Packed

structure TreatedAlike (filter : NameFilter) (images : List ClassImage)
    (loose packed : List String) : Prop where
  packed_iff : ∀ name, name ∈ packed ↔
    (∃ image ∈ images, image.name = name) ∧ filter.accepts name = true
  loose_iff : ∀ name, name ∈ loose ↔
    name ∈ packed ∧ (filter.includeInner = true ∨ ¬ Veiled name)
  same_iff : (∀ name, name ∈ loose ↔ name ∈ packed) ↔
    filter.includeInner = true ∨ ∀ name ∈ packed, ¬ Veiled name

namespace Analyzer

/-- The checks before decoding keep every accepted class, except for a veiled one in a loose
file. So the same class files give the same classes in a directory and in an archive
unless an accepted one of them is veiled. -/
theorem accepted_classes_pass_unless_veiled {σ : Type} (analyzer : Analyzer σ) :
    (∀ name, IsDotted name → analyzer.filter.accepts name = true →
      PassesNameChecks analyzer.filter name) ∧
    ∀ (images : List ClassImage) (files : Volume) (root : String) (place : Place) (shelf : Volume)
      (path : String), LiesIn files root place images → PackedIn shelf path images →
      TreatedAlike analyzer.filter images
        ({ analyzer with paths := [root] }.analyze files).decodedNames
        ({ analyzer with paths := [path] }.analyze shelf).decodedNames := by
  refine ⟨fun name => IsDotted.passesNameChecks, ?_⟩
  intro images files root place shelf path lies packed
  have loose_iff (name : String) :
      name ∈ ({ analyzer with paths := [root] }.analyze files).decodedNames ↔
        name ∈ ({ analyzer with paths := [path] }.analyze shelf).decodedNames ∧
          (analyzer.filter.includeInner = true ∨ ¬ Veiled name) := by
    rw [lies.mem_decodedNames_iff, packed.mem_decodedNames_iff, and_assoc]
  refine ⟨fun name => packed.mem_decodedNames_iff analyzer, loose_iff, ?_⟩
  simp only [loose_iff, and_iff_left_iff_imp]
  cases analyzer.filter.includeInner with
  | true => simp
  | false => simp

theorem accepted_class_dropped_before_decoding :
    IsDotted "$p.A$B" ∧ memberNameOf "$p.A$B" = "$p/A$B.class" ∧
      ({ includeInner := false } : NameFilter).accepts "$p.A$B" = true ∧
      Input.classify { includeInner := false } "$p/A$B.class" = none := by
  refine ⟨⟨?_, ?_⟩, ?_, ?_, ?_⟩
  · decide
  · decide
  · decide
  · decide
  · decide

def veiledImage : ClassImage where
  name := "$p.A$B"
  bytes := (ClassBuilder.run "$p/A$B" []).2.image
  isDotted := by constructor <;> decide
  decodes := ⟨{ name := "$p.A$B", major := 52 }, by decide +kernel, rfl⟩

def drawer : Volume where
  items := (({} : Std.TreeMap Place Item).insert ["$p"] .directory).insert ["$p", "A$B.class"]
    (.file veiledImage.bytes)

def veiledArchive : List UInt8 :=
  [80, 75, 3, 4, 20, 0, 0, 0, 0, 0, 0, 0, 33, 0, 202, 207, 149, 79, 36, 0, 0, 0, 36, 0, 0, 0, 12,
    0, 0, 0, 36, 112, 47, 65, 36, 66, 46, 99, 108, 97, 115, 115, 202, 254, 186, 190, 0, 0, 0, 52,
    0, 3, 1, 0, 6, 36, 112, 47, 65, 36, 66, 7, 0, 1, 0, 1, 0, 2, 0, 0, 0, 0, 0, 0, 0, 0, 0, 0, 80,
    75, 1, 2, 20, 3, 20, 0, 0, 0, 0, 0, 0, 0, 33, 0, 202, 207, 149, 79, 36, 0, 0, 0, 36, 0, 0, 0,
    12, 0, 0, 0, 0, 0, 0, 0, 0, 0, 0, 0, 128, 1, 0, 0, 0, 0, 36, 112, 47, 65, 36, 66, 46, 99, 108,
    97, 115, 115, 80, 75, 5, 6, 0, 0, 0, 0, 1, 0, 1, 0, 58, 0, 0, 0, 78, 0, 0, 0, 0, 0]

theorem read_drawer :
    drawer.read .isADirectory "./$p/A$B.class" = .ok veiledImage.bytes := by
  have root : drawer.item? [] = some .directory := rfl
  have above : drawer.item? ["$p"] = some .directory := rfl
  have present : drawer.item? ["$p", "A$B.class"] = some (.file veiledImage.bytes) := rfl
  have package : Volume.OneStep "$p" := by constructor <;> decide +kernel
  have file : Volume.OneStep "A$B.class" := by constructor <;> decide +kernel
  have relative : Path.isRooted "./$p/A$B.class" = false := by decide +kernel
  have size : ¬ 4096 ≤ "./$p/A$B.class".utf8ByteSize := by decide +kernel
  have steps : Volume.steps "./$p/A$B.class" = [".", "$p", "A$B.class"] := by decide +kernel
  have place : drawer.resolve {} "./$p/A$B.class" = .ok ["$p", "A$B.class"] := by
    simp [Volume.resolve, relative, size, steps, show drawer.current = [] from rfl, Volume.walk,
      root, above, present, Nat.not_lt.mpr package.short, Nat.not_lt.mpr file.short]
  simp only [Volume.read, Volume.find, place, bind, Except.bind, present]
  rfl

theorem find_drawer : drawer.find "." = .ok ([], .directory) := by
  have root : drawer.item? [] = some .directory := rfl
  have top : drawer.current = [] := rfl
  have steps : Volume.steps "." = ["."] := by decide +kernel
  have relative : Path.isRooted "." = false := by decide +kernel
  have size : ¬ 4096 ≤ ".".utf8ByteSize := by decide +kernel
  have place : drawer.resolve {} "." = .ok [] := by
    simp [Volume.resolve, steps, relative, size, top, Volume.walk, root]
  simp only [Volume.find, place, bind, Except.bind, root]
  rfl

theorem liesIn_drawer : LiesIn drawer "." [] [veiledImage] := by
  have steps : stepsTo veiledImage.name = ["$p", "A$B.class"] := by decide +kernel
  constructor
  case found => exact find_drawer
  case walked => decide +kernel
  case only =>
    intro names bytes present
    have items : drawer.items.toList =
        [(["$p"], .directory), (["$p", "A$B.class"], .file veiledImage.bytes)] := rfl
    rw [List.nil_append, ← Std.TreeMap.mem_toList_iff_getElem?_eq_some, items] at present
    obtain ⟨rfl, -⟩ : names = ["$p", "A$B.class"] ∧ bytes = veiledImage.bytes := by
      simpa using present
    exact ⟨veiledImage, List.mem_singleton_self _, steps.symm⟩
  case all =>
    rw [List.forall_mem_singleton, steps]
    rfl
  case notIgnored =>
    rw [List.forall_mem_singleton, steps]
    decide +kernel
  case readable =>
    rw [List.forall_mem_singleton, steps]
    exact read_drawer

theorem packedIn_shelf : PackedIn (shelf veiledArchive) "a.jar" [veiledImage] := by
  have members : (Archive.Header.readAll veiledArchive.toArray).map (fun headers =>
      (headers.map (Archive.Member.ofHeader veiledArchive.toArray)).map fun member =>
        (member.name, member.problem, member.content ())) =
      .ok [("$p/A$B.class", none, .ok (ClassBuilder.run "$p/A$B" []).2.image)] := by
    decide +kernel
  have named : memberNameOf veiledImage.name = "$p/A$B.class" := by decide
  obtain ⟨headers, listed, listing⟩ := except_map_eq_ok_iff.mp members
  refine ⟨by decide +kernel, _, headers, read_shelf veiledArchive, listed, .of_listing ?_⟩
  rw [← listing, List.map_singleton, named]
  rfl

theorem accepted_classes_pass_unless_veiled_drawer :
    let analyzer : Analyzer Unit := { filter := { includeInner := false } }
    let loose := ({ analyzer with paths := ["."] }.analyze drawer).decodedNames
    let packed := ({ analyzer with paths := ["a.jar"] }.analyze (shelf veiledArchive)).decodedNames
    IsDotted veiledImage.name ∧ analyzer.filter.accepts veiledImage.name = true ∧
      PassesNameChecks analyzer.filter veiledImage.name ∧ LiesIn drawer "." [] [veiledImage] ∧
      PackedIn (shelf veiledArchive) "a.jar" [veiledImage] ∧
      TreatedAlike analyzer.filter [veiledImage] loose packed ∧ "$p.A$B" ∈ packed ∧
      "$p.A$B" ∉ loose := by
  intro analyzer loose packed
  have accepted : analyzer.filter.accepts veiledImage.name = true := by decide
  have veiled : Veiled veiledImage.name := by constructor <;> decide +kernel
  obtain ⟨passes, treated⟩ := accepted_classes_pass_unless_veiled analyzer
  have alike := treated _ _ _ _ _ _ liesIn_drawer packedIn_shelf
  refine ⟨veiledImage.isDotted, accepted, passes _ veiledImage.isDotted accepted, liesIn_drawer,
    packedIn_shelf, alike, ?_, ?_⟩
  · exact (alike.packed_iff "$p.A$B").mpr ⟨⟨veiledImage, List.mem_singleton_self _, rfl⟩, accepted⟩
  · intro comes
    obtain ⟨-, inner | unveiled⟩ := (alike.loose_iff "$p.A$B").mp comes
    · cases inner
    · exact unveiled veiled

end Analyzer

end ClassCoupling
