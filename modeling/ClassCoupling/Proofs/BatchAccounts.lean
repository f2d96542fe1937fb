import ClassCoupling.ClassFile.Builder
import ClassCoupling.Proofs.ArchiveMembers
import ClassCoupling.Proofs.ClassDecoding
import Mathlib.Data.List.Forall2

/-!
What a run accounts for. Every class file, loose or in an archive, leaves one class or one
failure under its own label. Every other file in an archive leaves one skipped entry, and
an archive that cannot be read leaves one failure. What several inputs
leave is what each leaves by itself, put together in order, so a run over two lists
of inputs is made of the runs over each.
-/
namespace ClassCoupling

/-- A class file leaves its class, or else one failure under its label. -/
inductive Contribution.Settles (label : String) : Except Fault ClassRecord → Contribution → Prop
  | decoded (record : ClassRecord) : Settles label (.ok record) { records := [record] }
  | failed (fault : Fault) : Settles label (.error fault) { failures := [⟨label, fault⟩] }

theorem Contribution.Settles.cases {label : String} {verdict : Except Fault ClassRecord}
    {part : Contribution} (settles : Settles label verdict part) :
    (∃ record, verdict = .ok record ∧ part = { records := [record] }) ∨
      ∃ fault, verdict = .error fault ∧ part = { failures := [⟨label, fault⟩] } := by
  cases settles with
  | decoded record => exact .inl ⟨record, rfl, rfl⟩
  | failed fault => exact .inr ⟨fault, rfl, rfl⟩

theorem Contribution.ofUnit_settles (filter : NameFilter) (unit : ClassUnit) :
    Settles unit.label (ClassFile.decode filter unit.origin unit.bytes) (ofUnit filter unit) := by
  rw [ofUnit]
  cases ClassFile.decode filter unit.origin unit.bytes with
  | ok record => exact .decoded record
  | error fault => exact .failed fault

theorem Contribution.ofOpened_singleton (filter : NameFilter) (unit : ClassUnit) :
    ofOpened filter { units := [unit] } = ofUnit filter unit := by
  rw [ofOpened, List.map_singleton, ofUnit]
  cases ClassFile.decode filter unit.origin unit.bytes with
  | ok record => rfl
  | error fault => rfl

theorem ClassFile.origin_of_decode {filter : NameFilter} {origin : Option String}
    {bytes : List UInt8} {record : ClassRecord}
    (decoded : decode filter origin bytes = .ok record) : record.origin = origin := by
  obtain ⟨file, trailing, -, -, linked, recorded⟩ := decode_eq_ok_iff.mp decoded
  exact (toRecord_inverts linked recorded).2.origin

theorem forall₂_of_mapM {α β ε : Type} {visit : α → Except ε β} {items : List α} {results : List β}
    (done : items.mapM visit = .ok results) :
    List.Forall₂ (fun item result => visit item = .ok result) items results := by
  induction items generalizing results with
  | nil =>
      cases done
      exact .nil
  | cons item items ih =>
      rw [List.mapM_cons] at done
      obtain ⟨result, first, rest⟩ := except_bind_eq_ok_iff.mp done
      obtain ⟨others, following, last⟩ := except_bind_eq_ok_iff.mp rest
      cases last
      exact .cons first (ih following)

namespace Archive

namespace Member

instance (filter : NameFilter) (member : Member) : Decidable (member.Wanted filter) :=
  decidable_of_iff (member.isDirectory = false ∧ isClassName member.name = true ∧
      filter.acceptsInner member.name = true)
    ⟨fun wanted => ⟨wanted.1, wanted.2.1, wanted.2.2⟩,
      fun wanted => ⟨wanted.isFile, wanted.isClass, wanted.accepted⟩⟩

def isOther (member : Member) : Bool := !member.isDirectory && !isClassName member.name

inductive Leaves (filter : NameFilter) (input : Input) (member : Member) : Contribution → Prop
  | directory (isDirectory : member.isDirectory = true) : Leaves filter input member {}
  | nested (isFile : member.isDirectory = false) (isClass : isClassName member.name = true)
      (refused : filter.acceptsInner member.name = false) : Leaves filter input member {}
  | other (isOther : member.isOther = true) : Leaves filter input member { skipped := 1 }
  | classFile {bytes : List UInt8} {part : Contribution} (wanted : member.Wanted filter)
      (readable : member.content () = .ok bytes)
      (settles : Contribution.Settles (input.path ++ "!" ++ member.name)
        (ClassFile.decode filter (Path.fileName? input.path) bytes) part) :
      Leaves filter input member part

theorem leaves_of_outcome {filter : NameFilter} {input : Input} {member : Member}
    {outcome : Outcome} (isArchive : input.kind = .archive)
    (opened : member.outcome filter = .ok outcome) :
    member.Leaves filter input (outcome.contribution filter input) := by
  have archiveName : input.archiveName = Path.fileName? input.path := by
    rw [Input.archiveName, isArchive]
  cases opens : member.problem with
  | some problem =>
      rw [outcome_of_closed opens] at opened
      cases opened
  | none =>
      by_cases wanted : member.Wanted filter
      · rw [outcome_of_wanted opens wanted] at opened
        cases readable : member.content () with
        | error problem =>
            rw [readable] at opened
            cases opened
        | ok bytes =>
            rw [readable] at opened
            cases opened
            refine .classFile wanted readable ?_
            rw [← archiveName]
            exact Contribution.ofUnit_settles filter ⟨_, _, bytes⟩
      · rw [Member.outcome, opens] at opened
        cases isFile : member.isDirectory with
        | true =>
            rw [isFile] at opened
            cases opened
            exact .directory isFile
        | false =>
            cases isClass : isClassName member.name with
            | false =>
                rw [isFile, isClass] at opened
                cases opened
                exact .other (by simp [isOther, isFile, isClass])
            | true =>
                cases accepted : filter.acceptsInner member.name with
                | false =>
                    rw [isFile, isClass, accepted] at opened
                    cases opened
                    exact .nested isFile isClass accepted
                | true => exact absurd ⟨isFile, isClass, accepted⟩ wanted

section Leaves

variable {filter : NameFilter} {input : Input} {member : Member} {part : Contribution}

theorem Leaves.units_eq (leaves : member.Leaves filter input part) :
    part.records.length + part.failures.length = if member.Wanted filter then 1 else 0 := by
  cases leaves with
  | directory isDirectory =>
      rw [if_neg fun wanted => by simp [wanted.isFile] at isDirectory]
      rfl
  | nested isFile isClass refused =>
      rw [if_neg fun wanted => by simp [wanted.accepted] at refused]
      rfl
  | other isOther =>
      rw [if_neg fun wanted => by simp [Member.isOther, wanted.isClass] at isOther]
      rfl
  | classFile wanted readable settles =>
      rw [if_pos wanted]
      obtain ⟨record, -, rfl⟩ | ⟨fault, -, rfl⟩ := settles.cases
      · rfl
      · rfl

theorem Leaves.skipped_eq (leaves : member.Leaves filter input part) :
    part.skipped = if member.isOther then 1 else 0 := by
  cases leaves with
  | directory isDirectory => simp [isOther, isDirectory]
  | nested isFile isClass refused => simp [isOther, isClass]
  | other isOther => simp [isOther]
  | classFile wanted readable settles =>
      obtain ⟨record, -, rfl⟩ | ⟨fault, -, rfl⟩ := settles.cases
      · simp [isOther, wanted.isClass]
      · simp [isOther, wanted.isClass]

theorem Leaves.origin_eq (leaves : member.Leaves filter input part) {record : ClassRecord}
    (left : record ∈ part.records) : record.origin = Path.fileName? input.path := by
  cases leaves with
  | directory isDirectory => simp at left
  | nested isFile isClass refused => simp at left
  | other isOther => simp at left
  | classFile wanted readable settles =>
      obtain ⟨decoded, success, rfl⟩ | ⟨fault, -, rfl⟩ := settles.cases
      · rw [List.mem_singleton.mp left]
        exact ClassFile.origin_of_decode success
      · simp at left

theorem Leaves.labelled (leaves : member.Leaves filter input part) {failure : Failure}
    (left : failure ∈ part.failures) :
    member.Wanted filter ∧ failure.origin = input.path ++ "!" ++ member.name := by
  cases leaves with
  | directory isDirectory => simp at left
  | nested isFile isClass refused => simp at left
  | other isOther => simp at left
  | classFile wanted readable settles =>
      obtain ⟨record, -, rfl⟩ | ⟨fault, -, rfl⟩ := settles.cases
      · simp at left
      · rw [List.mem_singleton.mp left]
        exact ⟨wanted, rfl⟩

end Leaves

end Member

/-- The members of an archive are accounted for, each once and in order. -/
structure Accounted (filter : NameFilter) (input : Input) (members : List Member)
    (whole : Contribution) : Prop where
  one_by_one : ∃ parts, List.Forall₂ (Member.Leaves filter input) members parts ∧
    whole = .concat parts
  units_counted : whole.records.length + whole.failures.length =
    members.countP fun member => member.Wanted filter
  skipped_counted : whole.skipped = members.countP Member.isOther
  origin_eq : ∀ record ∈ whole.records, record.origin = Path.fileName? input.path
  labelled : ∀ failure ∈ whole.failures, ∃ member ∈ members, member.Wanted filter ∧
    failure.origin = input.path ++ "!" ++ member.name

section Accounted

variable {filter : NameFilter} {input : Input} {members : List Member} {parts : List Contribution}

theorem Accounted.nil : Accounted filter input [] (.concat []) where
  one_by_one := ⟨[], .nil, rfl⟩
  units_counted := rfl
  skipped_counted := rfl
  origin_eq := by simp [Contribution.concat]
  labelled := by simp [Contribution.concat]

theorem Accounted.cons {member : Member} {part : Contribution}
    (leaves : member.Leaves filter input part)
    (rest : Accounted filter input members (.concat parts)) :
    Accounted filter input (member :: members) (.concat (part :: parts)) := by
  rw [Contribution.concat_cons]
  constructor
  case one_by_one =>
    obtain ⟨others, each, same⟩ := rest.one_by_one
    refine ⟨part :: others, .cons leaves each, ?_⟩
    rw [same, Contribution.concat_cons]
  case units_counted =>
    have one := leaves.units_eq
    have others := rest.units_counted
    simp only [List.length_append, List.countP_cons, decide_eq_true_eq]
    omega
  case skipped_counted =>
    simp only [List.countP_cons, leaves.skipped_eq, rest.skipped_counted, Nat.add_comm]
  case origin_eq =>
    intro record left
    obtain left | left := List.mem_append.mp left
    · exact leaves.origin_eq left
    · exact rest.origin_eq record left
  case labelled =>
    intro failure left
    obtain left | left := List.mem_append.mp left
    · exact ⟨member, List.mem_cons_self, leaves.labelled left⟩
    · obtain ⟨other, listed, named⟩ := rest.labelled failure left
      exact ⟨other, List.mem_cons_of_mem _ listed, named⟩

theorem accounted_of_leaves (leaves : List.Forall₂ (Member.Leaves filter input) members parts) :
    Accounted filter input members (.concat parts) := by
  induction leaves with
  | nil => exact .nil
  | cons first rest ih => exact ih.cons first

end Accounted

theorem exists_outcomes_of_read {filter : NameFilter} {bytes : List UInt8} {contents : Contents}
    (read : Contents.read filter bytes = .ok contents) :
    ∃ headers outcomes, Header.readAll bytes.toArray = .ok headers ∧
      contents = .ofOutcomes outcomes ∧
      List.Forall₂ (fun member outcome => Member.outcome filter member = .ok outcome)
        (headers.map (Member.ofHeader bytes.toArray)) outcomes := by
  cases listed : Header.readAll bytes.toArray with
  | error problem =>
      simp only [Contents.read, listed, bind, Except.bind] at read
      cases read
  | ok headers =>
      rw [read_of_listed listed, Contents.ofMembers] at read
      cases opened : (headers.map (Member.ofHeader bytes.toArray)).mapM (Member.outcome filter) with
      | error problem =>
          rw [opened] at read
          cases read
      | ok outcomes =>
          rw [opened] at read
          cases read
          exact ⟨headers, outcomes, rfl, rfl, forall₂_of_mapM opened⟩

end Archive

def Volume.decodeFile (volume : Volume) (filter : NameFilter) (path : String) :
    Except Fault ClassRecord :=
  ((volume.read .isADirectory path).mapError fun fault => .unreadable fault.message) >>=
    ClassFile.decode filter none

namespace Analyzer

variable {σ : Type}

/-- What some inputs contribute before the graph is assembled. -/
def contributed (analyzer : Analyzer σ) (volume : Volume) (inputs : List Input) : Contribution :=
  analyzer.contribution (analyzer.openAll volume inputs)

def accepted (analyzer : Analyzer σ) (volume : Volume) (inputs : List Input) : List ClassRecord :=
  (analyzer.contributed volume inputs).records.filter fun record =>
    analyzer.filter.accepts record.name

structure Accounting (analyzer : Analyzer σ) (volume : Volume) : Prop where
  classFile : ∀ input, input.kind = .classFile →
    Contribution.Settles input.path (volume.decodeFile analyzer.filter input.path)
      (analyzer.contributed volume [input])
  archive : ∀ input contents, input.kind = .archive →
    volume.archiveContents analyzer.filter input.path = .ok contents →
      ∃ bytes headers, volume.read .noDevice input.path = .ok bytes ∧
        Archive.Header.readAll bytes.toArray = .ok headers ∧
        Archive.Accounted analyzer.filter input
          (headers.map (Archive.Member.ofHeader bytes.toArray))
          (analyzer.contributed volume [input])
  brokenArchive : ∀ input fault, input.kind = .archive →
    volume.archiveContents analyzer.filter input.path = .error fault →
      analyzer.contributed volume [input] = { failures := [⟨input.path, fault⟩] }
  analysis_eq : ∀ inputs, analyzer.analyzeInputs volume inputs =
    { graph := .assemble (analyzer.accepted volume inputs)
      failures := (analyzer.contributed volume inputs).failures
      inputs := inputs.length
      skipped := (analyzer.contributed volume inputs).skipped }
  /-- What stands before and after an input contributes the same, whatever that input is. -/
  in_place : ∀ before input after, analyzer.contributed volume (before ++ input :: after) =
    .concat [analyzer.contributed volume before, analyzer.contributed volume [input],
      analyzer.contributed volume after]
  failures_append : ∀ first second, (analyzer.analyzeInputs volume (first ++ second)).failures =
    (analyzer.analyzeInputs volume first).failures ++
      (analyzer.analyzeInputs volume second).failures
  skipped_append : ∀ first second, (analyzer.analyzeInputs volume (first ++ second)).skipped =
    (analyzer.analyzeInputs volume first).skipped + (analyzer.analyzeInputs volume second).skipped
  inputs_append : ∀ first second, (analyzer.analyzeInputs volume (first ++ second)).inputs =
    (analyzer.analyzeInputs volume first).inputs + (analyzer.analyzeInputs volume second).inputs
  graph_append : ∀ first second, (analyzer.analyzeInputs volume (first ++ second)).graph =
    .assemble (analyzer.accepted volume first ++ analyzer.accepted volume second)

section Contributed

variable (analyzer : Analyzer σ) (volume : Volume)

theorem contributed_append (first second : List Input) :
    analyzer.contributed volume (first ++ second) =
      .concat [analyzer.contributed volume first, analyzer.contributed volume second] := by
  simp only [contributed, contribution, openAll, List.map_append, Contribution.concat_append]
  simp [Contribution.concat]

theorem contributed_in_place (before : List Input) (input : Input) (after : List Input) :
    analyzer.contributed volume (before ++ input :: after) =
      .concat [analyzer.contributed volume before, analyzer.contributed volume [input],
        analyzer.contributed volume after] := by
  rw [← List.singleton_append, contributed_append, contributed_append analyzer volume [input]]
  simp [Contribution.concat]

theorem contributed_classFile {input : Input} (isClass : input.kind = .classFile) :
    Contribution.Settles input.path (volume.decodeFile analyzer.filter input.path)
      (analyzer.contributed volume [input]) := by
  rw [contributed, contribution_singleton, Volume.openInput, isClass, Volume.decodeFile]
  cases volume.read .isADirectory input.path with
  | error fault => exact .failed (.unreadable fault.message)
  | ok bytes =>
      rw [Contribution.ofOpened_singleton]
      exact Contribution.ofUnit_settles analyzer.filter ⟨input.path, none, bytes⟩

theorem contributed_archive {input : Input} {contents : Archive.Contents}
    (isArchive : input.kind = .archive)
    (read : volume.archiveContents analyzer.filter input.path = .ok contents) :
    ∃ bytes headers, volume.read .noDevice input.path = .ok bytes ∧
      Archive.Header.readAll bytes.toArray = .ok headers ∧
      Archive.Accounted analyzer.filter input
        (headers.map (Archive.Member.ofHeader bytes.toArray))
        (analyzer.contributed volume [input]) := by
  rw [contributed, contribution_singleton, openInput_of_contents isArchive read]
  rw [Volume.archiveContents] at read
  cases readable : volume.read .noDevice input.path with
  | error fault =>
      rw [readable] at read
      cases read
  | ok bytes =>
      rw [readable] at read
      obtain ⟨headers, outcomes, listed, rfl, opened⟩ := Archive.exists_outcomes_of_read read
      refine ⟨bytes, headers, rfl, listed, ?_⟩
      rw [Archive.ofOpened_ofOutcomes]
      apply Archive.accounted_of_leaves
      rw [List.forall₂_map_right_iff]
      exact opened.imp fun member outcome => Archive.Member.leaves_of_outcome isArchive

theorem contributed_brokenArchive {input : Input} {fault : Fault}
    (isArchive : input.kind = .archive)
    (failed : volume.archiveContents analyzer.filter input.path = .error fault) :
    analyzer.contributed volume [input] = { failures := [⟨input.path, fault⟩] } := by
  rw [contributed, contribution_singleton, openInput_of_fault isArchive failed]
  simp [Contribution.ofOpened, Contribution.concat]

end Contributed

theorem analyzeInputs_eq (analyzer : Analyzer σ) (volume : Volume) (inputs : List Input) :
    analyzer.analyzeInputs volume inputs =
      { graph := .assemble (analyzer.accepted volume inputs)
        failures := (analyzer.contributed volume inputs).failures
        inputs := inputs.length
        skipped := (analyzer.contributed volume inputs).skipped } := by
  simp only [analyzeInputs, analyzeOpened_eq, accepted, contributed, openAll, List.length_map]

theorem run_accounts_for_inputs (analyzer : Analyzer σ) (volume : Volume) :
    Accounting analyzer volume where
  classFile _ := analyzer.contributed_classFile volume
  archive _ _ := analyzer.contributed_archive volume
  brokenArchive _ _ := analyzer.contributed_brokenArchive volume
  analysis_eq := analyzer.analyzeInputs_eq volume
  in_place := analyzer.contributed_in_place volume
  failures_append first second := by
    simp [analyzeInputs_eq, contributed_append, Contribution.concat]
  skipped_append first second := by
    simp [analyzeInputs_eq, contributed_append, Contribution.concat]
  inputs_append first second := by
    simp [analyzeInputs_eq]
  graph_append first second := by
    simp [analyzeInputs_eq, accepted, contributed_append, Contribution.concat]

def mixedArchive : List UInt8 :=
  [80, 75, 3, 4, 20, 0, 0, 0, 0, 0, 0, 0, 33, 0, 193, 111, 44, 188, 33, 0, 0, 0, 33, 0, 0, 0, 7,
    0, 0, 0, 89, 46, 99, 108, 97, 115, 115, 202, 254, 186, 190, 0, 0, 0, 52, 0, 3, 1, 0, 3, 120,
    47, 89, 7, 0, 1, 0, 1, 0, 2, 0, 0, 0, 0, 0, 0, 0, 0, 0, 0, 80, 75, 3, 4, 20, 0, 0, 0, 0, 0, 0,
    0, 33, 0, 0, 0, 0, 0, 0, 0, 0, 0, 0, 0, 0, 0, 7, 0, 0, 0, 90, 46, 99, 108, 97, 115, 115, 80,
    75, 3, 4, 20, 0, 0, 0, 0, 0, 0, 0, 33, 0, 0, 0, 0, 0, 0, 0, 0, 0, 0, 0, 0, 0, 4, 0, 0, 0, 110,
    111, 116, 101, 80, 75, 1, 2, 20, 3, 20, 0, 0, 0, 0, 0, 0, 0, 33, 0, 193, 111, 44, 188, 33, 0,
    0, 0, 33, 0, 0, 0, 7, 0, 0, 0, 0, 0, 0, 0, 0, 0, 0, 0, 128, 1, 0, 0, 0, 0, 89, 46, 99, 108,
    97, 115, 115, 80, 75, 1, 2, 20, 3, 20, 0, 0, 0, 0, 0, 0, 0, 33, 0, 0, 0, 0, 0, 0, 0, 0, 0, 0,
    0, 0, 0, 7, 0, 0, 0, 0, 0, 0, 0, 0, 0, 0, 0, 128, 1, 70, 0, 0, 0, 90, 46, 99, 108, 97, 115,
    115, 80, 75, 1, 2, 20, 3, 20, 0, 0, 0, 0, 0, 0, 0, 33, 0, 0, 0, 0, 0, 0, 0, 0, 0, 0, 0, 0, 0,
    4, 0, 0, 0, 0, 0, 0, 0, 0, 0, 0, 0, 128, 1, 107, 0, 0, 0, 110, 111, 116, 101, 80, 75, 5, 6, 0,
    0, 0, 0, 3, 0, 3, 0, 156, 0, 0, 0, 141, 0, 0, 0, 0, 0]

theorem run_accounts_for_inputs_mixed :
    (({} : Analyzer Unit).contributed (shelf mixedArchive) [jar] =
        { records := [{ name := "x.Y", major := 52, origin := some "a.jar" }]
          failures := [⟨"a.jar!Z.class", .truncated 0 4⟩]
          skipped := 1 }) ∧
      ∃ headers, Archive.Header.readAll mixedArchive.toArray = .ok headers ∧
        Archive.Accounted {} jar (headers.map (Archive.Member.ofHeader mixedArchive.toArray))
          (({} : Analyzer Unit).contributed (shelf mixedArchive) [jar]) := by
  have readable : (shelf mixedArchive).read .noDevice jar.path = .ok mixedArchive :=
    read_shelf mixedArchive
  have contents : (shelf mixedArchive).archiveContents ({} : Analyzer Unit).filter jar.path =
      .ok ⟨[⟨"Y.class", (ClassBuilder.run "x/Y" []).2.image⟩, ⟨"Z.class", []⟩],
        [.unsupportedEntry "note"]⟩ := by
    rw [Volume.archiveContents, readable]
    decide +kernel
  constructor
  · rw [contributed, contribution_singleton, openInput_of_contents rfl contents]
    decide +kernel
  · obtain ⟨bytes, headers, again, listed, accounted⟩ :=
      (run_accounts_for_inputs {} (shelf mixedArchive)).archive jar _ rfl contents
    obtain rfl : mixedArchive = bytes := Except.ok.inj (readable.symm.trans again)
    exact ⟨headers, listed, accounted⟩

end Analyzer

end ClassCoupling
