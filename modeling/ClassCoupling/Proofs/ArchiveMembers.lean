import ClassCoupling.Analyzer
import Mathlib.Data.List.Basic

/-!
What the members of an archive contribute. When every member opens and every class
file that is wanted can be read, the archive contributes what its members contribute
one by one, so that a class file that cannot be decoded costs only itself. The first
member that cannot be opened or read fails the archive, and then its siblings
contribute nothing.
-/
namespace ClassCoupling

theorem Contribution.concat_cons (contribution : Contribution) (rest : List Contribution) :
    concat (contribution :: rest) =
      { records := contribution.records ++ (concat rest).records
        failures := contribution.failures ++ (concat rest).failures
        skipped := contribution.skipped + (concat rest).skipped } :=
  rfl

structure Volume.OneStep (name : String) : Prop where
  text : '\x00' ∉ name.toList
  filled : name ≠ ""
  short : name.utf8ByteSize ≤ 255
  relative : Path.isRooted name = false
  steps_eq : steps name = [name]
  notHere : name ≠ "."
  notUp : name ≠ ".."

theorem Volume.OneStep.read_eq {name : String} (step : OneStep name) {volume : Volume}
    {bytes : List UInt8} (top : volume.current = [])
    (present : volume.item? [name] = some (.file bytes)) (onDirectory : AccessFault) :
    volume.read onDirectory name = .ok bytes := by
  have root : volume.item? [] = some .directory := rfl
  have size : ¬ 4096 ≤ name.utf8ByteSize := by
    have short := step.short
    omega
  have place : volume.resolve {} name = .ok [name] := by
    simp [resolve, step.text, step.filled, size, step.relative, top, step.steps_eq, walk, root,
      step.notHere, step.notUp, Nat.not_lt.mpr step.short, present]
  simp only [read, find, place, bind, Except.bind, present]
  rfl

namespace Archive

def Outcome.contribution (filter : NameFilter) (input : Input) : Outcome → Contribution
  | ignored => {}
  | skipped _ => { skipped := 1 }
  | entry name bytes =>
      .ofUnit filter { label := input.path ++ "!" ++ name, origin := input.archiveName, bytes }

namespace Member

/-- A class file by its name, and one that the filter lets pass. -/
structure Wanted (filter : NameFilter) (member : Member) : Prop where
  isFile : member.isDirectory = false
  isClass : isClassName member.name = true
  accepted : filter.acceptsInner member.name = true

/-- A member cannot be opened, or it is wanted and cannot be read. -/
inductive Fails (filter : NameFilter) (member : Member) : Problem → Prop
  | opening {problem : Problem} (closed : member.problem = some problem) :
      Fails filter member problem
  | reading {problem : Problem} (opens : member.problem = none) (wanted : member.Wanted filter)
      (unreadable : member.content () = .error problem) : Fails filter member problem

/-- What a member contributes by itself. -/
def alone (filter : NameFilter) (input : Input) (member : Member) : Contribution :=
  if member.isDirectory then {}
  else if !isClassName member.name then { skipped := 1 }
  else if !filter.acceptsInner member.name then {}
  else
    let label := input.path ++ "!" ++ member.name
    match member.content () with
    | .ok bytes => .ofUnit filter { label, origin := input.archiveName, bytes }
    | .error problem => { failures := [⟨label, problem.fault⟩] }

section Outcomes

variable {filter : NameFilter} {member : Member}

theorem outcome_of_closed {problem : Problem} (closed : member.problem = some problem) :
    member.outcome filter = .error problem := by
  rw [outcome, closed]
  rfl

theorem outcome_of_wanted (opens : member.problem = none) (wanted : member.Wanted filter) :
    member.outcome filter = .entry member.name <$> member.content () := by
  simp [outcome, opens, wanted.isFile, wanted.isClass, wanted.accepted]

theorem alone_of_wanted {bytes : List UInt8} (wanted : member.Wanted filter)
    (read : member.content () = .ok bytes) (input : Input) :
    member.alone filter input = (Outcome.entry member.name bytes).contribution filter input := by
  simp [alone, wanted.isFile, wanted.isClass, wanted.accepted, read, Outcome.contribution]

theorem exists_outcome_of_unwanted (opens : member.problem = none)
    (unwanted : ¬ member.Wanted filter) :
    ∃ outcome, member.outcome filter = .ok outcome ∧
      ∀ input, member.alone filter input = outcome.contribution filter input := by
  unfold outcome alone
  rw [opens]
  cases isFile : member.isDirectory with
  | true => exact ⟨_, rfl, fun _ => rfl⟩
  | false =>
      cases isClass : isClassName member.name with
      | false => exact ⟨_, rfl, fun _ => rfl⟩
      | true =>
          cases accepted : filter.acceptsInner member.name with
          | false => exact ⟨_, rfl, fun _ => rfl⟩
          | true => exact absurd ⟨isFile, isClass, accepted⟩ unwanted

theorem outcome_of_fails {problem : Problem} (fails : member.Fails filter problem) :
    member.outcome filter = .error problem := by
  cases fails with
  | opening closed => exact outcome_of_closed closed
  | reading opens wanted unreadable =>
      rw [outcome_of_wanted opens wanted, unreadable]
      rfl

theorem exists_outcome (sound : ∀ problem, ¬ member.Fails filter problem) :
    ∃ outcome, member.outcome filter = .ok outcome ∧
      ∀ input, member.alone filter input = outcome.contribution filter input := by
  cases opens : member.problem with
  | some problem => exact absurd (.opening opens) (sound problem)
  | none =>
      by_cases wanted : member.Wanted filter
      · cases read : member.content () with
        | ok bytes =>
            refine ⟨.entry member.name bytes, ?_, alone_of_wanted wanted read⟩
            rw [outcome_of_wanted opens wanted, read]
            rfl
        | error problem => exact absurd (.reading opens wanted read) (sound problem)
      · exact exists_outcome_of_unwanted opens wanted

end Outcomes

end Member

def Contents.opened (contents : Contents) (input : Input) : Opened where
  units := contents.entries.map fun entry =>
    { label := input.path ++ "!" ++ entry.name, origin := input.archiveName, bytes := entry.bytes }
  skipped := contents.skipped.length

theorem ofOpened_ofOutcomes (filter : NameFilter) (input : Input) (outcomes : List Outcome) :
    Contribution.ofOpened filter ((Contents.ofOutcomes outcomes).opened input) =
      .concat (outcomes.map (Outcome.contribution filter input)) := by
  induction outcomes with
  | nil => rfl
  | cons outcome outcomes ih =>
      rw [List.map_cons, Contribution.concat_cons, ← ih]
      cases outcome with
      | ignored =>
          simp [Contribution.ofOpened, Contents.opened, Contents.ofOutcomes, Outcome.contribution]
      | skipped name =>
          simp [Contribution.ofOpened, Contents.opened, Contents.ofOutcomes, Outcome.contribution,
            Nat.add_comm]
      | entry name bytes =>
          have counted (unit : ClassUnit) : (Contribution.ofUnit filter unit).skipped = 0 := by
            unfold Contribution.ofUnit
            split <;> rfl
          simp [Contribution.ofOpened, Contents.opened, Contents.ofOutcomes, Outcome.contribution,
            Contribution.concat_cons, counted]

theorem mapM_outcome_of_sound {filter : NameFilter} {members : List Member}
    (sound : ∀ member ∈ members, ∀ problem, ¬ member.Fails filter problem) :
    ∃ outcomes, members.mapM (Member.outcome filter) = .ok outcomes ∧
      ∀ input, members.map (Member.alone filter input) =
        outcomes.map (Outcome.contribution filter input) := by
  induction members with
  | nil => exact ⟨[], rfl, fun _ => rfl⟩
  | cons member members ih =>
      obtain ⟨outcome, opened, contributes⟩ := Member.exists_outcome (sound member (by simp))
      obtain ⟨outcomes, others, contribute⟩ := ih fun other listed => sound other (by simp [listed])
      refine ⟨outcome :: outcomes, ?_, fun input => ?_⟩
      · rw [List.mapM_cons, opened, others]
        rfl
      · rw [List.map_cons, List.map_cons, contributes input, contribute input]

theorem mapM_outcome_of_fails {filter : NameFilter} {before : List Member} {member : Member}
    {problem : Problem} (sound : ∀ earlier ∈ before, ∀ other, ¬ earlier.Fails filter other)
    (fails : member.Fails filter problem) (after : List Member) :
    (before ++ member :: after).mapM (Member.outcome filter) = .error problem := by
  obtain ⟨outcomes, opened, -⟩ := mapM_outcome_of_sound sound
  rw [List.mapM_append, List.mapM_cons, opened, Member.outcome_of_fails fails]
  rfl

theorem read_of_listed {filter : NameFilter} {bytes : List UInt8} {headers : List Header}
    (listed : Header.readAll bytes.toArray = .ok headers) :
    Contents.read filter bytes =
      (Contents.ofMembers filter (headers.map (Member.ofHeader bytes.toArray))).mapError
        Problem.fault := by
  simp only [Contents.read, listed, bind, Except.bind]
  cases Contents.ofMembers filter (headers.map (Member.ofHeader bytes.toArray)) with
  | ok contents => rfl
  | error problem => rfl

end Archive

namespace Analyzer

variable {σ : Type}

/-- An archive stands with all its members, which then contribute one by one, or falls with the
first that fails and contributes that failure alone. -/
structure StandsOrFalls (filter : NameFilter) (input : Input) (members : List Archive.Member)
    (contribution : Contribution) : Prop where
  stands : (∀ member ∈ members, ∀ problem, ¬ member.Fails filter problem) →
    contribution = .concat (members.map (Archive.Member.alone filter input))
  falls : ∀ (before : List Archive.Member) (member : Archive.Member) (after : List Archive.Member)
    (problem : Archive.Problem), members = before ++ member :: after →
    (∀ earlier ∈ before, ∀ other, ¬ earlier.Fails filter other) → member.Fails filter problem →
    contribution = { failures := [⟨input.path, problem.fault⟩] }

theorem contribution_singleton (analyzer : Analyzer σ) (volume : Volume) (input : Input) :
    analyzer.contribution (analyzer.openAll volume [input]) =
      .ofOpened analyzer.filter (volume.openInput analyzer.filter input) := by
  simp [contribution, openAll, Contribution.concat]

theorem openInput_of_contents {volume : Volume} {filter : NameFilter} {input : Input}
    {contents : Archive.Contents} (isArchive : input.kind = .archive)
    (read : volume.archiveContents filter input.path = .ok contents) :
    volume.openInput filter input = contents.opened input := by
  rw [Volume.openInput, isArchive]
  simp only [read]
  rfl

theorem openInput_of_fault {volume : Volume} {filter : NameFilter} {input : Input} {fault : Fault}
    (isArchive : input.kind = .archive)
    (failed : volume.archiveContents filter input.path = .error fault) :
    volume.openInput filter input = { failures := [⟨input.path, fault⟩] } := by
  rw [Volume.openInput, isArchive]
  simp only [failed]

theorem archive_stands_or_falls (analyzer : Analyzer σ) (volume : Volume) (input : Input)
    (bytes : List UInt8) (headers : List Archive.Header) (isArchive : input.kind = .archive)
    (readable : volume.read .noDevice input.path = .ok bytes)
    (listed : Archive.Header.readAll bytes.toArray = .ok headers) :
    StandsOrFalls analyzer.filter input (headers.map (Archive.Member.ofHeader bytes.toArray))
      (analyzer.contribution (analyzer.openAll volume [input])) := by
  have contents : volume.archiveContents analyzer.filter input.path =
      Archive.Contents.read analyzer.filter bytes := by
    rw [Volume.archiveContents, readable]
  rw [contribution_singleton]
  constructor
  case stands =>
    intro sound
    obtain ⟨outcomes, opened, contributes⟩ := Archive.mapM_outcome_of_sound sound
    have read : Archive.Contents.read analyzer.filter bytes = .ok (.ofOutcomes outcomes) := by
      rw [Archive.read_of_listed listed, Archive.Contents.ofMembers, opened]
      rfl
    rw [openInput_of_contents isArchive (contents.trans read), Archive.ofOpened_ofOutcomes,
      contributes]
  case falls =>
    intro before member after problem split sound fails
    have opened := Archive.mapM_outcome_of_fails sound fails after
    have read : Archive.Contents.read analyzer.filter bytes = .error problem.fault := by
      rw [Archive.read_of_listed listed, split, Archive.Contents.ofMembers, opened]
      rfl
    rw [openInput_of_fault isArchive (contents.trans read)]
    simp [Contribution.ofOpened, Contribution.concat]

def tornArchive : List UInt8 :=
  [80, 75, 3, 4, 20, 0, 0, 0, 0, 0, 0, 0, 33, 0, 1, 0, 0, 0, 0, 0, 0, 0, 0, 0, 0, 0, 9, 0, 0, 0,
    120, 47, 90, 46, 99, 108, 97, 115, 115, 80, 75, 3, 4, 20, 0, 0, 0, 0, 0, 0, 0, 33, 0, 193,
    111, 44, 188, 33, 0, 0, 0, 33, 0, 0, 0, 9, 0, 0, 0, 120, 47, 89, 46, 99, 108, 97, 115, 115,
    202, 254, 186, 190, 0, 0, 0, 52, 0, 3, 1, 0, 3, 120, 47, 89, 7, 0, 1, 0, 1, 0, 2, 0, 0, 0, 0,
    0, 0, 0, 0, 0, 0, 80, 75, 1, 2, 20, 3, 20, 0, 0, 0, 0, 0, 0, 0, 33, 0, 1, 0, 0, 0, 0, 0, 0, 0,
    0, 0, 0, 0, 9, 0, 0, 0, 0, 0, 0, 0, 0, 0, 0, 0, 164, 1, 0, 0, 0, 0, 120, 47, 90, 46, 99, 108,
    97, 115, 115, 80, 75, 1, 2, 20, 3, 20, 0, 0, 0, 0, 0, 0, 0, 33, 0, 193, 111, 44, 188, 33, 0,
    0, 0, 33, 0, 0, 0, 9, 0, 0, 0, 0, 0, 0, 0, 0, 0, 0, 0, 164, 1, 39, 0, 0, 0, 120, 47, 89, 46,
    99, 108, 97, 115, 115, 80, 75, 5, 6, 0, 0, 0, 0, 2, 0, 2, 0, 110, 0, 0, 0, 111, 0, 0, 0, 0, 0]

def shelf (archive : List UInt8) : Volume :=
  { items := ({} : Std.TreeMap Place Item).insert ["a.jar"] (.file archive) }

theorem read_shelf (archive : List UInt8) :
    (shelf archive).read .noDevice "a.jar" = .ok archive := by
  have step : Volume.OneStep "a.jar" := by constructor <;> decide +kernel
  refine step.read_eq rfl ?_ .noDevice
  simp [Volume.item?, shelf]

def jar : Input := ⟨"a.jar", .archive⟩

/-- The sound class file would contribute its class, but the other one fails the archive. -/
theorem archive_members_not_isolated :
    ({} : Analyzer Unit).contribution (({} : Analyzer Unit).openAll (shelf tornArchive) [jar]) =
        { failures := [⟨"a.jar", .unreadable "Invalid checksum"⟩] } ∧
      (Archive.Header.readAll tornArchive.toArray).map (fun headers =>
          Contribution.concat (headers.map fun header =>
            (Archive.Member.ofHeader tornArchive.toArray header).alone {} jar)) =
        .ok { records := [{ name := "x.Y", major := 52, origin := some "a.jar" }]
              failures := [⟨"a.jar!x/Z.class", .unreadable "Invalid checksum"⟩] } := by
  have failed : (shelf tornArchive).archiveContents ({} : Analyzer Unit).filter jar.path =
      .error (.unreadable "Invalid checksum") := by
    have readable : (shelf tornArchive).read .noDevice jar.path = .ok tornArchive :=
      read_shelf tornArchive
    rw [Volume.archiveContents, readable]
    decide +kernel
  have opened : (shelf tornArchive).openInput ({} : Analyzer Unit).filter jar =
      { failures := [⟨"a.jar", .unreadable "Invalid checksum"⟩] } :=
    openInput_of_fault rfl failed
  constructor
  · rw [contribution_singleton, opened]
    rfl
  · decide +kernel

theorem archive_stands_or_falls_torn :
    ∃ headers, jar.kind = .archive ∧ (shelf tornArchive).read .noDevice jar.path = .ok tornArchive ∧
      Archive.Header.readAll tornArchive.toArray = .ok headers ∧
      StandsOrFalls {} jar (headers.map (Archive.Member.ofHeader tornArchive.toArray))
        (({} : Analyzer Unit).contribution
          (({} : Analyzer Unit).openAll (shelf tornArchive) [jar])) := by
  have opens : (Archive.Header.readAll tornArchive.toArray).isOk = true := by decide +kernel
  cases listed : Archive.Header.readAll tornArchive.toArray with
  | error problem => simp [listed, Except.isOk, Except.toBool] at opens
  | ok headers =>
      exact ⟨headers, rfl, read_shelf tornArchive, rfl,
        archive_stands_or_falls {} (shelf tornArchive) jar tornArchive headers rfl
          (read_shelf tornArchive) listed⟩

end Analyzer

end ClassCoupling
