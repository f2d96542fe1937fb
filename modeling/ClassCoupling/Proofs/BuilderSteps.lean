import ClassCoupling.Proofs.Interning

/-!
What a sequence of builder steps amounts to. A step asks for constants and then puts
their indices in one place of the class; the outline of a sequence says, in names and
texts instead of indices, what stands in those places. Every run keeps to its outline:
the tables of the builder lead from the outline to the indices that were put down, and
a step that gives an index gives that of the one constant it asked for.
-/
namespace ClassCoupling.ClassBuilder

namespace Step

def isPlain : Step → Bool
  | rawConstant _ | annotations _ | rawAttribute _ _ => false
  | field _ _ marks | method _ _ marks => marks.isNone
  | _ => true

/-- The constant whose index the step gives. -/
def wanted? : Step → Option Request
  | utf8 text => some (.text text)
  | classInfo name => some (.className name)
  | integer value => some (.fresh (.integer value))
  | long value => some (.fresh (.long value))
  | double bits => some (.fresh (.double bits))
  | methodHandle kind index => some (.fresh (.methodHandle kind index))
  | _ => none

def requests (step : Step) : List Request :=
  match step with
  | superClass name | interface name | classReference name => [.className name]
  | field name descriptor _ | method name descriptor _ => [.text name, .text descriptor]
  | sourceFile text => [.text text, .text Attribute.sourceFile]
  | _ => step.wanted?.toList

def place : Step → List UInt16 → ClassBuilder → ClassBuilder
  | major version, _, builder => { builder with major := version }
  | access flags, _, builder => { builder with access := flags }
  | superClass _, [index], builder => { builder with superClass := index }
  | interface _, [index], builder => { builder with interfaces := builder.interfaces.push index }
  | field _ _ _, [name, descriptor], builder =>
      { builder with fields := builder.fields.push ⟨1, name, descriptor, []⟩ }
  | method _ _ _, [name, descriptor], builder =>
      { builder with methods := builder.methods.push ⟨1, name, descriptor, []⟩ }
  | sourceFile _, [text, name], builder =>
      { builder with attributes := builder.attributes.push ⟨name, u16Bytes text⟩ }
  | _, _, builder => builder

def major? : Step → Option UInt16
  | major version => some version
  | _ => none

def access? : Step → Option UInt16
  | access flags => some flags
  | _ => none

def superClass? : Step → Option String
  | superClass name => some name
  | _ => none

def interface? : Step → Option String
  | interface name => some name
  | _ => none

def field? : Step → Option (String × String)
  | field name descriptor _ => some (name, descriptor)
  | _ => none

def method? : Step → Option (String × String)
  | method name descriptor _ => some (name, descriptor)
  | _ => none

def sourceFile? : Step → Option String
  | sourceFile text => some text
  | _ => none

end Step

structure Outline where
  major : UInt16
  access : UInt16
  superClass : Option String
  interfaces : List String
  fields : List (String × String)
  methods : List (String × String)
  sources : List String

/-- The last version, access and super class count; lists are in the order of the steps. -/
def outline (steps : List Step) : Outline where
  major := (steps.filterMap Step.major?).getLastD 52
  access := (steps.filterMap Step.access?).getLastD 1
  superClass := (steps.filterMap Step.superClass?).getLast?
  interfaces := steps.filterMap Step.interface?
  fields := steps.filterMap Step.field?
  methods := steps.filterMap Step.method?
  sources := steps.filterMap Step.sourceFile?

def Outline.add (outline : Outline) : Step → Outline
  | .major version => { outline with major := version }
  | .access flags => { outline with access := flags }
  | .superClass name => { outline with superClass := some name }
  | .interface name => { outline with interfaces := outline.interfaces ++ [name] }
  | .field name descriptor _ => { outline with fields := outline.fields ++ [(name, descriptor)] }
  | .method name descriptor _ => { outline with methods := outline.methods ++ [(name, descriptor)] }
  | .sourceFile text => { outline with sources := outline.sources ++ [text] }
  | _ => outline

theorem outline_concat (steps : List Step) (step : Step) :
    outline (steps ++ [step]) = (outline steps).add step := by
  simp only [outline, List.filterMap_append]
  cases step <;>
    simp only [Outline.add, Step.major?, Step.access?, Step.superClass?, Step.interface?,
      Step.field?, Step.method?, Step.sourceFile?, List.filterMap_cons, List.filterMap_nil,
      List.append_nil, List.getLastD_concat, List.getLast?_concat]

def asked (name : String) (steps : List Step) : List Request :=
  .className name :: steps.flatMap Step.requests

theorem apply_run_of_plain {step : Step} (plain : step.isPlain = true) (builder : ClassBuilder) :
    (apply step).run builder =
      (step.wanted?.bind fun _ => ((step.requests.mapM fulfil).run builder).1.head?,
        step.place ((step.requests.mapM fulfil).run builder).1
          ((step.requests.mapM fulfil).run builder).2) := by
  cases step with
  | field name descriptor annotations => cases annotations with
    | none => rfl
    | some pieces => cases plain
  | method name descriptor annotations => cases annotations with
    | none => rfl
    | some pieces => cases plain
  | rawConstant bytes => cases plain
  | annotations pieces => cases plain
  | rawAttribute name payload => cases plain
  | _ => rfl

def IsMember (builder : ClassBuilder) (written : String × String) (member : Member) : Prop :=
  builder.texts[written.1]? = some member.nameIndex ∧
    builder.texts[written.2]? = some member.descriptorIndex ∧ member.attributes = []

def IsSource (builder : ClassBuilder) (text : String) (item : Attribute) : Prop :=
  builder.texts[Attribute.sourceFile]? = some item.nameIndex ∧
    ∃ index, builder.texts[text]? = some index ∧ item.payload = u16Bytes index

/-- The tables of the builder lead from the outline to the indices in the class. -/
structure Shows (outline : Outline) (builder : ClassBuilder) : Prop where
  major : builder.major = outline.major
  access : builder.access = outline.access
  noSuperClass : outline.superClass = none → builder.superClass = 0
  superClass : ∀ name, outline.superClass = some name →
    builder.classes[name]? = some builder.superClass
  interfaces : List.Forall₂ (fun name index => builder.classes[name]? = some index)
    outline.interfaces builder.interfaces.toList
  fields : List.Forall₂ (IsMember builder) outline.fields builder.fields.toList
  methods : List.Forall₂ (IsMember builder) outline.methods builder.methods.toList
  sources : List.Forall₂ (IsSource builder) outline.sources builder.attributes.toList

theorem IsMember.mono {constants constants' : List Constant} {builder after : ClassBuilder}
    {written : String × String} {member : Member} (isMember : IsMember builder written member)
    (grows : Grows constants builder constants' after) : IsMember after written member :=
  ⟨grows.texts _ _ isMember.1, grows.texts _ _ isMember.2.1, isMember.2.2⟩

theorem IsSource.mono {constants constants' : List Constant} {builder after : ClassBuilder}
    {text : String} {item : Attribute} (isSource : IsSource builder text item)
    (grows : Grows constants builder constants' after) : IsSource after text item := by
  obtain ⟨named, index, found, payload⟩ := isSource
  exact ⟨grows.texts _ _ named, index, grows.texts _ _ found, payload⟩

theorem Shows.mono {outline : Outline} {constants constants' : List Constant}
    {builder after : ClassBuilder} (shows : Shows outline builder)
    (grows : Grows constants builder constants' after) (frame : after.frame = builder.frame) :
    Shows outline after := by
  have majors : after.major = builder.major := congrArg (·.major) frame
  have accesses : after.access = builder.access := congrArg (·.access) frame
  have parents : after.superClass = builder.superClass := congrArg (·.superClass) frame
  have interfaces : after.interfaces = builder.interfaces := congrArg (·.interfaces) frame
  have fields : after.fields = builder.fields := congrArg (·.fields) frame
  have methods : after.methods = builder.methods := congrArg (·.methods) frame
  have attributes : after.attributes = builder.attributes := congrArg (·.attributes) frame
  exact {
    major := majors.trans shows.major
    access := accesses.trans shows.access
    noSuperClass := fun none => parents.trans (shows.noSuperClass none)
    superClass := by
      intro name given
      rw [parents]
      exact grows.classes _ _ (shows.superClass name given)
    interfaces := by
      rw [interfaces]
      exact shows.interfaces.imp fun name index found => grows.classes name index found
    fields := by
      rw [fields]
      exact shows.fields.imp fun _ _ isMember => isMember.mono grows
    methods := by
      rw [methods]
      exact shows.methods.imp fun _ _ isMember => isMember.mono grows
    sources := by
      rw [attributes]
      exact shows.sources.imp fun _ _ isSource => isSource.mono grows }

theorem forall₂_push {α β : Type} {related : α → β → Prop} {items : List α} {others : Array β}
    (before : List.Forall₂ related items others.toList) {item : α} {other : β}
    (last : related item other) :
    List.Forall₂ related (items ++ [item]) (others.push other).toList := by
  rw [Array.toList_push]
  exact List.rel_append before (.cons last .nil)

theorem Shows.place {outline : Outline} {constants : List Constant} {builder : ClassBuilder}
    (shows : Shows outline builder) {step : Step} {indices : List UInt16}
    (fulfilled : List.Forall₂ (Fulfilled constants builder) step.requests indices) :
    Shows (outline.add step) (step.place indices builder) := by
  cases step with
  | major version => exact { shows with major := rfl }
  | access flags => exact { shows with access := rfl }
  | superClass name =>
      obtain _ | ⟨found, _ | _⟩ := fulfilled
      exact { shows with
        noSuperClass := nofun
        superClass := by
          intro other same
          cases same
          exact found }
  | interface name =>
      obtain _ | ⟨found, _ | _⟩ := fulfilled
      exact { shows with interfaces := forall₂_push shows.interfaces found }
  | field name descriptor annotations =>
      obtain _ | ⟨found, _ | ⟨described, _ | _⟩⟩ := fulfilled
      exact { shows with fields := forall₂_push shows.fields ⟨found, described, rfl⟩ }
  | method name descriptor annotations =>
      obtain _ | ⟨found, _ | ⟨described, _ | _⟩⟩ := fulfilled
      exact { shows with methods := forall₂_push shows.methods ⟨found, described, rfl⟩ }
  | sourceFile text =>
      obtain _ | ⟨found, _ | ⟨named, _ | _⟩⟩ := fulfilled
      exact { shows with sources := forall₂_push shows.sources ⟨named, _, found, rfl⟩ }
  | _ => exact shows

def Answered (constants : List Constant) (builder : ClassBuilder) (step : Step)
    (answer : Option UInt16) : Prop :=
  Option.Rel (Fulfilled constants builder) step.wanted? answer

/-- A run keeps to its steps: to what they ask for, to their outline and in its answers. -/
structure Keeps (name : String) (steps : List Step) (constants : List Constant)
    (answers : List (Option UInt16)) (builder : ClassBuilder) : Prop where
  tracks : Tracks (asked name steps) constants builder
  shows : Shows (outline steps) builder
  named : builder.classes[name]? = some builder.thisClass
  answered : List.Forall₂ (Answered constants builder) steps answers

theorem place_tracks {requests : List Request} {constants : List Constant} {builder : ClassBuilder}
    (tracks : Tracks requests constants builder) (step : Step) (indices : List UInt16) :
    Tracks requests constants (step.place indices builder) := by
  unfold Step.place
  split <;> exact { tracks with }

theorem place_grows (constants : List Constant) (builder : ClassBuilder) (step : Step)
    (indices : List UInt16) : Grows constants builder constants (step.place indices builder) := by
  unfold Step.place
  split <;> exact ⟨List.prefix_rfl, fun _ _ found => found, fun _ _ found => found⟩

theorem thisClass_place (builder : ClassBuilder) (step : Step) (indices : List UInt16) :
    (step.place indices builder).thisClass = builder.thisClass := by
  unfold Step.place
  split <;> rfl

theorem Answered.mono {constants constants' : List Constant} {builder after : ClassBuilder}
    {step : Step} {answer : Option UInt16} (answered : Answered constants builder step answer)
    (grows : Grows constants builder constants' after) : Answered constants' after step answer := by
  unfold Answered at answered ⊢
  generalize step.wanted? = wanted at answered ⊢
  cases answered with
  | some fulfilled => exact .some (fulfilled.mono grows)
  | none => exact .none

theorem answered_head {constants : List Constant} {builder : ClassBuilder} {step : Step}
    {indices : List UInt16}
    (fulfilled : List.Forall₂ (Fulfilled constants builder) step.requests indices) :
    Answered constants builder step (step.wanted?.bind fun _ => indices.head?) := by
  cases step with
  | utf8 | classInfo | integer | long | double | methodHandle =>
      obtain _ | ⟨found, _ | _⟩ := fulfilled
      exact .some found
  | _ => exact .none

theorem start_keeps (name : String) : ∃ constants, Keeps name [] constants [] (start name) := by
  obtain ⟨constants, meets⟩ := classInfo_meets empty_tracks name
  have named : Fulfilled _ _ _ _ := (List.forall₂_cons.mp meets.fulfilled).1
  have frame := meets.frame
  refine ⟨constants, { meets.tracks with }, ?_, named, .nil⟩
  have shows : Shows (outline []) {} := ⟨rfl, rfl, fun _ => rfl, nofun, .nil, .nil, .nil, .nil⟩
  exact { shows.mono meets.grows frame with }

theorem Keeps.step {name : String} {steps : List Step} {constants : List Constant}
    {answers : List (Option UInt16)} {builder : ClassBuilder}
    (keeps : Keeps name steps constants answers builder) {step : Step}
    (plain : step.isPlain = true) :
    ∃ constants', Keeps name (steps ++ [step]) constants'
      (answers ++ [((apply step).run builder).1]) ((apply step).run builder).2 := by
  obtain ⟨constants', meets⟩ := fulfilAll_meets keeps.tracks step.requests
  rw [apply_run_of_plain plain]
  generalize (step.requests.mapM fulfil).run builder = answer at meets
  obtain ⟨indices, middle⟩ := answer
  have placed := place_grows constants' middle step indices
  have kept := meets.grows.trans placed
  have classes : middle.thisClass = builder.thisClass := congrArg (·.thisClass) meets.frame
  refine ⟨constants', ?_, ?_, ?_, ?_⟩
  · have tracks := place_tracks meets.tracks step indices
    have whole : asked name (steps ++ [step]) = asked name steps ++ step.requests := by
      simp [asked]
    rw [whole]
    exact tracks
  · rw [outline_concat]
    exact (keeps.shows.mono meets.grows meets.frame).place meets.fulfilled
  · rw [thisClass_place, classes]
    exact kept.classes _ _ keeps.named
  · exact List.rel_append (keeps.answered.imp fun _ _ answered => answered.mono kept)
      (.cons ((answered_head meets.fulfilled).mono placed) .nil)

theorem run_concat (name : String) (steps : List Step) (step : Step) :
    run name (steps ++ [step]) =
      ((run name steps).1 ++ [((apply step).run (run name steps).2).1],
        ((apply step).run (run name steps).2).2) := by
  rw [run, List.mapM_append]
  rfl

theorem run_keeps (name : String) (steps : List Step)
    (plain : ∀ step ∈ steps, step.isPlain = true) :
    ∃ constants, Keeps name steps constants (run name steps).1 (run name steps).2 := by
  induction steps using List.reverseRecOn with
  | nil => exact start_keeps name
  | append_singleton steps step ih =>
      simp only [List.forall_mem_append, List.forall_mem_singleton] at plain
      obtain ⟨constants, keeps⟩ := ih plain.1
      rw [run_concat]
      exact keeps.step plain.2

end ClassCoupling.ClassBuilder
