import ClassCoupling.ClassFile.Builder
import ClassCoupling.Proofs.PlainText
import ClassCoupling.Proofs.PoolLayout
import Mathlib.Data.List.Forall2

/-!
The constants of a builder. Whatever a builder is asked for, its bytes are those of
a list of constants, its tables give the slots where texts and class names stand, and
every constant on the list was asked for. Slots are counted without end here; an index
is the low part of its slot, and is the slot itself as long as the pool has room.
-/
namespace ClassCoupling

namespace Pool

theorem slots_append (constants more : List Constant) :
    (ofConstants (constants ++ more)).slots =
      (ofConstants constants).slots ++ (more.flatMap slotsOf).toArray := by
  simp [ofConstants]

theorem size_append (constants more : List Constant) :
    (ofConstants (constants ++ more)).size =
      (ofConstants constants).size + (more.flatMap slotsOf).length := by
  simp [Pool.size, slots_append]

theorem slot_append {constants : List Constant} {slot : Nat} {held : Option Constant}
    (found : (ofConstants constants).slots[slot]? = some held) (more : List Constant) :
    (ofConstants (constants ++ more)).slots[slot]? = some held := by
  obtain ⟨inside, -⟩ := Array.getElem?_eq_some_iff.mp found
  rw [slots_append, Array.getElem?_append_left inside, found]

theorem slot_after_wide {constants : List Constant} {slot : Nat} {constant : Constant}
    (found : (ofConstants constants).slots[slot]? = some (some constant))
    (wide : constant.isWide = true) :
    (ofConstants constants).slots[slot + 1]? = some none := by
  cases slot with
  | zero => simp [ofConstants] at found
  | succ slot =>
      have inside := (Array.getElem?_eq_some_iff.mp found).1
      rw [← Pool.size, size_ofConstants, length_flatMap_slotsOf] at inside
      obtain ⟨before, other, after, rfl, place⟩ := slot_cases (Nat.lt_of_succ_lt_succ inside)
      rw [Nat.add_comm] at found
      obtain rfl | ⟨double, rfl⟩ := place
      · rw [begins_at, Option.some.injEq, Option.some.injEq] at found
        rw [Nat.add_comm (widths before)]
        exact dead_after before after (found ▸ wide)
      · -- The second slot of a constant holds none.
        rw [← Nat.add_assoc, dead_after before after double] at found
        cases found

theorem size_eq_count (constants : List Constant) :
    (ofConstants constants).size =
      1 + constants.length + constants.countP Constant.isWide := by
  rw [size_ofConstants]
  induction constants with
  | nil => rfl
  | cons constant constants ih =>
      have first : (slotsOf constant).length = if constant.isWide then 2 else 1 :=
        slotsOf_length constant
      rw [List.flatMap_cons, List.length_append, List.length_cons, List.countP_cons, first]
      split <;> omega

end Pool

/-- The constant stands in the slot that the index is the low part of. -/
def Pool.Stands (pool : Pool) (index : UInt16) (constant : Constant) : Prop :=
  ∃ slot, pool.slots[slot]? = some (some constant) ∧ index = UInt16.ofNat slot

namespace Pool.Stands

theorem append {constants : List Constant} {index : UInt16} {constant : Constant}
    (stands : (ofConstants constants).Stands index constant) (more : List Constant) :
    (ofConstants (constants ++ more)).Stands index constant := by
  obtain ⟨slot, found, low⟩ := stands
  exact ⟨slot, slot_append found more, low⟩

theorem last (constants : List Constant) (constant : Constant) :
    (ofConstants (constants ++ [constant])).Stands (UInt16.ofNat (ofConstants constants).size)
      constant := by
  refine ⟨(ofConstants constants).size, ?_, rfl⟩
  rw [slots_append, Pool.size, Array.getElem?_append_right (Nat.le_refl _), Nat.sub_self]
  unfold slotsOf
  by_cases wide : constant.isWide = true <;> simp [wide]

theorem holds {pool : Pool} {index : UInt16} {constant : Constant}
    (stands : pool.Stands index constant) (room : pool.size < 65536) :
    pool.Holds index constant := by
  obtain ⟨slot, found, rfl⟩ := stands
  obtain ⟨inside, -⟩ := Array.getElem?_eq_some_iff.mp found
  have low : (UInt16.ofNat slot).toNat = slot :=
    UInt16.toNat_ofNat_of_lt' (Nat.lt_trans inside room)
  rw [Holds, low, found]

end Pool.Stands

namespace ClassBuilder

/-- What a step asks for: a shared text, a shared class constant, or a constant of its own. -/
inductive Request where
  | text (text : String)
  | className (name : String)
  | fresh (constant : Constant)

def Request.isWide : Request → Bool
  | fresh constant => constant.isWide
  | _ => false

def fulfil : Request → StateM ClassBuilder UInt16
  | .text text => utf8 text
  | .className name => classInfo name
  | .fresh constant => ClassBuilder.constant constant

def frame (builder : ClassBuilder) : ClassBuilder :=
  { builder with entries := #[], nextIndex := 1, texts := {}, classes := {} }

def adding (constant : Constant) (builder : ClassBuilder) : ClassBuilder :=
  { builder with
    entries := builder.entries.push constant.encode
    nextIndex := builder.nextIndex + UInt16.ofNat constant.width }

theorem utf8_run_of_some {builder : ClassBuilder} {text : String} {index : UInt16}
    (known : builder.texts[text]? = some index) : (utf8 text).run builder = (index, builder) := by
  simp only [utf8, Std.TreeMap.get?_eq_getElem?, StateT.run_bind, StateT.run_get, pure_bind, known]
  rfl

theorem utf8_run_of_none {builder : ClassBuilder} {text : String}
    (unknown : builder.texts[text]? = none) :
    (utf8 text).run builder = (builder.nextIndex,
      { builder.adding (.utf8 (Utf8.encode text)) with
        texts := builder.texts.insert text builder.nextIndex }) := by
  simp only [utf8, Std.TreeMap.get?_eq_getElem?, StateT.run_bind, StateT.run_get, pure_bind,
    unknown]
  rfl

theorem classInfo_run_of_some {builder : ClassBuilder} {name : String} {index : UInt16}
    (known : builder.classes[name]? = some index) :
    (classInfo name).run builder = (index, builder) := by
  simp only [classInfo, Std.TreeMap.get?_eq_getElem?, StateT.run_bind, StateT.run_get, pure_bind,
    known]
  rfl

theorem classInfo_run_of_none {builder : ClassBuilder} {name : String}
    (unknown : builder.classes[name]? = none) {nameIndex : UInt16} {named : ClassBuilder}
    (text : (utf8 name).run builder = (nameIndex, named)) :
    (classInfo name).run builder = (named.nextIndex,
      { named.adding (.classInfo nameIndex) with
        classes := named.classes.insert name named.nextIndex }) := by
  -- The text of the name comes first.
  simp only [classInfo, Std.TreeMap.get?_eq_getElem?, StateT.run_bind, StateT.run_get, pure_bind,
    unknown, text]
  rfl

inductive Accounted (asked : List Request) (texts classes : Std.TreeMap String UInt16) :
    Constant → Prop
  | text {text : String} (known : text ∈ texts) :
      Accounted asked texts classes (.utf8 (Utf8.encode text))
  | className {name : String} {nameIndex : UInt16} (known : name ∈ classes)
      (spelled : texts[name]? = some nameIndex) :
      Accounted asked texts classes (.classInfo nameIndex)
  | fresh {constant : Constant} (wanted : .fresh constant ∈ asked) :
      Accounted asked texts classes constant

/-- The builder holds the constants, and its tables tell where they stand. -/
structure Tracks (asked : List Request) (constants : List Constant) (builder : ClassBuilder) :
    Prop where
  entries : builder.entries.toList = constants.map Constant.encode
  nextIndex : builder.nextIndex = UInt16.ofNat (Pool.ofConstants constants).size
  text_stands : ∀ (text : String) (index : UInt16), builder.texts[text]? = some index →
    (Pool.ofConstants constants).Stands index (.utf8 (Utf8.encode text))
  class_stands : ∀ (name : String) (index : UInt16), builder.classes[name]? = some index →
    ∃ nameIndex, builder.texts[name]? = some nameIndex ∧
      (Pool.ofConstants constants).Stands index (.classInfo nameIndex)
  accounted : ∀ constant ∈ constants, Accounted asked builder.texts builder.classes constant
  text_asked : ∀ text ∈ builder.texts, .text text ∈ asked ∨ .className text ∈ asked
  class_asked : ∀ name, name ∈ builder.classes ↔ .className name ∈ asked
  wide : constants.countP Constant.isWide = asked.countP Request.isWide

/-- Nothing that was written or found is lost. -/
structure Grows (constants : List Constant) (before : ClassBuilder) (constants' : List Constant)
    (after : ClassBuilder) : Prop where
  constants : constants <+: constants'
  texts : ∀ (text : String) (index : UInt16), before.texts[text]? = some index →
    after.texts[text]? = some index
  classes : ∀ (name : String) (index : UInt16), before.classes[name]? = some index →
    after.classes[name]? = some index

def Fulfilled (constants : List Constant) (builder : ClassBuilder) : Request → UInt16 → Prop
  | .text text, index => builder.texts[text]? = some index
  | .className name, index => builder.classes[name]? = some index
  | .fresh constant, index => (Pool.ofConstants constants).Stands index constant

theorem getElem?_insert (table : Std.TreeMap String UInt16) (key other : String) (index : UInt16) :
    (table.insert key index)[other]? = if key = other then some index else table[other]? := by
  simp [Std.TreeMap.getElem?_insert]

theorem getElem?_insert_of_none {table : Std.TreeMap String UInt16} {key other : String}
    {otherIndex : UInt16} (unknown : table[key]? = none) (found : table[other]? = some otherIndex)
    (index : UInt16) : (table.insert key index)[other]? = some otherIndex := by
  have differs : key ≠ other := by
    intro same
    rw [same, found] at unknown
    cases unknown
  rw [getElem?_insert, if_neg differs, found]

theorem empty_tracks : Tracks [] [] {} where
  entries := rfl
  nextIndex := rfl
  text_stands := by simp
  class_stands := by simp
  accounted := by simp
  text_asked := by simp
  class_asked := by simp
  wide := rfl

section Steps

variable {asked : List Request} {constants : List Constant} {builder : ClassBuilder}

theorem Tracks.adding (tracks : Tracks asked constants builder) (constant : Constant) :
    Tracks (asked ++ [.fresh constant]) (constants ++ [constant]) (builder.adding constant) where
  entries := by simp [ClassBuilder.adding, tracks.entries]
  nextIndex := by
    rw [Pool.size_append, List.flatMap_singleton, Pool.slotsOf_length, UInt16.ofNat_add,
      ← tracks.nextIndex]
    rfl
  text_stands := fun text index found => (tracks.text_stands text index found).append [constant]
  class_stands := by
    intro name index found
    obtain ⟨nameIndex, spelled, stands⟩ := tracks.class_stands name index found
    exact ⟨nameIndex, spelled, stands.append [constant]⟩
  accounted := by
    intro other listed
    rw [List.mem_append, List.mem_singleton] at listed
    cases listed with
    | inl old =>
        cases tracks.accounted other old with
        | text known => exact .text known
        | className known spelled => exact .className known spelled
        | fresh wanted => exact .fresh (List.mem_append_left _ wanted)
    | inr new => exact .fresh (by simp [new])
  text_asked := by simpa [ClassBuilder.adding] using tracks.text_asked
  class_asked := by simpa [ClassBuilder.adding] using tracks.class_asked
  wide := by
    rw [List.countP_append, List.countP_append, tracks.wide]
    rfl

theorem Tracks.nameText {text : String} {index : UInt16}
    (tracks : Tracks (asked ++ [.fresh (.utf8 (Utf8.encode text))]) constants builder)
    (unknown : builder.texts[text]? = none)
    (stands : (Pool.ofConstants constants).Stands index (.utf8 (Utf8.encode text))) :
    Tracks (asked ++ [.text text]) constants
      { builder with texts := builder.texts.insert text index } where
  entries := tracks.entries
  nextIndex := tracks.nextIndex
  text_stands := by
    intro other otherIndex found
    simp only [getElem?_insert] at found
    split at found
    case isTrue same =>
      cases found
      rwa [← same]
    case isFalse => exact tracks.text_stands other otherIndex found
  class_stands := by
    intro name classIndex found
    obtain ⟨nameIndex, spelled, standing⟩ := tracks.class_stands name classIndex found
    exact ⟨nameIndex, getElem?_insert_of_none unknown spelled index, standing⟩
  accounted := by
    intro constant listed
    cases tracks.accounted constant listed with
    | text known => exact .text (by simp [known])
    | className known spelled =>
        exact .className known (getElem?_insert_of_none unknown spelled index)
    | fresh wanted =>
        simp only [List.mem_append, List.mem_singleton, Request.fresh.injEq] at wanted
        cases wanted with
        | inl old => exact .fresh (List.mem_append_left _ old)
        | inr new =>
            rw [new]
            exact .text (by simp)
  text_asked := by
    intro other known
    simp only [Std.TreeMap.mem_insert, Std.compare_eq_iff_eq] at known
    cases known with
    | inl same => simp [same]
    | inr old =>
        have before := tracks.text_asked other old
        simp only [List.mem_append, List.mem_singleton, reduceCtorEq, or_false] at before ⊢
        exact before.imp .inl id
  class_asked := by simpa using tracks.class_asked
  wide := by simpa [List.countP_append, Request.isWide, Constant.isWide] using tracks.wide

theorem Tracks.nameClass {name : String} {nameIndex index : UInt16}
    (tracks : Tracks (asked ++ [.text name] ++ [.fresh (.classInfo nameIndex)]) constants builder)
    (spelled : builder.texts[name]? = some nameIndex)
    (stands : (Pool.ofConstants constants).Stands index (.classInfo nameIndex)) :
    Tracks (asked ++ [.className name]) constants
      { builder with classes := builder.classes.insert name index } where
  entries := tracks.entries
  nextIndex := tracks.nextIndex
  text_stands := tracks.text_stands
  class_stands := by
    intro other otherIndex found
    simp only [getElem?_insert] at found
    split at found
    case isTrue same =>
      cases found
      exact ⟨nameIndex, same ▸ spelled, stands⟩
    case isFalse => exact tracks.class_stands other otherIndex found
  accounted := by
    intro constant listed
    cases tracks.accounted constant listed with
    | text known => exact .text known
    | className known text => exact .className (by simp [known]) text
    | fresh wanted =>
        simp only [List.mem_append, List.mem_singleton, reduceCtorEq, or_false,
          Request.fresh.injEq] at wanted
        cases wanted with
        | inl old => exact .fresh (List.mem_append_left _ old)
        | inr new =>
            rw [new]
            exact .className (by simp) spelled
  text_asked := by
    intro text known
    have before := tracks.text_asked text known
    simp only [List.mem_append, List.mem_singleton, reduceCtorEq, or_false, Request.text.injEq,
      Request.className.injEq] at before ⊢
    grind
  class_asked := by
    intro other
    have before := tracks.class_asked other
    simp only [List.mem_append, List.mem_singleton, reduceCtorEq, or_false] at before
    simp only [Std.TreeMap.mem_insert, Std.compare_eq_iff_eq, List.mem_append, List.mem_singleton,
      Request.className.injEq, before]
    rw [or_comm, eq_comm]
  wide := by
    simpa [List.countP_append, Request.isWide, Constant.isWide] using tracks.wide

theorem Tracks.again (tracks : Tracks asked constants builder) {request : Request}
    (narrow : request.isWide = false)
    (known : ∀ name, request = .className name → name ∈ builder.classes) :
    Tracks (asked ++ [request]) constants builder where
  entries := tracks.entries
  nextIndex := tracks.nextIndex
  text_stands := tracks.text_stands
  class_stands := tracks.class_stands
  accounted := by
    intro constant listed
    cases tracks.accounted constant listed with
    | text known => exact .text known
    | className known spelled => exact .className known spelled
    | fresh wanted => exact .fresh (List.mem_append_left _ wanted)
  text_asked := fun text known =>
    (tracks.text_asked text known).imp (List.mem_append_left _) (List.mem_append_left _)
  class_asked := by
    intro name
    rw [List.mem_append, List.mem_singleton, ← tracks.class_asked]
    exact ⟨.inl, fun either => either.elim id fun same => known name same.symm⟩
  wide := by
    rw [List.countP_append, tracks.wide]
    simp [narrow]

theorem Grows.refl (constants : List Constant) (builder : ClassBuilder) :
    Grows constants builder constants builder :=
  ⟨List.prefix_rfl, fun _ _ found => found, fun _ _ found => found⟩

theorem Grows.trans {first second third : List Constant} {before middle after : ClassBuilder}
    (early : Grows first before second middle) (late : Grows second middle third after) :
    Grows first before third after where
  constants := early.constants.trans late.constants
  texts := fun text index found => late.texts text index (early.texts text index found)
  classes := fun name index found => late.classes name index (early.classes name index found)

theorem Fulfilled.mono {constants' : List Constant} {after : ClassBuilder} {request : Request}
    {index : UInt16} (fulfilled : Fulfilled constants builder request index)
    (grows : Grows constants builder constants' after) :
    Fulfilled constants' after request index := by
  cases request with
  | text text => exact grows.texts text index fulfilled
  | className name => exact grows.classes name index fulfilled
  | fresh constant =>
      obtain ⟨more, rfl⟩ := grows.constants
      exact fulfilled.append more

/-- What meeting requests does to a builder: the indices lead to what was asked for, nothing is
lost, and all but the constants is as before. -/
structure Meets (asked : List Request) (constants : List Constant) (before : ClassBuilder)
    (requests : List Request) (answer : List UInt16 × ClassBuilder) (constants' : List Constant) :
    Prop where
  tracks : Tracks (asked ++ requests) constants' answer.2
  grows : Grows constants before constants' answer.2
  fulfilled : List.Forall₂ (Fulfilled constants' answer.2) requests answer.1
  frame : answer.2.frame = before.frame

theorem utf8_meets (tracks : Tracks asked constants builder) (text : String) :
    ∃ constants', Meets asked constants builder [.text text]
      ([((utf8 text).run builder).1], ((utf8 text).run builder).2) constants' := by
  cases known : builder.texts[text]? with
  | some index =>
      rw [utf8_run_of_some known]
      exact ⟨constants, tracks.again rfl (by simp), .refl constants builder, .cons known .nil, rfl⟩
  | none =>
      rw [utf8_run_of_none known]
      have stands := Pool.Stands.last constants (.utf8 (Utf8.encode text))
      rw [← tracks.nextIndex] at stands
      exact ⟨_, {
        tracks := (tracks.adding _).nameText known stands
        grows := {
          constants := List.prefix_append _ _
          texts := fun _ _ found => getElem?_insert_of_none known found _
          classes := fun _ _ found => found }
        fulfilled := .cons (by simp [Fulfilled]) .nil
        frame := rfl }⟩

theorem classInfo_meets (tracks : Tracks asked constants builder) (name : String) :
    ∃ constants', Meets asked constants builder [.className name]
      ([((classInfo name).run builder).1], ((classInfo name).run builder).2) constants' := by
  cases known : builder.classes[name]? with
  | some index =>
      rw [classInfo_run_of_some known]
      have listed : name ∈ builder.classes := by simp [Std.TreeMap.mem_iff_isSome_getElem?, known]
      exact ⟨constants, tracks.again rfl (by simpa using listed), .refl constants builder,
        .cons known .nil, rfl⟩
  | none =>
      rw [classInfo_run_of_none known rfl]
      obtain ⟨named, meets⟩ := utf8_meets tracks name
      have spelled : Fulfilled _ _ _ _ := (List.forall₂_cons.mp meets.fulfilled).1
      -- The text that is written first adds no class.
      have absent : ((utf8 name).run builder).2.classes[name]? = none := by
        have unlisted : name ∉ builder.classes := by
          simp [Std.TreeMap.mem_iff_isSome_getElem?, known]
        rw [tracks.class_asked] at unlisted
        apply Std.TreeMap.getElem?_eq_none
        rw [meets.tracks.class_asked]
        simpa using unlisted
      have stands := Pool.Stands.last named (.classInfo ((utf8 name).run builder).1)
      rw [← meets.tracks.nextIndex] at stands
      exact ⟨_, {
        tracks := (meets.tracks.adding _).nameClass spelled stands
        grows := meets.grows.trans {
          constants := List.prefix_append _ _
          texts := fun _ _ found => found
          classes := fun _ _ found => getElem?_insert_of_none absent found _ }
        fulfilled := .cons (by simp [Fulfilled]) .nil
        frame := meets.frame }⟩

theorem constant_meets (tracks : Tracks asked constants builder) (constant : Constant) :
    Meets asked constants builder [.fresh constant]
      ([builder.nextIndex], builder.adding constant) (constants ++ [constant]) := by
  have stands := Pool.Stands.last constants constant
  rw [← tracks.nextIndex] at stands
  exact {
    tracks := tracks.adding constant
    grows := ⟨List.prefix_append _ _, fun _ _ found => found, fun _ _ found => found⟩
    fulfilled := .cons stands .nil
    frame := rfl }

theorem fulfil_meets (tracks : Tracks asked constants builder) (request : Request) :
    ∃ constants', Meets asked constants builder [request]
      ([((fulfil request).run builder).1], ((fulfil request).run builder).2) constants' := by
  cases request with
  | text text => exact utf8_meets tracks text
  | className name => exact classInfo_meets tracks name
  | fresh constant => exact ⟨_, constant_meets tracks constant⟩

theorem fulfilAll_meets (tracks : Tracks asked constants builder) (requests : List Request) :
    ∃ constants', Meets asked constants builder requests ((requests.mapM fulfil).run builder)
      constants' := by
  induction requests generalizing asked constants builder with
  | nil =>
      have same := List.append_nil asked
      exact ⟨constants, same.symm ▸ tracks, .refl constants builder, .nil, rfl⟩
  | cons request requests ih =>
      obtain ⟨middle, first⟩ := fulfil_meets tracks request
      obtain ⟨last, others⟩ := ih first.tracks
      rw [List.mapM_cons]
      refine ⟨last, ?_, first.grows.trans others.grows, ?_, others.frame.trans first.frame⟩
      · have tracked := others.tracks
        rw [List.append_assoc] at tracked
        exact tracked
      · exact .cons ((List.forall₂_cons.mp first.fulfilled).1.mono others.grows) others.fulfilled

end Steps

end ClassBuilder

end ClassCoupling
