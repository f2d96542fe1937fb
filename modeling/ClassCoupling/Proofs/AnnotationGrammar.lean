import ClassCoupling.Proofs.AnnotationSources
import ClassCoupling.Proofs.Truncation

/-!
Reading annotations against their sources. A reader follows some fields when it takes
their bytes and gives a value, or else stops at the first count among them that is too
deep. Readers that follow fields can be put one after the other, so reading follows the
fields of every source. In the other direction the bytes that reading accepts are those
of a source. Together: a payload is accepted exactly when it begins with the encoding of
sources that nest within the limit.
-/
namespace ClassCoupling.AnnotationSource

open Reader AnnotationTree

/-- How far behind the first of some fields the first count stands that is too deep. -/
def deepAt : List Field → Option Nat
  | [] => none
  | field :: fields =>
      if maxNesting < field.depth then some 0 else (deepAt fields).map (field.bytes.length + ·)

theorem deepAt_eq_none_iff {fields : List Field} :
    deepAt fields = none ↔ ∀ field ∈ fields, field.depth ≤ maxNesting := by
  induction fields with
  | nil => simp [deepAt]
  | cons field fields ih =>
      rw [deepAt]
      split
      case isTrue deep =>
        refine iff_of_false (by simp) fun shallow => ?_
        exact Nat.not_le_of_lt deep (shallow field List.mem_cons_self)
      case isFalse shallow => simp [ih, Nat.le_of_not_lt shallow]

theorem deepAt_append (front back : List Field) :
    deepAt (front ++ back) =
      (deepAt front).or ((deepAt back).map ((Field.spell front).length + ·)) := by
  induction front with
  | nil => simp [deepAt, Field.spell]
  | cons field fields ih =>
      rw [List.cons_append, deepAt, deepAt, ih]
      split
      · rfl
      · cases deepAt fields <;> cases deepAt back <;> simp [Field.spell_cons, Nat.add_assoc]

theorem exists_first_deep {fields : List Field} {place : Nat} (found : deepAt fields = some place) :
    ∃ before depth size after, fields = before ++ .values depth size :: after ∧
      maxNesting < depth ∧ (∀ field ∈ before, field.depth ≤ maxNesting) ∧
      place = (Field.spell before).length := by
  induction fields generalizing place with
  | nil => simp [deepAt] at found
  | cons field fields ih =>
      rw [deepAt] at found
      split at found
      case isTrue deep =>
        cases field with
        | values depth size =>
            exact ⟨[], depth, size, fields, rfl, deep, by simp, (Option.some.inj found).symm⟩
        | _ => simp [Field.depth] at deep
      case isFalse shallow =>
        obtain ⟨behind, later, rfl⟩ := Option.map_eq_some_iff.mp found
        obtain ⟨before, depth, size, after, rfl, deep, others, rfl⟩ := ih later
        refine ⟨field :: before, depth, size, after, rfl, deep, ?_, ?_⟩
        · simpa using ⟨Nat.le_of_not_lt shallow, others⟩
        · simp [Field.spell_cons]

def countedFields {β : Type} (count : Nat → Field) (fieldsOf : β → List Field) (items : List β) :
    List Field :=
  count items.length :: items.flatMap fieldsOf

/-- The reader takes the bytes of the fields and gives a value, or stops at the first count
among them that is too deep. -/
structure Follows {α : Type} (reader : Reader α) (fields : List Field) (value : α) : Prop where
  reads : deepAt fields = none → ∀ offset, reader.Reads offset (Field.spell fields) value
  stops : ∀ {place}, deepAt fields = some place → ∀ offset rest, ∃ stop,
    reader ⟨offset, Field.spell fields ++ rest⟩ =
      .error (.annotationTooDeep (offset + place) maxNesting) stop

namespace Follows

variable {α β : Type}

theorem pure (value : α) : Follows (pure value) [] value where
  reads := fun _ _ _ => rfl
  stops := fun found => by simp [deepAt] at found

theorem bind {item : Reader α} {next : α → Reader β} {front back : List Field} {first : α}
    {value : β} (starts : Follows item front first) (continues : Follows (next first) back value) :
    Follows (item >>= next) (front ++ back) value where
  reads := by
    intro shallow offset
    rw [deepAt_append, Option.or_eq_none_iff, Option.map_eq_none_iff] at shallow
    rw [Field.spell_append]
    exact (starts.reads shallow.1 offset).bind (continues.reads shallow.2 _)
  stops := by
    intro place found offset rest
    rw [deepAt_append] at found
    rw [Field.spell_append, List.append_assoc]
    cases early : deepAt front with
    | some here =>
        rw [early, Option.some_or, Option.some.injEq] at found
        obtain ⟨stop, failed⟩ := starts.stops early offset (Field.spell back ++ rest)
        exact ⟨stop, found ▸ bind_of_error failed⟩
    | none =>
        rw [early, Option.none_or] at found
        obtain ⟨behind, late, rfl⟩ := Option.map_eq_some_iff.mp found
        have started := starts.reads early offset (Field.spell back ++ rest)
        obtain ⟨stop, failed⟩ := continues.stops late (offset + (Field.spell front).length) rest
        rw [bind_of_ok started, ← Nat.add_assoc]
        exact ⟨stop, failed⟩

theorem map {item : Reader α} {fields : List Field} {first : α} (starts : Follows item fields first)
    (make : α → β) :
    Follows (item >>= fun value => Pure.pure (make value)) fields (make first) := by
  have whole : Follows (item >>= fun value => Pure.pure (make value)) (fields ++ [])
      (make first) := starts.bind (pure (make first))
  rwa [List.append_nil] at whole

theorem of_exact {item : Reader α} {encode : α → List UInt8} {valid : α → Prop}
    (exact : Exact item encode valid) {value : α} (validValue : valid value) {field : Field}
    (bytes : field.bytes = encode value) (shallow : field.depth ≤ maxNesting) :
    Follows item [field] value where
  reads := by
    intro _ offset rest
    rw [Field.spell, List.flatMap_singleton, bytes]
    exact exact.accepts validValue offset rest
  stops := by
    intro place found
    have none : deepAt [field] = none := deepAt_eq_none_iff.mpr (by simpa using shallow)
    simp [none] at found

theorem tag (byte : UInt8) : Follows u8 [.tag byte] byte :=
  of_exact u8_exact trivial rfl (Nat.zero_le _)

theorem index (role : Role) (place : UInt16) : Follows u16 [.index role place] place :=
  of_exact u16_exact trivial rfl (Nat.zero_le _)

theorem skip (role : Role) (place : UInt16) : Follows (Reader.skip 2) [.index role place] () := by
  have length : (u16Bytes place).length = 2 := bigEndianBytes_length 2 place.toNat
  have taken : Follows (take 2) [.index role place] (u16Bytes place) :=
    of_exact (take_exact 2) length rfl (Nat.zero_le _)
  exact taken.map fun _ => ()

theorem manyAfter {item : Reader α} {fieldsOf : β → List Field} {valueOf : β → α} {items : List β}
    (each : ∀ source ∈ items, Follows item (fieldsOf source) (valueOf source)) (found : List α) :
    Follows (manyAfter item items.length found) (items.flatMap fieldsOf)
      (found.reverse ++ items.map valueOf) := by
  induction items generalizing found with
  | nil =>
      rw [List.flatMap_nil, List.map_nil, List.append_nil]
      exact pure found.reverse
  | cons source items ih =>
      simp only [List.forall_mem_cons] at each
      have others := ih each.2 (valueOf source :: found)
      rw [List.reverse_cons, List.append_assoc, List.singleton_append] at others
      exact each.1.bind others

theorem counted {item : Reader α} {fieldsOf : β → List Field} {valueOf : β → α} {items : List β}
    {count : Nat → Field} (bytes : ∀ size, (count size).bytes = u16Bytes (UInt16.ofNat size))
    (small : items.length < 65536) (shallow : (count items.length).depth ≤ maxNesting)
    (each : ∀ source ∈ items, Follows item (fieldsOf source) (valueOf source)) :
    Follows (counted item) (countedFields count fieldsOf items) (items.map valueOf) := by
  have length : (UInt16.ofNat items.length).toNat = items.length := UInt16.toNat_ofNat_of_lt' small
  have first : Follows u16 [count items.length] (UInt16.ofNat items.length) :=
    of_exact u16_exact trivial (bytes _) shallow
  rw [countedFields, ← List.singleton_append]
  refine first.bind ?_
  rw [length]
  exact manyAfter each []

end Follows

def readElement (deeper : Bool → Reader (List AnnotationValue)) :
    Reader (List AnnotationValue) := do
  let tag ← Reader.u8
  if tag = 'e'.toUInt8 then
    let typeIndex ← Reader.u16
    Reader.skip 2
    return [.enumConstant typeIndex]
  else if tag = 'c'.toUInt8 then
    return [.classLiteral (← Reader.u16)]
  else if tag = '@'.toUInt8 then
    let typeIndex ← Reader.u16
    return [.nested typeIndex (← deeper true)]
  else if tag = '['.toUInt8 then
    deeper false
  else
    return [.scalar tag (← Reader.u16)]

def readItem (room : Nat) : Bool → Reader (List AnnotationValue)
  | true => Reader.skip 2 >>= fun _ => readElement (readValues room)
  | false => readElement (readValues room)

theorem runsAfter_eq (run : Reader (List AnnotationValue)) (count : Nat)
    {found : List AnnotationValue} {runs : List (List AnnotationValue)}
    (same : found.reverse = runs.reverse.flatten) :
    runsAfter run count found = manyAfter run count runs >>= fun all => pure all.flatten := by
  induction count generalizing found runs with
  | zero => simp [runsAfter, manyAfter, same]
  | succ count ih =>
      simp only [runsAfter, manyAfter, bind_assoc]
      congr
      funext values
      refine ih ?_
      simp [List.reverseAux_eq, same]

theorem readValues_succ (room : Nat) (named : Bool) :
    readValues (room + 1) named =
      counted (readItem room named) >>= fun runs => pure runs.flatten := by
  have unfolded : readValues (room + 1) named =
      Reader.u16 >>= fun count => runsAfter (readItem room named) count.toNat [] := by
    cases named <;> rfl
  simp only [unfolded, counted, many, bind_assoc]
  congr
  funext count
  exact runsAfter_eq _ _ rfl

theorem readValues_follows {β : Type} {fieldsOf : β → List Field}
    {valuesOf : β → List AnnotationValue} {items : List β} {depth room : Nat} {named : Bool}
    (level : depth + room = maxNesting + 1) (small : items.length < 65536)
    (each : ∀ left, room = left + 1 → ∀ item ∈ items,
      Follows (readItem left named) (fieldsOf item) (valuesOf item)) :
    Follows (readValues room named) (countedFields (.values depth) fieldsOf items)
      (items.flatMap valuesOf) := by
  cases room with
  | zero =>
      have deep : deepAt (countedFields (.values depth) fieldsOf items) = some 0 := by
        rw [countedFields, deepAt, if_pos]
        simp only [Field.depth]
        omega
      refine ⟨?_, ?_⟩
      · intro shallow
        simp [deep] at shallow
      · intro place found offset rest
        rw [deep, Option.some.injEq] at found
        subst found
        exact ⟨_, rfl⟩
  | succ left =>
      have shallow : (Field.values depth items.length).depth ≤ maxNesting := by
        simp only [Field.depth]
        omega
      rw [readValues_succ, List.flatMap_def]
      exact (Follows.counted (fun _ => rfl) small shallow (each left rfl)).map _

theorem readElements_follows {elements : List (UInt16 × ElementValue)} {depth room : Nat}
    (level : depth + room = maxNesting + 1) (small : elements.length < 65536)
    (each : ∀ left, room = left + 1 → ∀ element ∈ elements,
      Follows (readElement (readValues left)) (valueFields depth element.2)
        (splicedValue element.2)) :
    Follows (readValues room true) (countedFields (.values depth) (elementFields depth) elements)
      (splicedElements elements) := by
  rw [splicedElements_eq]
  refine readValues_follows level small ?_
  intro left room element listed
  exact (Follows.skip .elementName element.1).bind (each left room element listed)

/-- The counts of a list of fields have room in their bytes. -/
def Sized (fields : List Field) : Prop := ∀ field ∈ fields, field.size < 65536

theorem sized_append {front back : List Field} :
    Sized (front ++ back) ↔ Sized front ∧ Sized back :=
  List.forall_mem_append

theorem sized_cons {field : Field} {fields : List Field} :
    Sized (field :: fields) ↔ field.size < 65536 ∧ Sized fields :=
  List.forall_mem_cons

theorem sized_flatMap {β : Type} {fieldsOf : β → List Field} {items : List β} :
    Sized (items.flatMap fieldsOf) ↔ ∀ item ∈ items, Sized (fieldsOf item) := by
  simp only [Sized, List.mem_flatMap]
  constructor
  · intro sized item listed field inside
    exact sized field ⟨item, listed, inside⟩
  · rintro sized field ⟨item, listed, inside⟩
    exact sized item listed field inside

theorem readElement_follows (value : ElementValue) {depth room : Nat}
    (level : depth + room = maxNesting) (sized : Sized (valueFields depth value)) :
    Follows (readElement (readValues room)) (valueFields depth value) (splicedValue value) := by
  induction value using value_induction generalizing depth room with
  | scalar tag index =>
      obtain ⟨tag, noEnum, noClass, noNested, noArray⟩ := tag
      refine (Follows.tag tag).bind ?_
      rw [if_neg noEnum, if_neg noClass, if_neg noNested, if_neg noArray]
      exact (Follows.index .scalar index).map _
  | enumConstant typeIndex nameIndex =>
      refine (Follows.tag 'e'.toUInt8).bind ?_
      rw [if_pos rfl]
      exact (Follows.index .enumType typeIndex).bind ((Follows.skip .enumName nameIndex).map _)
  | classLiteral typeIndex =>
      refine (Follows.tag 'c'.toUInt8).bind ?_
      rw [if_neg (by decide), if_pos rfl]
      exact (Follows.index .classLiteral typeIndex).map _
  | nested typeIndex elements ih =>
      rw [valueFields, elementsFields_eq] at sized ⊢
      simp only [sized_cons, sized_flatMap, elementFields] at sized
      rw [splicedValue]
      refine (Follows.tag '@'.toUInt8).bind ?_
      rw [if_neg (by decide), if_neg (by decide), if_pos rfl]
      refine (Follows.index .annotationType typeIndex).bind ?_
      refine (readElements_follows (by omega) sized.2.2.1 ?_).map _
      rintro left rfl element listed
      have deeper : depth + 1 + left = maxNesting := by omega
      exact ih element listed deeper (sized.2.2.2 element listed).2
  | array items ih =>
      rw [valueFields, itemsFields_eq] at sized ⊢
      simp only [sized_cons, sized_flatMap] at sized
      rw [splicedValue, splicedItems_eq]
      refine (Follows.tag '['.toUInt8).bind ?_
      rw [if_neg (by decide), if_neg (by decide), if_neg (by decide), if_pos rfl]
      refine readValues_follows (by omega) sized.2.1 ?_
      rintro left rfl item listed
      have deeper : depth + 1 + left = maxNesting := by omega
      exact ih item listed deeper (sized.2.2 item listed)

theorem read_follows (source : AnnotationSource) (sized : Sized source.fields) :
    Follows read source.fields source.splice := by
  simp only [fields, sized_cons, sized_flatMap, elementFields] at sized
  refine (Follows.index .annotationType source.typeIndex).bind ?_
  refine (readElements_follows (Nat.zero_add _) sized.2.1 ?_).map _
  intro left room element listed
  have level : 0 + left = maxNesting := by omega
  exact readElement_follows element.2 level (sized.2.2 element listed).2

theorem readAll_follows {sources : List AnnotationSource} (fit : CountsFit sources) :
    Follows readAll (fieldsOfAll sources) (sources.map splice) := by
  obtain ⟨small, sized⟩ := sized_cons.mp fit
  refine Follows.counted (fun _ => rfl) small (Nat.zero_le _) fun source listed => ?_
  exact read_follows source (sized_flatMap.mp sized source listed)

/-- Whatever the reader accepts begins with the bytes of the fields of a source. -/
def Traces {α β : Type} (reader : Reader α) (fieldsOf : β → List Field) : Prop :=
  ∀ cursor value after, reader cursor = .ok value after →
    ∃ source, Sized (fieldsOf source) ∧ cursor.rest = Field.spell (fieldsOf source) ++ after.rest

namespace Traces

variable {α β γ : Type}

theorem bind {item : Reader α} {next : α → Reader γ} {fieldsOf : β → List Field}
    {δ : Type} {otherFields : δ → List Field} (starts : Traces item fieldsOf)
    (continues : ∀ value, Traces (next value) otherFields) :
    Traces (item >>= next) fun both : β × δ => fieldsOf both.1 ++ otherFields both.2 := by
  intro cursor value after accepted
  obtain ⟨first, middle, started, finished⟩ := bind_eq_ok_iff.mp accepted
  obtain ⟨source, sized, split⟩ := starts _ _ _ started
  obtain ⟨other, otherSized, otherSplit⟩ := continues first _ _ _ finished
  refine ⟨(source, other), sized_append.mpr ⟨sized, otherSized⟩, ?_⟩
  rw [split, otherSplit, Field.spell_append, List.append_assoc]

theorem skip (role : Role) : Traces (Reader.skip 2) fun place => [.index role place] := by
  rintro ⟨offset, bytes⟩ value after accepted
  obtain ⟨chunk, rest, length, rfl, done⟩ := (take_exact 2).bind_inverts accepted
  obtain ⟨-, rfl⟩ := pure_eq_ok_iff.mp done
  have small := bigEndian_lt chunk
  have spelled := bigEndianBytes_bigEndian chunk
  rw [length] at small spelled
  refine ⟨UInt16.ofNat (bigEndian chunk), by simp [Sized, Field.size], ?_⟩
  rw [Field.spell, List.flatMap_singleton, Field.bytes, u16Bytes,
    UInt16.toNat_ofNat_of_lt' small, spelled]

theorem manyAfter {item : Reader α} {fieldsOf : β → List Field} (each : Traces item fieldsOf)
    {count : Nat} {found values : List α} {cursor after : Cursor}
    (accepted : manyAfter item count found cursor = .ok values after) :
    ∃ sources : List β, sources.length = count ∧ Sized (sources.flatMap fieldsOf) ∧
      cursor.rest = Field.spell (sources.flatMap fieldsOf) ++ after.rest := by
  induction count generalizing found cursor with
  | zero =>
      obtain ⟨-, rfl⟩ := pure_eq_ok_iff.mp accepted
      exact ⟨[], rfl, by simp [Sized], rfl⟩
  | succ count ih =>
      obtain ⟨first, middle, started, finished⟩ := bind_eq_ok_iff.mp accepted
      obtain ⟨source, sized, split⟩ := each _ _ _ started
      obtain ⟨sources, rfl, othersSized, othersSplit⟩ := ih finished
      refine ⟨source :: sources, rfl, sized_append.mpr ⟨sized, othersSized⟩, ?_⟩
      rw [split, othersSplit, List.flatMap_cons, Field.spell_append, List.append_assoc]

theorem counted {item : Reader α} {fieldsOf : β → List Field} (each : Traces item fieldsOf)
    {count : Nat → Field} (bytes : ∀ size, (count size).bytes = u16Bytes (UInt16.ofNat size))
    (sizes : ∀ size, (count size).size = size) :
    Traces (counted item) (countedFields count fieldsOf) := by
  rintro ⟨offset, read⟩ values after accepted
  obtain ⟨number, rest, -, rfl, finished⟩ := u16_exact.bind_inverts accepted
  obtain ⟨sources, length, sized, split⟩ := each.manyAfter finished
  have small := number.toNat_lt
  refine ⟨sources, sized_cons.mpr ⟨?_, sized⟩, ?_⟩
  · rw [sizes, length]
    exact small
  · rw [countedFields, Field.spell_cons, bytes, length, UInt16.ofNat_toNat, List.append_assoc, ← split]

end Traces

theorem readValues_traces {β : Type} {fieldsOf : β → List Field} {room : Nat} {named : Bool}
    (each : Traces (readItem room named) fieldsOf) (depth : Nat) :
    Traces (readValues (room + 1) named) (countedFields (.values depth) fieldsOf) := by
  intro cursor values after accepted
  rw [readValues_succ] at accepted
  obtain ⟨runs, middle, counted, done⟩ := bind_eq_ok_iff.mp accepted
  obtain ⟨-, rfl⟩ := pure_eq_ok_iff.mp done
  exact each.counted (fun _ => rfl) (fun _ => rfl) _ _ _ counted

theorem readElement_traces_of_deeper {deeper : Bool → Reader (List AnnotationValue)} {depth : Nat}
    (named : Traces (deeper true)
      (countedFields (.values (depth + 1)) (elementFields (depth + 1))))
    (unnamed : Traces (deeper false)
      (countedFields (.values (depth + 1)) (valueFields (depth + 1)))) :
    Traces (readElement deeper) (valueFields depth) := by
  rintro ⟨offset, bytes⟩ value after accepted
  obtain ⟨tag, rest, -, rfl, following⟩ := u8_exact.bind_inverts accepted
  by_cases isEnum : tag = 'e'.toUInt8
  · rw [if_pos isEnum] at following
    obtain ⟨typeIndex, rest, -, rfl, behind⟩ := u16_exact.bind_inverts following
    obtain ⟨_, middle, skipped, done⟩ := bind_eq_ok_iff.mp behind
    obtain ⟨-, rfl⟩ := pure_eq_ok_iff.mp done
    obtain ⟨nameIndex, -, split⟩ := Traces.skip .enumName _ _ _ skipped
    refine ⟨.enumConstant typeIndex nameIndex, by simp [valueFields, Sized, Field.size], ?_⟩
    simp only at split
    simp [valueFields, Field.spell, Field.bytes, isEnum, split]
  rw [if_neg isEnum] at following
  by_cases isClass : tag = 'c'.toUInt8
  · rw [if_pos isClass] at following
    obtain ⟨typeIndex, rest, -, rfl, done⟩ := u16_exact.bind_inverts following
    obtain ⟨-, rfl⟩ := pure_eq_ok_iff.mp done
    refine ⟨.classLiteral typeIndex, by simp [valueFields, Sized, Field.size], ?_⟩
    simp [valueFields, Field.spell, Field.bytes, isClass]
  rw [if_neg isClass] at following
  by_cases isNested : tag = '@'.toUInt8
  · rw [if_pos isNested] at following
    obtain ⟨typeIndex, rest, -, rfl, behind⟩ := u16_exact.bind_inverts following
    obtain ⟨values, middle, inner, done⟩ := bind_eq_ok_iff.mp behind
    obtain ⟨-, rfl⟩ := pure_eq_ok_iff.mp done
    obtain ⟨elements, sized, split⟩ := named _ _ _ inner
    refine ⟨.nested typeIndex elements, ?_, ?_⟩
    · rw [valueFields, elementsFields_eq]
      exact sized_cons.mpr ⟨Nat.zero_lt_succ _, sized_cons.mpr ⟨Nat.zero_lt_succ _, sized⟩⟩
    · simp only at split
      simp [valueFields, elementsFields_eq, countedFields, Field.spell_cons, Field.bytes, isNested,
        split]
  rw [if_neg isNested] at following
  by_cases isArray : tag = '['.toUInt8
  · rw [if_pos isArray] at following
    obtain ⟨items, sized, split⟩ := unnamed _ _ _ following
    refine ⟨.array items, ?_, ?_⟩
    · rw [valueFields, itemsFields_eq]
      exact sized_cons.mpr ⟨Nat.zero_lt_succ _, sized⟩
    · simp only at split
      simp [valueFields, itemsFields_eq, countedFields, Field.spell_cons, Field.bytes, isArray, split]
  rw [if_neg isArray] at following
  obtain ⟨index, rest, -, rfl, done⟩ := u16_exact.bind_inverts following
  obtain ⟨-, rfl⟩ := pure_eq_ok_iff.mp done
  refine ⟨.scalar ⟨tag, isEnum, isClass, isNested, isArray⟩ index, ?_, ?_⟩
  · simp [valueFields, Sized, Field.size]
  · simp [valueFields, Field.spell, Field.bytes]

theorem readElement_traces (room depth : Nat) :
    Traces (readElement (readValues room)) (valueFields depth) := by
  induction room generalizing depth with
  | zero =>
      -- Nothing is read without a level left, so there is nothing to trace.
      refine readElement_traces_of_deeper ?_ ?_ <;> intro cursor value after accepted <;>
        cases accepted
  | succ room ih =>
      have element : Traces (readItem room true) (elementFields (depth + 1)) :=
        (Traces.skip .elementName).bind fun _ => ih (depth + 1)
      have item : Traces (readItem room false) (valueFields (depth + 1)) := ih (depth + 1)
      exact readElement_traces_of_deeper (readValues_traces element _) (readValues_traces item _)

theorem read_traces : Traces read fields := by
  rintro ⟨offset, bytes⟩ tree after accepted
  obtain ⟨typeIndex, rest, -, rfl, behind⟩ := u16_exact.bind_inverts accepted
  obtain ⟨values, middle, inner, done⟩ := bind_eq_ok_iff.mp behind
  obtain ⟨-, rfl⟩ := pure_eq_ok_iff.mp done
  have element : Traces (readItem maxNesting true) (elementFields 0) :=
    (Traces.skip .elementName).bind fun _ => readElement_traces maxNesting 0
  obtain ⟨elements, sized, split⟩ := readValues_traces element 0 _ _ _ inner
  refine ⟨⟨typeIndex, elements⟩, sized_cons.mpr ⟨Nat.zero_lt_succ _, sized⟩, ?_⟩
  simp only at split
  rw [fields, Field.spell_cons, split, ← List.append_assoc]
  rfl

theorem readAll_traces : Traces readAll fieldsOfAll :=
  read_traces.counted (fun _ => rfl) (fun _ => rfl)

theorem nestsWithin_iff {sources : List AnnotationSource} :
    NestsWithin maxNesting sources ↔ deepAt (fieldsOfAll sources) = none :=
  deepAt_eq_none_iff.symm

/-- Parsing accepts exactly the encodings of sources whose counts fit and that nest within the
limit, with anything behind them, and gives their splicing. Sources that nest deeper fail at the
first count of values that is too deep. -/
theorem parse_accepts_grammar :
    (∀ payload trees, parse payload = .ok trees ↔
      ∃ sources rest, payload = encodeAll sources ++ rest ∧ CountsFit sources ∧
        NestsWithin 128 sources ∧ sources.map splice = trees) ∧
    ∀ sources rest, CountsFit sources → ¬ NestsWithin 128 sources →
      ∃ before depth size after, fieldsOfAll sources = before ++ .values depth size :: after ∧
        128 < depth ∧ (∀ field ∈ before, field.depth ≤ 128) ∧
        parse (encodeAll sources ++ rest) =
          .error (.annotationTooDeep (Field.spell before).length 128) := by
  refine ⟨fun payload trees => ⟨?_, ?_⟩, ?_⟩
  · intro accepted
    obtain ⟨after, read⟩ := run_eq_ok_iff.mp accepted
    obtain ⟨sources, fit, split⟩ := readAll_traces _ _ _ read
    simp only at split
    have follows := readAll_follows fit
    -- The same bytes are the encoding of a source, so the reader does what it does there.
    cases deep : deepAt (fieldsOfAll sources) with
    | some place =>
        obtain ⟨stop, failed⟩ := follows.stops deep 0 after.rest
        rw [← split, read] at failed
        cases failed
    | none =>
        have again := follows.reads deep 0 after.rest
        rw [← split, read, EStateM.Result.ok.injEq] at again
        exact ⟨sources, after.rest, split, fit, nestsWithin_iff.mpr deep, again.1.symm⟩
  · rintro ⟨sources, rest, rfl, fit, shallow, rfl⟩
    exact run_eq_ok_iff.mpr
      ⟨_, (readAll_follows fit).reads (nestsWithin_iff.mp shallow) 0 rest⟩
  · intro sources rest fit deep
    obtain ⟨place, found⟩ := Option.ne_none_iff_exists'.mp (mt nestsWithin_iff.mpr deep)
    obtain ⟨before, depth, size, after, split, tooDeep, shallow, rfl⟩ := exists_first_deep found
    obtain ⟨stop, failed⟩ := (readAll_follows fit).stops found 0 rest
    refine ⟨before, depth, size, after, split, tooDeep, shallow, ?_⟩
    rw [Nat.zero_add] at failed
    rw [parse, Reader.run, Cursor.ofBytes, encodeAll, failed]
    rfl

theorem parse_accepts_grammar_at_limit :
    parse (encodeAll [⟨60, [(61, nestedArrays 127)]⟩] ++ [7]) = .ok [⟨60, []⟩] ∧
      CountsFit [⟨60, [(61, nestedArrays 128)]⟩] ∧
      ¬ NestsWithin 128 [⟨60, [(61, nestedArrays 128)]⟩] ∧
      ∃ before depth size after,
        fieldsOfAll [⟨60, [(61, nestedArrays 128)]⟩] = before ++ .values depth size :: after ∧
        128 < depth ∧ (∀ field ∈ before, field.depth ≤ 128) ∧
        parse (encodeAll [⟨60, [(61, nestedArrays 128)]⟩] ++ [7]) =
          .error (.annotationTooDeep (Field.spell before).length 128) := by
  have fit : CountsFit [⟨60, [(61, nestedArrays 128)]⟩] := by decide +kernel
  have deep : ¬ NestsWithin 128 [⟨60, [(61, nestedArrays 128)]⟩] := by decide +kernel
  refine ⟨(parse_accepts_grammar.1 _ _).mpr ⟨_, [7], rfl, ?_, ?_, ?_⟩, fit, deep,
    parse_accepts_grammar.2 _ [7] fit deep⟩
  · decide +kernel
  · decide +kernel
  · simp [splice, splicedElements, splicedValue_nestedArrays]

end ClassCoupling.AnnotationSource
