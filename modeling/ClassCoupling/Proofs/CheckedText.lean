import ClassCoupling.ClassFile.Descriptor
import ClassCoupling.ClassRecord
import ClassCoupling.Proofs.CheckedReader
import ClassCoupling.Proofs.PlainText
import Mathlib.Data.List.TakeWhile

/-!
Texts by index. The units of class-file text are found with an index that steps over the
bytes, and parts of a text are cut out of its encoding between two byte positions, each of
which has to be the end of the text or the first byte of a character. The index stays below
the length where a byte is taken, and the positions that follow a one-byte mark or lead up
to one lie between characters, so neither can trap.
-/
namespace ClassCoupling.Checked

section Units

open ModifiedUtf8

def unitsFrom (limit : Nat) (bytes : List UInt8) (index : Nat) (found : List UInt16) :
    Outcome (List UInt16) :=
  if index < bytes.length then do
    let lead ← elementAt bytes index
    let _ ← within limit (index + 1)
    if lead &&& 0x80 == 0 then unitsFrom limit bytes (index + 1) (lead.toUInt16 :: found)
    else if lead &&& 0xE0 == 0xC0 && index + 1 < bytes.length then
      let second ← elementAt bytes (index + 1)
      let _ ← within limit (index + 2)
      unitsFrom limit bytes (index + 2) (twoByteUnit lead second :: found)
    else if lead &&& 0xF0 == 0xE0 then
      let _ ← within limit (index + 2)
      if index + 2 < bytes.length then
        let second ← elementAt bytes (index + 1)
        let third ← elementAt bytes (index + 2)
        let _ ← within limit (index + 3)
        unitsFrom limit bytes (index + 3) (threeByteUnit lead second third :: found)
      else unitsFrom limit bytes (index + 1) (replacementUnit :: found)
    else unitsFrom limit bytes (index + 1) (replacementUnit :: found)
  else .ok found.reverse
termination_by bytes.length - index

def textOf (limit : Nat) (bytes : List UInt8) : Outcome String :=
  match Utf8.decode? bytes with
  | some text => .ok text
  | none => do return String.ofList (Utf16.decode (← unitsFrom limit bytes 0 []))

variable {limit : Nat} {bytes : List UInt8}

theorem ahead_cons {index : Nat} {lead : UInt8} {rest : List UInt8}
    (ahead : bytes.drop index = lead :: rest) :
    index < bytes.length ∧ elementAt bytes index = .ok lead ∧ bytes.drop (index + 1) = rest := by
  have first : (bytes.drop index)[0]? = some lead := by rw [ahead]; rfl
  rw [List.getElem?_drop, Nat.add_zero] at first
  refine ⟨(List.getElem?_eq_some_iff.mp first).1, elementAt_eq first, ?_⟩
  rw [← List.drop_drop, ahead]
  rfl

theorem not_lt_of_ahead_nil {index : Nat} (ahead : bytes.drop index = []) :
    ¬ index < bytes.length :=
  Nat.not_lt.mpr (List.drop_eq_nil_iff.mp ahead)

theorem within_step (fits : bytes.length + 2 ≤ limit) {index : Nat} (inside : index < bytes.length)
    {width : Nat} (small : width ≤ 3) : within limit (index + width) = .ok (index + width) :=
  within_eq (by omega)

theorem unitsFrom_eq (fits : bytes.length + 2 ≤ limit) (found : List UInt16) (rest : List UInt8)
    {index : Nat} (ahead : bytes.drop index = rest) :
    unitsFrom limit bytes index found = .ok (unitsAfter found rest) := by
  -- The index steps over the bytes as the list of them is taken apart.
  induction found, rest using unitsAfter.induct generalizing index with
  | case1 found => rw [unitsFrom, if_neg (not_lt_of_ahead_nil ahead), unitsAfter]
  | case2 found lead rest one ih =>
      obtain ⟨inside, first, ahead⟩ := ahead_cons ahead
      rw [unitsFrom, unitsAfter.eq_def]
      simp [Bind.bind, Except.bind, inside, first, within_step fits inside, one, ih ahead]
  | case3 found lead notOne two second after ih =>
      obtain ⟨inside, first, ahead⟩ := ahead_cons ahead
      obtain ⟨insideSecond, next, ahead⟩ := ahead_cons ahead
      rw [unitsFrom, unitsAfter]
      simp [Bind.bind, Except.bind, inside, first, within_step fits inside, notOne, two,
        insideSecond, next, ih ahead]
  | case4 found lead notOne two ih =>
      obtain ⟨inside, first, ahead⟩ := ahead_cons ahead
      have outside := not_lt_of_ahead_nil ahead
      have farther : ¬ index + 2 < bytes.length := by omega
      rw [unitsFrom, unitsAfter.eq_def]
      simp [Bind.bind, Except.bind, inside, first, within_step fits inside, notOne, two, outside,
        farther, ih ahead]
  | case5 found lead notOne notTwo three second third after ih =>
      obtain ⟨inside, first, ahead⟩ := ahead_cons ahead
      obtain ⟨insideSecond, next, ahead⟩ := ahead_cons ahead
      obtain ⟨insideThird, last, ahead⟩ := ahead_cons ahead
      rw [unitsFrom, unitsAfter]
      simp [Bind.bind, Except.bind, inside, first, within_step fits inside, notOne, notTwo, three,
        insideThird, next, last, ih ahead]
  | case6 found lead notOne notTwo three second ih =>
      obtain ⟨inside, first, ahead⟩ := ahead_cons ahead
      have outside := not_lt_of_ahead_nil (ahead_cons ahead).2.2
      rw [unitsFrom, unitsAfter]
      simp [Bind.bind, Except.bind, inside, first, within_step fits inside, notOne, notTwo, three,
        outside, ih ahead]
  | case7 found lead notOne notTwo three ih =>
      obtain ⟨inside, first, ahead⟩ := ahead_cons ahead
      have outside := not_lt_of_ahead_nil ahead
      have farther : ¬ index + 2 < bytes.length := by omega
      rw [unitsFrom, unitsAfter.eq_def]
      simp [Bind.bind, Except.bind, inside, first, within_step fits inside, notOne, notTwo, three,
        farther, ih ahead]
  | case8 found lead rest notOne notTwo notThree ih =>
      obtain ⟨inside, first, ahead⟩ := ahead_cons ahead
      rw [unitsFrom, unitsAfter.eq_def]
      simp [Bind.bind, Except.bind, inside, first, within_step fits inside, notOne, notTwo,
        notThree, ih ahead]

theorem textOf_eq (fits : bytes.length + 2 ≤ limit) :
    textOf limit bytes = .ok (ModifiedUtf8.decode bytes) := by
  unfold textOf ModifiedUtf8.decode
  cases Utf8.decode? bytes with
  | some text => rfl
  | none =>
      have found : unitsFrom limit bytes 0 [] = .ok (units bytes) := unitsFrom_eq fits [] bytes rfl
      simp only [found]
      rfl

end Units

section Parts

def spelled (chars : List Char) : List UInt8 := chars.flatMap String.utf8EncodeChar

theorem spelled_append (front back : List Char) :
    spelled (front ++ back) = spelled front ++ spelled back :=
  List.flatMap_append

theorem encode_ofList (chars : List Char) : Utf8.encode (String.ofList chars) = spelled chars := by
  rw [Utf8.encode_eq_flatMap, String.toList_ofList, spelled]

/-- A position is the end of a text, or a byte stands there that goes on no character. -/
def isBoundary (bytes : List UInt8) (position : Nat) : Bool :=
  if position = bytes.length then true else bytes[position]?.any (!Utf8.isContinuation ·)

def subtext (text : String) (start stop : Nat) : Outcome String := do
  let bytes := Utf8.encode text
  let part ← slice bytes start stop
  if !isBoundary bytes start then throw (.trap (.insideCharacter start))
  else if !isBoundary bytes stop then throw (.trap (.insideCharacter stop))
  else
    match Utf8.decode? part with
    | some found => return found
    | none => throw (.trap (.insideCharacter start))

def firstPosition? (mark : Char) (text : String) : Option Nat :=
  if mark ∈ text.toList then some (spelled (text.toList.takeWhile (· ≠ mark))).length else none

def lastPosition? (mark : Char) (text : String) : Option Nat :=
  if mark ∈ text.toList then
    some (spelled (text.toList.reverse.dropWhile (· ≠ mark)).tail.reverse).length
  else none

/-- The class name in a piece of a descriptor: what follows the first `L`. The sum is a word
where it is no more than the length of the piece, which the cut asks for. -/
def typeIn (piece : String) : Outcome (Option String) :=
  match firstPosition? 'L' piece with
  | none => .ok none
  | some position => some <$> subtext piece (position + 1) (Utf8.encode piece).length

def typesIn (descriptor : String) : Outcome (List String) := do
  let pieces := (descriptor.toList.splitOn ';').map String.ofList
  return (← pieces.mapM typeIn).filterMap id

def packageIn (name : String) : Outcome String :=
  match lastPosition? '.' name with
  | none => .ok "Default"
  | some position => subtext name 0 position

theorem isContinuation_eq_false {lead : UInt8} {rest after : List UInt8} {char : Char}
    (step : Utf8.step lead rest = .scalar char after) : Utf8.isContinuation lead = false := by
  have each : ∀ code < 256, Utf8.isContinuation (UInt8.ofNat code) = true →
      ¬ UInt8.ofNat code < 0x80 ∧
      ¬ (0xC2 ≤ UInt8.ofNat code && UInt8.ofNat code ≤ 0xDF) = true ∧
      ¬ (0xE0 ≤ UInt8.ofNat code && UInt8.ofNat code ≤ 0xEF) = true ∧
      ¬ (0xF0 ≤ UInt8.ofNat code && UInt8.ofNat code ≤ 0xF4) = true := by
    decide +kernel
  have ranges := each lead.toNat lead.toNat_lt
  rw [UInt8.ofNat_toNat] at ranges
  by_contra continues
  obtain ⟨notOne, notTwo, notThree, notFour⟩ := ranges (by simpa using continues)
  rw [Utf8.step.eq_def, if_neg notOne, if_neg notTwo, if_neg notThree, if_neg notFour] at step
  cases step

theorem isBoundary_spelled (front back : List Char) :
    isBoundary (spelled (front ++ back)) (spelled front).length = true := by
  cases back with
  | nil => simp [isBoundary]
  | cons char back =>
      obtain ⟨lead, tail, bytes, step⟩ := Utf8.step_utf8EncodeChar [] char
      simp [isBoundary, spelled, bytes, isContinuation_eq_false step]

/-- A part that begins and ends with whole characters can be cut out. -/
theorem subtext_eq (front middle back : List Char) :
    subtext (String.ofList (front ++ middle ++ back)) (spelled front).length
      (spelled (front ++ middle)).length = .ok (String.ofList middle) := by
  have begins := isBoundary_spelled front (middle ++ back)
  have ends := isBoundary_spelled (front ++ middle) back
  have order : (spelled front).length ≤ (spelled (front ++ middle)).length := by
    simp [spelled_append]
  have inside :
      (spelled (front ++ middle)).length ≤ (spelled (front ++ middle ++ back)).length := by
    simp [spelled_append]
  have part : ((spelled (front ++ middle ++ back)).take (spelled (front ++ middle)).length).drop
      (spelled front).length = spelled middle := by
    rw [spelled_append (front ++ middle), List.take_left, spelled_append, List.drop_left]
  have decoded : Utf8.decode? (spelled middle) = some (String.ofList middle) := by
    rw [← encode_ofList, Utf8.decode?_encode]
  rw [← List.append_assoc] at begins
  simp only [subtext, encode_ofList, slice_eq order inside, part, begins, ends, Bind.bind,
    Except.bind, Bool.not_true, Bool.false_eq_true, ↓reduceIte, decoded]
  rfl

-- A character of two bytes cannot be cut in the middle.
example : subtext "aé" 2 3 = .error (.trap (.insideCharacter 2)) := by decide +kernel

section Marks

variable {mark : Char} {chars : List Char}

theorem exists_split (occurs : mark ∈ chars) :
    ∃ front back, chars = front ++ mark :: back ∧ chars.takeWhile (· ≠ mark) = front ∧
      chars.dropWhile (· ≠ mark) = mark :: back := by
  obtain ⟨front, back, rfl, before⟩ := List.eq_append_cons_of_mem occurs
  have other : ∀ char ∈ front, decide (char ≠ mark) = true := by
    intro char inside
    simp only [decide_eq_true_eq]
    rintro rfl
    exact before inside
  refine ⟨front, back, rfl, ?_, ?_⟩
  · rw [List.takeWhile_append_of_pos other]
    simp
  · rw [List.dropWhile_append_of_pos other]
    simp

theorem dropWhile_of_notMem (absent : mark ∉ chars) : chars.dropWhile (· ≠ mark) = [] := by
  rw [List.dropWhile_eq_nil_iff]
  intro char inside
  simp only [decide_eq_true_eq]
  rintro rfl
  exact absent inside

end Marks

theorem typeIn_eq (piece : List Char) :
    typeIn (String.ofList piece) = .ok ((Descriptor.afterFirstL piece).map String.ofList) := by
  -- The mark takes one byte, so what follows it begins with a whole character.
  by_cases occurs : 'L' ∈ piece
  · obtain ⟨front, back, split, before, after⟩ := exists_split occurs
    have position : (spelled front).length + 1 = (spelled (front ++ ['L'])).length := by
      rw [spelled_append, List.length_append]
      rfl
    have cut := subtext_eq (front ++ ['L']) back []
    rw [List.append_nil, List.append_assoc, List.singleton_append, ← split] at cut
    simp only [typeIn, firstPosition?, String.toList_ofList, occurs, ↓reduceIte, before, position,
      encode_ofList, cut, Descriptor.afterFirstL, after]
    rfl
  · simp only [typeIn, firstPosition?, String.toList_ofList, occurs, ↓reduceIte,
      Descriptor.afterFirstL, dropWhile_of_notMem occurs]
    rfl

theorem typesIn_eq (descriptor : String) :
    typesIn descriptor = .ok (Descriptor.classNames descriptor) := by
  have names : (descriptor.toList.splitOn ';').mapM (typeIn ∘ String.ofList) = _ :=
    mapM_eq fun piece _ => typeIn_eq piece
  rw [typesIn, List.mapM_map, names, Descriptor.classNames, List.map_filterMap]
  simp only [Bind.bind, Except.bind, List.filterMap_map]
  rfl

theorem packageIn_eq (name : String) : packageIn name = .ok (packageOf name) := by
  by_cases occurs : '.' ∈ name.toList
  · obtain ⟨back, front, split, -, after⟩ := exists_split (List.mem_reverse.mpr occurs)
    have cut := subtext_eq [] front.reverse ('.' :: back.reverse)
    have whole : [] ++ front.reverse ++ '.' :: back.reverse = name.toList := by
      rw [← List.reverse_reverse name.toList, split]
      simp
    rw [whole, String.ofList_toList] at cut
    simp only [packageIn, lastPosition?, occurs, ↓reduceIte, after, List.tail_cons, packageOf]
    exact cut
  · have absent := dropWhile_of_notMem (mt List.mem_reverse.mp occurs)
    simp only [packageIn, lastPosition?, occurs, ↓reduceIte, packageOf, absent]

end Parts

end ClassCoupling.Checked
