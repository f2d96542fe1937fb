import ClassCoupling.Proofs.AnnotationBudget
import ClassCoupling.Proofs.CursorRuns

/-!
The effort of reading annotations. The recursion stands here over a stack of calls instead
of the levels that are left, and has no result where the stack runs over. Every operation on
the cursor, every call and every item that is kept is a charge. A charged computation settles
with a reader when it ends with what the reader gives and the bytes that it passes cover its
charges, at two for each byte. Computations that settle can be put one after the other, so
on every payload the recursion ends without running over, and its charges are covered.
-/
namespace ClassCoupling.AnnotationTree

open Cursor AnnotationSource

structure Walk where
  cursor : Cursor
  charges : Nat
deriving DecidableEq, Repr

/-- A computation that charges; it has no result where its stack runs over. -/
abbrev Charged := ExceptT Fault (StateT Walk Option)

namespace Charged

variable {α β γ δ : Type}

def ask (operation : Operation) : Charged operation.Value := fun walk =>
  some ((operation.act walk.cursor).1, ⟨(operation.act walk.cursor).2, walk.charges + 1⟩)

def call : Charged Unit := fun walk => some (.ok (), ⟨walk.cursor, walk.charges + 1⟩)

def keep (found : List α) (item : α) : Charged (List α) := fun walk =>
  some (.ok (found ++ [item]), ⟨walk.cursor, walk.charges + 1⟩)

def tooDeep : Charged α := fun walk =>
  some (.error (.annotationTooDeep walk.cursor.offset maxNesting), walk)

def overflow : Charged α := fun _ => none

def repeated (item : List α → Charged (List α)) : Nat → List α → Charged (List α)
  | 0, found => pure found
  | left + 1, found => do repeated item left (← item found)

def element (deeper : Bool → List AnnotationValue → Charged (List AnnotationValue))
    (found : List AnnotationValue) : Charged (List AnnotationValue) := do
  let tag : UInt8 ← ask .u8
  if tag = 'e'.toUInt8 then
    let typeIndex ← ask .u16
    ask (.skip 2)
    keep found (.enumConstant typeIndex)
  else if tag = 'c'.toUInt8 then
    keep found (.classLiteral (← ask .u16))
  else if tag = '@'.toUInt8 then
    let typeIndex ← ask .u16
    let inside ← deeper true []
    keep found (.nested typeIndex inside)
  else if tag = '['.toUInt8 then
    deeper false found
  else
    keep found (.scalar tag (← ask .u16))

def item (deeper : Bool → List AnnotationValue → Charged (List AnnotationValue)) (named : Bool)
    (found : List AnnotationValue) : Charged (List AnnotationValue) :=
  if named then ask (.skip 2) >>= fun _ => element deeper found else element deeper found

/-- A counted run of values, put behind those found; `stack` calls can be inside each other. -/
def values : Nat → Nat → Bool → List AnnotationValue → Charged (List AnnotationValue)
  | 0, _, _, _ => overflow
  | stack + 1, depth, named, found => do
      call
      if maxNesting < depth then tooDeep
      else
        let count : UInt16 ← ask .u16
        repeated (item (values stack (depth + 1)) named) count.toNat found

def tree (stack : Nat) (found : List AnnotationTree) : Charged (List AnnotationTree) := do
  let typeIndex ← ask .u16
  let inside ← values stack 0 true []
  keep found ⟨typeIndex, inside⟩

def all (stack : Nat) : Charged (List AnnotationTree) := do
  let count : UInt16 ← ask .u16
  repeated (tree stack) count.toNat []

def parse (stack : Nat) (payload : List UInt8) :
    Option (Except Fault (List AnnotationTree) × Walk) :=
  all stack ⟨ofBytes payload, 0⟩

theorem bind_of_ok {charged : Charged α} {next : α → Charged β} {walk later : Walk} {value : α}
    (ran : charged walk = some (.ok value, later)) :
    (charged >>= next) walk = next value later := by
  change Option.bind (charged walk) _ = _
  rw [ran]
  rfl

theorem bind_of_error {charged : Charged α} {next : α → Charged β} {walk later : Walk}
    {fault : Fault} (failed : charged walk = some (.error fault, later)) :
    (charged >>= next) walk = some (.error fault, later) := by
  change Option.bind (charged walk) _ = _
  rw [failed]
  rfl

/-- From `need` charges that are covered already, the computation ends with what the reader gives,
and `gain` charges are left over. Where the reader fails the last charge may go uncovered. -/
structure Settles (need : Nat) (charged : Charged β) (reader : Reader α) (make : α → β)
    (gain : Nat) : Prop where
  values : ∀ walk {value after}, reader walk.cursor = .ok value after →
    ∃ charges, charged walk = some (.ok (make value), ⟨after, charges⟩) ∧
      charges + 2 * after.remaining + gain ≤ walk.charges + 2 * walk.cursor.remaining + need
  faults : ∀ walk {fault stop}, reader walk.cursor = .error fault stop →
    ∃ charges, charged walk = some (.error fault, ⟨stop, charges⟩) ∧
      charges + 2 * stop.remaining ≤ walk.charges + 2 * walk.cursor.remaining + need + 1

namespace Settles

theorem pure {need gain : Nat} {value : α} {result : β} {make : α → β}
    (same : make value = result) (left : gain ≤ need) :
    Settles need (pure result) (pure value) make gain where
  values := by
    intro walk given after read
    obtain ⟨rfl, rfl⟩ := Reader.pure_eq_ok_iff.mp read
    exact ⟨walk.charges, same ▸ rfl, by omega⟩
  faults := by
    intro walk fault stop failed
    cases failed

theorem bind {need middle gain : Nat} {charged : Charged β} {next : β → Charged δ}
    {reader : Reader α} {after : α → Reader γ} {make : α → β} {final : γ → δ}
    (starts : Settles need charged reader make middle)
    (continues : ∀ value, Settles middle (next (make value)) (after value) final gain) :
    Settles need (charged >>= next) (reader >>= after) final gain where
  values := by
    intro walk value stop read
    obtain ⟨first, between, started, finished⟩ := Reader.bind_eq_ok_iff.mp read
    obtain ⟨spent, ran, covered⟩ := starts.values walk started
    rw [bind_of_ok ran]
    obtain ⟨charges, ended, rest⟩ := (continues first).values ⟨between, spent⟩ finished
    exact ⟨charges, ended, Nat.le_trans rest covered⟩
  faults := by
    intro walk fault stop read
    obtain failed | ⟨first, between, started, finished⟩ := Reader.bind_eq_error_iff.mp read
    · obtain ⟨spent, ran, covered⟩ := starts.faults walk failed
      exact ⟨spent, bind_of_error ran, covered⟩
    · obtain ⟨spent, ran, covered⟩ := starts.values walk started
      rw [bind_of_ok ran]
      obtain ⟨charges, ended, rest⟩ := (continues first).faults ⟨between, spent⟩ finished
      exact ⟨charges, ended, by simp only at rest; omega⟩

theorem lend {need gain : Nat} {charged : Charged β} {reader : Reader α} {make : α → β}
    (settles : Settles need charged reader make gain) (more : Nat) :
    Settles (need + more) charged reader make (gain + more) where
  values := by
    intro walk value after read
    obtain ⟨charges, ran, covered⟩ := settles.values walk read
    exact ⟨charges, ran, by omega⟩
  faults := by
    intro walk fault stop failed
    obtain ⟨charges, ran, covered⟩ := settles.faults walk failed
    exact ⟨charges, ran, by omega⟩

theorem ask {need gain : Nat} (operation : Operation)
    (covered : gain + 1 ≤ need + 2 * operation.width) :
    Settles need (ask operation) operation.read id gain where
  values := by
    intro walk value after read
    have passed := Operation.remaining_of_ok read
    refine ⟨walk.charges + 1, ?_, by omega⟩
    rw [Charged.ask, Operation.act_of_ok read]
    rfl
  faults := by
    intro walk fault stop failed
    obtain rfl := Operation.eq_of_error failed
    refine ⟨walk.charges + 1, ?_, by omega⟩
    rw [Charged.ask, Operation.act_of_error failed]

theorem keep {gain : Nat} {found : List β} {item : β} {value : α} {make : α → List β}
    (same : make value = found ++ [item]) :
    Settles (gain + 1) (keep found item) (Pure.pure value) make gain where
  values := by
    intro walk given after read
    obtain ⟨rfl, rfl⟩ := Reader.pure_eq_ok_iff.mp read
    exact ⟨walk.charges + 1, same ▸ rfl, by omega⟩
  faults := by
    intro walk fault stop failed
    cases failed

theorem call {need gain : Nat} {charged : Charged β} {reader : Reader α} {make : α → β}
    (settles : Settles need charged reader make gain) :
    Settles (need + 1) (call >>= fun _ => charged) reader make gain where
  values := by
    intro walk value after read
    obtain ⟨charges, ran, covered⟩ := settles.values ⟨walk.cursor, walk.charges + 1⟩ read
    exact ⟨charges, ran, by simp only at covered; omega⟩
  faults := by
    intro walk fault stop failed
    obtain ⟨charges, ran, covered⟩ := settles.faults ⟨walk.cursor, walk.charges + 1⟩ failed
    exact ⟨charges, ran, by simp only at covered; omega⟩

theorem tooDeep (named : Bool) (make : List AnnotationValue → β) (gain : Nat) :
    Settles 0 tooDeep (readValues 0 named) make gain where
  values := by
    intro walk value after read
    cases read
  faults := by
    intro walk fault stop failed
    cases failed
    exact ⟨walk.charges, rfl, Nat.le_succ _⟩

end Settles

section Level

variable {deeper : Bool → List AnnotationValue → Charged (List AnnotationValue)} {room : Nat}
  (inside : ∀ named found, Settles 1 (deeper named found) (readValues room named) (found ++ ·) 0)
include inside

theorem element_settles (found : List AnnotationValue) :
    Settles 0 (element deeper found) (readElement (readValues room)) (found ++ ·) 0 := by
  -- A byte is worth two charges and an operation is one, so a tag leaves one over, an index three.
  refine (Settles.ask .u8 (by decide : 1 + 1 ≤ 0 + 2)).bind fun tag => ?_
  simp only [id]
  split
  case isTrue =>
    refine (Settles.ask .u16 (by decide : 4 + 1 ≤ 1 + 4)).bind fun typeIndex => ?_
    exact (Settles.ask (.skip 2) (by decide : 1 + 1 ≤ 4 + 4)).bind fun _ => .keep rfl
  split
  case isTrue =>
    exact (Settles.ask .u16 (by decide : 1 + 1 ≤ 1 + 4)).bind fun typeIndex => .keep rfl
  split
  case isTrue =>
    -- One of the two is for the call, the other stays until the annotation is kept.
    refine (Settles.ask .u16 (by decide : 2 + 1 ≤ 1 + 4)).bind fun typeIndex => ?_
    exact ((inside true []).lend 1).bind fun values => .keep rfl
  split
  case isTrue => exact inside false found
  case isFalse =>
    exact (Settles.ask .u16 (by decide : 1 + 1 ≤ 1 + 4)).bind fun index => .keep rfl

theorem item_settles (named : Bool) (found : List AnnotationValue) :
    Settles 0 (item deeper named found) (readItem room named) (found ++ ·) 0 := by
  cases named with
  | false => exact element_settles inside found
  | true =>
      refine (Settles.ask (.skip 2) (by decide : 0 + 1 ≤ 0 + 4)).bind fun _ => ?_
      exact element_settles inside found

theorem repeated_item_settles (named : Bool) (left : Nat) (before found : List AnnotationValue) :
    Settles 0 (repeated (item deeper named) left (before ++ found.reverse))
      (runsAfter (readItem room named) left found) (before ++ ·) 0 := by
  -- The reader has what it found in reverse, and the computation has it behind `before`.
  induction left generalizing found with
  | zero => exact .pure rfl (Nat.le_refl 0)
  | succ left ih =>
      refine (item_settles inside named _).bind fun values => ?_
      have others := ih (values.reverseAux found)
      rwa [List.reverseAux_eq, List.reverse_append, List.reverse_reverse, ← List.append_assoc,
        ← List.reverseAux_eq] at others

end Level

theorem readValues_succ_eq (room : Nat) (named : Bool) :
    readValues (room + 1) named =
      Reader.u16 >>= fun count => runsAfter (readItem room named) count.toNat [] := by
  cases named <;> rfl

/-- The check of the depth comes first in every call, so with as many calls on the stack as there
are levels left, and one for the check, the stack does not run over. -/
theorem values_settles {room depth stack : Nat} (level : depth + room = maxNesting + 1)
    (enough : room < stack) (named : Bool) (found : List AnnotationValue) :
    Settles 1 (values stack depth named found) (readValues room named) (found ++ ·) 0 := by
  induction room generalizing depth stack named found with
  | zero =>
      obtain ⟨stack, rfl⟩ := Nat.exists_eq_succ_of_ne_zero (Nat.ne_zero_of_lt enough)
      have deep : maxNesting < depth := by omega
      simp only [values, if_pos deep]
      exact .call (.tooDeep named _ 0)
  | succ room ih =>
      obtain ⟨stack, rfl⟩ := Nat.exists_eq_succ_of_ne_zero (Nat.ne_zero_of_lt enough)
      have shallow : ¬ maxNesting < depth := by omega
      have inside := @ih (depth + 1) stack (by omega) (by omega)
      simp only [values, readValues_succ_eq, if_neg shallow]
      refine .call ((Settles.ask .u16 (by decide : 0 + 1 ≤ 0 + 4)).bind fun count => ?_)
      have runs := repeated_item_settles inside named count.toNat found []
      rwa [List.reverse_nil, List.append_nil] at runs

section Payload

variable {stack : Nat} (enough : maxNesting + 1 < stack)
include enough

theorem tree_settles (found : List AnnotationTree) :
    Settles 0 (tree stack found) read (fun tree => found ++ [tree]) 0 := by
  refine (Settles.ask .u16 (by decide : 2 + 1 ≤ 0 + 4)).bind fun typeIndex => ?_
  exact ((values_settles (Nat.zero_add _) enough true []).lend 1).bind fun values => .keep rfl

theorem repeated_tree_settles (left : Nat) (found : List AnnotationTree) :
    Settles 0 (repeated (tree stack) left found.reverse)
      (Reader.manyAfter read left found) id 0 := by
  induction left generalizing found with
  | zero => exact .pure rfl (Nat.le_refl 0)
  | succ left ih =>
      refine (tree_settles enough found.reverse).bind fun tree => ?_
      rw [← List.reverse_cons]
      exact ih (tree :: found)

theorem all_settles : Settles 0 (all stack) readAll id 0 :=
  (Settles.ask .u16 (by decide : 0 + 1 ≤ 0 + 4)).bind fun count =>
    repeated_tree_settles enough count.toNat []

theorem parse_settles (payload : List UInt8) :
    ∃ walk, Charged.parse stack payload = some (AnnotationTree.parse payload, walk) ∧
      walk.charges ≤ 2 * payload.length + 1 := by
  rw [Charged.parse, AnnotationTree.parse, Reader.run]
  cases result : readAll (ofBytes payload) with
  | ok trees after =>
      obtain ⟨charges, ran, covered⟩ := (all_settles enough).values ⟨ofBytes payload, 0⟩ result
      refine ⟨_, ran, ?_⟩
      simp only [ofBytes, remaining] at covered ⊢
      omega
  | error fault stop =>
      obtain ⟨charges, ran, covered⟩ := (all_settles enough).faults ⟨ofBytes payload, 0⟩ result
      refine ⟨_, ran, ?_⟩
      simp only [ofBytes, remaining] at covered ⊢
      omega

end Payload

end Charged

/-- A payload cannot be amplified. What parsing gives nests within the limit and has been paid
for: two bytes for the count, four for each annotation, three for each value at any level. On
every payload, also one that is refused, the recursion ends with what parsing gives on any stack
of 130 calls or more, and its operations, calls and kept items together are no more than twice
the bytes and one. -/
theorem parsing_stays_within_payload (payload : List UInt8) :
    (∀ trees, parse payload = .ok trees →
      (∀ tree ∈ trees, tree.nesting ≤ 128) ∧
        2 + 4 * trees.length + 3 * (trees.map valueCount).sum ≤ payload.length) ∧
      ∀ stack, 130 ≤ stack → ∃ walk, Charged.parse stack payload = some (parse payload, walk) ∧
        walk.charges ≤ 2 * payload.length + 1 := by
  refine ⟨fun trees parsed => ?_, fun stack enough => Charged.parse_settles enough payload⟩
  obtain ⟨covered, shallow⟩ := parse_pays parsed
  exact ⟨shallow, covered⟩

def chain : List UInt8 :=
  [0, 1, 0, 70] ++ Nat.repeat (fun inside => [0, 1, 0, 71, '@'.toUInt8, 0, 70] ++ inside) 128 [0, 0]

theorem parsing_stays_within_payload_chain :
    ∃ trees, parse chain = .ok trees ∧ trees.map nesting = [128] ∧
      (∀ tree ∈ trees, tree.nesting ≤ 128) ∧
      2 + 4 * trees.length + 3 * 128 ≤ chain.length ∧
      ∃ walk, Charged.parse 130 chain = some (.ok trees, walk) ∧
        walk.charges ≤ 2 * chain.length + 1 := by
  have measured : (parse chain).toOption.map
      (fun trees => (trees.map nesting, (trees.map valueCount).sum)) = some ([128], 128) := by
    decide +kernel
  cases parsed : parse chain with
  | error fault =>
      rw [parsed] at measured
      cases measured
  | ok trees =>
      obtain ⟨bounds, charged⟩ := parsing_stays_within_payload chain
      obtain ⟨within, covered⟩ := bounds trees parsed
      rw [parsed, Except.toOption, Option.map_some, Option.some.injEq, Prod.mk.injEq] at measured
      rw [measured.2] at covered
      refine ⟨trees, rfl, measured.1, within, covered, ?_⟩
      rw [← parsed]
      exact charged 130 (Nat.le_refl 130)

end ClassCoupling.AnnotationTree
