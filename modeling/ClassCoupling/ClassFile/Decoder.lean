import ClassCoupling.ClassFile.References

/-!
A decoder with listeners. After a class is decoded each listener sees it once,
in order. A listener keeps its own account in a shared state and may fail;
a failure is not passed on and keeps the others from nothing.
-/
namespace ClassCoupling

/-- A listener adds to the state; what it added stays when it fails. -/
abbrev Listener (σ : Type) := ClassRecord → EStateM String σ Unit

structure Decoder (σ : Type) where
  filter : NameFilter := {}
  listeners : List (Listener σ) := []

namespace Decoder

variable {σ : Type}

def heard (record : ClassRecord) (state : σ) (listener : Listener σ) : σ :=
  match listener record state with
  | .ok _ state => state
  | .error _ state => state

def notify (listeners : List (Listener σ)) (record : ClassRecord) (state : σ) : σ :=
  listeners.foldl (heard record) state

def decode (decoder : Decoder σ) (bytes : List UInt8) (origin : Option String) (state : σ) :
    Except Fault ClassRecord × σ :=
  match ClassFile.decode decoder.filter origin bytes with
  | .ok record => (.ok record, notify decoder.listeners record state)
  | .error fault => (.error fault, state)

theorem decode_fst (decoder : Decoder σ) (bytes : List UInt8) (origin : Option String)
    (state : σ) :
    (decoder.decode bytes origin state).1 = ClassFile.decode decoder.filter origin bytes := by
  unfold decode
  split <;> simp [*]

end Decoder

end ClassCoupling
