/-!
# Scope handles

A handle addresses a record of the scope store by the number of a slot and the generation of that
slot, both of which are 32-bit words. Generations start at zero for a slot that has never been used,
so a handle of generation zero denotes nothing.
-/

namespace ScopeScript

/-- A count becomes the number of a slot by its last 32 bits. -/
instance coeNat : Coe Nat UInt32 := ⟨.ofNat⟩

/-- An address of a scope record. -/
structure Handle where
  index : UInt32
  generation : UInt32
  deriving DecidableEq, Repr, Inhabited

namespace Handle

/-- The handle that never denotes a record. -/
def zero : Handle := ⟨0, 0⟩

/-- Whether a handle cannot denote a record, whatever the store holds. -/
def isNull (handle : Handle) : Bool :=
  handle.generation == 0

/-- The slot that a handle refers to. -/
def slot (handle : Handle) : Nat :=
  handle.index.toNat

/-- Written form of a handle, such as `#3.1`. -/
def text (handle : Handle) : String :=
  "#" ++ toString handle.slot ++ "." ++ toString handle.generation.toNat

@[simp] theorem isNull_zero : zero.isNull = true := rfl

end Handle

end ScopeScript
