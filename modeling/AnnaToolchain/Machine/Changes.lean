import AnnaToolchain.Machine.Registers
import Std.Data.ExtTreeMap

/-! # Changes

    What a run has done to a machine: the registers it changed, and the
    memory it read, wrote and modified. -/

namespace AnnaToolchain

/-- What has been done to a memory cell.  It is modified if it was written with another word than
    it held. -/
structure Access where
  read : Bool := false
  written : Bool := false
  modified : Bool := false
  deriving DecidableEq, Repr

namespace Access

/-- What has been done in either of two ways. -/
def union (a b : Access) : Access :=
  ⟨a.read || b.read, a.written || b.written, a.modified || b.modified⟩

end Access

/-- The changes of a run. -/
structure Changes where
  /-- The registers that changed. -/
  registers : Vector Bool 8
  /-- The cells that were accessed, by address. -/
  memory : Std.ExtTreeMap Word Access
  deriving DecidableEq

namespace Changes

/-- No changes. -/
def none : Changes :=
  ⟨Vector.replicate 8 false, ∅⟩

/-- Whether a register changed. -/
def changed (c : Changes) (r : Register) : Bool :=
  c.registers.get r

/-- The registers that changed, in order. -/
def changedRegisters (c : Changes) : List Register :=
  Register.all.filter c.changed

/-- What was done to the cell at an address. -/
def accessOf (c : Changes) (address : Word) : Access :=
  c.memory[address]?.getD {}

/-- Records the registers in which two register files differ. -/
def addRegisters (c : Changes) (before after : Registers) : Changes :=
  { c with registers := Vector.ofFn fun r => c.changed r || before.get r != after.get r }

/-- Records an access to a cell. -/
def addAccess (c : Changes) (address : Word) (access : Access) : Changes :=
  { c with memory := c.memory.insert address ((c.accessOf address).union access) }

@[simp] theorem changed_none (r : Register) : none.changed r = false := by
  show (Vector.replicate 8 false)[r] = false
  simp

@[simp] theorem accessOf_none (address : Word) : none.accessOf address = {} := by
  simp [none, accessOf]

@[simp] theorem changed_addRegisters (c : Changes) (before after : Registers) (r : Register) :
    (c.addRegisters before after).changed r
      = (c.changed r || before.get r != after.get r) := by
  show (Vector.ofFn fun r => c.changed r || before.get r != after.get r)[r] = _
  simp

@[simp] theorem accessOf_addRegisters (c : Changes) (before after : Registers) (a : Word) :
    (c.addRegisters before after).accessOf a = c.accessOf a := rfl

@[simp] theorem changed_addAccess (c : Changes) (address : Word) (access : Access)
    (r : Register) : (c.addAccess address access).changed r = c.changed r := rfl

theorem accessOf_addAccess (c : Changes) (address : Word) (access : Access) (a : Word) :
    (c.addAccess address access).accessOf a
      = if address = a then (c.accessOf a).union access else c.accessOf a := by
  by_cases h : address = a
  · subst h; simp [addAccess, accessOf]
  · simp [addAccess, accessOf, Std.ExtTreeMap.getElem?_insert, h]

end Changes

end AnnaToolchain
