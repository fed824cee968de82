import AnnaToolchain.Machine.Changes

/-! # Joining records of changes

    What two runs in a row have done is what either of them has done.  The
    record of a run can be split at any point: recording something after a
    join is the same as recording it in the second part first. -/

namespace AnnaToolchain

namespace Access

@[simp] theorem empty_union (a : Access) : union {} a = a := by
  simp [union]

@[simp] theorem union_empty (a : Access) : a.union {} = a := by
  simp [union]

theorem union_assoc (a b c : Access) : (a.union b).union c = a.union (b.union c) := by
  simp [union, Bool.or_assoc]

end Access

namespace Changes

/-- Records are equal if they tell the same of every register and every address. -/
theorem eq_of_changed_of_memory {a b : Changes} (hr : ∀ r, a.changed r = b.changed r)
    (hm : ∀ address : Word, a.memory[address]? = b.memory[address]?) : a = b := by
  obtain ⟨regs, memory⟩ := a
  obtain ⟨regs', memory'⟩ := b
  have h₁ : regs = regs' := Vector.ext fun i hi => hr ⟨i, hi⟩
  have h₂ : memory = memory' := Std.ExtTreeMap.ext_getElem? hm
  rw [h₁, h₂]

/-- What was done in either of two runs. -/
def union (a b : Changes) : Changes where
  registers := Vector.ofFn fun r => a.changed r || b.changed r
  memory := (a.memory ∪ b.memory).map fun address _ =>
    (a.accessOf address).union (b.accessOf address)

@[simp] theorem changed_union (a b : Changes) (r : Register) :
    (a.union b).changed r = (a.changed r || b.changed r) := by
  show (Vector.ofFn fun r => a.changed r || b.changed r)[r] = _
  simp

theorem getElem?_union (a b : Changes) (address : Word) :
    (a.union b).memory[address]?
      = (b.memory[address]?.or a.memory[address]?).map fun _ =>
          (a.accessOf address).union (b.accessOf address) := by
  simp only [union, Std.ExtTreeMap.getElem?_map, Std.ExtTreeMap.getElem?_union]

@[simp] theorem accessOf_union (a b : Changes) (address : Word) :
    (a.union b).accessOf address = (a.accessOf address).union (b.accessOf address) := by
  show (a.union b).memory[address]?.getD {} = _
  rw [getElem?_union]
  cases ha : a.memory[address]? <;> cases hb : b.memory[address]? <;> simp [accessOf, ha, hb]

@[simp] theorem union_none (a : Changes) : a.union none = a := by
  apply eq_of_changed_of_memory
  · intro r; simp
  · intro address
    rw [getElem?_union]
    cases ha : a.memory[address]? <;> simp [accessOf, none, ha]

@[simp] theorem none_union (a : Changes) : none.union a = a := by
  apply eq_of_changed_of_memory
  · intro r; simp
  · intro address
    rw [getElem?_union]
    cases ha : a.memory[address]? <;> simp [accessOf, none, ha]

theorem union_assoc (a b c : Changes) : (a.union b).union c = a.union (b.union c) := by
  apply eq_of_changed_of_memory
  · intro r; simp [Bool.or_assoc]
  · intro address
    -- an address is recorded if any of the three has it
    rw [getElem?_union, getElem?_union, getElem?_union, getElem?_union]
    simp only [accessOf_union, Access.union_assoc]
    cases a.memory[address]? <;> cases b.memory[address]? <;> cases c.memory[address]? <;> rfl

theorem union_addRegisters (a b : Changes) (before after : Registers) :
    a.union (b.addRegisters before after) = (a.union b).addRegisters before after := by
  apply eq_of_changed_of_memory
  · intro r; simp [Bool.or_assoc]
  · intro address
    show (a.union (b.addRegisters before after)).memory[address]? = (a.union b).memory[address]?
    rw [getElem?_union, getElem?_union]
    rfl

theorem union_addAccess (a b : Changes) (address : Word) (access : Access) :
    a.union (b.addAccess address access) = (a.union b).addAccess address access := by
  apply eq_of_changed_of_memory
  · intro r; simp
  · intro x
    have h : ∀ c : Changes, (c.addAccess address access).memory[x]?
        = if address = x then some ((c.accessOf address).union access) else c.memory[x]? := by
      intro c
      simp [addAccess, Std.ExtTreeMap.getElem?_insert]
    -- at the address itself both accesses are joined, and elsewhere nothing is added
    rw [getElem?_union, h, h, accessOf_addAccess]
    by_cases hx : address = x
    · subst hx
      simp [Access.union_assoc]
    · simp [hx, getElem?_union]

end Changes

end AnnaToolchain
