import AnnaToolchain.Machine.Cell

/-! # Memory

    A memory is a row of cells, at least one and at most 65536.  An address
    is taken modulo the number of cells, so that every word is an address.
    Fresh memory may hold random words; which ones, is up to whoever makes
    it. -/

namespace AnnaToolchain

/-! ## What fresh memory holds -/

/-- The words of a generator of random numbers, by how many came before. -/
structure RandomWords where
  /-- Those that follow from a seed, the same ones each time. -/
  ofSeed : Nat → Nat → Word
  /-- Those that come without a seed. -/
  unseeded : Nat → Word
  deriving Inhabited

/-- How fresh memory is filled. -/
inductive Fill where
  | zeroed
  | known (value : Word)
  | seeded (seed : Nat)
  | unseeded
  deriving DecidableEq, Repr

/-- The word at an index of fresh memory. -/
def Fill.word (fill : Fill) (random : RandomWords) (i : Nat) : Word :=
  match fill with
  | .zeroed => 0
  | .known value => value
  | .seeded seed => random.ofSeed seed i
  | .unseeded => random.unseeded i

/-! ## Memory -/

/-- The cells of a machine. -/
structure Memory where
  cells : Array Cell
  size_pos : 0 < cells.size
  size_le : cells.size ≤ maxMemory
  deriving DecidableEq

namespace Memory

/-- A fresh memory of `len` cells, or the nearest number there can be. -/
def fresh (len : Nat) (fill : Fill) (random : RandomWords := default) : Memory where
  cells := Array.ofFn fun i : Fin (clampMemory len) => .ofWord (fill.word random i)
  size_pos := by simpa using clampMemory_pos len
  size_le := by simpa using clampMemory_le len

/-- The number of cells. -/
def length (m : Memory) : Nat :=
  m.cells.size

/-- The index of the cell at an address. -/
def index (m : Memory) (address : Word) : Nat :=
  address.toNat % m.cells.size

theorem index_lt (m : Memory) (address : Word) : m.index address < m.cells.size :=
  Nat.mod_lt _ m.size_pos

/-- An address brought below the number of cells. -/
def wrap (m : Memory) (address : Word) : Word :=
  BitVec.ofNat 16 (m.index address)

theorem toNat_wrap (m : Memory) (address : Word) : (m.wrap address).toNat = m.index address := by
  have h₁ := m.index_lt address
  have h₂ := m.size_le
  simp only [wrap, BitVec.toNat_ofNat, maxMemory] at *
  omega

/-- The cell at an address. -/
def cell (m : Memory) (address : Word) : Cell :=
  getElem m.cells (m.index address) (m.index_lt address)

/-- The word at an address. -/
def read (m : Memory) (address : Word) : Word :=
  (m.cell address).data

/-- Whether a breakpoint is set at an address. -/
def hasBreakpoint (m : Memory) (address : Word) : Bool :=
  (m.cell address).breakpoint

/-- Changes the cell at an address. -/
def modify (m : Memory) (address : Word) (f : Cell → Cell) : Memory where
  cells := m.cells.modify (m.index address) f
  size_pos := by simpa using m.size_pos
  size_le := by simpa using m.size_le

/-- Writes a word to an address. -/
def write (m : Memory) (address : Word) (value : Word) : Memory :=
  m.modify address (·.setData value)

/-- Sets or clears the breakpoint at an address. -/
def setBreakpoint (m : Memory) (address : Word) (on : Bool) : Memory :=
  m.modify address (·.setBreakpoint on)

/-- Clears all breakpoints. -/
def clearBreakpoints (m : Memory) : Memory where
  cells := m.cells.map (·.setBreakpoint false)
  size_pos := by simpa using m.size_pos
  size_le := by simpa using m.size_le

/-- The addresses of all cells. -/
def addresses (m : Memory) : List Word :=
  (List.range m.length).map (BitVec.ofNat 16)

/-- The addresses with a breakpoint, in order. -/
def breakpoints (m : Memory) : List Word :=
  m.addresses.filter m.hasBreakpoint

/-- Writes words from an address on. -/
def copyBlock (m : Memory) (start : Word) (block : List Word) : Memory :=
  (block.foldl (fun state w => (state.1.write state.2 w, state.2 + 1)) (m, start)).1

/-- The characters of the words from an address on, up to a zero or for `count` words, `acc` being
    those already read, last first. -/
def readChars (m : Memory) (address : Word) (acc : List Char) : (count : Nat) → List Char
  | 0 => acc.reverse
  | count + 1 =>
    let n := (m.read address).toNat
    if n = 0 then acc.reverse
    else
      -- a code point that is no character is shown as the replacement character
      let c := if 0xD800 ≤ n ∧ n ≤ 0xDFFF then '\ufffd' else Char.ofNat n
      readChars m (address + 1) (c :: acc) count

/-- The text at an address: up to a zero, or once round memory if there is none. -/
def readText (m : Memory) (address : Word) : String :=
  String.ofList (m.readChars address [] m.length)

/-! ## Reading back -/

@[simp] theorem length_modify (m : Memory) (address : Word) (f : Cell → Cell) :
    (m.modify address f).length = m.length := by
  simp [modify, length]

@[simp] theorem index_modify (m : Memory) (address : Word) (f : Cell → Cell) (a : Word) :
    (m.modify address f).index a = m.index a := by
  simp [modify, index]

theorem cell_modify (m : Memory) (address : Word) (f : Cell → Cell) (a : Word) :
    (m.modify address f).cell a
      = if m.index address = m.index a then f (m.cell a) else m.cell a := by
  by_cases h : address.toNat % m.cells.size = a.toNat % m.cells.size <;>
    simp [cell, modify, index, Array.getElem_modify, h]

@[simp] theorem length_write (m : Memory) (address value : Word) :
    (m.write address value).length = m.length := by
  simp [write]

theorem read_write (m : Memory) (address value a : Word) :
    (m.write address value).read a
      = if m.index address = m.index a then value else m.read a := by
  unfold write read
  rw [cell_modify]
  split
  · exact Cell.data_setData _ _
  · rfl

@[simp] theorem read_write_self (m : Memory) (address value : Word) :
    (m.write address value).read address = value := by
  simp [read_write]

@[simp] theorem read_write_ne (m : Memory) {address a : Word} (value : Word)
    (h : m.index address ≠ m.index a) : (m.write address value).read a = m.read a := by
  simp [read_write, h]

@[simp] theorem hasBreakpoint_write (m : Memory) (address value a : Word) :
    (m.write address value).hasBreakpoint a = m.hasBreakpoint a := by
  unfold write hasBreakpoint
  rw [cell_modify]
  split
  · exact Cell.breakpoint_setData _ _
  · rfl

@[simp] theorem read_setBreakpoint (m : Memory) (address : Word) (on : Bool) (a : Word) :
    (m.setBreakpoint address on).read a = m.read a := by
  unfold setBreakpoint read
  rw [cell_modify]
  split
  · exact Cell.data_setBreakpoint _ _
  · rfl

theorem hasBreakpoint_setBreakpoint (m : Memory) (address : Word) (on : Bool) (a : Word) :
    (m.setBreakpoint address on).hasBreakpoint a
      = if m.index address = m.index a then on else m.hasBreakpoint a := by
  unfold setBreakpoint hasBreakpoint
  rw [cell_modify]
  split
  · exact Cell.breakpoint_setBreakpoint _ _
  · rfl

/-! ## Wrapped addresses -/

section

variable (m : Memory) (address value : Word)

theorem length_pos : 0 < m.length :=
  m.size_pos

theorem length_le : m.length ≤ maxMemory :=
  m.size_le

theorem index_wrap : m.index (m.wrap address) = m.index address := by
  rw [index, toNat_wrap]
  exact Nat.mod_eq_of_lt (m.index_lt address)

theorem read_wrap : m.read (m.wrap address) = m.read address := by
  unfold read cell
  simp only [index_wrap]

theorem write_wrap : m.write (m.wrap address) value = m.write address value := by
  unfold write modify
  simp only [index_wrap]

theorem wrap_wrap : m.wrap (m.wrap address) = m.wrap address :=
  congrArg (BitVec.ofNat 16) (m.index_wrap address)

end

end Memory

end AnnaToolchain
