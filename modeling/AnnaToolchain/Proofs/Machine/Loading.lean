import AnnaToolchain.Proofs.Image.Blocks
import AnnaToolchain.Proofs.Machine.Instructions

/-! # Loaded images

    An image is loaded run by run.  Word by word this comes to the same
    (`load_memory`), so that the largest memory then holds the words of the
    image at their addresses, and what it held before at the others
    (`read_load`).  In a shorter memory addresses share cells, and the
    highest one is written last (`load_cells`). -/

namespace AnnaToolchain

namespace Image

/-! ## Written addresses -/

/-- Of the written addresses that come to cell `i` of a memory of `len` cells, `a` is the
    highest. -/
structure IsHighest (image : Image) (len i : Nat) (a : Word) : Prop where
  written : (image.get? a).isSome
  comes : a.toNat % len = i
  highest : ∀ a', (image.get? a').isSome → a'.toNat % len = i → a'.toNat ≤ a.toNat

end Image

namespace Memory

/-! ## Fresh memory -/

section

variable (len : Nat) (fill : Fill) (random : RandomWords) (address : Word)

theorem length_fresh : (fresh len fill random).length = clampMemory len :=
  Array.size_ofFn

theorem cell_fresh : (fresh len fill random).cell address
    = .ofWord (fill.word random ((fresh len fill random).index address)) := by
  unfold cell
  simp only [fresh, Array.getElem_ofFn]

theorem hasBreakpoint_fresh : (fresh len fill random).hasBreakpoint address = false := by
  unfold hasBreakpoint
  rw [cell_fresh, Cell.breakpoint_ofWord]

theorem read_fresh : (fresh len fill random).read address
    = fill.word random ((fresh len fill random).index address) := by
  unfold read
  rw [cell_fresh, Cell.data_ofWord]

end

/-! ## Words in a row -/

/-- Writes words one after another. -/
def writeEntries (m : Memory) (entries : List (Word × Word)) : Memory :=
  entries.foldl (fun m entry => m.write entry.1 entry.2) m

@[simp] theorem writeEntries_nil (m : Memory) : m.writeEntries [] = m := rfl

@[simp] theorem writeEntries_cons (m : Memory) (entry : Word × Word)
    (entries : List (Word × Word)) :
    m.writeEntries (entry :: entries) = (m.write entry.1 entry.2).writeEntries entries := rfl

theorem copyBlock_eq (m : Memory) (start : Word) (block : List Word) :
    m.copyBlock start block = m.writeEntries (Image.entriesFrom start block) := by
  unfold copyBlock
  induction block generalizing m start with
  | nil => rfl
  | cons word block ih =>
    rw [List.foldl_cons, Image.entriesFrom_cons, writeEntries_cons]
    exact ih _ _

@[simp] theorem length_writeEntries (m : Memory) (entries : List (Word × Word)) :
    (m.writeEntries entries).length = m.length := by
  induction entries generalizing m with
  | nil => rfl
  | cons entry entries ih => rw [writeEntries_cons, ih, length_write]

@[simp] theorem hasBreakpoint_writeEntries (m : Memory) (entries : List (Word × Word))
    (a : Word) : (m.writeEntries entries).hasBreakpoint a = m.hasBreakpoint a := by
  induction entries generalizing m with
  | nil => rfl
  | cons entry entries ih => rw [writeEntries_cons, ih, hasBreakpoint_write]

theorem index_write (m : Memory) (address value a : Word) :
    (m.write address value).index a = m.index a :=
  index_modify ..

/-- A cell that is not written stays as it is. -/
theorem cell_writeEntries_of_forall_ne {m : Memory} {entries : List (Word × Word)} {a : Word}
    (ha : ∀ e ∈ entries, m.index e.1 ≠ m.index a) : (m.writeEntries entries).cell a = m.cell a := by
  induction entries generalizing m with
  | nil => rfl
  | cons entry entries ih =>
    obtain ⟨hentry, hentries⟩ := List.forall_mem_cons.mp ha
    have hcell : (m.write entry.1 entry.2).cell a = m.cell a := by
      unfold write
      rw [cell_modify, if_neg hentry]
    rw [writeEntries_cons, ih, hcell]
    intro e he
    rw [index_write, index_write]
    exact hentries e he

/-- A cell that is written has the word that was written last, and keeps its breakpoint. -/
theorem cell_writeEntries_of_last {m : Memory} {before after : List (Word × Word)}
    {entry : Word × Word} {a : Word} (ha : m.index entry.1 = m.index a)
    (hafter : ∀ e ∈ after, m.index e.1 ≠ m.index a) :
    (m.writeEntries (before ++ entry :: after)).cell a = (m.cell a).setData entry.2 := by
  induction before generalizing m with
  | nil =>
    have hcell : (m.write entry.1 entry.2).cell a = (m.cell a).setData entry.2 := by
      unfold write
      rw [cell_modify, if_pos ha]
    rw [List.nil_append, writeEntries_cons, cell_writeEntries_of_forall_ne, hcell]
    intro e he
    rw [index_write, index_write]
    exact hafter e he
  | cons e before ih =>
    -- whatever was written before is lost
    have hlost : ((m.write e.1 e.2).cell a).setData entry.2 = (m.cell a).setData entry.2 := by
      unfold write
      rw [cell_modify]
      split
      · exact Cell.setData_setData _ _ _
      · rfl
    rw [List.cons_append, writeEntries_cons, ih, hlost]
    · rwa [index_write, index_write]
    · intro e' he'
      rw [index_write, index_write]
      exact hafter e' he'

/-- An address that is not written keeps its word. -/
theorem read_writeEntries_of_not_mem {m : Memory} (h : m.length = maxMemory)
    {entries : List (Word × Word)} {a : Word} (ha : ∀ e ∈ entries, e.1 ≠ a) :
    (m.writeEntries entries).read a = m.read a := by
  unfold read
  rw [cell_writeEntries_of_forall_ne]
  intro e he hindex
  rw [index_eq h, index_eq h] at hindex
  exact ha e he (BitVec.eq_of_toNat_eq hindex)

/-- An address that is written once has the word written there. -/
theorem read_writeEntries_of_mem {m : Memory} (h : m.length = maxMemory)
    {entries : List (Word × Word)} (hdistinct : entries.Pairwise fun e e' => e.1 ≠ e'.1)
    {a word : Word} (hmem : (a, word) ∈ entries) : (m.writeEntries entries).read a = word := by
  obtain ⟨before, after, rfl⟩ := List.append_of_mem hmem
  have hafter := (List.pairwise_cons.mp (List.pairwise_append.mp hdistinct).2.1).1
  unfold read
  rw [cell_writeEntries_of_last rfl, Cell.data_setData]
  intro e he hindex
  rw [index_eq h, index_eq h] at hindex
  exact hafter e he (BitVec.eq_of_toNat_eq hindex.symm)

/-- The words of an image stand at their addresses. -/
theorem read_writeEntries_toList {m : Memory} (h : m.length = maxMemory) (image : Image)
    (a : Word) : (m.writeEntries image.toList).read a = (image.get? a).getD (m.read a) := by
  cases hget : image.get? a with
  | none =>
    refine read_writeEntries_of_not_mem h ?_
    rintro ⟨a', word⟩ he rfl
    rw [Image.mem_toList_iff, hget] at he
    cases he
  | some word =>
    exact read_writeEntries_of_mem h (pairwise_toList image.words) (Image.mem_toList_iff.mpr hget)

theorem toNat_ofNat_of_lt (m : Memory) {i : Nat} (hi : i < m.length) :
    (BitVec.ofNat 16 i).toNat = i := by
  rw [BitVec.toNat_ofNat]
  exact Nat.mod_eq_of_lt (Nat.lt_of_lt_of_le hi m.length_le)

/-- In a memory of any length, a cell holds the word of the highest address that comes to it. -/
theorem cell_writeEntries_toList (m : Memory) (image : Image) {i : Nat} (hi : i < m.length) :
    (∃ a w, image.IsHighest m.length i a ∧ image.get? a = some w ∧
      (m.writeEntries image.toList).cell (BitVec.ofNat 16 i)
        = (m.cell (BitVec.ofNat 16 i)).setData w) ∨
    ((∀ a, (image.get? a).isSome → a.toNat % m.length ≠ i) ∧
      (m.writeEntries image.toList).cell (BitVec.ofNat 16 i) = m.cell (BitVec.ofNat 16 i)) := by
  have hindex : m.index (BitVec.ofNat 16 i) = i := by
    rw [index, m.toNat_ofNat_of_lt hi]
    exact Nat.mod_eq_of_lt hi
  -- the last entry that comes to the cell, if there is one
  cases hlast : image.toList.reverse.find? (fun e => m.index e.1 = i) with
  | none =>
    have hne : ∀ e ∈ image.toList, m.index e.1 ≠ i := by simpa using hlast
    refine .inr ⟨fun a ha => ?_, cell_writeEntries_of_forall_ne (by rwa [hindex])⟩
    obtain ⟨w, hw⟩ := Option.isSome_iff_exists.mp ha
    exact hne (a, w) (Image.mem_toList_iff.mpr hw)
  | some entry =>
    obtain ⟨hentry, after, before, hsplit, hafter⟩ := List.find?_eq_some_iff_append.mp hlast
    have hlist : image.toList = before.reverse ++ entry :: after.reverse := by
      rw [← image.toList.reverse_reverse, hsplit]
      simp
    have hcomes : m.index entry.1 = i := by simpa using hentry
    have hothers : ∀ e ∈ after.reverse, m.index e.1 ≠ i := by simpa using hafter
    have hmem : entry ∈ image.toList := by simp [hlist]
    have hget : image.get? entry.1 = some entry.2 := Image.mem_toList_iff.mp hmem
    refine .inl ⟨entry.1, entry.2, ⟨by rw [hget]; rfl, hcomes, ?_⟩, hget, ?_⟩
    · intro a ha hcomes'
      obtain ⟨w, hw⟩ := Option.isSome_iff_exists.mp ha
      have hmem' := Image.mem_toList_iff.mpr hw
      have hascending := image.ascending_toList
      rw [hlist] at hmem' hascending
      rcases List.mem_append.mp hmem' with hbefore | hmem'
      · exact Nat.le_of_lt ((List.pairwise_append.mp hascending).2.2 _ hbefore _ List.mem_cons_self)
      rcases List.mem_cons.mp hmem' with rfl | hrest
      · exact Nat.le_refl _
      · exact absurd hcomes' (hothers _ hrest)
    · rw [hlist]
      exact cell_writeEntries_of_last (by rw [hindex, hcomes]) (by rwa [hindex])

end Memory

namespace Machine

/-- Loading writes the words of an image. -/
theorem load_memory (m : Machine) (image : Image) :
    (m.load image).memory = m.memory.writeEntries image.toList := by
  show image.blocks.foldl _ m.memory = _
  rw [← Image.flatMap_blocks, Memory.writeEntries, List.foldl_flatMap]
  simp only [Memory.copyBlock_eq]
  rfl

/-- **Loading.**  The memory holds the words of the image, and is as it was elsewhere. -/
theorem read_load {m : Machine} (h : m.memory.length = maxMemory) (image : Image) (a : Word) :
    (m.load image).memory.read a = (image.get? a).getD (m.memory.read a) := by
  rw [load_memory, Memory.read_writeEntries_toList h]

/-- **Loading** an image into a memory of any length writes its words and nothing else.  A cell
    holds the word of the highest written address that comes to it, and keeps its word if there is
    none; breakpoints, and whatever is not memory, stay as they are. -/
theorem load_cells (m : Machine) (image : Image) :
    let memory := (m.load image).memory
    m.load image = { m with memory := memory } ∧
    memory.length = m.memory.length ∧
    (∀ a, memory.hasBreakpoint a = m.memory.hasBreakpoint a) ∧
    (∀ i < m.memory.length,
      (∃ a w, image.IsHighest m.memory.length i a ∧ image.get? a = some w ∧
        memory.read (BitVec.ofNat 16 i) = w) ∨
      ((∀ a, (image.get? a).isSome → a.toNat % m.memory.length ≠ i) ∧
        memory.read (BitVec.ofNat 16 i) = m.memory.read (BitVec.ofNat 16 i))) ∧
    ((∀ a, (image.get? a).isSome → a.toNat < m.memory.length) →
      ∀ i < m.memory.length, memory.read (BitVec.ofNat 16 i)
        = (image.get? (BitVec.ofNat 16 i)).getD (m.memory.read (BitVec.ofNat 16 i))) := by
  intro memory
  have hmemory : memory = m.memory.writeEntries image.toList := m.load_memory image
  have hcells : ∀ i < m.memory.length,
      (∃ a w, image.IsHighest m.memory.length i a ∧ image.get? a = some w ∧
        memory.read (BitVec.ofNat 16 i) = w) ∨
      ((∀ a, (image.get? a).isSome → a.toNat % m.memory.length ≠ i) ∧
        memory.read (BitVec.ofNat 16 i) = m.memory.read (BitVec.ofNat 16 i)) := by
    intro i hi
    rw [hmemory]
    rcases m.memory.cell_writeEntries_toList image hi with ⟨a, w, ha, hw, hcell⟩ | ⟨hnone, hcell⟩
    · exact .inl ⟨a, w, ha, hw, (congrArg Cell.data hcell).trans (Cell.data_setData _ _)⟩
    · exact .inr ⟨hnone, congrArg Cell.data hcell⟩
  refine ⟨rfl, ?_, fun a => ?_, hcells, fun hbelow i hi => ?_⟩
  · rw [hmemory, Memory.length_writeEntries]
  · rw [hmemory, Memory.hasBreakpoint_writeEntries]
  · have hvalue := m.memory.toNat_ofNat_of_lt hi
    rcases hcells i hi with ⟨a, w, ha, hw, hread⟩ | ⟨hnone, hread⟩
    · -- below the length, an address comes to no cell but its own
      have hcomes := ha.comes
      rw [Nat.mod_eq_of_lt (hbelow a ha.written), ← hvalue] at hcomes
      rw [hread, ← BitVec.eq_of_toNat_eq hcomes, hw]
      rfl
    · rw [hread]
      cases hget : image.get? (BitVec.ofNat 16 i) with
      | none => rfl
      | some w =>
        refine absurd ?_ (hnone (BitVec.ofNat 16 i) (by rw [hget]; rfl))
        rw [hvalue, Nat.mod_eq_of_lt hi]

/-! ## Machines that are ready to run -/

/-- A machine with an image in the largest memory, which is zero elsewhere. -/
def ready (image : Image) (sink : Sink) (input : List Word) : Machine :=
  (((Machine.new {}).setSink sink).load image).reset input

theorem ready_memory (image : Image) (sink : Sink) (input : List Word) :
    (ready image sink input).memory
      = (Memory.fresh maxMemory .zeroed).writeEntries image.toList :=
  load_memory ((Machine.new {}).setSink sink) image

end Machine

/-- The word an image puts at an address of a memory filled with zeros. -/
def Image.wordAt (image : Image) (address : Word) : Word :=
  (image.get? address).getD 0

namespace Machine

theorem length_ready (image : Image) (sink : Sink) (input : List Word) :
    (ready image sink input).memory.length = maxMemory := by
  rw [ready_memory, Memory.length_writeEntries, Memory.length_fresh,
    clampMemory_of_le (by decide) (Nat.le_refl _)]

theorem hasBreakpoint_ready (image : Image) (sink : Sink) (input : List Word) (a : Word) :
    (ready image sink input).memory.hasBreakpoint a = false := by
  rw [ready_memory, Memory.hasBreakpoint_writeEntries, Memory.hasBreakpoint_fresh]

theorem read_ready (image : Image) (sink : Sink) (input : List Word) (a : Word) :
    (ready image sink input).memory.read a = image.wordAt a := by
  have hlength : (Memory.fresh maxMemory .zeroed).length = maxMemory := by
    rw [Memory.length_fresh, clampMemory_of_le (by decide) (Nat.le_refl _)]
  rw [ready_memory, Memory.read_writeEntries_toList hlength, Memory.read_fresh]
  rfl

end Machine

end AnnaToolchain
