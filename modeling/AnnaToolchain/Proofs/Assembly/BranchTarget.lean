import AnnaToolchain.Proofs.Assembly.Code
import AnnaToolchain.Proofs.Machine.Instructions

/-! # Where branches go

    The assembler takes the distance to a label the shorter way round
    memory.  The machine adds it to the program counter modulo `2 ^ 16`, and
    only then brings the sum below the length of memory.  The two ways round
    agree where the sum does not leave `0 .. 65535`, and for memories whose
    length divides `2 ^ 16`; elsewhere the branch misses its label
    (`branch_reaches_iff`). -/

namespace AnnaToolchain

/-! ## Arithmetic -/

/-- The address a branch adds up to, before it leaves 16 bits. -/
def branchSum (address : Word) (distance : Int) : Int :=
  address.toNat + 1 + distance

theorem toNat_add_extend (address : Word) (imm : BitVec 8) :
    ((address + 1 + Immediate.extend imm).toNat : Int)
      = branchSum address imm.toInt % 65536 := by
  have himm : (Immediate.extend imm).toInt = imm.toInt :=
    BitVec.toInt_signExtend_of_le (by decide)
  have hcond := BitVec.toInt_eq_toNat_cond (Immediate.extend imm)
  have hlt := (Immediate.extend imm).isLt
  have haddr := address.isLt
  unfold branchSum
  rw [← himm, hcond, BitVec.toNat_add, BitVec.toNat_add, show (1 : Word).toNat = 1 from rfl]
  split <;> omega

namespace Relocation

/-- The distance leads to the target, perhaps once round memory. -/
theorem branchSum_distance (memLen : Nat) (address target : Word) :
    branchSum address (distance memLen address target) = target.toNat ∨
    branchSum address (distance memLen address target) = target.toNat + memLen ∨
    branchSum address (distance memLen address target) = target.toNat - memLen := by
  unfold distance branchSum
  simp only
  split
  · omega
  · split <;> omega

end Relocation

/-- A sum that has come to `target` perhaps once round a memory of `memLen` words is brought to
    `target` also by way of 16 bits, unless the two ways round are different. -/
theorem emod_emod_eq_iff {memLen : Nat} {target : Word} {sum : Int} (hpos : 0 < memLen)
    (hle : memLen ≤ 65536) (ht : target.toNat < memLen)
    (hsum : sum = target.toNat ∨ sum = target.toNat + memLen ∨ sum = target.toNat - memLen) :
    sum % 65536 % memLen = target.toNat ↔
      memLen ∣ 65536 ∨ (0 ≤ sum ∧ sum < 65536) := by
  have htarget : (target.toNat : Int) % memLen = target.toNat :=
    Int.emod_eq_of_lt (by omega) (by omega)
  have hmod : sum % memLen = target.toNat := by
    rcases hsum with rfl | rfl | rfl
    · exact htarget
    · rw [Int.add_emod_right, htarget]
    · rw [Int.sub_emod_right, htarget]
  constructor
  · intro h
    by_cases hin : 0 ≤ sum ∧ sum < 65536
    · exact .inr hin
    · -- the sum is one round of 16 bits off, which has to be whole rounds of memory
      left
      have h₁ : (memLen : Int) ∣ sum % 65536 - target.toNat := Int.dvd_self_sub_of_emod_eq h
      have h₂ : (memLen : Int) ∣ sum - target.toNat := Int.dvd_self_sub_of_emod_eq hmod
      have hround : sum % 65536 = sum - 65536 ∨ sum % 65536 = sum + 65536 := by
        have hlt := target.isLt
        rcases hsum with hs | hs | hs <;> omega
      have hdvd : (memLen : Int) ∣ 65536 := by
        rcases hround with hround | hround
        · have h₃ := Int.dvd_sub h₂ h₁
          rwa [hround, show sum - target.toNat - (sum - 65536 - target.toNat) = 65536 from by
            omega] at h₃
        · have h₃ := Int.dvd_sub h₁ h₂
          rwa [hround, show sum + 65536 - target.toNat - (sum - target.toNat) = 65536 from by
            omega] at h₃
      exact Int.natCast_dvd_natCast.mp hdvd
  · rintro (hdvd | hin)
    · have hdvd' : (memLen : Int) ∣ 65536 := Int.natCast_dvd_natCast.mpr hdvd
      rw [Int.emod_emod_of_dvd sum hdvd']
      exact hmod
    · rw [Int.emod_eq_of_lt hin.1 hin.2]
      exact hmod

/-! ## Branches -/

/-- The words of an image stand in a memory of the length it was made for. -/
structure Image.LoadedIn (image : Image) (memory : Memory) : Prop where
  length : memory.length = image.memLen
  words : ∀ address word, image.get? address = some word → memory.read address = word

namespace Machine

theorem Faces.branch {m : Machine} {cond : Condition} {rd : Register} {imm : BitVec 8}
    (h : m.Faces (.ofImm8 (.branch cond) rfl rd imm)) :
    m.Computes 1 (m.memory.wrap (if cond.holds (m.register rd).toInt
      then m.pc + 1 + Immediate.extend imm else m.pc + 1)) m.registers m.memory :=
  (h.unchanged.goto (action_branch _ rd cond rfl imm)).computes

end Machine

/-- **Branches.**  A branch whose condition holds comes to its label exactly if the length of
    memory divides `2 ^ 16`, or the way the assembler has taken does not leave 16 bits. -/
theorem Program.branch_reaches_iff {p placed : Program} {memLen : Nat} {image : Image}
    (hpos : 0 < memLen) (hle : memLen ≤ maxMemory)
    (h : p.assemble memLen = (placed, .ok image)) {i : Nat} {s : Statement}
    (hs : placed[i]? = some s) {cond : Condition} {rd target label : String}
    (hb : s.branch? = some (cond, rd, target))
    (hl : Operand.parse target = .ok (.label label)) {t : Word}
    (ht : image.symbols.addressOf? label = some t) (hlt : t.toNat < memLen) :
    ∃ address r, s.address = some address ∧ (p.aliasesBefore i).register rd = .ok r ∧
      ∀ m : Machine, image.LoadedIn m.memory → m.pc = address → m.atBreakpoint = false →
        cond.holds (m.register r).toInt = true →
        (m.run 1).2 = .ok .cyclesExceeded ∧
        ((m.run 1).1.pc = t ↔ memLen ∣ 65536 ∨
          (0 ≤ branchSum address (Relocation.distance memLen address t) ∧
            branchSum address (Relocation.distance memLen address t) < 65536)) := by
  have hmemLen : image.memLen = memLen :=
    (memLen_assemble h).trans (clampMemory_of_le hpos hle)
  obtain ⟨address, r, t', imm, hr, ht', himm, hcode, hget⟩ := codes_branch h hs hb hl
  -- the label has one value
  rw [ht] at ht'
  cases ht'
  rw [hmemLen] at himm
  refine ⟨address, r, hcode.address, hr, ?_⟩
  intro m hm hpc hclear hcond
  have hf : m.Faces (.ofImm8 (.branch cond) rfl r imm) := by
    refine ⟨?_, hclear⟩
    rw [hpc]
    exact hm.words _ _ hget
  obtain ⟨hresult, hmoved⟩ := hf.branch
  refine ⟨hresult, ?_⟩
  rw [hmoved.pc, if_pos hcond, hpc]
  have hlength : m.memory.cells.size = memLen := hm.length.trans hmemLen
  -- both addresses as numbers
  have hnat : m.memory.wrap (address + 1 + Immediate.extend imm) = t ↔
      ((address + 1 + Immediate.extend imm).toNat : Int) % memLen = t.toNat := by
    rw [← BitVec.toNat_inj, Memory.toNat_wrap]
    unfold Memory.index
    rw [hlength]
    omega
  rw [hnat, toNat_add_extend, himm]
  exact emod_emod_eq_iff hpos hle hlt (Relocation.branchSum_distance memLen address t)

/-- A branch from the first of ten words to the last one. -/
def detour : Program :=
  [{ op := some (.pseudo .br), operands := ["&end"] },
   { op := some (.directive .org), operands := ["9"] },
   { labels := ["end"], op := some (.pseudo .halt) }]

/-- The image of `detour`.  The branch goes two words back, round the front of memory. -/
def detourImage : Image :=
  { Image.empty 10 with
    words := ((∅ : Std.ExtTreeMap Word Word).insert 0 0x90FE).insert 9 0xF000
    symbols := (∅ : SymbolTable).insert "end" 9 }

theorem loadedIn_detourImage :
    detourImage.LoadedIn ((Machine.new { memLen := 10 }).load detourImage).memory := by
  refine ⟨by decide +kernel, ?_⟩
  intro address word hword
  have hget : detourImage.get? address
      = if (9 : Word) = address then some 0xF000
        else if (0 : Word) = address then some 0x90FE else none := by
    simp [detourImage, Image.get?, Image.empty, Std.ExtTreeMap.getElem?_insert]
  rw [hget] at hword
  -- the image has two words
  split at hword
  · next h =>
    cases hword
    rw [← h]
    decide +kernel
  · split at hword
    · next h =>
      cases hword
      rw [← h]
      decide +kernel
    · cases hword

/-- Two words back from the first of ten is the ninth word; two back from the first of 65536 is
    word `65535`, the fifth of ten. -/
theorem branch_reaches_iff_detour :
    (detour.assemble 10).2 = .ok detourImage ∧
    detourImage.symbols.addressOf? "end" = some 9 ∧
    (((Machine.new { memLen := 10 }).load detourImage).run 1).2 = .ok .cyclesExceeded ∧
    (((Machine.new { memLen := 10 }).load detourImage).run 1).1.pc ≠ 9 := by
  have hassemble : (detour.assemble 10).2 = .ok detourImage := by decide +kernel
  have hend : detourImage.symbols.addressOf? "end" = some 9 := by decide +kernel
  obtain ⟨address, r, haddress, hr, hreaches⟩ :=
    Program.branch_reaches_iff (by decide) (by decide) (Prod.ext rfl hassemble)
      (show (detour.assemble 10).1[0]? = some
        { op := some (.pseudo .br), operands := ["&end"], address := some 0, words := [0x90FE] }
        from by decide +kernel)
      rfl (show Operand.parse "&end" = .ok (.label "end") from by decide +kernel) hend (by decide)
  -- so the machine is at the branch, and `r0` is what it looks at
  cases haddress
  rw [(Aliases.native_aliasesBefore _ _).register_zero] at hr
  cases hr
  obtain ⟨hresult, hpc⟩ :=
    hreaches _ loadedIn_detourImage rfl (by decide +kernel) (by decide +kernel)
  refine ⟨hassemble, hend, hresult, ?_⟩
  rw [Ne, hpc]
  decide

end AnnaToolchain
