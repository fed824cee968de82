import AnnaToolchain.Proofs.Assembly.BranchTarget
import Mathlib.Data.Int.ModEq

/-! # How far branches reach

    A branch has eight bits for the way to its label, so that it leads from
    128 words before the next instruction to 127 words behind it, and round
    memory where it leaves it at an end (`LeadsTo`).

    The assembler folds the straight way once, at half the memory length.
    That is enough: the folded distance has eight bits exactly if any way
    has (`distance_fits_iff`).  So a branch is patched if its label can be
    reached at all, and refused if not (`branch_patched_iff`). -/

namespace AnnaToolchain

/-! ## Immediates that fit -/

namespace Immediate

theorem byte_toInt_bounds (imm : BitVec 8) : -128 ≤ imm.toInt ∧ imm.toInt ≤ 127 := by
  have hlow := imm.le_two_mul_toInt
  have hhigh := imm.two_mul_toInt_lt
  omega

/-- A number is a signed byte, or it is refused. -/
theorem signed?_byte_iff {n : Int} :
    (∃ imm, signed? 8 n = .ok imm) ↔ -128 ≤ n ∧ n ≤ 127 := by
  constructor
  · rintro ⟨imm, h⟩
    rw [← signed?_ok_iff.mp h]
    exact byte_toInt_bounds imm
  · rintro ⟨hlow, hhigh⟩
    refine ⟨BitVec.ofInt 8 n, signed?_ok_iff.mpr ?_⟩
    exact BitVec.toInt_ofInt_eq_self (by decide) (by omega) (by omega)

end Immediate

namespace Word

theorem lowByte_withLowByte (w : Word) (b : BitVec 8) : (w.withLowByte b).lowByte = b := by
  have hb := b.isLt
  apply BitVec.eq_of_toNat_eq
  rw [lowByte, BitVec.toNat_ofNat, toNat_withLowByte]
  omega

theorem highByte_withLowByte (w : Word) (b : BitVec 8) :
    (w.withLowByte b).highByte = w.highByte := by
  have hb := b.isLt
  unfold highByte
  rw [toNat_withLowByte, show (w.toNat / 256 * 256 + b.toNat) / 256 = w.toNat / 256 by omega]

end Word

namespace Relocation

/-! ## Ways to a label -/

/-- A displacement of eight bits leads from the branch at `address` to `target`, round a memory of
    `memLen` words. -/
structure LeadsTo (memLen : Nat) (address target : Word) (d : Int) : Prop where
  low : -128 ≤ d
  high : d ≤ 127
  arrives : branchSum address d ≡ target.toNat [ZMOD memLen]

section

variable {memLen : Nat} {address target : Word}

/-- The distance is the shorter way round, or one of two that are equally short. -/
theorem distance_bounds (ha : address.toNat < memLen) (ht : target.toNat < memLen) :
    ((memLen / 2 : Nat) : Int) - memLen ≤ distance memLen address target ∧
      distance memLen address target < memLen - (memLen / 2 : Nat) := by
  unfold distance
  simp only
  split
  · omega
  · split <;> omega

/-- The distance arrives, whether it has eight bits or not. -/
theorem distance_arrives (memLen : Nat) (address target : Word) :
    branchSum address (distance memLen address target) ≡ target.toNat [ZMOD memLen] := by
  rcases branchSum_distance memLen address target with h | h | h
  · rw [h]
  · rw [h]
    exact Int.add_modEq_right
  · rw [h]
    exact Int.sub_modulus_modEq_iff.mpr rfl

/-- Any other displacement that arrives is at least once round memory away. -/
theorem LeadsTo.eq_or_far {d : Int} (h : LeadsTo memLen address target d) :
    d = distance memLen address target ∨ d + memLen ≤ distance memLen address target ∨
      distance memLen address target + memLen ≤ d := by
  have hdvd {x y : Int} (hsame : branchSum address x ≡ branchSum address y [ZMOD memLen]) :
      (memLen : Int) ∣ y - x := by
    have hsub := hsame.dvd
    unfold branchSum at hsub
    rwa [Int.add_sub_add_left] at hsub
  have hsame := (distance_arrives memLen address target).trans h.arrives.symm
  rcases lt_trichotomy d (distance memLen address target) with hlt | heq | hgt
  · have hle := Int.le_of_dvd (by omega) (hdvd hsame.symm)
    omega
  · exact .inl heq
  · have hle := Int.le_of_dvd (by omega) (hdvd hsame)
    omega

/-- **Folding once is enough.**  The distance has eight bits exactly if there is a displacement of
    eight bits that leads to the target. -/
theorem distance_fits_iff (ha : address.toNat < memLen) (ht : target.toNat < memLen) :
    (-128 ≤ distance memLen address target ∧ distance memLen address target ≤ 127) ↔
      ∃ d, LeadsTo memLen address target d := by
  constructor
  · rintro ⟨hlow, hhigh⟩
    exact ⟨_, hlow, hhigh, distance_arrives memLen address target⟩
  · rintro ⟨d, hd⟩
    have hbounds := distance_bounds ha ht
    have hlow := hd.low
    have hhigh := hd.high
    -- in a memory of 255 words or less the distance always has eight bits; in a longer one no
    -- displacement that is once round away from it has
    rcases hd.eq_or_far with heq | hfar | hfar <;> omega

end

/-! ## Patching a branch -/

section

variable {memLen : Nat} {address word target : Word} {label : String} {cond : Condition}

/-- A branch is given the distance if that has eight bits. -/
theorem patch_branch_of_ok (hop : Opcode.ofWord? word = some (.branch cond)) {imm : BitVec 8}
    (himm : Immediate.signed? 8 (distance memLen address target) = .ok imm) :
    patch memLen address word target label = .ok (word.withLowByte imm) := by
  unfold patch
  simp only [hop, himm]

/-- A branch is too far from its label if the distance has more bits. -/
theorem patch_branch_of_error (hop : Opcode.ofWord? word = some (.branch cond)) {e : RangeError}
    (he : Immediate.signed? 8 (distance memLen address target) = .error e) :
    patch memLen address word target label
      = .error (.branchTooFar label (distance memLen address target)) := by
  unfold patch
  simp only [hop, he]

end

/-- The word of a branch is patched with the address of its label. -/
theorem resolve_eq_patch {image : Image} {address word target : Word} {label : String}
    (hword : image.get? address = some word) (ht : image.symbols.addressOf? label = some target) :
    resolve image address label = patch image.memLen address word target label := by
  unfold resolve
  simp only [ht, hword, Option.getD_some]

/-- **Reach.**  A branch is patched exactly if some displacement of eight bits leads to its label.
    Then its low byte is such a displacement, and its high byte is as it was; else it is refused as
    too far from the label.  This holds for memories of every length. -/
theorem branch_patched_iff {image : Image} {address word target : Word} {label : String}
    {cond : Condition} (ha : address.toNat < image.memLen)
    (hword : image.get? address = some word) (hop : Opcode.ofWord? word = some (.branch cond))
    (hlabel : image.symbols.addressOf? label = some target)
    (ht : target.toNat < image.memLen) :
    ((∃ word', resolve image address label = .ok word') ↔
        ∃ d, LeadsTo image.memLen address target d) ∧
      (∀ word', resolve image address label = .ok word' →
        LeadsTo image.memLen address target word'.lowByte.toInt ∧
          word'.highByte = word.highByte) ∧
      ((¬ ∃ d, LeadsTo image.memLen address target d) →
        resolve image address label
          = .error (.branchTooFar label (distance image.memLen address target))) := by
  rw [resolve_eq_patch hword hlabel]
  have hfits := Immediate.signed?_byte_iff.trans (distance_fits_iff ha ht)
  cases himm : Immediate.signed? 8 (distance image.memLen address target) with
  | ok imm =>
    rw [patch_branch_of_ok hop himm]
    have hd : imm.toInt = distance image.memLen address target := Immediate.signed?_ok_iff.mp himm
    have hleads : LeadsTo image.memLen address target imm.toInt := by
      obtain ⟨hlow, hhigh⟩ := Immediate.byte_toInt_bounds imm
      exact ⟨hlow, hhigh, hd ▸ distance_arrives image.memLen address target⟩
    refine ⟨iff_of_true ⟨_, rfl⟩ ⟨_, hleads⟩, ?_, fun hnone => absurd ⟨_, hleads⟩ hnone⟩
    rintro _ ⟨⟩
    rw [Word.lowByte_withLowByte, Word.highByte_withLowByte]
    exact ⟨hleads, rfl⟩
  | error e =>
    rw [patch_branch_of_error hop himm]
    have hnone : ¬ ∃ d, LeadsTo image.memLen address target d := by
      rw [← hfits, himm]
      exact fun ⟨_, h⟩ => nomatch h
    exact ⟨iff_of_false (fun ⟨_, h⟩ => nomatch h) hnone, nofun, fun _ => rfl⟩

/-- A branch in a memory of 255 words, with its label half way round. -/
def halfWay : Image :=
  { Image.empty 255 with
    words := (∅ : Std.ExtTreeMap Word Word).insert 0 0x9300
    symbols := (∅ : SymbolTable).insert "far" 128 }

/-- The label is 127 words ahead and 128 words back; the branch goes back. -/
theorem branch_patched_iff_halfWay :
    LeadsTo 255 0 128 127 ∧ resolve halfWay 0 "far" = .ok 0x9380 ∧ LeadsTo 255 0 128 (-128) := by
  have hword : halfWay.get? 0 = some 0x9300 := by decide +kernel
  have hop : Opcode.ofWord? 0x9300 = some (.branch .eq) := by decide
  have hlabel : halfWay.symbols.addressOf? "far" = some 128 := by decide +kernel
  have hresolve : resolve halfWay 0 "far" = .ok 0x9380 := by decide +kernel
  obtain ⟨-, hpatched, -⟩ := branch_patched_iff (by decide) hword hop hlabel (by decide)
  exact ⟨⟨by decide, by decide, by decide⟩, hresolve, (hpatched 0x9380 hresolve).1⟩

end Relocation

end AnnaToolchain
