import AnnaToolchain.Proofs.Assembly.Account
import AnnaToolchain.Proofs.Assembly.Addresses
import AnnaToolchain.Proofs.Image.Reading

/-! # Images inside memory

    An image is for a memory of a given length.  Assembled, or read from a
    listing, it stays within that memory, and no part of the program or the
    listing runs past the end.  A binary image is read as it is, whatever the
    length it gives: addresses past the last one wrap, and none of them is
    held against the length (`images_inside`). -/

namespace AnnaToolchain

/-- Every address that is written is one of memory. -/
def Image.Inside (image : Image) : Prop :=
  ∀ a : Word, (image.get? a).isSome → a.toNat < image.memLen

/-! ## Assembled programs -/

namespace Layout

variable {n : Nat} {l l' l₁ : Layout} {s t : Statement} {ss ss' : List Statement}

/-- Placing a statement does not go past the end of memory. -/
theorem cursor_le_of_place (hs : l.Sound) (h : l.place n s = (t, .ok l₁))
    (hcursor : l.cursor ≤ l.image.memLen) : l₁.cursor ≤ l₁.image.memLen := by
  obtain ⟨effect, heffect, happly⟩ := apply_of_place h
  cases Effect.ofMnemonic heffect with
  | moveTo _ _ _ _ hin =>
    cases happly
    exact Nat.le_of_lt hin
  | define _ _ _ _ =>
    have hlabels := defineLabels_ok (congrArg Prod.snd happly)
    rw [hlabels.cursor, hlabels.memLen]
    exact hcursor
  | @emit es aliases _ _ =>
    obtain ⟨l₀, ws, hd, hw, rfl⟩ := apply_emit_cases happly
    have hlabels := defineLabels_ok hd
    obtain ⟨-, hall⟩ := writeAll_ok (l := { l₀ with aliases := aliases }) (hlabels.sound hs) hw
    have hmemLen : l₁.image.memLen = l₀.image.memLen := hall.extended.memLen
    rw [hall.cursor, hmemLen]
    by_cases hes : es = []
    · rw [hes, List.length_nil, Nat.add_zero, hlabels.cursor, hlabels.memLen]
      exact hcursor
    · exact hall.inside hes

/-- **Placing** never goes past the end of memory. -/
theorem Places.cursor_le (h : Places n l ss ss' l') (hs : l.Sound) {done : Program}
    (hdone : l.cursor = done.cursor) (hcursor : l.cursor ≤ l.image.memLen) (i : Nat) :
    Program.cursor (done ++ ss'.take i) ≤ l.image.memLen := by
  induction h generalizing done i with
  | nil n l =>
    rw [List.take_nil, List.append_nil, ← hdone]
    exact hcursor
  | cons hplace _ ih =>
    obtain ⟨_, -, happlied⟩ := place_ok hs hplace
    cases i with
    | zero =>
      rw [List.take_zero, List.append_nil, ← hdone]
      exact hcursor
    | succ i =>
      have hrest := ih happlied.sound (cursor_concat_of_place hs hplace hdone)
        (cursor_le_of_place hs hplace hcursor) i
      rwa [List.append_assoc, happlied.extended.memLen] at hrest

end Layout

namespace Program

variable {p placed : Program} {memLen : Nat} {image : Image}

theorem cursor_le_assemble (h : p.assemble memLen = (placed, .ok image)) (i : Nat) :
    Program.cursor (placed.take i) ≤ image.memLen := by
  have hmemLen : image.memLen = (Layout.start memLen).image.memLen := memLen_assemble h
  obtain ⟨ps, l, hplaces, rfl, -⟩ := assemble_ok h
  rw [← List.map_take, cursor_readBack, hmemLen]
  exact hplaces.cursor_le (Layout.sound_start memLen) cursor_nil.symm (Nat.zero_le _) i

/-- What is written belongs to a statement, and these are inside memory. -/
theorem inside_assemble (h : p.assemble memLen = (placed, .ok image)) : image.Inside := by
  intro a ha
  have haccount := accountsFor_assemble h
  obtain ⟨s, hs, hmem⟩ := haccount.covered a ha
  obtain ⟨start, k, hstart, hk, rfl⟩ := Statement.mem_addresses.mp hmem
  have hwords : s.words ≠ [] := List.ne_nil_of_length_pos (Nat.zero_lt_of_lt hk)
  obtain ⟨start', hstart', hfits⟩ := haccount.inside s hs hwords
  cases hstart.symm.trans hstart'
  have hle : (start + BitVec.ofNat 16 k).toNat ≤ start.toNat + k := by
    rw [BitVec.toNat_add, BitVec.toNat_ofNat]
    exact Nat.le_trans (Nat.mod_le _ _) (Nat.add_le_add_left (Nat.mod_le _ _) _)
  omega

end Program

/-! ## Stored images -/

namespace Image

variable {image : Image} {entries : List (Word × Nat)}

/-- An image is inside memory if and only if its words are numbered so. -/
theorem HasWords.inside_iff (h : image.HasWords entries) :
    image.Inside ↔ ∀ e ∈ entries, e.2 % 65536 < image.memLen := by
  constructor
  · rintro hinside ⟨w, n⟩ hn
    have hget : image.get? (BitVec.ofNat 16 n) = some w := (h _ _).mpr ⟨n, hn, rfl⟩
    have hlt := hinside (BitVec.ofNat 16 n) (by rw [hget]; rfl)
    rwa [BitVec.toNat_ofNat] at hlt
  · intro hlt a ha
    obtain ⟨w, hw⟩ := Option.isSome_iff_exists.mp ha
    obtain ⟨n, hn, rfl⟩ := (h a w).mp hw
    rw [BitVec.toNat_ofNat]
    exact hlt (w, n) hn

/-- Numbers that do not run past memory are those that are inside it and do not wrap. -/
theorem HasWords.inside_and_iff (h : image.HasWords entries) :
    (image.Inside ∧ ∀ e ∈ entries, e.2 < maxMemory) ↔ ∀ e ∈ entries, e.2 < image.memLen := by
  rw [h.inside_iff]
  constructor
  · rintro ⟨hinside, hwrap⟩ e he
    rw [← Nat.mod_eq_of_lt (hwrap e he)]
    exact hinside e he
  · intro hlt
    refine ⟨fun e he => Nat.lt_of_le_of_lt (Nat.mod_le _ _) (hlt e he), fun e he => ?_⟩
    exact Nat.lt_of_lt_of_le (hlt e he) image.memLen_le

/-- **Images** that are assembled, and images that are read from listings, are inside memory, and
    nothing that they were made of runs past its end.  A binary image is read with any words: it is
    inside memory, and no block of it runs past the end, if and only if no block counts up to the
    length it gives. -/
theorem images_inside (p placed : Program) (memLen : Nat) (text : String) (bytes : List UInt8)
    (image : Image) :
    (p.assemble memLen = (placed, .ok image) →
      image.Inside ∧ ∀ i, Program.cursor (placed.take i) ≤ image.memLen) ∧
    (ofListing text = .ok image →
      image.Inside ∧ image.memLen = maxMemory ∧
        ∃ items, listingItems? (Text.lineChars text.toList) = some items ∧
          image.HasWords (numbered 0 items) ∧ ∀ e ∈ numbered 0 items, e.2 < image.memLen) ∧
    (decode bytes = .ok image →
      ∃ (len : Nat) (blocks : List Block), len < 2 ^ 32 ∧ (∀ block ∈ blocks, block.Counted) ∧
        bytes = signature ++ littleEndian 4 len ++ blocks.flatMap Block.bytes ∧
        image.memLen = clampMemory len ∧
        image.HasWords (blocks.flatMap Block.numbered) ∧
        (image.Inside ↔ ∀ e ∈ blocks.flatMap Block.numbered, e.2 % 65536 < image.memLen) ∧
        ((image.Inside ∧ ∀ e ∈ blocks.flatMap Block.numbered, e.2 < maxMemory) ↔
          ∀ e ∈ blocks.flatMap Block.numbered, e.2 < image.memLen)) := by
  refine ⟨?_, ?_, ?_⟩
  · intro h
    exact ⟨Program.inside_assemble h, Program.cursor_le_assemble h⟩
  · intro h
    obtain ⟨items, hitems, hadded, hlt⟩ := ofListing_eq_ok h
    have hmemLen : image.memLen = maxMemory := hadded.memLen
    rw [← hmemLen] at hlt
    exact ⟨(hadded.hasWords.inside_and_iff.mpr hlt).1, hmemLen, items, hitems, hadded.hasWords, hlt⟩
  · intro h
    obtain ⟨len, blocks, hlen, hcounted, hbytes, hadded⟩ := decode_eq_ok h
    have hwords := hadded.hasWords
    exact ⟨len, blocks, hlen, hcounted, hbytes, hadded.memLen, hwords, hwords.inside_iff,
      hwords.inside_and_iff⟩

/-- A binary image for a memory of 16 words, with a block of two words that starts at the last
    address there can be. -/
def overrun : List UInt8 :=
  signature ++ littleEndian 4 16 ++ encodeWords 0xFFFF [1, 2]

/-- The image of `overrun`. -/
def overrunImage : Image :=
  { empty 16 with words := ((∅ : Std.ExtTreeMap Word Word).insert 0xFFFF 1).insert 0 2 }

/-- `overrun` is read.  Its first word is outside of its memory, and the second one has wrapped. -/
theorem images_inside_overrun :
    decode overrun = .ok overrunImage ∧ overrunImage.memLen = 16 ∧
      overrunImage.toList = [(0, 2), (0xFFFF, 1)] ∧ ¬ overrunImage.Inside ∧
      ∃ blocks : List Block, overrunImage.HasWords (blocks.flatMap Block.numbered) ∧
        ¬ ∀ e ∈ blocks.flatMap Block.numbered, e.2 < overrunImage.memLen := by
  have hdecode : decode overrun = .ok overrunImage := by decide +kernel
  have houtside : ¬ overrunImage.Inside := fun hinside =>
    absurd (hinside 0xFFFF (by decide +kernel)) (by decide)
  obtain ⟨-, -, hbinary⟩ := images_inside [] [] maxMemory "" overrun overrunImage
  obtain ⟨len, blocks, -, -, -, -, hwords, -, hfits⟩ := hbinary hdecode
  exact ⟨hdecode, rfl, by decide +kernel, houtside, blocks, hwords,
    fun hall => houtside (hfits.mpr hall).1⟩

end Image

end AnnaToolchain
