import AnnaToolchain.Image.Binary
import AnnaToolchain.Proofs.Image.Blocks
import AnnaToolchain.Proofs.Outcome
import Mathlib.Algebra.Group.Nat.Defs

/-! # Reading binary images back

    A binary image is read back to the image it was made of
    (`decode_encode_image`).  Each part is read back in front of whatever follows
    it: numbers, blocks of words, runs, labels.  Only a full memory is a run
    that needs two blocks. -/

namespace AnnaToolchain

/-! ## Bytes of a text -/

namespace ByteArray

theorem toList_loop (bytes : ByteArray) (i : Nat) (acc : List UInt8) :
    ByteArray.toList.loop bytes i acc = acc.reverse ++ bytes.data.toList.drop i := by
  induction i, acc using ByteArray.toList.loop.induct bytes with
  | case1 i acc hlt ih =>
    have hi : i < bytes.data.toList.length := hlt
    have hget : bytes.get! i = bytes.data.toList[i] :=
      getElem!_pos bytes.data i (show i < bytes.data.size from hlt)
    rw [ByteArray.toList.loop, if_pos hlt, ih, List.drop_eq_getElem_cons hi, hget]
    simp
  | case2 i acc hge =>
    have hi : bytes.data.toList.length ≤ i := Nat.le_of_not_lt hge
    rw [ByteArray.toList.loop, if_neg hge, List.drop_of_length_le hi, List.append_nil]

theorem toList_eq (bytes : ByteArray) : bytes.toList = bytes.data.toList := by
  unfold ByteArray.toList
  rw [toList_loop]
  rfl

end ByteArray

/-- A text is read back from its bytes. -/
theorem fromUTF8?_toUTF8 (s : String) : String.fromUTF8? ⟨s.toUTF8.toList.toArray⟩ = some s := by
  have hbytes : (⟨s.toUTF8.toList.toArray⟩ : ByteArray) = s.toByteArray := by
    rw [ByteArray.toList_eq, Array.toArray_toList]
    rfl
  rw [hbytes]
  unfold String.fromUTF8?
  rw [dif_pos s.isValidUTF8]
  rfl

theorem length_toUTF8 (s : String) : s.toUTF8.toList.length = s.utf8ByteSize := by
  rw [ByteArray.toList_eq]
  rfl

namespace Image

/-! ## Numbers -/

@[simp] theorem length_littleEndian (width n : Nat) : (littleEndian width n).length = width := by
  induction width generalizing n with
  | zero => rfl
  | succ width ih => rw [littleEndian, List.length_cons, ih]

theorem ofLittleEndian_littleEndian {width n : Nat} (h : n < 256 ^ width) :
    ofLittleEndian (littleEndian width n) = n := by
  induction width generalizing n with
  | zero =>
    rw [Nat.pow_zero] at h
    exact (Nat.lt_one_iff.mp h).symm
  | succ width ih =>
    have hrest : n / 256 < 256 ^ width := by
      rw [Nat.pow_succ] at h
      exact Nat.div_lt_of_lt_mul (Nat.mul_comm .. ▸ h)
    have hcons : ofLittleEndian (littleEndian (width + 1) n)
        = (UInt8.ofNat n).toNat + 256 * ofLittleEndian (littleEndian width (n / 256)) := rfl
    rw [hcons, ih hrest, UInt8.toNat_ofNat']
    exact Nat.mod_add_div n 256

theorem takeBytes_append (bytes rest : List UInt8) :
    takeBytes bytes.length (bytes ++ rest) = .ok (bytes, rest) := by
  unfold takeBytes
  simp

/-- A number is read back in front of what follows it. -/
theorem takeNumber_littleEndian {width n : Nat} (h : n < 256 ^ width) (rest : List UInt8) :
    takeNumber width (littleEndian width n ++ rest) = .ok (n, rest) := by
  have htake := takeBytes_append (littleEndian width n) rest
  rw [length_littleEndian] at htake
  unfold takeNumber
  rw [htake]
  show Except.ok (ofLittleEndian (littleEndian width n), rest) = _
  rw [ofLittleEndian_littleEndian h]

theorem takeNumber_word (w : Word) (rest : List UInt8) :
    takeNumber 2 (littleEndian 2 w.toNat ++ rest) = .ok (w.toNat, rest) :=
  takeNumber_littleEndian w.isLt rest

/-! ## Words -/

/-- The bytes of words. -/
def wordBytes (words : List Word) : List UInt8 :=
  words.flatMap fun w => littleEndian 2 w.toNat

theorem wordBytes_cons (word : Word) (words : List Word) :
    wordBytes (word :: words)
      = UInt8.ofNat word.toNat :: UInt8.ofNat (word.toNat / 256) :: wordBytes words := rfl

theorem length_wordBytes (words : List Word) : (wordBytes words).length = 2 * words.length := by
  induction words with
  | nil => rfl
  | cons word words ih =>
    rw [wordBytes_cons, List.length_cons, List.length_cons, ih, List.length_cons]
    omega

theorem writeWords_wordBytes (image : Image) (start : Word) (words : List Word) :
    writeWords image start (wordBytes words) = image.writeEntries (entriesFrom start words) := by
  induction words generalizing image start with
  | nil => rfl
  | cons word words ih =>
    have hword : BitVec.ofNat 16
        (ofLittleEndian [UInt8.ofNat word.toNat, UInt8.ofNat (word.toNat / 256)]) = word := by
      have hle : ofLittleEndian (littleEndian 2 word.toNat) = word.toNat :=
        ofLittleEndian_littleEndian word.isLt
      show BitVec.ofNat 16 (ofLittleEndian (littleEndian 2 word.toNat)) = word
      rw [hle, BitVec.ofNat_toNat]
      exact BitVec.setWidth_eq word
    rw [wordBytes_cons, writeWords, hword, entriesFrom_cons, writeEntries_cons]
    cases image.write start word with
    | error e => rfl
    | ok image => exact ih image (start + 1)

/-! ## Blocks -/

theorem readBlocks_nil (image : Image) : readBlocks image [] = .ok image := by
  rw [readBlocks]

theorem readBlocks_cons {image image' : Image} {kind : UInt8} {bytes rest : List UInt8}
    (h : readBlock image kind bytes = .ok (image', rest)) :
    readBlocks image (kind :: bytes) = readBlocks image' rest := by
  rw [readBlocks]
  split
  · next read hread =>
    rw [h] at hread
    cases hread
    rfl
  · next e herror =>
    rw [h] at herror
    cases herror

theorem readBlocks_cons_error {image : Image} {kind : UInt8} {bytes : List UInt8} {e : ImageError}
    (h : readBlock image kind bytes = .error e) :
    readBlocks image (kind :: bytes) = .error e := by
  rw [readBlocks]
  split
  · next read hread =>
    rw [h] at hread
    cases hread
  · next e' herror =>
    rw [h] at herror
    cases herror
    rfl

/-- A block of words is read as the words it was made of. -/
theorem readBlocks_encodeWords {image image' : Image} {start : Word} {words : List Word}
    (hlength : words.length < 65536)
    (h : image.writeEntries (entriesFrom start words) = .ok image') (rest : List UInt8) :
    readBlocks image (encodeWords start words ++ rest) = readBlocks image' rest := by
  have hbytes : encodeWords start words ++ rest
      = 0x00 :: (littleEndian 2 start.toNat
          ++ (littleEndian 2 words.length ++ (wordBytes words ++ rest))) := by
    unfold encodeWords wordBytes
    rw [List.cons_append, List.append_assoc, List.append_assoc]
  have hcount : words.length < 256 ^ 2 := hlength
  have hdata := takeBytes_append (wordBytes words) rest
  rw [length_wordBytes] at hdata
  rw [hbytes]
  apply readBlocks_cons
  show readWords image _ = _
  unfold readWords
  -- the address, the number of words and the words themselves, one after another
  simp only [takeNumber_word, takeNumber_littleEndian hcount, hdata, ok_bind,
    BitVec.ofNat_toNat, BitVec.setWidth_eq, writeWords_wordBytes, h]
  rfl

/-- What a list of parts is written as is read part by part. -/
theorem readBlocks_parts {parts : List (Word × List Word)} {image image' : Image}
    (hlength : ∀ part ∈ parts, part.2.length < 65536)
    (h : image.writeEntries (parts.flatMap runEntries) = .ok image') (rest : List UInt8) :
    readBlocks image (parts.flatMap (fun part => encodeWords part.1 part.2) ++ rest)
      = readBlocks image' rest := by
  induction parts generalizing image with
  | nil =>
    cases h
    rfl
  | cons part parts ih =>
    rw [List.flatMap_cons, writeEntries_append] at h
    obtain ⟨image₁, hfirst, hothers⟩ := bind_eq_ok h
    rw [List.flatMap_cons, List.append_assoc,
      readBlocks_encodeWords (hlength part List.mem_cons_self) hfirst]
    exact ih (fun part hpart => hlength part (List.mem_cons_of_mem _ hpart)) hothers

/-- The blocks a run is cut into, each with the address it starts at. -/
def runParts (run : Word × List Word) : List (Word × List Word) :=
  (chunks lastInBlock run.2).zipIdx.map fun part =>
    (run.1 + BitVec.ofNat 16 (part.2 * (lastInBlock + 1)), part.1)

theorem encodeRun_eq (run : Word × List Word) :
    encodeRun run = (runParts run).flatMap fun part => encodeWords part.1 part.2 := by
  unfold encodeRun runParts
  rw [List.flatMap_map]

theorem flatMap_runParts (run : Word × List Word) :
    (runParts run).flatMap runEntries = runEntries run := by
  have hparts := flatMap_chunks lastInBlock 0 run.1 run.2
  rw [Nat.zero_mul, Word.add_ofNat_zero] at hparts
  unfold runParts
  rw [List.flatMap_map]
  exact hparts

theorem length_of_mem_runParts {run part : Word × List Word} (h : part ∈ runParts run) :
    part.2.length < 65536 := by
  obtain ⟨⟨words, k⟩, hmem, rfl⟩ := List.mem_map.mp h
  have hchunk : words ∈ chunks lastInBlock run.2 :=
    (List.mem_zipIdx hmem).2.2 ▸ List.getElem_mem _
  have hle := (length_of_mem_chunks hchunk).2
  unfold lastInBlock at hle
  show words.length < 65536
  omega

/-- **Words.**  The blocks of all runs are read as the words of the image. -/
theorem readBlocks_encodeRuns (image : Image) (len : Nat) (rest : List UInt8) :
    readBlocks (empty len) (image.blocks.flatMap encodeRun ++ rest)
      = readBlocks { empty len with words := image.words } rest := by
  have hbytes : image.blocks.flatMap encodeRun
      = (image.blocks.flatMap runParts).flatMap fun part => encodeWords part.1 part.2 := by
    rw [List.flatMap_assoc, ← funext encodeRun_eq]
  have hentries : (image.blocks.flatMap runParts).flatMap runEntries = image.toList := by
    rw [List.flatMap_assoc, funext flatMap_runParts, flatMap_blocks]
  rw [hbytes]
  refine readBlocks_parts ?_ ?_ rest
  · intro part hpart
    obtain ⟨run, -, hpart⟩ := List.mem_flatMap.mp hpart
    exact length_of_mem_runParts hpart
  · rw [hentries]
    exact writeEntries_toList image len

/-! ## Labels -/

/-- A label is read back if it was not known yet. -/
theorem readBlocks_encodeLabel {image : Image} {entry : String × Word}
    (hsize : entry.1.utf8ByteSize < 2 ^ 64) (hfresh : image.symbols.contains entry.1 = false)
    (rest : List UInt8) :
    readBlocks image (encodeLabel entry ++ rest)
      = readBlocks { image with symbols := image.symbols.insert entry.1 entry.2 } rest := by
  have hbytes : encodeLabel entry ++ rest
      = 0x01 :: (littleEndian 2 entry.2.toNat
          ++ (littleEndian 8 entry.1.toUTF8.toList.length ++ (entry.1.toUTF8.toList ++ rest))) := by
    unfold encodeLabel
    rw [List.cons_append, List.append_assoc, List.append_assoc]
  have hdefine : image.symbols.define? entry.1 entry.2
      = some (image.symbols.insert entry.1 entry.2) := by
    unfold SymbolTable.define?
    rw [hfresh]
    rfl
  rw [hbytes]
  apply readBlocks_cons
  show readLabel image _ = _
  unfold readLabel
  have hlength : entry.1.toUTF8.toList.length < 256 ^ 8 := by
    rw [length_toUTF8]
    exact hsize
  simp only [takeNumber_word, takeNumber_littleEndian hlength, takeBytes_append, ok_bind,
    fromUTF8?_toUTF8, BitVec.ofNat_toNat, BitVec.setWidth_eq, hdefine]
  rfl

/-- **Labels.**  Labels that differ from each other, and from those known, are read back. -/
theorem readBlocks_encodeLabels {image : Image} {entries : List (String × Word)}
    (hsize : ∀ e ∈ entries, e.1.utf8ByteSize < 2 ^ 64)
    (hdistinct : entries.Pairwise fun e e' => e.1 ≠ e'.1)
    (hfresh : ∀ e ∈ entries, image.symbols.contains e.1 = false) :
    readBlocks image (entries.flatMap encodeLabel)
      = .ok { image with symbols := image.symbols.insertMany entries } := by
  induction entries generalizing image with
  | nil => exact readBlocks_nil image
  | cons entry entries ih =>
    obtain ⟨hne, hdistinct⟩ := List.pairwise_cons.mp hdistinct
    have hrest : ∀ e ∈ entries, (image.symbols.insert entry.1 entry.2).contains e.1 = false := by
      intro e he
      rw [Std.ExtTreeMap.contains_insert, hfresh e (List.mem_cons_of_mem _ he)]
      simp [hne e he]
    rw [List.flatMap_cons, readBlocks_encodeLabel (hsize entry List.mem_cons_self)
      (hfresh entry List.mem_cons_self), ih (fun e he => hsize e (List.mem_cons_of_mem _ he))
      hdistinct hrest, Std.ExtTreeMap.insertMany_cons]

/-! ## Images -/

/-- **Round trip.**  An image is read back from its binary form, whatever words it has, for
    whatever memory it was made, and whatever labels it has.  The one bound is on the length of a
    label, which has to go into eight bytes. -/
theorem decode_encode_image (image : Image)
    (h : ∀ label ∈ image.symbols, label.utf8ByteSize < 2 ^ 64) :
    decode image.encode = .ok image := by
  have hlen : image.memLen < 256 ^ 4 := Nat.lt_of_le_of_lt image.memLen_le (by decide)
  have hbytes : image.encode = signature ++ (littleEndian 4 image.memLen
      ++ (image.blocks.flatMap encodeRun ++ image.symbols.toList.flatMap encodeLabel)) := by
    unfold encode
    rw [List.append_assoc, List.append_assoc]
  have hsize : ∀ e ∈ image.symbols.toList, e.1.utf8ByteSize < 2 ^ 64 := by
    rintro ⟨label, address⟩ he
    refine h label ?_
    rw [Std.ExtTreeMap.mem_iff_isSome_getElem?,
      Std.ExtTreeMap.mem_toList_iff_getElem?_eq_some.mp he]
    rfl
  have hdistinct := pairwise_toList image.symbols
  unfold decode
  rw [hbytes, List.take_left, if_pos rfl, List.drop_left, takeNumber_littleEndian hlen]
  show readBlocks (empty image.memLen) _ = _
  rw [readBlocks_encodeRuns, readBlocks_encodeLabels hsize hdistinct fun e _ => rfl]
  -- nothing but the words and the labels was left to read
  have hsymbols : (∅ : SymbolTable).insertMany image.symbols.toList = image.symbols :=
    insertMany_toList image.symbols
  have hmemLen : clampMemory image.memLen = image.memLen :=
    clampMemory_of_le image.memLen_pos image.memLen_le
  obtain ⟨words, memLen, symbols, hpos, hle⟩ := image
  simp only [empty] at hsymbols hmemLen ⊢
  simp only [hsymbols, hmemLen]

/-- A full memory, each word of which is its own address, with a label that is not ASCII. -/
def fullImage : Image where
  words := (∅ : Std.ExtTreeMap Word Word).insertMany
    ((List.range 65536).map fun n => (BitVec.ofNat 16 n, BitVec.ofNat 16 n))
  memLen := 65536
  symbols := (∅ : SymbolTable).insert "größe" 7
  memLen_pos := by decide
  memLen_le := Nat.le_refl _

theorem get?_fullImage (a : Word) : fullImage.get? a = some a := by
  have hself : BitVec.ofNat 16 a.toNat = a := by rw [BitVec.ofNat_toNat, BitVec.setWidth_eq]
  refine Std.ExtTreeMap.getElem?_insertMany_list_of_mem (k := a) Std.ReflCmp.compare_self ?_ ?_
  · -- below 65536, different numbers are different words
    rw [List.pairwise_map]
    refine List.pairwise_lt_range.imp_of_mem fun {n n'} hn hn' hlt heq => ?_
    have hwords := congrArg BitVec.toNat (Std.LawfulEqCmp.eq_of_compare heq)
    simp only [BitVec.toNat_ofNat] at hwords
    rw [List.mem_range] at hn hn'
    omega
  · exact List.mem_map.mpr ⟨a.toNat, List.mem_range.mpr a.isLt, by rw [hself]⟩

theorem decode_encode_fullImage :
    (∀ a, (fullImage.get? a).isSome) ∧ (∀ label ∈ fullImage.symbols, label.utf8ByteSize < 2 ^ 64)
      ∧ decode fullImage.encode = .ok fullImage := by
  have hlabels : ∀ label ∈ fullImage.symbols, label.utf8ByteSize < 2 ^ 64 := by
    intro label hlabel
    rcases Std.ExtTreeMap.mem_insert.mp hlabel with heq | hempty
    · rw [← Std.LawfulEqCmp.eq_of_compare heq]
      decide
    · exact absurd hempty Std.ExtTreeMap.not_mem_empty
  exact ⟨fun a => by rw [get?_fullImage]; rfl, hlabels, decode_encode_image fullImage hlabels⟩

end Image

end AnnaToolchain
