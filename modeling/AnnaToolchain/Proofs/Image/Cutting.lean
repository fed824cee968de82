import AnnaToolchain.Proofs.Image.Reading

/-! # Binary images that are cut off

    A binary image is a header and blocks (`encode_eq_stored`).  Of an image
    whose last bytes are missing, the blocks that are whole are read as what
    they hold, and a block that is cut is noticed wherever the cut is: each
    of its parts is counted before it comes (`decode_cut`). -/

namespace AnnaToolchain

/-! ## Cut lists -/

/-- A list that has lost its end. -/
structure IsCut {α : Type} (part whole : List α) : Prop where
  begins : part <+: whole
  ne : part ≠ whole

namespace IsCut

variable {α β : Type} {part whole rest : List α}

theorem length_lt (h : IsCut part whole) : part.length < whole.length := by
  refine Nat.lt_of_le_of_ne h.begins.length_le fun hlength => ?_
  exact h.ne (h.begins.eq_of_length hlength)

/-- Of two lists one after the other, either the first is cut or the second. -/
theorem append_cases (h : IsCut part (whole ++ rest)) :
    IsCut part whole ∨ ∃ part', part = whole ++ part' ∧ IsCut part' rest := by
  have hwhole := List.prefix_append whole rest
  by_cases hlt : part.length < whole.length
  · have hbegins := List.prefix_of_prefix_length_le h.begins hwhole hlt.le
    exact .inl ⟨hbegins, fun heq => absurd hlt (heq ▸ Nat.lt_irrefl _)⟩
  · obtain ⟨part', rfl⟩ :=
      List.prefix_of_prefix_length_le hwhole h.begins (Nat.le_of_not_lt hlt)
    refine .inr ⟨part', rfl, (List.prefix_append_right_inj whole).mp h.begins, ?_⟩
    rintro rfl
    exact h.ne rfl

/-- A cut list that has something left has its first element. -/
theorem cons_cases {a : α} (h : IsCut part (a :: whole)) (hne : part ≠ []) :
    ∃ part', part = a :: part' ∧ IsCut part' whole := by
  have hcut : IsCut part ([a] ++ whole) := h
  rcases hcut.append_cases with hfirst | hrest
  · -- one element that is cut is none
    have hlength := hfirst.length_lt
    rw [List.length_singleton, Nat.lt_one_iff, List.length_eq_zero_iff] at hlength
    exact absurd hlength hne
  · exact hrest

/-- Of many lists one after the other, those before the one that is cut are whole. -/
theorem flatMap_cases {f : β → List α} {bs : List β} (h : IsCut part (bs.flatMap f)) :
    ∃ whole b rest part', bs = whole ++ b :: rest ∧ part = whole.flatMap f ++ part' ∧
      IsCut part' (f b) := by
  -- either the first list is cut, or it is whole and the cut is further on
  induction bs generalizing part with
  | nil => exact absurd h.length_lt (Nat.not_lt_zero _)
  | cons b bs ih =>
    rw [List.flatMap_cons] at h
    rcases h.append_cases with hfirst | ⟨part', rfl, hrest⟩
    · exact ⟨[], b, bs, part, rfl, rfl, hfirst⟩
    · obtain ⟨whole, b', rest, part'', rfl, rfl, hcut⟩ := ih hrest
      refine ⟨b :: whole, b', rest, part'', rfl, ?_, hcut⟩
      rw [List.flatMap_cons, List.append_assoc]

end IsCut

namespace Image

/-! ## The blocks of an image -/

/-- What stands before the blocks of an image. -/
def header (image : Image) : List UInt8 :=
  signature ++ littleEndian 4 image.memLen

/-- The blocks of an image, in their order. -/
def stored (image : Image) : List Block :=
  (image.blocks.flatMap runParts).map (fun part => .words part.1 part.2)
    ++ image.symbols.toList.map fun entry => .label entry.1 entry.2

theorem encode_eq_stored (image : Image) :
    image.encode = image.header ++ image.stored.flatMap Block.bytes := by
  unfold encode header stored
  rw [List.flatMap_append, List.flatMap_map, List.flatMap_map, List.flatMap_assoc,
    funext encodeRun_eq, List.append_assoc]
  rfl

namespace Block

/-- The words of a block, with their addresses. -/
def entries : Block → List (Word × Word)
  | .words start ws => entriesFrom start ws
  | .label _ _ => []

/-- The label of a block, with its address. -/
def labels : Block → List (String × Word)
  | .words _ _ => []
  | .label name address => [(name, address)]

end Block

theorem entries_stored (image : Image) :
    image.stored.flatMap Block.entries = image.toList := by
  unfold stored
  rw [List.flatMap_append, List.flatMap_map, List.flatMap_map]
  show (image.blocks.flatMap runParts).flatMap runEntries
      ++ image.symbols.toList.flatMap (fun _ => []) = _
  rw [List.flatMap_assoc, funext flatMap_runParts, flatMap_blocks, List.flatMap_eq_nil_iff.mpr
    fun _ _ => rfl, List.append_nil]

theorem labels_stored (image : Image) :
    image.stored.flatMap Block.labels = image.symbols.toList := by
  unfold stored
  rw [List.flatMap_append, List.flatMap_map, List.flatMap_map]
  show (image.blocks.flatMap runParts).flatMap (fun _ => [])
      ++ image.symbols.toList.flatMap (fun entry => [entry]) = _
  rw [List.flatMap_eq_nil_iff.mpr fun _ _ => rfl, List.nil_append, List.flatMap_singleton']

theorem counted_stored {image : Image} (h : ∀ label ∈ image.symbols, label.utf8ByteSize < 2 ^ 64) :
    ∀ block ∈ image.stored, block.Counted := by
  intro block hblock
  rcases List.mem_append.mp hblock with hwords | hlabel
  · obtain ⟨part, hpart, rfl⟩ := List.mem_map.mp hwords
    obtain ⟨run, -, hpart⟩ := List.mem_flatMap.mp hpart
    exact length_of_mem_runParts hpart
  · obtain ⟨⟨name, address⟩, hentry, rfl⟩ := List.mem_map.mp hlabel
    refine h name ?_
    rw [Std.ExtTreeMap.mem_iff_isSome_getElem?,
      Std.ExtTreeMap.mem_toList_iff_getElem?_eq_some.mp hentry]
    rfl

/-! ## Whole blocks -/

/-- An image with what the blocks hold. -/
def addBlocks (image : Image) (blocks : List Block) : Image :=
  { image with
    words := image.words.insertMany (blocks.flatMap Block.entries)
    symbols := image.symbols.insertMany (blocks.flatMap Block.labels) }

/-- No address and no label of the blocks occurs twice, or is one that the image has. -/
structure Fresh (image : Image) (blocks : List Block) : Prop where
  distinct : (blocks.flatMap Block.entries).Pairwise fun e e' => e.1 ≠ e'.1
  unwritten : ∀ e ∈ blocks.flatMap Block.entries, image.get? e.1 = none
  distinctLabels : (blocks.flatMap Block.labels).Pairwise fun e e' => e.1 ≠ e'.1
  undefined : ∀ e ∈ blocks.flatMap Block.labels, image.symbols.contains e.1 = false

theorem addBlocks_nil (image : Image) : image.addBlocks [] = image := by
  unfold addBlocks
  rw [List.flatMap_nil, List.flatMap_nil, Std.ExtTreeMap.insertMany_nil,
    Std.ExtTreeMap.insertMany_nil]

theorem addBlocks_cons (image : Image) (block : Block) (blocks : List Block) :
    image.addBlocks (block :: blocks) = (image.addBlocks [block]).addBlocks blocks := by
  unfold addBlocks
  rw [List.flatMap_cons, List.flatMap_cons, insertMany_append, insertMany_append,
    List.flatMap_singleton, List.flatMap_singleton]

/-- Keys that are none of some others. -/
theorem not_mem_keys {α β : Type} {es es' : List (α × β)} {e : α × β}
    (h : ∀ e' ∈ es', ∀ e ∈ es, e'.1 ≠ e.1) (he : e ∈ es) : e.1 ∉ es'.map Prod.fst := by
  intro hmem
  obtain ⟨e', he', heq⟩ := List.mem_map.mp hmem
  exact h e' he' e he heq

namespace Fresh

variable {image : Image} {block : Block} {blocks blocks' : List Block}

theorem left (h : Fresh image (blocks ++ blocks')) : Fresh image blocks := by
  obtain ⟨hdistinct, hunwritten, hlabels, hundefined⟩ := h
  rw [List.flatMap_append] at hdistinct hunwritten hlabels hundefined
  exact ⟨(List.pairwise_append.mp hdistinct).1,
    fun e he => hunwritten e (List.mem_append_left _ he),
    (List.pairwise_append.mp hlabels).1,
    fun e he => hundefined e (List.mem_append_left _ he)⟩

/-- What the first block adds is none of what the others hold. -/
theorem tail (h : Fresh image (block :: blocks)) : Fresh (image.addBlocks [block]) blocks := by
  obtain ⟨hdistinct, hunwritten, hlabels, hundefined⟩ := h
  rw [List.flatMap_cons] at hdistinct hunwritten hlabels hundefined
  obtain ⟨-, hdistinct, hapart⟩ := List.pairwise_append.mp hdistinct
  obtain ⟨-, hlabels, hlabelsApart⟩ := List.pairwise_append.mp hlabels
  refine ⟨hdistinct, fun e he => ?_, hlabels, fun e he => ?_⟩
  · have hnot : e.1 ∉ block.entries.map Prod.fst := not_mem_keys hapart he
    show (image.words.insertMany ([block].flatMap Block.entries))[e.1]? = none
    rw [List.flatMap_singleton, Std.ExtTreeMap.getElem?_insertMany_list_of_contains_eq_false]
    · exact hunwritten e (List.mem_append_right _ he)
    · rwa [List.contains_eq_mem, decide_eq_false_iff_not]
  · have hnot : e.1 ∉ block.labels.map Prod.fst := not_mem_keys hlabelsApart he
    show (image.symbols.insertMany ([block].flatMap Block.labels)).contains e.1 = false
    rw [List.flatMap_singleton, Std.ExtTreeMap.contains_insertMany_list,
      hundefined e (List.mem_append_right _ he), Bool.false_or, List.contains_eq_mem,
      decide_eq_false_iff_not]
    exact hnot

/-- An empty image has none of what an image holds. -/
theorem stored (image : Image) (len : Nat) : Fresh (empty len) image.stored := by
  refine ⟨?_, fun e _ => get?_empty len e.1, ?_, fun e _ => rfl⟩
  · rw [entries_stored]
    exact pairwise_toList image.words
  · rw [labels_stored]
    exact pairwise_toList image.symbols

end Fresh

theorem readBlocks_block {image : Image} {block : Block} (hcounted : block.Counted)
    (hfresh : Fresh image [block]) (rest : List UInt8) :
    readBlocks image (block.bytes ++ rest) = readBlocks (image.addBlocks [block]) rest := by
  obtain ⟨hdistinct, hunwritten, -, hundefined⟩ := hfresh
  rw [List.flatMap_singleton] at hdistinct hunwritten hundefined
  cases block with
  | words start ws =>
    have hwritten := writeEntries_of_fresh hdistinct hunwritten
    rw [show (Block.words start ws).bytes = encodeWords start ws from rfl,
      readBlocks_encodeWords hcounted hwritten]
    unfold addBlocks
    rw [List.flatMap_singleton, List.flatMap_singleton]
    rfl
  | label name address =>
    have hnew := hundefined (name, address) List.mem_cons_self
    have hsize : (name, address).1.utf8ByteSize < 2 ^ 64 := hcounted
    rw [show (Block.label name address).bytes = encodeLabel (name, address) from rfl,
      readBlocks_encodeLabel hsize hnew]
    rfl

/-- **Whole blocks** are read as what they hold, in front of whatever comes after them. -/
theorem readBlocks_bytes {image : Image} {blocks : List Block}
    (hcounted : ∀ block ∈ blocks, block.Counted) (hfresh : Fresh image blocks)
    (rest : List UInt8) :
    readBlocks image (blocks.flatMap Block.bytes ++ rest)
      = readBlocks (image.addBlocks blocks) rest := by
  -- what is still to come stays apart from what the image has got so far
  induction blocks generalizing image with
  | nil => rw [addBlocks_nil, List.flatMap_nil, List.nil_append]
  | cons block blocks ih =>
    obtain ⟨hfirst, hothers⟩ := List.forall_mem_cons.mp hcounted
    have hsplit : Fresh image ([block] ++ blocks) := hfresh
    rw [List.flatMap_cons, List.append_assoc, readBlocks_block hfirst hsplit.left,
      ih hothers hfresh.tail, ← addBlocks_cons]

/-- An image with the words and the labels of these blocks and no others. -/
structure MadeOf (image : Image) (memLen : Nat) (blocks : List Block) : Prop where
  memLen : image.memLen = memLen
  get? : ∀ a w, image.get? a = some w ↔ (a, w) ∈ blocks.flatMap Block.entries
  addressOf? : ∀ name a,
    image.symbols.addressOf? name = some a ↔ (name, a) ∈ blocks.flatMap Block.labels

theorem madeOf_addBlocks {len : Nat} {blocks : List Block} (h : Fresh (empty len) blocks) :
    ((empty len).addBlocks blocks).MadeOf (clampMemory len) blocks :=
  ⟨rfl, fun _ _ => getElem?_insertMany_eq_some_iff h.distinct,
    fun _ _ => getElem?_insertMany_eq_some_iff h.distinctLabels⟩

/-! ## Cut blocks -/

section

variable {bytes rest : List UInt8}

theorem takeBytes_of_lt {n : Nat} (h : bytes.length < n) :
    takeBytes n bytes = .error .truncated := by
  unfold takeBytes
  rw [List.take_of_length_le h.le]
  exact if_neg h.ne

theorem takeNumber_of_lt {width : Nat} (h : bytes.length < width) :
    takeNumber width bytes = .error .truncated := by
  unfold takeNumber
  rw [takeBytes_of_lt h]
  rfl

/-- Either a number is cut, or it is read and what comes after it is cut. -/
theorem takeNumber_cut {width n : Nat} (hlt : n < 256 ^ width)
    (h : IsCut bytes (littleEndian width n ++ rest)) :
    takeNumber width bytes = .error .truncated ∨
      ∃ bytes', takeNumber width bytes = .ok (n, bytes') ∧ IsCut bytes' rest := by
  rcases h.append_cases with hnumber | ⟨bytes', rfl, hrest⟩
  · have hlength := hnumber.length_lt
    rw [length_littleEndian] at hlength
    exact .inl (takeNumber_of_lt hlength)
  · exact .inr ⟨bytes', takeNumber_littleEndian hlt bytes', hrest⟩

variable {image : Image}

theorem readWords_cut {start : Word} {ws : List Word} (hlength : ws.length < 65536)
    (h : IsCut bytes (littleEndian 2 start.toNat ++ (littleEndian 2 ws.length ++ wordBytes ws))) :
    readWords image bytes = .error .truncated := by
  have hcounted : ws.length < 256 ^ 2 := hlength
  unfold readWords
  rcases takeNumber_cut start.isLt h with hstart | ⟨bytes₁, hstart, h₁⟩
  · rw [hstart]
    rfl
  rw [hstart, ok_bind]
  rcases takeNumber_cut hcounted h₁ with hcount | ⟨bytes₂, hcount, h₂⟩
  · simp only [hcount]
    rfl
  · have hlt := h₂.length_lt
    rw [length_wordBytes] at hlt
    simp only [hcount, ok_bind, takeBytes_of_lt hlt]
    rfl

theorem readLabel_cut {name : String} {address : Word} (hsize : name.utf8ByteSize < 2 ^ 64)
    (h : IsCut bytes (littleEndian 2 address.toNat
      ++ (littleEndian 8 name.toUTF8.toList.length ++ name.toUTF8.toList))) :
    readLabel image bytes = .error .truncated := by
  have hlength : name.toUTF8.toList.length < 256 ^ 8 := by
    rw [length_toUTF8]
    exact hsize
  unfold readLabel
  rcases takeNumber_cut address.isLt h with haddress | ⟨bytes₁, haddress, h₁⟩
  · rw [haddress]
    rfl
  rw [haddress, ok_bind]
  rcases takeNumber_cut hlength h₁ with hcount | ⟨bytes₂, hcount, h₂⟩
  · simp only [hcount]
    rfl
  · -- the name is cut: its bytes are too few, whatever text they are
    simp only [hcount, ok_bind, takeBytes_of_lt h₂.length_lt]
    rfl

/-- **Cut blocks** are noticed, unless nothing is left of them. -/
theorem readBlocks_cut {block : Block} {part : List UInt8} (hcounted : block.Counted)
    (h : IsCut part block.bytes) (hne : part ≠ []) :
    readBlocks image part = .error .truncated := by
  cases block with
  | words start ws =>
    obtain ⟨part', rfl, hcut⟩ := h.cons_cases hne
    rw [List.append_assoc] at hcut
    exact readBlocks_cons_error (readWords_cut hcounted hcut)
  | label name address =>
    obtain ⟨part', rfl, hcut⟩ := h.cons_cases hne
    rw [List.append_assoc] at hcut
    exact readBlocks_cons_error (readLabel_cut hcounted hcut)

/-! ## Cut images -/

theorem decode_of_length_lt (h : bytes.length < 8) : decode bytes = .error .badHeader := by
  unfold decode
  refine if_neg fun hsignature => ?_
  have hlength := congrArg List.length hsignature
  rw [List.length_take, show signature.length = 8 from rfl] at hlength
  omega

theorem decode_signature (bytes : List UInt8) :
    decode (signature ++ bytes)
      = takeNumber 4 bytes >>= fun read => readBlocks (empty read.1) read.2 := by
  unfold decode
  rw [List.take_left, if_pos rfl, List.drop_left]

theorem decode_header (image : Image) (bytes : List UInt8) :
    decode (image.header ++ bytes) = readBlocks (empty image.memLen) bytes := by
  have hlen : image.memLen < 256 ^ 4 := Nat.lt_of_le_of_lt image.memLen_le (by decide)
  unfold header
  rw [List.append_assoc, decode_signature, takeNumber_littleEndian hlen, ok_bind]

/-- The signature is there, and not all of the memory length. -/
theorem decode_of_cut_length {len : Nat} (h : IsCut bytes (signature ++ littleEndian 4 len))
    (hlong : 8 ≤ bytes.length) : decode bytes = .error .truncated := by
  rcases h.append_cases with hsignature | ⟨bytes', rfl, hlen⟩
  · exact absurd hsignature.length_lt (Nat.not_lt.mpr hlong)
  · have hlt := hlen.length_lt
    rw [length_littleEndian] at hlt
    rw [decode_signature, takeNumber_of_lt hlt]
    rfl

end

/-- **Cut images.**  Of the bytes of an image, some are missing at the end.  If they end within
    the signature, this is no image.  If they end within the memory length, or within a block,
    they are cut off, and are reported so.  If they end after a whole block or the header, the
    image has what the blocks hold that are there. -/
theorem decode_cut (image : Image) (h : ∀ label ∈ image.symbols, label.utf8ByteSize < 2 ^ 64)
    {bytes : List UInt8} (hcut : IsCut bytes image.encode) :
    image.encode = image.header ++ image.stored.flatMap Block.bytes ∧ image.header.length = 12 ∧
      (bytes.length < 8 → decode bytes = .error .badHeader) ∧
      (8 ≤ bytes.length → bytes.length < 12 → decode bytes = .error .truncated) ∧
      (12 ≤ bytes.length → ∃ whole block rest part, image.stored = whole ++ block :: rest ∧
        bytes = image.header ++ whole.flatMap Block.bytes ++ part ∧ IsCut part block.bytes ∧
        (part ≠ [] → decode bytes = .error .truncated) ∧
        (part = [] → ∃ read, decode bytes = .ok read ∧ read.MadeOf image.memLen whole)) := by
  have hencode := encode_eq_stored image
  have hheader : image.header.length = 12 := by
    unfold header
    rw [List.length_append, length_littleEndian]
    rfl
  rw [hencode] at hcut
  refine ⟨hencode, hheader, decode_of_length_lt, fun hlong hshort => ?_, fun hlong => ?_⟩
  · rcases hcut.append_cases with hfirst | ⟨bytes', rfl, -⟩
    · exact decode_of_cut_length hfirst hlong
    · rw [List.length_append] at hshort
      omega
  · obtain ⟨bytes', rfl, hblocks⟩ : ∃ bytes', bytes = image.header ++ bytes' ∧
        IsCut bytes' (image.stored.flatMap Block.bytes) := by
      rcases hcut.append_cases with hfirst | hrest
      · exact absurd hfirst.length_lt (Nat.not_lt.mpr (hheader ▸ hlong))
      · exact hrest
    obtain ⟨whole, block, rest, part, hstored, rfl, hpart⟩ := hblocks.flatMap_cases
    have hcounted := counted_stored h
    -- no address and no label comes twice in an image, so nothing is refused before the cut
    have hfresh : Fresh (empty image.memLen) whole := by
      have hall := Fresh.stored image image.memLen
      rw [hstored] at hall
      exact hall.left
    have hread : decode (image.header ++ (whole.flatMap Block.bytes ++ part))
        = readBlocks ((empty image.memLen).addBlocks whole) part := by
      rw [decode_header, readBlocks_bytes _ hfresh]
      intro block hblock
      exact hcounted block (hstored ▸ List.mem_append_left _ hblock)
    have hblock : block.Counted :=
      hcounted block (hstored ▸ List.mem_append_right _ List.mem_cons_self)
    refine ⟨whole, block, rest, part, hstored, (List.append_assoc ..).symm, hpart, ?_, ?_⟩
    · intro hne
      rw [hread]
      exact readBlocks_cut hblock hpart hne
    · rintro rfl
      refine ⟨_, hread.trans (readBlocks_nil _), ?_⟩
      have hmade := madeOf_addBlocks hfresh
      rwa [clampMemory_of_le image.memLen_pos image.memLen_le] at hmade

/-- An image with a word, and with a label that is not ASCII. -/
def smallImage : Image where
  words := (∅ : Std.ExtTreeMap Word Word).insert 3 0x1234
  memLen := 256
  symbols := (∅ : SymbolTable).insert "größe" 7
  memLen_pos := by decide
  memLen_le := by decide

/-- Four bytes are missing, and what is there of the label ends within a character. -/
theorem decode_cut_smallImage :
    (∀ label ∈ smallImage.symbols, label.utf8ByteSize < 2 ^ 64) ∧
      IsCut (smallImage.encode.take 33) smallImage.encode ∧
      decode (smallImage.encode.take 33) = .error .truncated := by
  have hlabels : ∀ label ∈ smallImage.symbols, label.utf8ByteSize < 2 ^ 64 := by
    intro label hlabel
    rcases Std.ExtTreeMap.mem_insert.mp hlabel with heq | hempty
    · rw [← Std.LawfulEqCmp.eq_of_compare heq]
      decide
    · exact absurd hempty Std.ExtTreeMap.not_mem_empty
  have hlength : (smallImage.encode.take 33).length = 33 := by decide +kernel
  have hcut : IsCut (smallImage.encode.take 33) smallImage.encode := by
    refine ⟨List.take_prefix .., fun heq => ?_⟩
    rw [heq] at hlength
    exact absurd hlength (by decide +kernel)
  obtain ⟨-, -, -, -, hblocks⟩ := decode_cut smallImage hlabels hcut
  obtain ⟨whole, block, rest, part, hstored, hbytes, -, htruncated, -⟩ :=
    hblocks (by rw [hlength]; decide)
  refine ⟨hlabels, hcut, htruncated ?_⟩
  rintro rfl
  -- no whole blocks have as many bytes
  have hwhole : whole = smallImage.stored.take whole.length := by
    rw [hstored, List.take_left]
  have hfew : whole.length < 2 := by
    have htwo : smallImage.stored.length = 2 := by decide +kernel
    rw [hstored, List.length_append, List.length_cons] at htwo
    omega
  have hnone : ∀ n < 2, (smallImage.header
      ++ (smallImage.stored.take n).flatMap Block.bytes).length ≠ 33 := by decide +kernel
  rw [hbytes, List.append_nil, hwhole] at hlength
  exact hnone _ hfew hlength

end Image

end AnnaToolchain
