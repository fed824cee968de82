import AnnaToolchain.Proofs.Image.Binary
import AnnaToolchain.Proofs.Image.Listing

/-! # What stored images say

    A listing and a binary image say which words they hold, and where.  What
    is read successfully has these words and no others: for a listing, at the
    numbers that its origins and words count up to, all of them addresses
    (`ofListing_eq_ok`); for a binary image, at the numbers that its blocks
    count up to, which wrap (`decode_eq_ok`). -/

namespace AnnaToolchain

namespace Image

/-! ## Numbered words -/

/-- The image has these words and no others, each at the address that its number wraps to. -/
def HasWords (image : Image) (entries : List (Word × Nat)) : Prop :=
  ∀ a w, image.get? a = some w ↔ ∃ n, (w, n) ∈ entries ∧ BitVec.ofNat 16 n = a

/-- The second image has the numbered words more than the first. -/
structure Added (image : Image) (entries : List (Word × Nat)) (image' : Image) : Prop where
  memLen : image'.memLen = image.memLen
  get? : ∀ a w, image'.get? a = some w ↔
    image.get? a = some w ∨ ∃ n, (w, n) ∈ entries ∧ BitVec.ofNat 16 n = a

namespace Added

variable {image image₁ image₂ : Image} {entries entries₁ entries₂ : List (Word × Nat)}

theorem of_words_eq (hmemLen : image₁.memLen = image.memLen) (hwords : image₁.words = image.words) :
    Added image [] image₁ := by
  refine ⟨hmemLen, fun a w => ?_⟩
  unfold Image.get?
  rw [hwords]
  simp

theorem refl (image : Image) : Added image [] image :=
  of_words_eq rfl rfl

theorem trans (h₁ : Added image entries₁ image₁) (h₂ : Added image₁ entries₂ image₂) :
    Added image (entries₁ ++ entries₂) image₂ := by
  refine ⟨h₂.memLen.trans h₁.memLen, fun a w => ?_⟩
  rw [h₂.get?, h₁.get?, or_assoc]
  refine or_congr_right ?_
  constructor
  · rintro (⟨n, hn, ha⟩ | ⟨n, hn, ha⟩)
    · exact ⟨n, List.mem_append_left _ hn, ha⟩
    · exact ⟨n, List.mem_append_right _ hn, ha⟩
  · rintro ⟨n, hn, ha⟩
    rcases List.mem_append.mp hn with hn | hn
    · exact .inl ⟨n, hn, ha⟩
    · exact .inr ⟨n, hn, ha⟩

theorem write {w : Word} {n : Nat} (h : image.write (BitVec.ofNat 16 n) w = .ok image₁) :
    Added image [(w, n)] image₁ := by
  unfold Image.write at h
  split at h
  · next hwrite =>
    cases h
    obtain ⟨hfresh, rfl⟩ := write?_eq_some_iff.mp hwrite
    refine ⟨rfl, fun a w' => ?_⟩
    rw [get?_set]
    split
    · next ha =>
      -- nothing was there before
      rw [← ha, hfresh]
      simp [eq_comm]
    · next ha => simp [ha]
  · cases h

/-- Words that are written one after another are numbered one after another. -/
theorem writeEntries {words : List Word} {n : Nat}
    (h : image.writeEntries (entriesFrom (BitVec.ofNat 16 n) words) = .ok image₁) :
    Added image (words.zipIdx n) image₁ := by
  induction words generalizing image n with
  | nil =>
    cases h
    exact refl _
  | cons w words ih =>
    rw [entriesFrom_cons, writeEntries_cons, ← Word.ofNat_add_one] at h
    obtain ⟨image', hfirst, hrest⟩ := bind_eq_ok h
    exact (write hfirst).trans (ih hrest)

theorem hasWords {len : Nat} (h : Added (empty len) entries image) : image.HasWords entries := by
  intro a w
  rw [h.get?, get?_empty]
  simp

end Added

/-! ## Listings -/

/-- What stands in a listing. -/
inductive ListingItem where
  | origin (address : Word)
  | word (word : Word)

/-- What a line of a listing says, if it says anything. -/
def lineItems? (line : List Char) : Option (List ListingItem) :=
  match lineContent line with
  | [] => some []
  | ':' :: origin => (hexWord? (Text.trimChars origin)).map fun address => [.origin address]
  | content => ((Text.fields content).mapM hexWord?).map fun words => words.map .word

/-- What the lines of a listing say. -/
def listingItems? : List (List Char) → Option (List ListingItem)
  | [] => some []
  | line :: lines => do return (← lineItems? line) ++ (← listingItems? lines)

/-- The number behind an item. -/
def ListingItem.next (cursor : Nat) : ListingItem → Nat
  | .origin address => address.toNat
  | .word _ => cursor + 1

/-- The words of a listing, numbered from the last origin on. -/
def numbered (cursor : Nat) : List ListingItem → List (Word × Nat)
  | [] => []
  | .origin address :: items => numbered address.toNat items
  | .word w :: items => (w, cursor) :: numbered (cursor + 1) items

theorem numbered_append (cursor : Nat) (items items' : List ListingItem) :
    numbered cursor (items ++ items')
      = numbered cursor items ++ numbered (items.foldl ListingItem.next cursor) items' := by
  induction items generalizing cursor with
  | nil => rfl
  | cons item items ih =>
    cases item with
    | origin address => exact ih address.toNat
    | word w => exact congrArg (List.cons (w, cursor)) (ih (cursor + 1))

/-- Reading has added the words of the items, all of them at addresses. -/
structure Reads (state : ListingState) (items : List ListingItem) (state' : ListingState) :
    Prop where
  added : state.image.Added (numbered state.cursor items) state'.image
  cursor : state'.cursor = items.foldl ListingItem.next state.cursor
  inside : ∀ e ∈ numbered state.cursor items, e.2 < maxMemory

namespace Reads

variable {state state₁ state₂ : ListingState} {items items' : List ListingItem}

theorem refl (state : ListingState) : Reads state [] state :=
  ⟨.refl state.image, rfl, List.forall_mem_nil _⟩

theorem trans (h₁ : Reads state items state₁) (h₂ : Reads state₁ items' state₂) :
    Reads state (items ++ items') state₂ := by
  have hadded := h₂.added
  have hinside := h₂.inside
  rw [h₁.cursor] at hadded hinside
  refine ⟨?_, ?_, ?_⟩
  · rw [numbered_append]
    exact h₁.added.trans hadded
  · rw [h₂.cursor, h₁.cursor, List.foldl_append]
  · rw [numbered_append]
    exact List.forall_mem_append.mpr ⟨h₁.inside, hinside⟩

end Reads

section

variable {state state' : ListingState} {number : Nat}

theorem readWord_eq_ok {token : List Char} (h : readWord number state token = .ok state') :
    ∃ w, hexWord? token = some w ∧ Reads state [.word w] state' := by
  unfold readWord at h
  split at h
  · cases h
  · next w hw =>
    split at h
    · next hcursor =>
      split at h
      · next hwrite =>
        cases h
        exact ⟨w, hw, .write hwrite, rfl, List.forall_mem_singleton.mpr hcursor⟩
      · cases h
    · cases h

theorem readWords_eq_ok {tokens : List (List Char)}
    (h : tokens.foldlM (readWord number) state = .ok state') :
    ∃ words, tokens.mapM hexWord? = some words ∧
      Reads state (words.map ListingItem.word) state' := by
  induction tokens generalizing state with
  | nil =>
    cases h
    exact ⟨[], rfl, .refl _⟩
  | cons token tokens ih =>
    rw [List.foldlM_cons] at h
    obtain ⟨state₁, hfirst, hrest⟩ := bind_eq_ok h
    obtain ⟨w, hw, hreads⟩ := readWord_eq_ok hfirst
    obtain ⟨words, hwords, hothers⟩ := ih hrest
    refine ⟨w :: words, ?_, hreads.trans hothers⟩
    rw [List.mapM_cons, hw, hwords]
    rfl

theorem readLine_eq_ok {line : List Char × Nat} (h : readLine state line = .ok state') :
    ∃ items, lineItems? line.1 = some items ∧ Reads state items state' := by
  unfold readLine at h
  split at h
  · next hnil =>
    cases h
    have hitems : lineItems? line.1 = some [] := by
      unfold lineItems?
      rw [hnil]
    exact ⟨[], hitems, .refl _⟩
  · next origin hcontent =>
    split at h
    · next address haddress =>
      cases h
      have hitems : lineItems? line.1 = some [.origin address] := by
        unfold lineItems?
        rw [hcontent]
        simp only [haddress, Option.map_some]
      exact ⟨[.origin address], hitems, .refl _, rfl, List.forall_mem_nil _⟩
    · cases h
  · next hnil hcolon =>
    obtain ⟨words, hwords, hreads⟩ := readWords_eq_ok h
    have hitems : lineItems? line.1 = some (words.map .word) := by
      unfold lineItems?
      split
      · next heq => exact absurd heq hnil
      · next origin heq => exact absurd heq (hcolon origin)
      · rw [hwords, Option.map_some]
    exact ⟨words.map .word, hitems, hreads⟩

theorem readLines_eq_ok {lines : List (List Char)} {first : Nat}
    (h : readLines state lines first = .ok state') :
    ∃ items, listingItems? lines = some items ∧ Reads state items state' := by
  induction lines generalizing state first with
  | nil =>
    cases h
    exact ⟨[], rfl, .refl _⟩
  | cons line lines ih =>
    rw [readLines_cons] at h
    obtain ⟨state₁, hfirst, hrest⟩ := bind_eq_ok h
    obtain ⟨items, hitems, hreads⟩ := readLine_eq_ok hfirst
    obtain ⟨items', hitems', hothers⟩ := ih hrest
    refine ⟨items ++ items', ?_, hreads.trans hothers⟩
    rw [listingItems?, hitems, hitems']
    rfl

end

/-- **Listings** that are read hold no number that is not an address. -/
theorem ofListing_eq_ok {text : String} {image : Image} (h : ofListing text = .ok image) :
    ∃ items, listingItems? (Text.lineChars text.toList) = some items ∧
      Added (empty maxMemory) (numbered 0 items) image ∧
      ∀ e ∈ numbered 0 items, e.2 < maxMemory := by
  obtain ⟨state, hstate, h⟩ := bind_eq_ok h
  obtain ⟨items, hitems, hreads⟩ := readLines_eq_ok hstate
  cases h
  exact ⟨items, hitems, hreads.added, hreads.inside⟩

/-! ## Binary images -/

/-- A block of a binary image. -/
inductive Block where
  | words (start : Word) (words : List Word)
  | label (name : String) (address : Word)

namespace Block

/-- A block as it is written. -/
def bytes : Block → List UInt8
  | .words start ws => encodeWords start ws
  | .label name address => encodeLabel (name, address)

/-- The words of a block, numbered from its first address on. -/
def numbered : Block → List (Word × Nat)
  | .words start ws => ws.zipIdx start.toNat
  | .label _ _ => []

/-- What the block holds can be counted in the bytes that there are for it. -/
def Counted : Block → Prop
  | .words _ ws => ws.length < 65536
  | .label name _ => name.utf8ByteSize < 2 ^ 64

end Block

section

variable {bytes rest : List UInt8}

theorem takeBytes_eq_ok {n : Nat} {taken : List UInt8}
    (h : takeBytes n bytes = .ok (taken, rest)) : taken.length = n ∧ bytes = taken ++ rest := by
  simp only [takeBytes] at h
  split at h
  · next hlength =>
    cases h
    exact ⟨hlength, (List.take_append_drop n bytes).symm⟩
  · cases h

theorem littleEndian_ofLittleEndian (bytes : List UInt8) :
    littleEndian bytes.length (ofLittleEndian bytes) = bytes ∧
      ofLittleEndian bytes < 256 ^ bytes.length := by
  induction bytes with
  | nil => exact ⟨rfl, Nat.one_pos⟩
  | cons b bytes ih =>
    obtain ⟨hbytes, hlt⟩ := ih
    have hb := b.toNat_lt
    have hcons : ofLittleEndian (b :: bytes) = b.toNat + 256 * ofLittleEndian bytes := rfl
    rw [hcons, List.length_cons, littleEndian, Nat.pow_succ]
    constructor
    · have hfirst : UInt8.ofNat (b.toNat + 256 * ofLittleEndian bytes) = b := by
        apply UInt8.toNat_inj.mp
        rw [UInt8.toNat_ofNat']
        omega
      have hothers : (b.toNat + 256 * ofLittleEndian bytes) / 256 = ofLittleEndian bytes := by
        omega
      rw [hfirst, hothers, hbytes]
    · omega

/-- A number is read from the bytes it is written as. -/
theorem takeNumber_eq_ok {width n : Nat} (h : takeNumber width bytes = .ok (n, rest)) :
    n < 256 ^ width ∧ bytes = littleEndian width n ++ rest := by
  obtain ⟨⟨taken, rest'⟩, htaken, h⟩ := bind_eq_ok h
  obtain ⟨hlength, hbytes⟩ := takeBytes_eq_ok htaken
  obtain ⟨hagain, hlt⟩ := littleEndian_ofLittleEndian taken
  cases h
  rw [hlength] at hagain hlt
  exact ⟨hlt, by rw [hagain, hbytes]⟩

/-- An even number of bytes are words. -/
theorem exists_wordBytes {count : Nat} (h : bytes.length = 2 * count) :
    ∃ words, words.length = count ∧ bytes = wordBytes words := by
  induction count generalizing bytes with
  | zero => exact ⟨[], rfl, List.length_eq_zero_iff.mp h⟩
  | succ count ih =>
    match bytes, h with
    | [], h => cases h
    | [_], h =>
      simp only [List.length_singleton] at h
      omega
    | low :: high :: bytes, h =>
      have hlength : bytes.length = 2 * count := by
        simp only [List.length_cons] at h
        omega
      obtain ⟨words, hwords, rfl⟩ := ih hlength
      obtain ⟨hbytes, hlt⟩ := littleEndian_ofLittleEndian [low, high]
      rw [show [low, high].length = 2 from rfl] at hbytes hlt
      refine ⟨BitVec.ofNat 16 (ofLittleEndian [low, high]) :: words, ?_, ?_⟩
      · rw [List.length_cons, hwords]
      · have hword : (BitVec.ofNat 16 (ofLittleEndian [low, high])).toNat
            = ofLittleEndian [low, high] := by
          rw [BitVec.toNat_ofNat]
          exact Nat.mod_eq_of_lt hlt
        show _ = littleEndian 2 _ ++ wordBytes words
        rw [hword]
        exact congrArg (· ++ wordBytes words) hbytes.symm

variable {image image' : Image}

theorem readWords_eq_block (h : readWords image bytes = .ok (image', rest)) :
    ∃ block : Block, block.Counted ∧ 0x00 :: bytes = block.bytes ++ rest ∧
      image.Added block.numbered image' := by
  obtain ⟨⟨start, bytes₁⟩, hstart, h⟩ := bind_eq_ok h
  obtain ⟨⟨count, bytes₂⟩, hcount, h⟩ := bind_eq_ok h
  obtain ⟨⟨data, bytes₃⟩, hdata, h⟩ := bind_eq_ok h
  obtain ⟨image₁, hwritten, h⟩ := bind_eq_ok h
  cases h
  obtain ⟨hlt, rfl⟩ := takeNumber_eq_ok hstart
  obtain ⟨hcounted, rfl⟩ := takeNumber_eq_ok hcount
  obtain ⟨hlength, rfl⟩ := takeBytes_eq_ok hdata
  obtain ⟨words, hwords, rfl⟩ := exists_wordBytes hlength
  have hvalue : (BitVec.ofNat 16 start).toNat = start := Nat.mod_eq_of_lt hlt
  simp only [writeWords_wordBytes] at hwritten
  refine ⟨.words (BitVec.ofNat 16 start) words, ?_, ?_, ?_⟩
  · rw [← hwords] at hcounted
    exact hcounted
  · show _ = encodeWords _ _ ++ _
    unfold encodeWords
    rw [hvalue, hwords, List.cons_append, List.append_assoc, List.append_assoc]
    rfl
  · show image.Added (words.zipIdx (BitVec.ofNat 16 start).toNat) _
    rw [hvalue]
    exact .writeEntries hwritten

/-- The bytes of a name that is read. -/
theorem toUTF8_of_fromUTF8? {name : List UInt8} {label : String}
    (h : String.fromUTF8? ⟨name.toArray⟩ = some label) : label.toUTF8.toList = name := by
  unfold String.fromUTF8? at h
  split at h
  · cases h
    rw [ByteArray.toList_eq]
    rfl
  · cases h

theorem readLabel_eq_block (h : readLabel image bytes = .ok (image', rest)) :
    ∃ block : Block, block.Counted ∧ 0x01 :: bytes = block.bytes ++ rest ∧
      image.Added block.numbered image' := by
  obtain ⟨⟨address, bytes₁⟩, haddress, h₁⟩ := bind_eq_ok h
  obtain ⟨⟨length, bytes₂⟩, hlength, h₂⟩ := bind_eq_ok h₁
  obtain ⟨⟨name, bytes₃⟩, hname, h₃⟩ := bind_eq_ok h₂
  obtain ⟨hlt, rfl⟩ := takeNumber_eq_ok haddress
  obtain ⟨hcounted, rfl⟩ := takeNumber_eq_ok hlength
  obtain ⟨hsize, rfl⟩ := takeBytes_eq_ok hname
  have hvalue : (BitVec.ofNat 16 address).toNat = address := Nat.mod_eq_of_lt hlt
  simp only at h₃
  split at h₃
  · cases h₃
  · next label hlabel =>
    have hbytes := toUTF8_of_fromUTF8? hlabel
    split at h₃
    · cases h₃
    · cases h₃
      refine ⟨.label label (BitVec.ofNat 16 address), ?_, ?_, .of_words_eq rfl rfl⟩
      · show label.utf8ByteSize < 2 ^ 64
        rw [← length_toUTF8, hbytes, hsize]
        exact hcounted
      · show _ = encodeLabel _ ++ _
        unfold encodeLabel
        simp only [hvalue, hbytes, hsize]
        rw [List.cons_append, List.append_assoc, List.append_assoc]

theorem readBlock_eq_ok {kind : UInt8} (h : readBlock image kind bytes = .ok (image', rest)) :
    ∃ block : Block, block.Counted ∧ kind :: bytes = block.bytes ++ rest ∧
      image.Added block.numbered image' := by
  unfold readBlock at h
  split at h
  · next hkind =>
    rw [hkind]
    exact readWords_eq_block h
  · split at h
    · next hkind =>
      rw [hkind]
      exact readLabel_eq_block h
    · cases h

theorem readBlocks_eq_ok (h : readBlocks image bytes = .ok image') :
    ∃ blocks : List Block, (∀ block ∈ blocks, block.Counted) ∧
      bytes = blocks.flatMap Block.bytes ∧ image.Added (blocks.flatMap Block.numbered) image' := by
  induction image, bytes using readBlocks.induct with
  | case1 image =>
    rw [readBlocks_nil] at h
    cases h
    exact ⟨[], List.forall_mem_nil _, rfl, .refl _⟩
  | case2 image kind bytes read hread ih =>
    obtain ⟨image₁, bytes₁⟩ := read
    rw [readBlocks_cons hread] at h
    obtain ⟨block, hcounted, hbytes, hadded⟩ := readBlock_eq_ok hread
    obtain ⟨blocks, hothers, rfl, hrest⟩ := ih h
    exact ⟨block :: blocks, List.forall_mem_cons.mpr ⟨hcounted, hothers⟩, hbytes,
      hadded.trans hrest⟩
  | case3 image kind bytes e herror =>
    rw [readBlocks_cons_error herror] at h
    cases h

/-- **Binary images** that are read are written as their blocks are. -/
theorem decode_eq_ok (h : decode bytes = .ok image) :
    ∃ (len : Nat) (blocks : List Block), len < 2 ^ 32 ∧ (∀ block ∈ blocks, block.Counted) ∧
      bytes = signature ++ littleEndian 4 len ++ blocks.flatMap Block.bytes ∧
      Added (empty len) (blocks.flatMap Block.numbered) image := by
  unfold decode at h
  split at h
  · next hsignature =>
    obtain ⟨⟨len, bytes₁⟩, hlen, hblocks⟩ := bind_eq_ok h
    obtain ⟨hlt, hdrop⟩ := takeNumber_eq_ok hlen
    obtain ⟨blocks, hcounted, rfl, hadded⟩ := readBlocks_eq_ok hblocks
    refine ⟨len, blocks, hlt, hcounted, ?_, hadded⟩
    rw [List.append_assoc, ← hdrop]
    calc bytes = bytes.take signature.length ++ bytes.drop signature.length :=
          (List.take_append_drop _ bytes).symm
      _ = signature ++ bytes.drop signature.length := by rw [hsignature]
  · cases h

end

end Image

end AnnaToolchain
