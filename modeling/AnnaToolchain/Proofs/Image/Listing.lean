import AnnaToolchain.Image.Listing
import AnnaToolchain.Machine.State
import AnnaToolchain.Proofs.Image.Blocks
import AnnaToolchain.Proofs.Outcome
import AnnaToolchain.Proofs.Text.ReadBack
import Mathlib.Data.List.TakeWhile

/-! # Reading listings back

    A listing is read back to an image with the same words
    (`listing_keeps_words`).  It has no labels, and is for the largest
    memory; loaded into a machine, it leaves the same memory.

    Reading goes line by line.  An origin moves the cursor to where a run
    starts, and a line of words writes the next words of that run. -/

namespace AnnaToolchain.Image

/-! ## Words -/

/-- The characters of a word. -/
def digits (w : Word) : List Char :=
  Text.fixedHex 4 w.toNat

theorem toList_hex (w : Word) : w.hex.toList = digits w :=
  String.toList_ofList

theorem digits_ne_nil (w : Word) : digits w ≠ [] := by
  intro h
  have hlength : (digits w).length = 4 := Text.length_fixedHex 4 w.toNat
  rw [h] at hlength
  cases hlength

/-- A word is read back. -/
theorem hexWord?_digits (w : Word) : hexWord? (digits w) = some w := by
  have hlt : w.toNat < 16 ^ 4 := by have := w.isLt; omega
  unfold hexWord? digits
  rw [Text.length_fixedHex, if_pos (by decide), Text.valueOf?_fixedHex,
    Nat.mod_eq_of_lt hlt, Option.map_some, BitVec.ofNat_toNat, BitVec.setWidth_eq]

/-- Nothing in a word means anything else in a listing. -/
theorem plain_of_mem_digits {w : Word} {c : Char} (h : c ∈ digits w) :
    Text.isBlank c = false ∧ c ≠ '#' ∧ c ≠ ':' ∧ c ≠ '\n' ∧ c ≠ '\r' :=
  Text.forall_mem_fixedHex
    (P := fun c => Text.isBlank c = false ∧ c ≠ '#' ∧ c ≠ ':' ∧ c ≠ '\n' ∧ c ≠ '\r')
    (by decide) 4 w.toNat c h

/-- A word is read, and written at the cursor. -/
theorem readWord_digits {image image' : Image} {cursor : Nat} {w : Word}
    (hcursor : cursor < maxMemory) (h : image.write (BitVec.ofNat 16 cursor) w = .ok image')
    (line : Nat) : readWord line ⟨image, cursor⟩ (digits w) = .ok ⟨image', cursor + 1⟩ := by
  unfold readWord
  simp only [hexWord?_digits, if_pos hcursor, h]

/-- Words are read one after another, and written from the cursor on. -/
theorem foldlM_readWord {words : List Word} {image image' : Image} {cursor : Nat}
    (hfits : cursor + words.length ≤ maxMemory)
    (h : image.writeEntries (entriesFrom (BitVec.ofNat 16 cursor) words) = .ok image')
    (line : Nat) :
    (words.map digits).foldlM (readWord line) ⟨image, cursor⟩
      = .ok ⟨image', cursor + words.length⟩ := by
  induction words generalizing image cursor with
  | nil =>
    cases h
    rfl
  | cons w words ih =>
    rw [List.length_cons] at hfits ⊢
    rw [entriesFrom_cons, writeEntries_cons] at h
    obtain ⟨image₁, hfirst, hrest⟩ := bind_eq_ok h
    have hnext : BitVec.ofNat 16 cursor + 1 = BitVec.ofNat 16 (cursor + 1) :=
      (BitVec.ofNat_add cursor 1).symm
    rw [hnext] at hrest
    rw [List.map_cons, List.foldlM_cons, readWord_digits (by omega) hfirst, ok_bind,
      ih (by omega) hrest, Nat.add_right_comm, Nat.add_assoc]

/-! ## Lines -/

/-- The characters of a line of words. -/
def wordLine (words : List Word) : List Char :=
  [' '].intercalate (words.map digits)

/-- The characters of a line with an origin. -/
def originLine (origin : Word) : List Char :=
  ':' :: digits origin

theorem toList_blockLines (block : Word × List Word) :
    (blockLines block).map String.toList
      = originLine block.1 :: (chunks 7 block.2).map wordLine := by
  have horigin : (":" ++ block.1.hex).toList = originLine block.1 := by
    rw [String.toList_append, toList_hex]
    rfl
  have hwords (words : List Word) :
      (String.intercalate " " (words.map Word.hex)).toList = wordLine words := by
    rw [String.toList_intercalate, List.map_map]
    exact congrArg _ (List.map_congr_left fun w _ => toList_hex w)
  unfold blockLines
  rw [List.map_cons, List.map_map, horigin]
  exact congrArg _ (List.map_congr_left fun words _ => hwords words)

theorem lineContent_of_ends {line : List Char} (hcomment : '#' ∉ line)
    (hfirst : ∀ c, line.head? = some c → Text.isBlank c = false)
    (hlast : ∀ c, line.getLast? = some c → Text.isBlank c = false) : lineContent line = line := by
  have hall : line.takeWhile (· ≠ '#') = line := by
    rw [List.takeWhile_eq_self_iff]
    intro c hc
    exact decide_eq_true fun heq => hcomment (heq ▸ hc)
  unfold lineContent
  rw [hall, Text.trimChars_of_ends hfirst hlast]

theorem mem_wordLine {words : List Word} {c : Char} (h : c ∈ wordLine words) :
    c = ' ' ∨ ∃ w, c ∈ digits w := by
  rcases Text.mem_intercalate h with h | ⟨f, hf, h⟩
  · exact .inl (List.mem_singleton.mp h)
  · obtain ⟨w, -, rfl⟩ := List.mem_map.mp hf
    exact .inr ⟨w, h⟩

/-- A line of words starts and ends with a digit. -/
theorem ends_wordLine (words : List Word) {c : Char}
    (h : (wordLine words).head? = some c ∨ (wordLine words).getLast? = some c) :
    ∃ w, c ∈ digits w := by
  have hne : ∀ f ∈ words.map digits, f ≠ [] := by
    intro f hf
    obtain ⟨w, -, rfl⟩ := List.mem_map.mp hf
    exact digits_ne_nil w
  have hmem : ∃ f ∈ words.map digits, c ∈ f :=
    h.elim (Text.mem_of_head?_intercalate hne) (Text.mem_of_getLast?_intercalate hne)
  obtain ⟨f, hf, hc⟩ := hmem
  obtain ⟨w, -, rfl⟩ := List.mem_map.mp hf
  exact ⟨w, hc⟩

/-- An origin moves the cursor. -/
theorem readLine_originLine (state : ListingState) (origin : Word) (line : Nat) :
    readLine state (originLine origin, line) = .ok { state with cursor := origin.toNat } := by
  have hblank : ∀ c ∈ digits origin, Text.isBlank c = false :=
    fun c hc => (plain_of_mem_digits hc).1
  have hlast (cs : List Char) (h : ∀ c ∈ cs, Text.isBlank c = false) :
      ∀ c, cs.getLast? = some c → Text.isBlank c = false :=
    fun c hc => h c (List.mem_of_mem_getLast? hc)
  have hcontent : lineContent (originLine origin) = originLine origin := by
    apply lineContent_of_ends
    · intro hmem
      rcases List.mem_cons.mp hmem with hmem | hmem
      · cases hmem
      · exact (plain_of_mem_digits hmem).2.1 rfl
    · intro c hc
      cases hc
      decide
    · refine hlast _ fun c hc => ?_
      rcases List.mem_cons.mp hc with rfl | hc
      · decide
      · exact hblank c hc
  have htrim : Text.trimChars (digits origin) = digits origin :=
    Text.trimChars_of_ends (fun c hc => hblank c (List.mem_of_mem_head? hc)) (hlast _ hblank)
  unfold readLine
  rw [hcontent]
  unfold originLine
  simp only [htrim, hexWord?_digits]

/-- A line of words is read word by word. -/
theorem readLine_wordLine (state : ListingState) {words : List Word} (hne : words ≠ [])
    (line : Nat) :
    readLine state (wordLine words, line) = (words.map digits).foldlM (readWord line) state := by
  have hcontent : lineContent (wordLine words) = wordLine words := by
    apply lineContent_of_ends
    · intro hmem
      rcases mem_wordLine hmem with hmem | ⟨w, hmem⟩
      · cases hmem
      · exact (plain_of_mem_digits hmem).2.1 rfl
    · intro c hc
      obtain ⟨w, hmem⟩ := ends_wordLine words (.inl hc)
      exact (plain_of_mem_digits hmem).1
    · intro c hc
      obtain ⟨w, hmem⟩ := ends_wordLine words (.inr hc)
      exact (plain_of_mem_digits hmem).1
  have hfields : Text.fields (wordLine words) = words.map digits := by
    apply Text.fields_intercalate
    intro f hf
    obtain ⟨w, -, rfl⟩ := List.mem_map.mp hf
    exact ⟨digits_ne_nil w, fun c hc => (plain_of_mem_digits hc).1⟩
  unfold readLine
  rw [hcontent]
  split
  · next hnil =>
    -- there is at least one word on the line
    rw [hnil] at hfields
    exact absurd (List.map_eq_nil_iff.mp hfields.symm) hne
  · next origin horigin =>
    -- the line starts with a digit
    obtain ⟨w, hmem⟩ := ends_wordLine words (c := ':') (.inl (by rw [horigin]; rfl))
    exact absurd rfl (plain_of_mem_digits hmem).2.2.1
  · rw [hfields]

/-! ## Runs -/

/-- Numbered lines are read one after another. -/
def readLines (state : ListingState) (lines : List (List Char)) (first : Nat) :
    Except ImageError ListingState :=
  (lines.zipIdx first).foldlM readLine state

theorem readLines_cons (state : ListingState) (line : List Char) (lines : List (List Char))
    (first : Nat) :
    readLines state (line :: lines) first
      = readLine state (line, first) >>= fun state => readLines state lines (first + 1) := rfl

theorem readLines_append (state : ListingState) (lines lines' : List (List Char)) (first : Nat) :
    readLines state (lines ++ lines') first
      = readLines state lines first
          >>= fun state => readLines state lines' (first + lines.length) := by
  unfold readLines
  rw [List.zipIdx_append, List.foldlM_append]

/-- The words of a run are read line by line, and written from the cursor on. -/
theorem readLines_words {words : List Word} {image image' : Image} {cursor : Nat}
    (hfits : cursor + words.length ≤ maxMemory)
    (h : image.writeEntries (entriesFrom (BitVec.ofNat 16 cursor) words) = .ok image')
    (first : Nat) :
    readLines ⟨image, cursor⟩ ((chunks 7 words).map wordLine) first
      = .ok ⟨image', cursor + words.length⟩ := by
  induction words using chunks.induct (n := 7) generalizing image cursor first with
  | case1 =>
    cases h
    rw [chunks_nil]
    rfl
  | case2 words hne ih =>
    have hsplit : words.take (7 + 1) ++ words.drop (7 + 1) = words :=
      List.take_append_drop (7 + 1) words
    have hlength : (words.take (7 + 1)).length + (words.drop (7 + 1)).length = words.length := by
      rw [← List.length_append, hsplit]
    rw [← hsplit, entriesFrom_append, ← BitVec.ofNat_add, writeEntries_append] at h
    obtain ⟨image₁, hline, hrest⟩ := bind_eq_ok h
    have htake : words.take (7 + 1) ≠ [] := by
      rw [Ne, List.take_eq_nil_iff]
      simp [hne]
    rw [chunks_of_ne 7 hne, List.map_cons, readLines_cons, readLine_wordLine _ htake,
      foldlM_readWord (by omega) hline, ok_bind, ih (by omega) hrest, Nat.add_assoc, hlength]

/-- A run is read from its origin on. -/
theorem readLines_run {run : Word × List Word} {image image' : Image} (hrun : IsRun run)
    (h : image.writeEntries (runEntries run) = .ok image') (cursor first : Nat) :
    readLines ⟨image, cursor⟩ ((blockLines run).map String.toList) first
      = .ok ⟨image', run.1.toNat + run.2.length⟩ := by
  have hstart : BitVec.ofNat 16 run.1.toNat = run.1 := by
    rw [BitVec.ofNat_toNat, BitVec.setWidth_eq]
  unfold runEntries at h
  rw [← hstart] at h
  rw [toList_blockLines, readLines_cons, readLine_originLine, ok_bind]
  exact readLines_words hrun.fits h (first + 1)

/-- Runs are read one after another. -/
theorem readLines_runs {runs : List (Word × List Word)} {image image' : Image}
    (hruns : ∀ run ∈ runs, IsRun run)
    (h : image.writeEntries (runs.flatMap runEntries) = .ok image') (cursor first : Nat) :
    ∃ cursor', readLines ⟨image, cursor⟩ ((runs.flatMap blockLines).map String.toList) first
      = .ok ⟨image', cursor'⟩ := by
  induction runs generalizing image cursor first with
  | nil =>
    cases h
    exact ⟨cursor, rfl⟩
  | cons run runs ih =>
    rw [List.flatMap_cons, writeEntries_append] at h
    obtain ⟨image₁, hfirst, hrest⟩ := bind_eq_ok h
    rw [List.flatMap_cons, List.map_append, readLines_append,
      readLines_run (hruns run List.mem_cons_self) hfirst, ok_bind]
    exact ih (fun run hrun => hruns run (List.mem_cons_of_mem _ hrun)) hrest _ _

/-! ## Listings -/

/-- No line breaks off where it should not. -/
theorem plain_of_mem_blockLines {run : Word × List Word} {line : List Char}
    (h : line ∈ (blockLines run).map String.toList) :
    '\n' ∉ line ∧ line.getLast? ≠ some '\r' := by
  have hchars : ∀ c ∈ line, c ≠ '\n' ∧ c ≠ '\r' := by
    intro c hc
    rw [toList_blockLines] at h
    have hcases : c = ':' ∨ c = ' ' ∨ ∃ w, c ∈ digits w := by
      rcases List.mem_cons.mp h with rfl | h
      · exact (List.mem_cons.mp hc).imp_right fun hc => .inr ⟨run.1, hc⟩
      · obtain ⟨words, -, rfl⟩ := List.mem_map.mp h
        exact .inr (mem_wordLine hc)
    rcases hcases with rfl | rfl | ⟨w, hc⟩
    · decide
    · decide
    · exact (plain_of_mem_digits hc).2.2.2
  exact ⟨fun hc => (hchars _ hc).1 rfl, fun hc => (hchars _ (List.mem_of_mem_getLast? hc)).2 rfl⟩

theorem lineChars_listing (image : Image) :
    Text.lineChars image.listing.toList = (image.blocks.flatMap blockLines).map String.toList := by
  have htext : image.listing.toList
      = ((image.blocks.flatMap blockLines).map String.toList).flatMap (· ++ ['\n']) := by
    unfold listing
    rw [String.toList_join, List.flatMap_map, List.flatMap_map]
    exact congrArg List.flatten (List.map_congr_left fun line _ => String.toList_append)
  rw [htext]
  apply Text.lineChars_join
  intro line hline
  obtain ⟨text, htext, rfl⟩ := List.mem_map.mp hline
  obtain ⟨run, -, hrun⟩ := List.mem_flatMap.mp htext
  exact plain_of_mem_blockLines (List.mem_map_of_mem hrun)

/-- The image of a listing has the words that were listed, and nothing else. -/
theorem ofListing_listing (image : Image) :
    ofListing image.listing = .ok { empty maxMemory with words := image.words } := by
  have hwrite : (empty maxMemory).writeEntries (image.blocks.flatMap runEntries)
      = .ok { empty maxMemory with words := image.words } := by
    rw [flatMap_blocks]
    exact writeEntries_toList image maxMemory
  obtain ⟨cursor, hread⟩ := readLines_runs (fun _ => isRun_of_mem_blocks) hwrite 0 1
  unfold readLines at hread
  unfold ofListing
  rw [lineChars_listing, hread]
  rfl

/-- **Listings.**  A listing keeps every word of an image, at its address, and no label.  So an
    image and what is read from its listing are loaded alike, whatever the length of memory. -/
theorem listing_keeps_words (image : Image) :
    ∃ image', ofListing image.listing = .ok image' ∧ image'.toList = image.toList
      ∧ image'.memLen = maxMemory ∧ image'.symbols = ∅
      ∧ ∀ m : Machine, m.load image' = m.load image :=
  ⟨_, ofListing_listing image, rfl, rfl, rfl, fun _ => rfl⟩

end AnnaToolchain.Image
