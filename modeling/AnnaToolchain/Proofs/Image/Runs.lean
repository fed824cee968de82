import AnnaToolchain.Proofs.Image.Blocks

/-! # The longest runs of an image

    The blocks of an image are runs of words, in the order of their
    addresses, and between two of them there is an address without a word
    (`AreRuns`).  The words leave no choice: they are cut into such runs in
    one way only (`areRuns_iff`), so that the blocks say no less than the
    words do and no more (`blocks_runs`).

    Addresses are counted here, and not taken as words: a run that ends with
    the last address of all goes up to 65536 and does not come back to 0. -/

namespace AnnaToolchain

namespace Image

/-! ## Runs apart -/

/-- The words of a run, each with the number of its address. -/
def runWords (run : Word × List Word) : List (Nat × Word) :=
  run.2.mapIdx fun j word => (run.1.toNat + j, word)

theorem runWords_cons (start word : Word) (words : List Word) :
    runWords (start, word :: words)
      = (start.toNat, word) :: words.mapIdx fun j word => (start.toNat + 1 + j, word) := by
  unfold runWords
  rw [List.mapIdx_cons]
  simp only [Nat.add_zero, Nat.add_assoc, Nat.add_comm 1]

/-- A run from the next address on, with one more word in front. -/
theorem runWords_cons_of_next {start next word : Word} (hnext : next.toNat = start.toNat + 1)
    (words : List Word) :
    runWords (start, word :: words) = (start.toNat, word) :: runWords (next, words) := by
  rw [runWords_cons]
  unfold runWords
  rw [hnext]

theorem mem_runWords {run : Word × List Word} {address : Nat} {word : Word}
    (h : (address, word) ∈ runWords run) :
    run.1.toNat ≤ address ∧ address < run.1.toNat + run.2.length := by
  obtain ⟨j, hj, heq⟩ := List.mem_mapIdx.mp h
  obtain ⟨rfl, -⟩ := Prod.mk.inj heq
  omega

/-- There is an address between the one run and the other. -/
def Apart (run run' : Word × List Word) : Prop :=
  run.1.toNat + run.2.length < run'.1.toNat

/-- The words listed are cut into runs: each has words and fits into memory, the runs are in the
    order of their addresses with one address at least between them, and run by run they have the
    words that are listed. -/
structure AreRuns (entries : List (Word × Word)) (runs : List (Word × List Word)) : Prop where
  isRun : ∀ run ∈ runs, IsRun run
  apart : runs.Pairwise Apart
  words : runs.flatMap runWords = entries.map fun e => (e.1.toNat, e.2)

namespace AreRuns

variable {entry : Word × Word} {entries : List (Word × Word)} {start : Word} {block : List Word}
  {run : Word × List Word} {runs : List (Word × List Word)}

theorem nil : AreRuns [] [] :=
  ⟨List.forall_mem_nil _, List.Pairwise.nil, rfl⟩

/-- Without words there are no runs. -/
theorem eq_nil (h : AreRuns [] runs) : runs = [] := by
  cases runs with
  | nil => rfl
  | cons run runs =>
    obtain ⟨start, block⟩ := run
    have hne := (h.isRun _ List.mem_cons_self).nonempty
    obtain ⟨word, words, rfl⟩ := List.exists_cons_of_ne_nil hne
    have hwords := h.words
    rw [List.flatMap_cons, runWords_cons] at hwords
    cases hwords

/-- The first run starts with the first word. -/
theorem exists_first (h : AreRuns (entry :: entries) runs) :
    ∃ words rest, runs = (entry.1, entry.2 :: words) :: rest := by
  have hwords := h.words
  cases runs with
  | nil => cases hwords
  | cons run rest =>
    obtain ⟨start, block⟩ := run
    have hne := (h.isRun _ List.mem_cons_self).nonempty
    obtain ⟨word, words, rfl⟩ := List.exists_cons_of_ne_nil hne
    rw [List.flatMap_cons, runWords_cons, List.map_cons, List.cons_append] at hwords
    obtain ⟨hstart, hword⟩ := Prod.mk.inj (List.cons.inj hwords).1
    obtain rfl : start = entry.1 := BitVec.eq_of_toNat_eq hstart
    obtain rfl : word = entry.2 := hword
    exact ⟨words, rest, rfl⟩

/-- The first run behind another one starts above it. -/
theorem lt_of_mem (h : AreRuns entries ((start, block) :: runs)) (hrun : run ∈ runs) :
    start.toNat < run.1.toNat := by
  have hapart : Apart (start, block) run := (List.pairwise_cons.mp h.apart).1 run hrun
  exact Nat.lt_of_le_of_lt (Nat.le_add_right _ _) hapart

/-! ## One more word -/

/-- One more word in front, at an address below: it goes into the first run, or is one itself. -/
theorem cons (h : AreRuns entries runs) (hlt : ∀ e ∈ entries, entry.1.toNat < e.1.toNat) :
    AreRuns (entry :: entries) (addToBlocks entry runs) := by
  have hruns : ∀ run ∈ addToBlocks entry runs, IsRun run := isRun_addToBlocks h.isRun
  cases entries with
  | nil =>
    obtain rfl := h.eq_nil
    exact ⟨hruns, List.pairwise_singleton _ _, rfl⟩
  | cons first entries =>
    obtain ⟨words, rest, rfl⟩ := h.exists_first
    have hbelow := hlt first List.mem_cons_self
    obtain ⟨hfirst, hrest⟩ := List.pairwise_cons.mp h.apart
    have hwords := h.words
    refine ⟨hruns, ?_, ?_⟩
    · rw [addToBlocks_cons]
      split
      · next hnext =>
        -- the run ends where it ended
        refine List.pairwise_cons.mpr ⟨fun run hrun => ?_, hrest⟩
        have hend : first.1.toNat + (first.2 :: words).length < run.1.toNat := hfirst run hrun
        show entry.1.toNat + (entry.2 :: first.2 :: words).length < run.1.toNat
        rw [List.length_cons]
        omega
      · next hnext =>
        refine List.pairwise_cons.mpr ⟨List.forall_mem_cons.mpr ⟨?_, fun run hrun => ?_⟩, h.apart⟩
        · show entry.1.toNat + 1 < first.1.toNat
          omega
        · have habove := h.lt_of_mem hrun
          show entry.1.toNat + 1 < run.1.toNat
          omega
    · rw [addToBlocks_cons, List.map_cons, ← hwords]
      split
      · next hnext => rw [List.flatMap_cons, runWords_cons_of_next hnext, List.flatMap_cons]; rfl
      · rfl

/-- Without its first word, the first run goes on from the next address, or is gone. -/
theorem tail (h : AreRuns (entry :: entries) runs) :
    (∃ rest, runs = (entry.1, [entry.2]) :: rest ∧ AreRuns entries rest) ∨
    ∃ next words rest, next.toNat = entry.1.toNat + 1 ∧
      runs = (entry.1, entry.2 :: words) :: rest ∧ AreRuns entries ((next, words) :: rest) := by
  obtain ⟨words, rest, rfl⟩ := h.exists_first
  obtain ⟨hfirst, hrest⟩ := List.pairwise_cons.mp h.apart
  obtain ⟨hrun, hruns⟩ := List.forall_mem_cons.mp h.isRun
  have hwords := h.words
  cases words with
  | nil =>
    refine .inl ⟨rest, rfl, hruns, hrest, ?_⟩
    exact (List.cons.inj hwords).2
  | cons word words =>
    have hfits : entry.1.toNat + (entry.2 :: word :: words).length ≤ maxMemory := hrun.fits
    simp only [List.length_cons, maxMemory] at hfits
    have hnext : (entry.1 + 1).toNat = entry.1.toNat + 1 := by
      have hlt : entry.1.toNat + 1 < 2 ^ 16 := by omega
      rw [BitVec.toNat_add, show (1 : Word).toNat = 1 from rfl, Nat.mod_eq_of_lt hlt]
    refine .inr ⟨entry.1 + 1, word :: words, rest, hnext, rfl, ?_, ?_, ?_⟩
    · refine List.forall_mem_cons.mpr ⟨⟨List.cons_ne_nil _ _, ?_⟩, hruns⟩
      show (entry.1 + 1).toNat + (word :: words).length ≤ 65536
      rw [hnext, List.length_cons]
      omega
    · refine List.pairwise_cons.mpr ⟨fun run hrun => ?_, hrest⟩
      have hend : entry.1.toNat + (entry.2 :: word :: words).length < run.1.toNat := hfirst run hrun
      show (entry.1 + 1).toNat + (word :: words).length < run.1.toNat
      rw [List.length_cons] at hend
      rw [hnext]
      omega
    · rw [List.flatMap_cons, runWords_cons_of_next hnext, List.map_cons] at hwords
      exact (List.cons.inj hwords).2

/-! ## All words -/

/-- Words in the order of their addresses are cut into runs from the last one on. -/
theorem foldr (h : entries.Pairwise fun e e' => e.1.toNat < e'.1.toNat) :
    AreRuns entries (entries.foldr addToBlocks []) := by
  induction entries with
  | nil => exact nil
  | cons entry entries ih =>
    obtain ⟨hlt, h⟩ := List.pairwise_cons.mp h
    exact (ih h).cons hlt

/-- There is no other way to cut them. -/
theorem eq_foldr (h : AreRuns entries runs) : runs = entries.foldr addToBlocks [] := by
  induction entries generalizing runs with
  | nil => exact h.eq_nil
  | cons entry entries ih =>
    rw [List.foldr_cons]
    rcases h.tail with ⟨rest, rfl, hrest⟩ | ⟨next, words, rest, hnext, rfl, hrest⟩
    · rw [← ih hrest]
      cases rest with
      | nil => rfl
      | cons run rest =>
        have hapart : entry.1.toNat + 1 < run.1.toNat :=
          (List.pairwise_cons.mp h.apart).1 run List.mem_cons_self
        rw [addToBlocks_cons, if_neg (by omega)]
    · rw [← ih hrest, addToBlocks_cons, if_pos hnext]

/-- Two different runs are apart, in one order or the other. -/
theorem apart_of_mem {run' : Word × List Word} (h : AreRuns entries runs) (hrun : run ∈ runs)
    (hrun' : run' ∈ runs) : run = run' ∨ Apart run run' ∨ Apart run' run := by
  obtain ⟨i, hi, rfl⟩ := List.getElem_of_mem hrun
  obtain ⟨j, hj, rfl⟩ := List.getElem_of_mem hrun'
  have hordered := List.pairwise_iff_getElem.mp h.apart
  rcases Nat.lt_trichotomy i j with hlt | rfl | hlt
  · exact .inr (.inl (hordered i j hi hj hlt))
  · exact .inl rfl
  · exact .inr (.inr (hordered j i hj hi hlt))

end AreRuns

/-! ## Blocks -/

/-- The address is not written. -/
def IsFree (image : Image) (address : Nat) : Prop :=
  ∀ a : Word, a.toNat = address → image.get? a = none

/-- The run does not go on, neither in front nor behind. -/
structure IsLongest (image : Image) (run : Word × List Word) : Prop where
  before : ∀ address, address + 1 = run.1.toNat → image.IsFree address
  behind : image.IsFree (run.1.toNat + run.2.length)

variable {image image' : Image} {runs : List (Word × List Word)} {run : Word × List Word}

theorem areRuns_blocks (image : Image) : AreRuns image.toList image.blocks :=
  .foldr image.ascending_toList

/-- The words of an image are cut into runs in one way. -/
theorem areRuns_iff : AreRuns image.toList runs ↔ image.blocks = runs := by
  refine ⟨fun h => h.eq_foldr.symm, ?_⟩
  rintro rfl
  exact image.areRuns_blocks

/-- An address is free if no run takes it up. -/
theorem isFree_of_forall {address : Nat}
    (h : ∀ run ∈ image.blocks, address < run.1.toNat ∨ run.1.toNat + run.2.length ≤ address) :
    image.IsFree address := by
  intro a ha
  cases hget : image.get? a with
  | none => rfl
  | some word =>
    -- the word would be one of a run
    have hmem : (a.toNat, word) ∈ image.toList.map fun e => (e.1.toNat, e.2) :=
      List.mem_map.mpr ⟨(a, word), mem_toList_iff.mpr hget, rfl⟩
    rw [← image.areRuns_blocks.words] at hmem
    obtain ⟨run, hrun, hword⟩ := List.mem_flatMap.mp hmem
    have hwithin := mem_runWords hword
    have hout := h run hrun
    omega

theorem isLongest_of_mem_blocks (h : run ∈ image.blocks) : image.IsLongest run := by
  have hfree : ∀ address, address + 1 = run.1.toNat ∨ address = run.1.toNat + run.2.length →
      image.IsFree address := by
    intro address hnext
    refine isFree_of_forall fun run' hrun' => ?_
    -- the other runs leave room for the address
    rcases image.areRuns_blocks.apart_of_mem h hrun' with rfl | hapart | hapart
    · omega
    · unfold Apart at hapart
      omega
    · unfold Apart at hapart
      omega
  exact ⟨fun address hnext => hfree address (.inl hnext), hfree _ (.inr rfl)⟩

/-- Images with the same blocks have the same words. -/
theorem blocks_eq_iff : image.blocks = image'.blocks ↔ image.words = image'.words := by
  constructor
  · intro h
    have hlist : image.toList = image'.toList := by
      rw [← flatMap_blocks, h, flatMap_blocks]
    rw [← insertMany_toList image.words, ← insertMany_toList image'.words]
    exact congrArg _ hlist
  · intro h
    unfold blocks toList
    rw [h]

/-- **Longest runs.**  The blocks of an image are the one list of runs that its words are cut into,
    each as long as it can be, and images with the same blocks have the same words. -/
theorem blocks_runs (image : Image) :
    (∀ runs, image.blocks = runs ↔ AreRuns image.toList runs) ∧
    (∀ run ∈ image.blocks, image.IsLongest run) ∧
    ∀ image' : Image, image.blocks = image'.blocks ↔ image.words = image'.words :=
  ⟨fun _ => areRuns_iff.symm, fun _ => isLongest_of_mem_blocks, fun _ => blocks_eq_iff⟩

/-- An image with a run that ends where memory ends, and one word that is nearly next to it. -/
def lastRun : Image where
  words := (((∅ : Std.ExtTreeMap Word Word).insert 0xFFFF 7).insert 0xFFFC 5).insert 0xFFFE 6
  memLen := maxMemory
  symbols := ∅
  memLen_pos := by decide
  memLen_le := Nat.le_refl _

theorem blocks_runs_lastRun :
    (0xFFFE, [6, 7]) ∈ lastRun.blocks ∧ lastRun.IsLongest (0xFFFE, [6, 7]) ∧
      AreRuns lastRun.toList [(0xFFFC, [5]), (0xFFFE, [6, 7])] ∧
      lastRun.blocks ≠ (empty maxMemory).blocks := by
  obtain ⟨hruns, hlongest, hwords⟩ := blocks_runs lastRun
  have hblocks : lastRun.blocks = [(0xFFFC, [5]), (0xFFFE, [6, 7])] := by decide +kernel
  have hmem : ((0xFFFE, [6, 7]) : Word × List Word) ∈ lastRun.blocks := by
    rw [hblocks]
    decide
  refine ⟨hmem, hlongest _ hmem, (hruns _).mp hblocks, fun hsame => ?_⟩
  have hempty : lastRun.words.isEmpty = false := by decide +kernel
  rw [(hwords _).mp hsame] at hempty
  exact absurd hempty (by decide +kernel)

end Image

end AnnaToolchain
