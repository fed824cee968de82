import AnnaToolchain.Image.Basic
import AnnaToolchain.Proofs.Maps

/-! # The words of an image, run by run

    Both stored forms of an image go through it run by run, and cut long
    runs into parts.  Neither loses a word: listed with their addresses
    (`entriesFrom`), the words of all runs are those of the image
    (`flatMap_blocks`), and the words of all parts are those of the run
    (`flatMap_chunks`).

    Written one after another into an empty image, the words of an image
    give that image (`writeEntries_toList`). -/

namespace AnnaToolchain

namespace Image

/-! ## Written addresses -/

theorem mem_toList_iff {image : Image} {a w : Word} :
    (a, w) ∈ image.toList ↔ image.get? a = some w :=
  Std.ExtTreeMap.mem_toList_iff_getElem?_eq_some

theorem ascending_toList (image : Image) :
    image.toList.Pairwise fun e e' => e.1.toNat < e'.1.toNat := by
  have hordered : image.toList.Pairwise fun e e' => compare e.1 e'.1 = .lt :=
    Std.ExtTreeMap.ordered_keys_toList
  exact hordered.imp fun hlt => compareOfLessAndEq_eq_lt.mp hlt

/-! ## Words with their addresses -/

/-- Words at consecutive addresses, each with its own. -/
def entriesFrom (start : Word) : List Word → List (Word × Word)
  | [] => []
  | word :: words => (start, word) :: entriesFrom (start + 1) words

@[simp] theorem entriesFrom_nil (start : Word) : entriesFrom start [] = [] := rfl

@[simp] theorem entriesFrom_cons (start word : Word) (words : List Word) :
    entriesFrom start (word :: words) = (start, word) :: entriesFrom (start + 1) words := rfl

theorem entriesFrom_append (start : Word) (words words' : List Word) :
    entriesFrom start (words ++ words')
      = entriesFrom start words ++ entriesFrom (start + BitVec.ofNat 16 words.length) words' := by
  induction words generalizing start with
  | nil => simp
  | cons word words ih =>
    rw [List.cons_append, entriesFrom_cons, entriesFrom_cons, ih, Word.add_one_add_ofNat,
      List.cons_append, List.length_cons]

/-- The entries of a run. -/
def runEntries (run : Word × List Word) : List (Word × Word) :=
  entriesFrom run.1 run.2

/-! ## Runs -/

theorem addToBlocks_cons (entry : Word × Word) (start : Word) (block : List Word)
    (rest : List (Word × List Word)) :
    addToBlocks entry ((start, block) :: rest) =
      if start.toNat = entry.1.toNat + 1 then (entry.1, entry.2 :: block) :: rest
      else (entry.1, [entry.2]) :: (start, block) :: rest := rfl

theorem flatMap_addToBlocks (entry : Word × Word) (runs : List (Word × List Word)) :
    (addToBlocks entry runs).flatMap runEntries = entry :: runs.flatMap runEntries := by
  cases runs with
  | nil => rfl
  | cons run rest =>
    obtain ⟨start, block⟩ := run
    rw [addToBlocks_cons]
    split
    · next h =>
      -- the run goes on where the entry ends
      have hstart : start = entry.1 + 1 := by
        have hlt := start.isLt
        rw [h] at hlt
        apply BitVec.eq_of_toNat_eq
        rw [h, BitVec.toNat_add, show (1 : Word).toNat = 1 from rfl, Nat.mod_eq_of_lt hlt]
      rw [hstart]
      rfl
    · rfl

/-- **Runs.**  Listed run by run, the words of an image are all there, in their order. -/
theorem flatMap_blocks (image : Image) : image.blocks.flatMap runEntries = image.toList := by
  unfold blocks
  induction image.toList with
  | nil => rfl
  | cons entry entries ih => rw [List.foldr_cons, flatMap_addToBlocks, ih]

/-- A run has words, and they end where memory ends at the latest. -/
structure IsRun (run : Word × List Word) : Prop where
  nonempty : run.2 ≠ []
  fits : run.1.toNat + run.2.length ≤ maxMemory

theorem isRun_addToBlocks {entry : Word × Word} {runs : List (Word × List Word)}
    (h : ∀ run ∈ runs, IsRun run) : ∀ run ∈ addToBlocks entry runs, IsRun run := by
  -- alone, a word is a run
  have hsingle : IsRun (entry.1, [entry.2]) := ⟨List.cons_ne_nil _ _, entry.1.isLt⟩
  cases runs with
  | nil =>
    intro run hrun
    rw [List.mem_singleton.mp hrun]
    exact hsingle
  | cons first rest =>
    obtain ⟨start, block⟩ := first
    intro run hrun
    rw [addToBlocks_cons] at hrun
    split at hrun
    · next hstart =>
      rcases List.mem_cons.mp hrun with rfl | hrun
      · -- the run is longer by one, and starts one earlier
        have hfits := (h _ List.mem_cons_self).fits
        refine ⟨List.cons_ne_nil _ _, ?_⟩
        simp only [List.length_cons] at hfits ⊢
        omega
      · exact h run (List.mem_cons_of_mem _ hrun)
    · rcases List.mem_cons.mp hrun with rfl | hrun
      · exact hsingle
      · exact h run hrun

theorem isRun_of_mem_blocks {image : Image} {run : Word × List Word} (h : run ∈ image.blocks) :
    IsRun run := by
  have hall : ∀ run ∈ image.blocks, IsRun run := by
    unfold blocks
    induction image.toList with
    | nil => exact List.forall_mem_nil _
    | cons entry entries ih =>
      rw [List.foldr_cons]
      exact isRun_addToBlocks ih
  exact hall run h

/-! ## Parts of a run -/

theorem chunks_nil {α : Type} (n : Nat) : chunks n ([] : List α) = [] := by
  rw [chunks, if_pos rfl]

theorem chunks_of_ne {α : Type} (n : Nat) {xs : List α} (h : xs ≠ []) :
    chunks n xs = xs.take (n + 1) :: chunks n (xs.drop (n + 1)) := by
  rw [chunks, if_neg h]

/-- No part is empty or longer than it may be. -/
theorem length_of_mem_chunks {α : Type} {n : Nat} {xs part : List α} (h : part ∈ chunks n xs) :
    part ≠ [] ∧ part.length ≤ n + 1 := by
  induction xs using chunks.induct (n := n) with
  | case1 =>
    rw [chunks_nil] at h
    cases h
  | case2 xs hne ih =>
    rw [chunks_of_ne n hne] at h
    rcases List.mem_cons.mp h with rfl | h
    · refine ⟨?_, by rw [List.length_take]; omega⟩
      rw [Ne, List.take_eq_nil_iff]
      simp [hne]
    · exact ih h

/-- The parts of a run, numbered from `k` on, have the words of the run at their addresses. -/
theorem flatMap_chunks (n k : Nat) (start : Word) (words : List Word) :
    ((chunks n words).zipIdx k).flatMap
        (fun part => entriesFrom (start + BitVec.ofNat 16 (part.2 * (n + 1))) part.1)
      = entriesFrom (start + BitVec.ofNat 16 (k * (n + 1))) words := by
  induction words using chunks.induct (n := n) generalizing k with
  | case1 => rw [chunks_nil, List.zipIdx_nil, List.flatMap_nil, entriesFrom_nil]
  | case2 words hne ih =>
    rw [chunks_of_ne n hne, List.zipIdx_cons, List.flatMap_cons, ih]
    by_cases hlong : n + 1 ≤ words.length
    · -- the next part starts `n + 1` words on
      have hnext : start + BitVec.ofNat 16 ((k + 1) * (n + 1))
          = start + BitVec.ofNat 16 (k * (n + 1))
            + BitVec.ofNat 16 (words.take (n + 1)).length := by
        rw [List.length_take_of_le hlong, BitVec.add_assoc, ← BitVec.ofNat_add, Nat.succ_mul]
      rw [hnext, ← entriesFrom_append, List.take_append_drop]
    · -- this is the last part
      rw [List.drop_of_length_le (by omega), entriesFrom_nil, List.append_nil,
        List.take_of_length_le (by omega)]

/-! ## Writing words -/

/-- Writes words one after another. -/
def writeEntries (image : Image) (entries : List (Word × Word)) : Except ImageError Image :=
  entries.foldlM (fun image entry => image.write entry.1 entry.2) image

@[simp] theorem writeEntries_nil (image : Image) : image.writeEntries [] = .ok image := rfl

theorem writeEntries_cons (image : Image) (entry : Word × Word) (entries : List (Word × Word)) :
    image.writeEntries (entry :: entries)
      = image.write entry.1 entry.2 >>= fun image => image.writeEntries entries := rfl

theorem writeEntries_append (image : Image) (entries entries' : List (Word × Word)) :
    image.writeEntries (entries ++ entries')
      = image.writeEntries entries >>= fun image => image.writeEntries entries' := by
  unfold writeEntries
  rw [List.foldlM_append]

theorem write_of_fresh {image : Image} {address : Word} (word : Word)
    (h : image.get? address = none) : image.write address word = .ok (image.set address word) := by
  unfold write write?
  rw [h]

/-- Words go to addresses that have none yet, each to its own. -/
theorem writeEntries_of_fresh {image : Image} {entries : List (Word × Word)}
    (hdistinct : entries.Pairwise fun e e' => e.1 ≠ e'.1)
    (hfresh : ∀ e ∈ entries, image.get? e.1 = none) :
    image.writeEntries entries = .ok { image with words := image.words.insertMany entries } := by
  induction entries generalizing image with
  | nil => rfl
  | cons entry entries ih =>
    obtain ⟨hne, hdistinct⟩ := List.pairwise_cons.mp hdistinct
    have hrest : ∀ e ∈ entries, (image.set entry.1 entry.2).get? e.1 = none := by
      intro e he
      rw [get?_set_ne image entry.2 (hne e he)]
      exact hfresh e (List.mem_cons_of_mem _ he)
    rw [writeEntries_cons, write_of_fresh _ (hfresh entry List.mem_cons_self)]
    show (image.set entry.1 entry.2).writeEntries entries = _
    rw [ih hdistinct hrest, Std.ExtTreeMap.insertMany_cons]
    rfl

/-- **Writing back.**  The words of an image, written into an empty one, are its words. -/
theorem writeEntries_toList (image : Image) (len : Nat) :
    (empty len).writeEntries image.toList = .ok { empty len with words := image.words } := by
  have hdistinct : image.toList.Pairwise fun e e' => e.1 ≠ e'.1 := pairwise_toList image.words
  rw [writeEntries_of_fresh hdistinct fun e _ => get?_empty len e.1]
  have hwords : (empty len).words.insertMany image.toList = image.words :=
    insertMany_toList image.words
  rw [hwords]

end Image

end AnnaToolchain
