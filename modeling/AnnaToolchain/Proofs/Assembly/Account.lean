import AnnaToolchain.Proofs.Assembly.Success
import Mathlib.Algebra.GroupWithZero.Nat

/-! # Accounts

    The statements of an assembled program account for its image
    (`Program.AccountsFor`): each of them has the words the image has from
    its address on, no two of them share an address, and nothing else is
    written.  What they knew of their places before is not looked at
    (`Program.assemble_of_unplaced_eq`). -/

namespace AnnaToolchain

namespace Statement

/-- A statement without address has no words. -/
def WordsPlaced (s : Statement) : Prop :=
  s.address = none → s.words = []

theorem Performs.wordsPlaced {s : Statement} {image : Image} {effect : Effect}
    (h : s.Performs image effect) : s.WordsPlaced := by
  intro hnone
  cases effect with
  | moveTo _ | define _ => exact h.2
  | emit es aliases =>
    obtain ⟨start, hholds⟩ := h
    rw [hholds.address] at hnone
    cases hnone

theorem WordsPlaced.length_addresses {s : Statement} (h : s.WordsPlaced) :
    s.addresses.length = s.words.length := by
  unfold addresses
  cases hs : s.address with
  | none =>
    show 0 = s.words.length
    rw [h hs, List.length_nil]
  | some start => rw [List.length_map, List.length_range]

end Statement

namespace Program

variable {p q placed : Program} {memLen : Nat} {image : Image}

/-! ## Words -/

/-- The statements of a program account for the words of an image. -/
structure AccountsFor (placed : Program) (image : Image) : Prop where
  /-- A statement with words has an address, from which on they are inside memory. -/
  inside : ∀ s ∈ placed, s.words ≠ [] →
    ∃ start, s.address = some start ∧ start.toNat + s.words.length ≤ image.memLen
  /-- There the image has the same words. -/
  words : ∀ s ∈ placed, ∀ start, s.address = some start → ∀ j word, s.words[j]? = some word →
    image.get? (start + BitVec.ofNat 16 j) = some word
  /-- No address belongs to two statements. -/
  disjoint : placed.Pairwise fun s t => s.addresses.Disjoint t.addresses
  /-- Every address that is written belongs to a statement. -/
  covered : ∀ a, (image.get? a).isSome → ∃ s ∈ placed, a ∈ s.addresses
  wordCount : image.wordCount = (placed.map (·.words.length)).sum

/-- A word of a program in step with an image is in the image. -/
theorem InStep.get?_eq (h : placed.InStep image) {s : Statement} (hs : s ∈ placed) {start : Word}
    (hstart : s.address = some start) {j : Nat} {word : Word} (hj : s.words[j]? = some word) :
    image.get? (start + BitVec.ofNat 16 j) = some word := by
  have hlt := (List.getElem?_eq_some_iff.mp hj).1
  have hwritten := h.written_statement hs (Statement.mem_addresses.mpr ⟨start, j, hstart, hlt, rfl⟩)
  obtain ⟨word', hword'⟩ := Option.isSome_iff_exists.mp hwritten
  -- reading it back gives the same word
  have hback := Statement.getElem?_readBack hstart image j
  rw [h.same s hs, hj, hword'] at hback
  rw [hword']
  exact hback.symm

theorem InStep.pairwise_disjoint (h : placed.InStep image) :
    placed.Pairwise fun s t => s.addresses.Disjoint t.addresses :=
  (List.nodup_flatMap.mp h.nodup).2

/-- What is written in the image of a program belongs to one of its statements. -/
theorem mem_addresses_assemble (h : p.assemble memLen = (placed, .ok image)) (a : Word) :
    (image.get? a).isSome ↔ a ∈ placed.addresses := by
  refine ⟨fun ha => ?_, (inStep_assemble h).written a⟩
  obtain ⟨ps, l, hplaces, rfl, hresolved⟩ := assemble_ok h
  have hsound := Layout.sound_start memLen
  rw [hresolved.isSome_get? (hplaces.extends hsound).2] at ha
  rcases hplaces.covered hsound ha with hbefore | ⟨s, hs, hmem⟩
  · -- at first nothing is written
    simp [Layout.start] at hbefore
  · refine List.mem_flatMap.mpr ⟨s.readBack image, List.mem_map_of_mem hs, ?_⟩
    rw [s.addresses_readBack]
    exact hmem

/-- There are as many words in the image as in the statements. -/
theorem wordCount_assemble (h : p.assemble memLen = (placed, .ok image)) :
    image.wordCount = (placed.map (·.words.length)).sum := by
  have hlength : ∀ s ∈ placed, s.addresses.length = s.words.length := by
    intro s hs
    obtain ⟨i, hi⟩ := List.mem_iff_getElem?.mp hs
    obtain ⟨effect, -, hperforms⟩ := assembled h hi
    exact hperforms.wordsPlaced.length_addresses
  calc image.wordCount
      = placed.addresses.length :=
        Image.wordCount_eq_length (inStep_assemble h).nodup (mem_addresses_assemble h)
    _ = (placed.map (·.addresses.length)).sum := List.length_flatMap
    _ = (placed.map (·.words.length)).sum := by rw [List.map_congr_left hlength]

theorem accountsFor_assemble (h : p.assemble memLen = (placed, .ok image)) :
    placed.AccountsFor image := by
  have hstep := inStep_assemble h
  refine ⟨?_, fun s hs start hstart j word hj => hstep.get?_eq hs hstart hj,
    hstep.pairwise_disjoint, ?_, wordCount_assemble h⟩
  · intro s hs hwords
    obtain ⟨i, hi⟩ := List.mem_iff_getElem?.mp hs
    obtain ⟨effect, -, hperforms⟩ := assembled h hi
    cases effect with
    | moveTo _ | define _ => exact absurd hperforms.2 hwords
    | emit es aliases =>
      obtain ⟨start, hholds⟩ := hperforms
      refine ⟨start, hholds.address, ?_⟩
      rw [hholds.length]
      apply hholds.inside
      intro hnil
      have hlength := hholds.length
      rw [hnil] at hlength
      exact hwords (List.length_eq_zero_iff.mp hlength)
  · intro a ha
    exact List.mem_flatMap.mp ((mem_addresses_assemble h a).mp ha)

end Program

/-! ## Earlier places -/

namespace Layout

/-- Placing a statement does not look at where it was placed before. -/
theorem place_congr {s t : Statement} (h : unplaced s = unplaced t) (l : Layout) (n : Nat) :
    l.place n s = l.place n t := by
  have hplace : ∀ s : Statement, l.place n s = l.place n (unplaced s) := fun _ => rfl
  rw [hplace s, hplace t, h]

/-- Placing a statement changes only where it is placed. -/
theorem unplaced_of_place {l l' : Layout} {n : Nat} {s s' : Statement}
    (h : l.place n s = (s', .ok l')) : unplaced s' = unplaced s := by
  obtain ⟨effect, -, happly⟩ := apply_of_place h
  cases effect with
  | moveTo address =>
    have hs' : s' = unplaced s := (congrArg Prod.fst happly).symm
    rw [hs']
    rfl
  | define value =>
    have hs' : s' = unplaced s := (congrArg Prod.fst happly).symm
    rw [hs']
    rfl
  | emit es aliases =>
    obtain ⟨_, _, -, -, rfl⟩ := apply_emit_cases happly
    rfl

variable {n : Nat} {l l' : Layout} {ss ts ss' : List Statement}

theorem Places.unplaced_eq (h : Places n l ss ss' l') : ss'.map unplaced = ss.map unplaced := by
  induction h with
  | nil n l => rfl
  | cons hplace _ ih => rw [List.map_cons, List.map_cons, unplaced_of_place hplace, ih]

theorem Places.congr (h : Places n l ss ss' l') (hsame : ts.map unplaced = ss.map unplaced) :
    Places n l ts ss' l' := by
  induction h generalizing ts with
  | nil n l =>
    rw [List.map_nil, List.map_eq_nil_iff] at hsame
    rw [hsame]
    exact .nil n l
  | cons hplace _ ih =>
    rw [List.map_cons] at hsame
    obtain ⟨t, ts, rfl, ht, hts⟩ := List.map_eq_cons_iff.mp hsame
    refine .cons ?_ (ih hts)
    rw [place_congr ht]
    exact hplace

end Layout

theorem Statement.unplaced_readBack (s : Statement) (image : Image) :
    Layout.unplaced (s.readBack image) = Layout.unplaced s := by
  unfold readBack
  split <;> rfl

namespace Program

variable {p q placed : Program} {memLen : Nat} {image : Image}

/-- Assembling a program changes only where its statements are placed. -/
theorem unplaced_assemble (h : p.assemble memLen = (placed, .ok image)) :
    placed.map Layout.unplaced = p.map Layout.unplaced := by
  obtain ⟨ps, l, hplaces, rfl, -⟩ := assemble_ok h
  rw [List.map_map, ← hplaces.unplaced_eq]
  exact List.map_congr_left fun s _ => s.unplaced_readBack image

/-- A program is assembled as if it had not been assembled before. -/
theorem assemble_of_unplaced_eq (h : p.assemble memLen = (placed, .ok image))
    (hsame : q.map Layout.unplaced = p.map Layout.unplaced) :
    q.assemble memLen = (placed, .ok image) := by
  unfold assemble at h ⊢
  rcases hl : p.layout memLen with ⟨ps, e | l⟩
  · simp [hl] at h
  · obtain ⟨ss, hss, hplaces⟩ := Layout.placeFrom_ok hl
    rw [List.reverse_nil, List.nil_append] at hss
    have hlayout : q.layout memLen = (ps, .ok l) := by
      rw [hss]
      exact Layout.placeFrom_of_places (hplaces.congr hsame) rfl
    rw [hl] at h
    rw [hlayout]
    exact h

/-- **Accounts.**  The statements of an assembled program account for its image: with the words
    that each of them asks for, the values of labels put in, and with nothing of what they were
    before but what they say. -/
theorem assemble_accounts (h : p.assemble memLen = (placed, .ok image)) :
    image.memLen = clampMemory memLen ∧
    placed.AccountsFor image ∧
    (∀ i s, placed[i]? = some s → ∃ effect,
      Effect.ofStatement image.memLen (p.aliasesBefore i) s = .ok effect ∧
        s.Performs image effect) ∧
    placed.map Layout.unplaced = p.map Layout.unplaced ∧
    ∀ q : Program, q.map Layout.unplaced = p.map Layout.unplaced →
      q.assemble memLen = (placed, .ok image) :=
  ⟨memLen_assemble h, accountsFor_assemble h, fun _ _ hs => assembled h hs, unplaced_assemble h,
    fun _ hsame => assemble_of_unplaced_eq h hsame⟩

end Program

/-- Words up to the end of memory that wait for a label, and a word in front of them.  Its
    statement has been placed before. -/
def outpost : Program :=
  [{ op := some (.directive .org), operands := ["6"] },
   { labels := ["far"], op := some (.pseudo .lwi), operands := ["r1", "&near"] },
   { op := some (.directive .org), operands := ["2"] },
   { labels := ["near"], op := some (.pseudo .br), operands := ["&far"], address := some 9,
     words := [1, 2] }]

/-- The image of `outpost`. -/
def outpostImage : Image :=
  { Image.empty 8 with
    words := (((∅ : Std.ExtTreeMap Word Word).insert 2 0x9003).insert 6 0x7202).insert 7 0x8200
    symbols := ((∅ : SymbolTable).insert "far" 6).insert "near" 2 }

theorem assemble_accounts_outpost :
    (outpost.assemble 8).2 = .ok outpostImage ∧
    Program.AccountsFor (outpost.assemble 8).1 outpostImage := by
  have hassemble : (outpost.assemble 8).2 = .ok outpostImage := by decide +kernel
  exact ⟨hassemble, (Program.assemble_accounts (Prod.ext rfl hassemble)).2.1⟩

end AnnaToolchain
