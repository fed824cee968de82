import AnnaToolchain.Proofs.Assembly.Success
import AnnaToolchain.Proofs.Machine.Loading
import Mathlib.Algebra.GroupWithZero.Nat

/-! # Programs without directives

    Without directives, statements are placed one behind the other from the
    front of memory on (`Layout.Dense`).  So the address of a statement is
    the number of words before it, its *offset*, and the addresses that are
    written are those below the number of all words
    (`Program.address_of_straight`, `Program.isSome_get?_of_straight`). -/

namespace AnnaToolchain

/-- Whether a statement is a directive. -/
def Statement.isDirective (s : Statement) : Bool :=
  match s.op with
  | some (.directive _) => true
  | _ => false

theorem Statement.op_ne_of_not_directive {s : Statement} (h : s.isDirective = false)
    (kind : Directive) : s.op ≠ some (.directive kind) := by
  intro hop
  simp [isDirective, hop] at h

/-- Without a directive, what a statement does is in its mnemonic and its operands. -/
theorem Effect.ofStatement_eq {memLen : Nat} {aliases : Aliases} {s s' : Statement}
    (h : s.isDirective = false) (hop : s'.op = s.op) (hoperands : s'.operands = s.operands) :
    Effect.ofStatement memLen aliases s' = Effect.ofStatement memLen aliases s := by
  unfold ofStatement
  rw [hop, hoperands]
  cases hs : s.op with
  | none => rfl
  | some op =>
    cases op with
    | real op => rfl
    | pseudo op => rfl
    | directive kind => exact absurd hs (Statement.op_ne_of_not_directive h kind)

namespace Program

/-- No statement of the program is a directive. -/
def Straight (p : Program) : Prop :=
  ∀ s ∈ p, s.isDirective = false

/-- The number of words before statement number `i` of a program that has been placed. -/
def offset (placed : Program) (i : Nat) : Nat :=
  ((placed.take i).map (·.words.length)).sum

@[simp] theorem offset_zero (placed : Program) : placed.offset 0 = 0 := rfl

theorem offset_cons (t : Statement) (placed : Program) (i : Nat) :
    Program.offset (t :: placed) (i + 1) = t.words.length + placed.offset i := by
  simp [offset]

theorem offset_succ {placed : Program} {i : Nat} {t : Statement} (h : placed[i]? = some t) :
    placed.offset (i + 1) = placed.offset i + t.words.length := by
  unfold offset
  rw [List.take_add_one, h, Option.toList_some, List.map_append, List.sum_append]
  simp

/-- The words before statement number `i`, and those from it on. -/
theorem offset_add_drop (placed : Program) (i : Nat) :
    placed.offset i + ((placed.drop i).map (·.words.length)).sum = placed.offset placed.length := by
  unfold offset
  rw [← List.sum_append, ← List.map_append, List.take_append_drop, List.take_length]

/-- Statements without words do not count. -/
theorem offset_of_silent {placed : Program} {i : Nat}
    (h : ∀ j t, i ≤ j → placed[j]? = some t → t.words = []) :
    placed.offset i = placed.offset placed.length := by
  have hsum : ((placed.drop i).map (·.words.length)).sum = 0 := by
    rw [List.sum_eq_zero_iff_forall_eq_nat]
    intro n hn
    obtain ⟨t, ht, rfl⟩ := List.mem_map.mp hn
    obtain ⟨j, hj⟩ := List.mem_iff_getElem?.mp ht
    rw [List.getElem?_drop] at hj
    rw [h (i + j) t (Nat.le_add_right _ _) hj, List.length_nil]
  rw [← offset_add_drop placed i, hsum, Nat.add_zero]

theorem offset_le_length (placed : Program) (i : Nat) :
    placed.offset i ≤ placed.offset placed.length := by
  rw [← offset_add_drop placed i]
  exact Nat.le_add_right _ _

end Program

/-! ## Layouts without gaps -/

namespace Layout

/-- The words written are those from the front of memory up to the next address. -/
structure Dense (l : Layout) : Prop where
  inside : l.cursor ≤ l.image.memLen
  written : ∀ a : Word, (l.image.get? a).isSome ↔ a.toNat < l.cursor

variable {l l' l₁ : Layout} {s t : Statement}

theorem dense_start (memLen : Nat) : (start memLen).Dense where
  inside := Nat.zero_le _
  written := fun a => by simp [start]

theorem Dense.congr (h : l.Dense) (hmemLen : l'.image.memLen = l.image.memLen)
    (hwords : l'.image.words = l.image.words) (hcursor : l'.cursor = l.cursor) : l'.Dense := by
  refine ⟨by rw [hcursor, hmemLen]; exact h.inside, fun a => ?_⟩
  rw [hcursor, ← h.written a]
  unfold Image.get?
  rw [hwords]

/-- The next word has not been written. -/
theorem Dense.get?_next (h : l.Dense) (hroom : l.cursor < l.image.memLen) :
    l.image.get? l.next = none := by
  cases hget : l.image.get? l.next with
  | none => rfl
  | some word =>
    have hbelow := (h.written l.next).mp (by rw [hget]; rfl)
    rw [toNat_next hroom] at hbelow
    exact absurd hbelow (Nat.lt_irrefl _)

theorem Written.dense {site : Site} {e : Emission} (hw : Written l site e l') (h : l.Dense) :
    l'.Dense := by
  refine ⟨?_, fun a => ?_⟩
  · rw [hw.cursor, hw.memLen]
    exact hw.inside
  · have hnext := toNat_next hw.inside
    rw [hw.get?, hw.cursor]
    split
    · next ha =>
      rw [← ha, hnext]
      simp
    · next ha =>
      -- another address is below the new end if it was below the old one
      have hne : a.toNat ≠ l.cursor := fun heq =>
        ha (BitVec.eq_of_toNat_eq (hnext.trans heq.symm))
      rw [h.written]
      omega

theorem writeAll_dense {n : Nat} {es : List Emission} {done ws : List Word}
    (h : writeAll n l done es = (ws, .ok l')) (hd : l.Dense) : l'.Dense := by
  induction es generalizing l done with
  | nil =>
    cases h
    exact hd
  | cons e es ih =>
    unfold writeAll at h
    split at h
    · next l₁ h₁ => exact ih h ((write_ok h₁).dense hd)
    · cases h

/-- What placing a statement without directive has done to a layout without gaps. -/
structure Advanced (l : Layout) (t : Statement) (l' : Layout) : Prop where
  dense : l'.Dense
  memLen : l'.image.memLen = l.image.memLen
  cursor : l'.cursor = l.cursor + t.words.length
  aliases : l'.aliases = l.aliases

theorem place_advanced {n : Nat} (hs : l.Sound) (hd : l.Dense)
    (hstraight : s.isDirective = false) (h : l.place n s = (t, .ok l₁)) : l.Advanced t l₁ := by
  have hnot := Statement.op_ne_of_not_directive hstraight
  obtain ⟨effect, heffect, happlied⟩ := place_ok hs h
  have haliases : l₁.aliases = l.aliases := by
    rw [happlied.aliases, Effect.aliases_ofStatement heffect, Aliases.after_of_ne (hnot .ralias)]
  refine ⟨?_, happlied.extended.memLen, cursor_of_place hs h (hnot .org), haliases⟩
  rw [place_eq_apply heffect] at h
  cases Effect.ofMnemonic heffect with
  | moveTo hop _ _ _ _ => exact absurd hop (hnot .org)
  | define hop _ _ _ => exact absurd hop (hnot .define)
  | @emit es aliases _ _ =>
    obtain ⟨l₀, ws, hlabels, hw, -⟩ := apply_emit_cases h
    have hsame := defineLabels_ok hlabels
    exact writeAll_dense hw (hd.congr hsame.memLen hsame.words hsame.cursor)

/-! ## Programs -/

/-- Statements are placed where the words before them end. -/
theorem Places.addresses {n : Nat} {ss ss' : List Statement} (h : Places n l ss ss' l')
    (hs : l.Sound) (hd : l.Dense) (hstraight : Program.Straight ss) :
    l'.Dense ∧ l'.cursor = l.cursor + Program.offset ss' ss'.length ∧
      ∀ i t, ss'[i]? = some t → t.address
        = some (BitVec.ofNat 16 ((l.cursor + Program.offset ss' i) % l.image.memLen)) := by
  induction h with
  | nil n l =>
    refine ⟨hd, rfl, fun i t ht => ?_⟩
    rw [List.getElem?_nil] at ht
    cases ht
  | @cons n l l₁ l' s s' ss ss' hplace _ ih =>
    have hfirst := hstraight s List.mem_cons_self
    have hnot := Statement.op_ne_of_not_directive hfirst
    have hadvanced := place_advanced hs hd hfirst hplace
    obtain ⟨_, -, happlied⟩ := place_ok hs hplace
    obtain ⟨hdense, hcursor, haddress⟩ := ih happlied.sound hadvanced.dense
      fun s hmem => hstraight s (List.mem_cons_of_mem _ hmem)
    refine ⟨hdense, ?_, fun i t ht => ?_⟩
    · rw [hcursor, hadvanced.cursor, List.length_cons, Program.offset_cons, Nat.add_assoc]
    · cases i with
      | zero =>
        cases ht
        exact address_of_place hplace (hnot .org) (hnot .define)
      | succ i =>
        rw [haddress i t ht, hadvanced.memLen, hadvanced.cursor, Program.offset_cons,
          Nat.add_assoc]

end Layout

/-! ## Images without gaps -/

/-- An image that is written up to an address has as many words. -/
theorem Image.wordCount_eq {image : Image} {n : Nat} (hn : n ≤ maxMemory)
    (h : ∀ a : Word, (image.get? a).isSome ↔ a.toNat < n) : image.wordCount = n := by
  -- the addresses of the words are the numbers below `n`, each once
  have hword : ∀ k, k < n → (BitVec.ofNat 16 k).toNat = k := by
    intro k hk
    rw [BitVec.toNat_ofNat]
    unfold maxMemory at hn
    omega
  have hcount : image.wordCount = ((List.range n).map (BitVec.ofNat 16)).length := by
    refine wordCount_eq_length ?_ fun a => ?_
    · refine List.Nodup.map_on (fun j hj k hk heq => ?_) List.nodup_range
      rw [← hword j (List.mem_range.mp hj), ← hword k (List.mem_range.mp hk), heq]
    · rw [h a, List.mem_map]
      constructor
      · intro ha
        exact ⟨a.toNat, List.mem_range.mpr ha, BitVec.eq_of_toNat_eq (hword _ ha)⟩
      · rintro ⟨k, hk, rfl⟩
        rw [hword k (List.mem_range.mp hk)]
        exact List.mem_range.mp hk
  rw [hcount, List.length_map, List.length_range]

namespace Program

variable {p placed : Program} {memLen : Nat} {image : Image}

/-- How an assembled program without directives is placed. -/
theorem addresses_assemble (h : p.assemble memLen = (placed, .ok image)) (hp : p.Straight) :
    (∀ i t, placed[i]? = some t →
      t.address = some (BitVec.ofNat 16 (placed.offset i % image.memLen))) ∧
    placed.offset placed.length ≤ image.memLen ∧
    ∀ a : Word, (image.get? a).isSome ↔ a.toNat < placed.offset placed.length := by
  obtain ⟨ps, l, hplaces, rfl, hresolved⟩ := assemble_ok h
  have hsound := Layout.sound_start memLen
  obtain ⟨hextends, hsound'⟩ := hplaces.extends hsound
  obtain ⟨hdense, hcursor, haddress⟩ := hplaces.addresses hsound (Layout.dense_start memLen) hp
  have hmemLen : image.memLen = (Layout.start memLen).image.memLen :=
    hresolved.memLen.trans hextends.memLen
  have hstart : (Layout.start memLen).cursor = 0 := rfl
  rw [hstart, Nat.zero_add] at hcursor
  -- reading back changes neither addresses nor the number of words
  have hoffset (i : Nat) :
      Program.offset (ps.map (Statement.readBack image)) i = Program.offset ps i := by
    unfold offset
    rw [← List.map_take, List.map_map]
    simp only [Function.comp_def, Statement.length_words_readBack]
  refine ⟨fun i t ht => ?_, ?_, fun a => ?_⟩
  · obtain ⟨t₀, ht₀, rfl⟩ := Option.map_eq_some_iff.mp (List.getElem?_map.symm.trans ht)
    rw [Statement.address_readBack, haddress i t₀ ht₀, hstart, Nat.zero_add, hmemLen, hoffset]
  · rw [hoffset, List.length_map, ← hcursor, hresolved.memLen]
    exact hdense.inside
  · rw [hoffset, List.length_map, ← hcursor, ← hdense.written a, hresolved.isSome_get? hsound']

theorem wordCount_of_straight (h : p.assemble memLen = (placed, .ok image)) (hp : p.Straight) :
    image.wordCount = placed.offset placed.length := by
  obtain ⟨-, hle, hwritten⟩ := addresses_assemble h hp
  exact Image.wordCount_eq (Nat.le_trans hle image.memLen_le) hwritten

/-- **Words** stand at the addresses below their number. -/
theorem isSome_get?_of_straight (h : p.assemble memLen = (placed, .ok image)) (hp : p.Straight)
    (a : Word) : (image.get? a).isSome ↔ a.toNat < image.wordCount := by
  rw [wordCount_of_straight h hp]
  exact (addresses_assemble h hp).2.2 a

/-- Behind its last word an assembled program leaves memory as it was. -/
theorem wordAt_eq_zero {a : Word} (h : p.assemble memLen = (placed, .ok image)) (hp : p.Straight)
    (ha : image.wordCount ≤ a.toNat) : image.wordAt a = 0 := by
  have hword := isSome_get?_of_straight h hp a
  unfold Image.wordAt
  cases hget : image.get? a with
  | none => rfl
  | some word =>
    rw [hget] at hword
    exact absurd (hword.mp rfl) (Nat.not_lt.mpr ha)

/-- **Addresses** are numbers of words. -/
theorem address_of_straight (h : p.assemble maxMemory = (placed, .ok image)) (hp : p.Straight)
    {i : Nat} {t : Statement} (ht : placed[i]? = some t) :
    t.address = some (BitVec.ofNat 16 (placed.offset i)) := by
  have hmemLen : image.memLen = 65536 := memLen_assemble h
  rw [(addresses_assemble h hp).1 i t ht, hmemLen]
  congr 1
  apply BitVec.eq_of_toNat_eq
  simp

theorem offset_le_maxMemory (h : p.assemble memLen = (placed, .ok image)) (hp : p.Straight)
    (i : Nat) : placed.offset i ≤ maxMemory :=
  calc placed.offset i ≤ placed.offset placed.length := placed.offset_le_length i
    _ ≤ image.memLen := (addresses_assemble h hp).2.1
    _ ≤ maxMemory := image.memLen_le

/-- Without directives registers keep their own names. -/
theorem aliasesBefore_of_straight (hp : p.Straight) (i : Nat) : p.aliasesBefore i = .initial := by
  unfold aliasesBefore
  have hnot : ∀ s ∈ p.take i, s.op ≠ some (.directive .ralias) := fun s hs =>
    Statement.op_ne_of_not_directive (hp s (List.mem_of_mem_take hs)) _
  generalize p.take i = ss at hnot
  induction ss with
  | nil => rfl
  | cons s ss ih =>
    rw [List.foldl_cons, Aliases.after_of_ne (hnot s List.mem_cons_self)]
    exact ih fun s hs => hnot s (List.mem_cons_of_mem _ hs)

end Program

end AnnaToolchain
