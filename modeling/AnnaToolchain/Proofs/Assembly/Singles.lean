import AnnaToolchain.Proofs.Assembly.Straight

/-! # Programs of single words

    Where each statement is one word, statement number `i` is the word at
    address `i`.  Such a program is assembled if its labels differ, it fits
    into memory, and its branches reach their labels
    (`Program.Singles.assembles`). -/

namespace AnnaToolchain

/-- The word that a statement becomes, if it becomes one and register names stay as they are. -/
def Statement.emission? (s : Statement) : Option Emission :=
  match Effect.ofStatement maxMemory .initial s with
  | .ok (.emit [e] _) => if s.isDirective then none else some e
  | _ => none

/-- Each statement becomes one word. -/
def Program.Singles (p : Program) : Prop :=
  ∀ s ∈ p, s.emission?.isSome

section

variable {s : Statement} {e : Emission}

theorem Statement.isDirective_of_emission? (h : s.emission? = some e) : s.isDirective = false := by
  unfold emission? at h
  split at h
  · split at h
    · cases h
    · next hnot => simpa using hnot
  · cases h

theorem Statement.ofStatement_of_emission? (h : s.emission? = some e) :
    Effect.ofStatement maxMemory .initial s = .ok (.emit [e] .initial) := by
  have hnot := op_ne_of_not_directive (isDirective_of_emission? h)
  unfold emission? at h
  split at h
  · next e' aliases heffect =>
    split at h
    · cases h
    · cases h
      -- a directive alone could have given a name
      have haliases : aliases = .initial :=
        (Effect.aliases_ofStatement heffect).trans (Aliases.after_of_ne (hnot .ralias))
      rw [heffect, haliases]
  · cases h

end

theorem Program.Singles.straight {p : Program} (h : p.Singles) : p.Straight := fun s hs => by
  obtain ⟨e, he⟩ := Option.isSome_iff_exists.mp (h s hs)
  exact Statement.isDirective_of_emission? he

/-! ## Placing -/

namespace Layout

/-- A single word is placed where there is room. -/
theorem exists_place {l : Layout} {s : Statement} {e : Emission} (n : Nat) (hd : l.Dense)
    (hroom : l.cursor < l.image.memLen) (hnodup : s.labels.Nodup)
    (hfresh : ∀ label ∈ s.labels, l.labelValue? label = none)
    (heffect : Effect.ofStatement l.image.memLen l.aliases s = .ok (.emit [e] l.aliases)) :
    ∃ t l₁, l.place n s = (t, .ok l₁) ∧ t.words.length = 1 := by
  obtain ⟨l₀, hlabels⟩ := defineLabels_of_fresh hnodup hfresh l.labelAddress
  have hsame := defineLabels_ok hlabels
  have hfree : Image.get? l₀.image (next { l₀ with aliases := l.aliases }) = none := by
    rw [show next { l₀ with aliases := l.aliases } = l.next from next_congr hsame.cursor,
      hsame.get?]
    exact hd.get?_next hroom
  obtain ⟨l₁, hwrite⟩ := write_of_fresh (l := { l₀ with aliases := l.aliases }) ⟨n, 0⟩ e
    (by rw [hsame.cursor, hsame.memLen]; exact hroom) hfree
  have hwords : writeAll n { l₀ with aliases := l.aliases } [] [e] = ([e.word], .ok l₁) := by
    simp only [writeAll, List.length_nil, hwrite]
    rfl
  exact ⟨_, l₁, place_emit heffect hlabels hwords, rfl⟩

/-- Single words are placed while there is room. -/
theorem exists_places {n : Nat} {l : Layout} {ss : List Statement} (hs : l.Sound) (hd : l.Dense)
    (hmemLen : l.image.memLen = maxMemory) (haliases : l.aliases = .initial)
    (hsingles : Program.Singles ss) (hadmits : l.Admits ss)
    (hroom : l.cursor + ss.length ≤ maxMemory) : ∃ ss' l', Places n l ss ss' l' := by
  induction ss generalizing n l with
  | nil => exact ⟨[], l, .nil n l⟩
  | cons s ss ih =>
    obtain ⟨hfirst, hrest⟩ := List.forall_mem_cons.mp hsingles
    obtain ⟨e, he⟩ := Option.isSome_iff_exists.mp hfirst
    rw [List.length_cons] at hroom
    obtain ⟨t, l₁, hplace, hlength⟩ := exists_place (e := e) n hd (by omega) hadmits.head.1
      hadmits.head.2 (by rw [hmemLen, haliases]; exact Statement.ofStatement_of_emission? he)
    have hadvanced := place_advanced hs hd (Statement.isDirective_of_emission? he) hplace
    obtain ⟨_, -, happlied⟩ := place_ok hs hplace
    have hcursor := hadvanced.cursor
    obtain ⟨ss', l', hplaces⟩ := ih (n := n + 1) happlied.sound hadvanced.dense
      (hadvanced.memLen.trans hmemLen) (hadvanced.aliases.trans haliases) hrest
      (hadmits.tail hplace) (by omega)
    exact ⟨t :: ss', l', .cons hplace hplaces⟩

end Layout

/-! ## Words -/

/-- Where each statement is one word, there are as many words as statements. -/
theorem Program.offset_of_length_words {placed : Program} {i : Nat}
    (h : ∀ t ∈ placed, t.words.length = 1) (hi : i ≤ placed.length) : placed.offset i = i := by
  induction i with
  | zero => rfl
  | succ i ih =>
    have ht := List.getElem?_eq_getElem (Nat.lt_of_succ_le hi)
    rw [offset_succ ht, ih (Nat.le_of_succ_le hi), h _ (List.mem_of_getElem? ht)]

/-- **Single words** stand in the layout where their statements stand in the program. -/
theorem Layout.Places.singles {p ps : Program} {l : Layout}
    (h : Places 0 (.start maxMemory) p ps l) (hp : p.Singles) :
    l.cursor = p.length ∧ (∀ t ∈ ps, t.words.length = 1) ∧
      ∀ i s e, p[i]? = some s → Statement.emission? s = some e →
        ∃ t, ps[i]? = some t ∧ s.SameCode t ∧ t.address = some (BitVec.ofNat 16 i) ∧
          l.Holds ⟨i, 0⟩ (BitVec.ofNat 16 i) e := by
  have hsound := sound_start maxMemory
  have hmemLen : (start maxMemory).image.memLen = 65536 := rfl
  have hsame := h.labeled.same
  obtain ⟨-, hcursor, haddresses⟩ := h.addresses hsound (dense_start maxMemory) hp.straight
  -- each statement is placed as one word
  have hplaced : ∀ (i : Nat) (t : Statement), ps[i]? = some t → ∃ s e, p[i]? = some s ∧
      s.emission? = some e ∧ l.Placed i s (.emit [e] .initial) t := by
    intro i t ht
    obtain ⟨s, effect, hs, heffect, hplaced⟩ := h.get hsound ht
    rw [Nat.zero_add] at hplaced
    obtain ⟨e, he⟩ := Option.isSome_iff_exists.mp (hp s (List.mem_of_getElem? hs))
    have haliases : (p.take i).foldl Aliases.after (start maxMemory).aliases = .initial :=
      Program.aliasesBefore_of_straight hp.straight i
    rw [haliases] at heffect
    cases heffect.symm.trans (Statement.ofStatement_of_emission? he)
    exact ⟨s, e, hs, he, hplaced⟩
  have hlength : ∀ t ∈ ps, t.words.length = 1 := by
    intro t ht
    obtain ⟨i, ht⟩ := List.mem_iff_getElem?.mp ht
    obtain ⟨s, e, -, -, hplaced⟩ := hplaced i t ht
    cases hplaced
    rfl
  refine ⟨?_, hlength, fun i s e hs he => ?_⟩
  · rw [hcursor, Program.offset_of_length_words hlength (Nat.le_refl _), ← hsame.length_eq]
    exact Nat.zero_add _
  · have hlt := (List.getElem?_eq_some_iff.mp hs).1
    obtain ⟨t, ht⟩ : ∃ t, ps[i]? = some t :=
      ⟨_, List.getElem?_eq_getElem (hsame.length_eq ▸ hlt)⟩
    obtain ⟨s', e', hs', he', hplaced⟩ := hplaced i t ht
    cases hs.symm.trans hs'
    cases he.symm.trans he'
    have haddress := haddresses i t ht
    rw [Program.offset_of_length_words hlength (hsame.length_eq ▸ Nat.le_of_lt hlt), hmemLen,
      show (start maxMemory).cursor + i = i from Nat.zero_add i,
      show BitVec.ofNat 16 (i % 65536) = BitVec.ofNat 16 i from BitVec.eq_of_toNat_eq (by simp)]
      at haddress
    cases hplaced with
    | emit _ holds =>
      cases haddress
      refine ⟨_, ht, ⟨rfl, rfl, rfl, rfl⟩, rfl, ?_⟩
      have hholds := holds 0 e rfl
      rwa [Word.add_ofNat_zero] at hholds

namespace Program

variable {p placed : Program} {image : Image}

/-- **Words** of an assembled program of single words. -/
theorem Singles.assembled (hp : p.Singles) (h : p.assemble maxMemory = (placed, .ok image)) :
    (∀ i, i ≤ p.length → placed.offset i = i) ∧
      ∀ i s e, p[i]? = some s → s.emission? = some e →
        ∃ word, image.get? (BitVec.ofNat 16 i) = some word ∧
          e.Resolves image (BitVec.ofNat 16 i) word := by
  obtain ⟨ps, l, hplaces, rfl, hresolved⟩ := assemble_ok h
  obtain ⟨-, hlength, hholds⟩ := hplaces.singles hp
  refine ⟨fun i hi => offset_of_length_words ?_ ?_, fun i s e hs he => ?_⟩
  · intro t ht
    obtain ⟨t₀, ht₀, rfl⟩ := List.mem_map.mp ht
    rw [Statement.length_words_readBack, hlength t₀ ht₀]
  · rwa [List.length_map, ← hplaces.labeled.same.length_eq]
  · obtain ⟨t, -, -, -, hword⟩ := hholds i s e hs he
    exact hword.resolves hresolved

/-- A program of single words has as many words as statements. -/
theorem Singles.wordCount (hp : p.Singles) (h : p.assemble maxMemory = (placed, .ok image)) :
    image.wordCount = p.length := by
  rw [wordCount_of_straight h hp.straight, ← (sameCode_assemble h).length_eq]
  exact (hp.assembled h).1 _ (Nat.le_refl _)

/-- A word that waits for no label is found as it was made. -/
theorem Singles.wordAt {i : Nat} {s : Statement} {word : Word} (hp : p.Singles)
    (h : p.assemble maxMemory = (placed, .ok image)) (hs : p[i]? = some s)
    (he : s.emission? = some { word := word }) : image.wordAt (BitVec.ofNat 16 i) = word := by
  obtain ⟨word', hget, hresolves⟩ := (hp.assembled h).2 i s _ hs he
  rw [Image.wordAt, hget]
  exact hresolves

/-- From the first of a row of zeros at the end of a program on, memory is zero. -/
theorem Singles.wordAt_of_drop {k : Nat} {a : Word} (hp : p.Singles)
    (h : p.assemble maxMemory = (placed, .ok image))
    (hzero : ∀ s ∈ p.drop k, Statement.emission? s = some { word := 0 }) (ha : k ≤ a.toNat) :
    image.wordAt a = 0 := by
  by_cases hlt : a.toNat < p.length
  · have hs := List.getElem?_eq_getElem hlt
    have hmem : p[a.toNat] ∈ p.drop k := by
      refine List.mem_of_getElem? (i := a.toNat - k) ?_
      rw [List.getElem?_drop, Nat.add_sub_cancel' ha, hs]
    have hword := hp.wordAt h hs (hzero _ hmem)
    rwa [BitVec.ofNat_toNat, BitVec.setWidth_eq] at hword
  · refine wordAt_eq_zero h hp.straight ?_
    rw [hp.wordCount h]
    exact Nat.le_of_not_lt hlt

/-- Each word of a program that waits for a label can be patched with the address of one of its
    statements. -/
def Reaches (p : Program) : Prop :=
  ∀ i s e label, p[i]? = some s → Statement.emission? s = some e → e.label = some label →
    ∃ k t word, p[k]? = some t ∧ label ∈ Statement.labels t ∧
      Relocation.patch maxMemory (BitVec.ofNat 16 i) e.word (BitVec.ofNat 16 k) label = .ok word

/-- **Assembly** of a program of single words. -/
theorem Singles.assembles (hp : p.Singles) (hnodup : (p.flatMap (·.labels)).Nodup)
    (hlength : p.length ≤ maxMemory) (hreaches : p.Reaches) :
    ∃ placed image, p.assemble maxMemory = (placed, .ok image) := by
  have hadmits : (Layout.start maxMemory).Admits p :=
    ⟨hnodup, fun label _ => Std.ExtTreeMap.getElem?_empty⟩
  have hroom : (Layout.start maxMemory).cursor + p.length ≤ maxMemory := by
    rwa [show (Layout.start maxMemory).cursor = 0 from rfl, Nat.zero_add]
  obtain ⟨ps, l, hplaces⟩ := Layout.exists_places (Layout.sound_start maxMemory)
    (Layout.dense_start maxMemory) rfl rfl hp hadmits hroom
  obtain ⟨hcursor, -, hholds⟩ := hplaces.singles hp
  rcases assemble_cases hplaces with hok | ⟨a, r, cause, -, -, hwaiting, hr, -⟩
  · exact hok
  · -- the word that waits is that of a statement, and so can be patched
    have hdense := (hplaces.addresses (Layout.sound_start maxMemory)
      (Layout.dense_start maxMemory) hp.straight).1
    obtain ⟨word, hword⟩ := (hplaces.extends (Layout.sound_start maxMemory)).2 a r hwaiting
    have hlt : a.toNat < p.length := by
      rw [← hcursor, ← hdense.written a, hword]
      rfl
    have hs := List.getElem?_eq_getElem hlt
    obtain ⟨e, he⟩ := Option.isSome_iff_exists.mp (hp _ (List.mem_of_getElem? hs))
    obtain ⟨-, -, -, -, hhere⟩ := hholds a.toNat _ e hs he
    rw [BitVec.ofNat_toNat, BitVec.setWidth_eq] at hhere
    obtain ⟨label, hlabel, rfl⟩ := Option.map_eq_some_iff.mp (hhere.waiting.symm.trans hwaiting)
    obtain ⟨k, t, patched, ht, hmem, hpatch⟩ := hreaches a.toNat _ e label hs he hlabel
    obtain ⟨e', he'⟩ := Option.isSome_iff_exists.mp (hp t (List.mem_of_getElem? ht))
    obtain ⟨t', ht', hcode, haddress, -⟩ := hholds k t e' ht he'
    have hvalue : l.image.symbols.addressOf? label = some (BitVec.ofNat 16 k) := by
      have hnot := Statement.op_ne_of_not_directive (Statement.isDirective_of_emission? he')
      rw [← haddress, ← Statement.labelValue?_of_ne (by rw [hcode.op]; exact hnot .define)]
      exact hplaces.labeled.values t' (List.mem_of_getElem? ht') label (by rwa [hcode.labels])
    have hmemLen : l.image.memLen = maxMemory :=
      (hplaces.extends (Layout.sound_start maxMemory)).1.memLen
    rw [BitVec.ofNat_toNat, BitVec.setWidth_eq] at hpatch
    unfold Relocation.resolve at hr
    rw [hvalue] at hr
    simp only [hhere.word, Option.getD_some, hmemLen, hpatch] at hr
    cases hr

end Program

end AnnaToolchain
