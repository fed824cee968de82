import AnnaToolchain.Assembly
import AnnaToolchain.Proofs.Assembly.Placement
import AnnaToolchain.Proofs.Maps
import Mathlib.Data.List.Nodup

/-! # Assembled statements

    Patching gives each waiting word the value of its label and leaves all
    other words alone (`Resolved`).  A patched word goes into the image by
    its address and into the program by its site, and these are one place
    (`Sited`), so that statements keep the words the image has
    (`Program.InStep`).  Together with how statements are placed this says
    what an assembled program holds: each statement that writes words has
    them, in its own record and in the image, from its address on
    (`Program.assembled`). -/

namespace AnnaToolchain

/-! ## Patching -/

namespace Relocation

/-- The image `image'` is `image` with the waiting words `rs` patched. -/
structure Resolved (image : Image) (rs : List (Word × Relocation)) (image' : Image) : Prop where
  memLen : image'.memLen = image.memLen
  symbols : image'.symbols = image.symbols
  kept : ∀ address, (∀ r, (address, r) ∉ rs) → image'.get? address = image.get? address
  patched : ∀ address r, (address, r) ∈ rs →
    ∃ word, resolve image address r.label = .ok word ∧ image'.get? address = some word

/-- What is patched into a word does not depend on other words. -/
theorem resolve_set_ne (image : Image) {address a : Word} (word : Word) (h : a ≠ address)
    (label : String) : resolve (image.set a word) address label = resolve image address label := by
  unfold resolve
  rw [Image.get?_set_ne image word h]
  rfl

theorem resolveAll_ok {p p' : Program} {image image' : Image} {rs : List (Word × Relocation)}
    (hd : rs.Pairwise fun x y => x.1 ≠ y.1) (h : resolveAll p image rs = (p', .ok image')) :
    Resolved image rs image' := by
  -- addresses differ, so what is patched first is not patched again
  induction rs generalizing p image with
  | nil =>
    cases h
    exact ⟨rfl, rfl, fun _ _ => rfl, nofun⟩
  | cons x rs ih =>
    obtain ⟨a, r⟩ := x
    rw [List.pairwise_cons] at hd
    obtain ⟨hne, hrs⟩ := hd
    unfold resolveAll at h
    cases hr : resolve image a r.label with
    | error cause => simp [hr] at h
    | ok word =>
      simp only [hr] at h
      have hrest := ih hrs h
      refine ⟨hrest.memLen, hrest.symbols, ?_, ?_⟩
      · intro address hnot
        have ha : a ≠ address := by
          rintro rfl
          exact hnot r (List.mem_cons_self ..)
        rw [hrest.kept address fun r' hmem => hnot r' (List.mem_cons_of_mem _ hmem),
          Image.get?_set_ne image word ha]
      · intro address r' hmem
        rcases List.mem_cons.mp hmem with heq | hmem
        · cases heq
          -- the words patched later stand at other addresses
          have hlater : ∀ r', (a, r') ∉ rs := fun r' hr' => hne (a, r') hr' rfl
          refine ⟨word, hr, ?_⟩
          rw [hrest.kept a hlater, Image.get?_set_self]
        · obtain ⟨word', hword', hget⟩ := hrest.patched address r' hmem
          rw [resolve_set_ne image word (hne _ hmem)] at hword'
          exact ⟨word', hword', hget⟩

/-- Patching writes at no new address. -/
theorem Resolved.isSome_get? {l : Layout} {image : Image} (hs : l.Sound)
    (h : Resolved l.image l.relocations.toList image) (a : Word) :
    (image.get? a).isSome = (l.image.get? a).isSome := by
  by_cases hwaiting : ∃ r, (a, r) ∈ l.relocations.toList
  · obtain ⟨r, hr⟩ := hwaiting
    obtain ⟨word, -, hword⟩ := h.patched a r hr
    obtain ⟨word', hword'⟩ := hs a r (Std.ExtTreeMap.mem_toList_iff_getElem?_eq_some.mp hr)
    rw [hword, hword']
    rfl
  · rw [h.kept a fun r hr => hwaiting ⟨r, hr⟩]

end Relocation

/-- The word `word` at `address` is what an emission becomes once labels have their values. -/
def Emission.Resolves (image : Image) (address : Word) (e : Emission) (word : Word) : Prop :=
  match e.label with
  | none => word = e.word
  | some label =>
    ∃ target, image.symbols.addressOf? label = some target ∧
      Relocation.patch image.memLen address e.word target label = .ok word

theorem Layout.Holds.resolves {l : Layout} {site : Site} {address : Word} {e : Emission}
    {image : Image} (h : l.Holds site address e)
    (hr : Relocation.Resolved l.image l.relocations.toList image) :
    ∃ word, image.get? address = some word ∧ e.Resolves image address word := by
  -- the word waits for a label if and only if the emission has one
  have hmem : ∀ r, (address, r) ∈ l.relocations.toList ↔
      (e.label.map fun label => (⟨label, site⟩ : Relocation)) = some r := by
    intro r
    rw [Std.ExtTreeMap.mem_toList_iff_getElem?_eq_some, h.waiting]
  unfold Emission.Resolves
  cases hl : e.label with
  | none =>
    refine ⟨e.word, ?_, rfl⟩
    rw [hr.kept address fun r hrel => ?_]
    · exact h.word
    · rw [hmem, hl] at hrel
      cases hrel
  | some label =>
    obtain ⟨word, hword, hget⟩ := hr.patched address ⟨label, site⟩ (by rw [hmem, hl]; rfl)
    refine ⟨word, hget, ?_⟩
    unfold Relocation.resolve at hword
    rw [h.word, ← hr.symbols, ← hr.memLen] at hword
    cases ht : image.symbols.addressOf? label with
    | none => simp [ht] at hword
    | some target =>
      simp only [ht] at hword
      exact ⟨target, ht, hword⟩

/-! ## Statements in step with an image -/

namespace Statement

/-- A statement with its words as an image has them. -/
def readBack (image : Image) (s : Statement) : Statement :=
  match s.address with
  | none => s
  | some start =>
    { s with
      words := s.words.zipIdx.map fun (w, i) =>
        (image.get? (start + BitVec.ofNat 16 i)).getD w }

variable {s : Statement} {image image' : Image} {start a word : Word} {k : Nat}

theorem address_readBack (s : Statement) (image : Image) :
    (s.readBack image).address = s.address := by
  unfold readBack
  split <;> rfl

@[simp] theorem length_words_readBack (s : Statement) (image : Image) :
    (s.readBack image).words.length = s.words.length := by
  unfold readBack
  split <;> simp

theorem addresses_readBack (s : Statement) (image : Image) :
    (s.readBack image).addresses = s.addresses := by
  unfold addresses
  rw [address_readBack, length_words_readBack]

theorem getElem?_readBack (h : s.address = some start) (image : Image) (k : Nat) :
    (s.readBack image).words[k]?
      = s.words[k]?.map fun word => (image.get? (start + BitVec.ofNat 16 k)).getD word := by
  unfold readBack
  simp only [h, List.getElem?_map, List.getElem?_zipIdx, Option.map_map]
  cases s.words[k]? <;> simp

/-- Nothing but the words is read back. -/
theorem readBack_eq (s : Statement) (image : Image) :
    s.readBack image = { s with words := (s.readBack image).words } := by
  unfold readBack
  split <;> rfl

/-- What is read back depends on the addresses of the statement. -/
theorem readBack_congr (h : ∀ a ∈ s.addresses, image'.get? a = image.get? a) :
    s.readBack image' = s.readBack image := by
  cases hs : s.address with
  | none =>
    unfold readBack
    rw [hs]
  | some start =>
    have hwords : (s.readBack image').words = (s.readBack image).words := by
      apply List.ext_getElem?
      intro k
      rw [getElem?_readBack hs, getElem?_readBack hs]
      cases hk : s.words[k]? with
      | none => rfl
      | some word =>
        have hlt := (List.getElem?_eq_some_iff.mp hk).1
        rw [h _ (mem_addresses.mpr ⟨start, k, hs, hlt, rfl⟩)]
    rw [readBack_eq s image', hwords, ← readBack_eq]

/-- What has been read back is overwritten by what is read back next. -/
theorem readBack_readBack (h : ∀ a ∈ s.addresses, (image'.get? a).isSome) :
    (s.readBack image).readBack image' = s.readBack image' := by
  cases hs : s.address with
  | none =>
    have hnone : s.readBack image = s := by
      unfold readBack
      rw [hs]
    rw [hnone]
  | some start =>
    have hwords : ((s.readBack image).readBack image').words = (s.readBack image').words := by
      apply List.ext_getElem?
      intro k
      rw [getElem?_readBack ((address_readBack s image).trans hs), getElem?_readBack hs,
        getElem?_readBack hs]
      cases hk : s.words[k]? with
      | none => rfl
      | some word =>
        have hlt := (List.getElem?_eq_some_iff.mp hk).1
        obtain ⟨w, hw⟩ := Option.isSome_iff_exists.mp
          (h _ (mem_addresses.mpr ⟨start, k, hs, hlt, rfl⟩))
        simp [hw]
    rw [readBack_eq (s.readBack image), hwords, readBack_eq s image', readBack_eq s image]

/-- Words of a statement that differ stand at different addresses. -/
theorem eq_of_nodup_addresses {j k : Nat} (hnodup : s.addresses.Nodup)
    (hs : s.address = some start) (hj : j < s.words.length) (hk : k < s.words.length)
    (h : start + BitVec.ofNat 16 j = start + BitVec.ofNat 16 k) : j = k := by
  unfold addresses at hnodup
  rw [hs] at hnodup
  exact List.inj_on_of_nodup_map hnodup (List.mem_range.mpr hj) (List.mem_range.mpr hk) h

/-- A word that is set in the image is set in the statement. -/
theorem readBack_set (hsame : s.readBack image = s) (hnodup : s.addresses.Nodup)
    (hs : s.address = some start) (hk : k < s.words.length) (word : Word) :
    s.readBack (image.set (start + BitVec.ofNat 16 k) word)
      = { s with words := s.words.set k word } := by
  have hwords : (s.readBack (image.set (start + BitVec.ofNat 16 k) word)).words
      = s.words.set k word := by
    apply List.ext_getElem?
    intro j
    rw [getElem?_readBack hs, List.getElem?_set]
    by_cases hj : k = j
    · rw [if_pos hj, if_pos hk, ← hj, List.getElem?_eq_getElem hk, Image.get?_set_self]
      rfl
    · -- the other words stand at other addresses
      rw [if_neg hj]
      have hword := getElem?_readBack hs image j
      rw [hsame] at hword
      cases hword' : s.words[j]? with
      | none => rfl
      | some w =>
        have hlt := (List.getElem?_eq_some_iff.mp hword').1
        have hne : start + BitVec.ofNat 16 k ≠ start + BitVec.ofNat 16 j :=
          fun heq => hj (eq_of_nodup_addresses hnodup hs hk hlt heq)
        rw [hword'] at hword
        rw [Option.map_some, Image.get?_set_ne image word hne]
        exact hword.symm
  rw [readBack_eq, hwords]

end Statement

namespace Program

/-- The addresses of the words of a program, statement by statement. -/
def addresses (p : Program) : List Word :=
  p.flatMap Statement.addresses

/-- The statements of a program have the words an image has at their addresses, and no two words
    have one address. -/
structure InStep (p : Program) (image : Image) : Prop where
  nodup : p.addresses.Nodup
  written : ∀ a ∈ p.addresses, (image.get? a).isSome
  same : ∀ s ∈ p, s.readBack image = s

/-- The word at an address is the one that stands at `site`. -/
def Sited (p : Program) (address : Word) (site : Site) : Prop :=
  ∃ s start, p[site.statement]? = some s ∧ s.address = some start ∧
    site.word < s.words.length ∧ start + BitVec.ofNat 16 site.word = address

variable {p : Program} {image image' : Image}

theorem InStep.nodup_statement (h : p.InStep image) {s : Statement} (hs : s ∈ p) :
    s.addresses.Nodup :=
  (List.nodup_flatMap.mp h.nodup).1 s hs

theorem InStep.written_statement (h : p.InStep image) {s : Statement} (hs : s ∈ p) {a : Word}
    (ha : a ∈ s.addresses) : (image.get? a).isSome :=
  h.written a (List.mem_flatMap.mpr ⟨s, hs, ha⟩)

/-- A statement that has the word at an address shares it with no other. -/
theorem InStep.not_mem_addresses (h : p.InStep image) {i j : Nat} {s t : Statement} {a : Word}
    (hi : p[i]? = some s) (hj : p[j]? = some t) (hij : i ≠ j) (ha : a ∈ s.addresses) :
    a ∉ t.addresses := by
  have hdisjoint := List.pairwise_iff_getElem.mp (List.nodup_flatMap.mp h.nodup).2
  obtain ⟨hi', rfl⟩ := List.getElem?_eq_some_iff.mp hi
  obtain ⟨hj', rfl⟩ := List.getElem?_eq_some_iff.mp hj
  intro ha'
  rcases Nat.lt_or_gt_of_ne hij with hlt | hlt
  · exact hdisjoint i j hi' hj' hlt ha ha'
  · exact hdisjoint j i hj' hi' hlt ha' ha

/-- **A patched word** goes to one place: it is put where it stands in the program, and that is
    where it is read back from the image. -/
theorem InStep.record (h : p.InStep image) {a : Word} {site : Site} (hsite : p.Sited a site)
    (word : Word) :
    Relocation.record p site word = p.map (Statement.readBack (image.set a word)) := by
  obtain ⟨s, start, hs, hstart, hk, rfl⟩ := hsite
  have hmem := List.mem_of_getElem? hs
  apply List.ext_getElem?
  intro i
  rw [Relocation.record, List.getElem?_modify, List.getElem?_map]
  cases ht : p[i]? with
  | none => rfl
  | some t =>
    by_cases hi : site.statement = i
    · rw [hi, ht] at hs
      cases hs
      simp [hi, Statement.readBack_set (h.same s hmem) (h.nodup_statement hmem) hstart hk word]
    · -- the word is none of this statement
      have hnot := h.not_mem_addresses hs ht hi (Statement.mem_addresses.mpr
        ⟨start, site.word, hstart, hk, rfl⟩)
      have hsame : t.readBack (image.set (start + BitVec.ofNat 16 site.word) word)
          = t.readBack image :=
        Statement.readBack_congr fun a ha => Image.get?_set_ne image word fun heq =>
          hnot (heq ▸ ha)
      simp [hi, hsame, h.same t (List.mem_of_getElem? ht)]

/-- A program that is read back is in step, if its words are in the image. -/
theorem InStep.readBack (h : p.InStep image)
    (hwritten : ∀ a, (image.get? a).isSome → (image'.get? a).isSome) :
    Program.InStep (p.map (Statement.readBack image')) image' := by
  have haddresses : Program.addresses (p.map (Statement.readBack image')) = p.addresses := by
    unfold addresses
    rw [List.flatMap_map]
    exact List.flatMap_congr fun s _ => s.addresses_readBack image'
  refine ⟨by rw [haddresses]; exact h.nodup, ?_, ?_⟩
  · intro a ha
    rw [haddresses] at ha
    exact hwritten a (h.written a ha)
  · intro t ht
    obtain ⟨s, hs, rfl⟩ := List.mem_map.mp ht
    exact Statement.readBack_readBack fun a ha => hwritten a (h.written_statement hs ha)

end Program

/-- What has a word in an image has one when the image has been patched. -/
theorem Relocation.isSome_get?_resolveAll {p p' : Program} {image image' : Image}
    {rs : List (Word × Relocation)} (h : resolveAll p image rs = (p', .ok image')) {a : Word}
    (ha : (image.get? a).isSome) : (image'.get? a).isSome := by
  induction rs generalizing p image with
  | nil =>
    cases h
    exact ha
  | cons x rs ih =>
    unfold resolveAll at h
    cases hr : resolve image x.1 x.2.label with
    | error cause => simp [hr] at h
    | ok word =>
      simp only [hr] at h
      refine ih h ?_
      rw [Image.get?_set]
      split
      · rfl
      · exact ha

/-- **Patching** a program in step with an image leaves it in step with the patched image. -/
theorem Relocation.resolveAll_program {p p' : Program} {image image' : Image}
    {rs : List (Word × Relocation)} (hp : p.InStep image)
    (hsited : ∀ a r, (a, r) ∈ rs → p.Sited a r.site)
    (h : resolveAll p image rs = (p', .ok image')) : p' = p.map (Statement.readBack image') := by
  induction rs generalizing p image with
  | nil =>
    have hkept : p.map (Statement.readBack image) = p := by
      rw [List.map_congr_left hp.same, List.map_id']
    cases h
    exact hkept.symm
  | cons x rs ih =>
    obtain ⟨a, r⟩ := x
    unfold resolveAll at h
    cases hr : resolve image a r.label with
    | error cause => simp [hr] at h
    | ok word =>
      simp only [hr, hp.record (hsited a r List.mem_cons_self)] at h
      have hkept : ∀ b, (image.get? b).isSome → ((image.set a word).get? b).isSome := by
        intro b hb
        rw [Image.get?_set]
        split
        · rfl
        · exact hb
      have hrest := ih (hp.readBack hkept) ?_ h
      · rw [hrest, List.map_map]
        refine List.map_congr_left fun s hs => Statement.readBack_readBack fun b hb => ?_
        exact isSome_get?_resolveAll h (hkept b (hp.written_statement hs hb))
      · -- the words stand where they stood
        intro b r' hmem
        obtain ⟨s, start, hs, hstart, hk, hb⟩ := hsited b r' (List.mem_cons_of_mem _ hmem)
        refine ⟨s.readBack (image.set a word), start, ?_, ?_, ?_, hb⟩
        · rw [List.getElem?_map, hs]
          rfl
        · rw [Statement.address_readBack, hstart]
        · rw [Statement.length_words_readBack]
          exact hk

/-- An image has as many words as there are addresses with one. -/
theorem Image.wordCount_eq_length {image : Image} {as : List Word} (hnodup : as.Nodup)
    (h : ∀ a : Word, (image.get? a).isSome ↔ a ∈ as) : image.wordCount = as.length := by
  have hperm : image.words.keys.Perm as := by
    refine (List.perm_ext_iff_of_nodup Std.ExtTreeMap.nodup_keys hnodup).mpr fun a => ?_
    rw [← h a, Image.get?, ← Std.ExtTreeMap.contains_eq_isSome_getElem?,
      Std.ExtTreeMap.contains_iff_mem, ← Std.ExtTreeMap.mem_keys]
  rw [wordCount, ← Std.ExtTreeMap.length_keys, hperm.length_eq]

/-! ## Placed programs -/

namespace Layout

variable {l : Layout} {n : Nat} {s s' : Statement} {effect : Effect}

theorem Placed.nodup_addresses (h : l.Placed n s effect s') : s'.addresses.Nodup := by
  cases h with
  | moveTo address | define value => exact List.nodup_nil
  | @emit es _ start inside _ =>
    show ((List.range (es.map (·.word)).length).map _).Nodup
    refine List.Nodup.map_on ?_ List.nodup_range
    intro j hj k hk heq
    rw [List.mem_range, List.length_map] at hj hk
    -- the words end where memory ends, so that addresses do not come round
    have hend := inside (List.ne_nil_of_length_pos (by omega))
    have hmax := l.image.memLen_le
    unfold maxMemory at hmax
    have hnat := congrArg BitVec.toNat heq
    simp only [BitVec.toNat_add, BitVec.toNat_ofNat] at hnat
    omega

theorem Placed.readBack_eq (h : l.Placed n s effect s') : s'.readBack l.image = s' := by
  cases h with
  | moveTo address | define value => rfl
  | @emit es _ start _ holds =>
    have hwords : (Statement.readBack l.image
        { s with address := some start, words := es.map (·.word) }).words
        = es.map (·.word) := by
      apply List.ext_getElem?
      intro k
      rw [Statement.getElem?_readBack rfl]
      cases he : es[k]? with
      | none => simp [he]
      | some e => simp [he, (holds k e he).word]
    rw [Statement.readBack_eq, hwords]

variable {memLen : Nat} {p ps : Program}

/-- A program that has been placed has the words of its layout. -/
theorem Places.inStep (h : Places 0 (start memLen) p ps l) : ps.InStep l.image := by
  have hplaced : ∀ t ∈ ps, ∃ i s effect, l.Placed i s effect t := by
    intro t ht
    obtain ⟨i, hi⟩ := List.mem_iff_getElem?.mp ht
    obtain ⟨s, effect, -, -, hplaced⟩ := h.get (sound_start memLen) hi
    exact ⟨_, s, effect, hplaced⟩
  refine ⟨List.nodup_flatMap.mpr ⟨?_, h.disjoint (sound_start memLen)⟩, ?_, ?_⟩
  · intro t ht
    obtain ⟨_, _, _, hplaced⟩ := hplaced t ht
    exact hplaced.nodup_addresses
  · intro a ha
    obtain ⟨t, ht, hmem⟩ := List.mem_flatMap.mp ha
    obtain ⟨_, _, _, hplaced⟩ := hplaced t ht
    exact hplaced.written hmem
  · intro t ht
    obtain ⟨_, _, _, hplaced⟩ := hplaced t ht
    exact hplaced.readBack_eq

/-- **Sites.**  A word that waits stands in the program where its site says. -/
theorem Places.sited (h : Places 0 (start memLen) p ps l) {a : Word} {r : Relocation}
    (hr : l.relocations[a]? = some r) : ps.Sited a r.site := by
  -- it has been written, and so it is a word of a statement
  obtain ⟨word, hword⟩ := (h.extends (sound_start memLen)).2 a r hr
  obtain ⟨t, ht, ha⟩ : ∃ t ∈ ps, a ∈ t.addresses := by
    rcases h.covered (sound_start memLen) (a := a) (by rw [hword]; rfl) with hbefore | hmem
    · simp [start] at hbefore
    · exact hmem
  obtain ⟨i, hi⟩ := List.mem_iff_getElem?.mp ht
  obtain ⟨s, effect, -, -, hplaced⟩ := h.get (sound_start memLen) hi
  rw [Nat.zero_add] at hplaced
  cases hplaced with
  | moveTo address | define value => cases ha
  | @emit es _ start _ holds =>
    obtain ⟨start', k, hstart, hk, rfl⟩ := Statement.mem_addresses.mp ha
    cases hstart
    have hk' : k < es.length := by simpa using hk
    -- the site was noted when the word was written
    have hwaiting := (holds k es[k] (List.getElem?_eq_getElem hk')).waiting
    rw [hr] at hwaiting
    obtain ⟨label, -, rfl⟩ := Option.map_eq_some_iff.mp hwaiting.symm
    exact ⟨_, start, hi, rfl, hk, rfl⟩

end Layout

/-! ## Assembled statements -/

/-- The words of a statement, from the address `start` on, are what its emissions become. -/
structure Statement.Holds (s : Statement) (image : Image) (start : Word) (es : List Emission) :
    Prop where
  address : s.address = some start
  inside : es ≠ [] → start.toNat + es.length ≤ image.memLen
  length : s.words.length = es.length
  words : ∀ k e, es[k]? = some e → ∃ word, s.words[k]? = some word ∧
    image.get? (start + BitVec.ofNat 16 k) = some word ∧
    e.Resolves image (start + BitVec.ofNat 16 k) word

/-- What an effect leaves in a statement: it has written its words, or has none and no address. -/
def Statement.Performs (s : Statement) (image : Image) : Effect → Prop
  | .moveTo _ | .define _ => s.address = none ∧ s.words = []
  | .emit es _ => ∃ start, s.Holds image start es

namespace Layout

variable {l : Layout} {n : Nat} {s s' : Statement} {effect : Effect} {image : Image}

/-- What a statement does depends on neither its address nor its words. -/
theorem Placed.ofStatement_readBack (h : l.Placed n s effect s') (memLen : Nat)
    (aliases : Aliases) : Effect.ofStatement memLen aliases (s'.readBack image)
      = Effect.ofStatement memLen aliases s := by
  cases h <;> rfl

/-- A statement that has been placed does in the end what it was placed by. -/
theorem Placed.performs (h : l.Placed n s effect s')
    (hr : Relocation.Resolved l.image l.relocations.toList image) :
    (s'.readBack image).Performs image effect := by
  cases h with
  | moveTo _ | define _ => exact ⟨rfl, rfl⟩
  | @emit _ _ start inside holds =>
    refine ⟨start, rfl, ?_, ?_, ?_⟩
    · rw [hr.memLen]
      exact inside
    · simp [Statement.readBack]
    · intro k e hk
      obtain ⟨word, hget, hres⟩ := (holds k e hk).resolves hr
      refine ⟨word, ?_, hget, hres⟩
      rw [Statement.getElem?_readBack rfl, hget]
      simp [hk]

end Layout

theorem Program.assemble_ok {p placed : Program} {memLen : Nat} {image : Image}
    (h : p.assemble memLen = (placed, .ok image)) :
    ∃ ps l, Layout.Places 0 (.start memLen) p ps l ∧
      placed = ps.map (Statement.readBack image) ∧
      Relocation.Resolved l.image l.relocations.toList image := by
  unfold assemble at h
  rcases hl : p.layout memLen with ⟨ps, e | l⟩
  · simp [hl] at h
  · simp only [hl] at h
    obtain ⟨ss, hss, hplaces⟩ := Layout.placeFrom_ok hl
    rw [List.reverse_nil, List.nil_append] at hss
    subst hss
    refine ⟨ps, l, hplaces, Relocation.resolveAll_program hplaces.inStep ?_ h,
      Relocation.resolveAll_ok (pairwise_toList _) h⟩
    intro a r hmem
    exact hplaces.sited (Std.ExtTreeMap.mem_toList_iff_getElem?_eq_some.mp hmem)

/-- An assembled program has the words of its image. -/
theorem Program.inStep_assemble {p placed : Program} {memLen : Nat} {image : Image}
    (h : p.assemble memLen = (placed, .ok image)) : placed.InStep image := by
  obtain ⟨ps, l, hplaces, rfl, hresolved⟩ := assemble_ok h
  refine hplaces.inStep.readBack fun a ha => ?_
  rw [hresolved.isSome_get? (hplaces.extends (Layout.sound_start memLen)).2]
  exact ha

theorem Program.memLen_assemble {p placed : Program} {memLen : Nat} {image : Image}
    (h : p.assemble memLen = (placed, .ok image)) : image.memLen = clampMemory memLen := by
  obtain ⟨ps, l, hplaces, -, hresolved⟩ := assemble_ok h
  exact hresolved.memLen.trans (hplaces.extends (Layout.sound_start memLen)).1.memLen

/-- **Every statement** of an assembled program has done what it says with the names in force where
    it stands.  If it writes words, it holds them. -/
theorem Program.assembled {p placed : Program} {memLen : Nat} {image : Image}
    (h : p.assemble memLen = (placed, .ok image)) {i : Nat} {s : Statement}
    (hs : placed[i]? = some s) :
    ∃ effect, Effect.ofStatement image.memLen (p.aliasesBefore i) s = .ok effect ∧
      s.Performs image effect := by
  have hmemLen : image.memLen = (Layout.start memLen).image.memLen := memLen_assemble h
  obtain ⟨ps, l, hplaces, rfl, hresolved⟩ := assemble_ok h
  obtain ⟨s', hs', rfl⟩ : ∃ s', ps[i]? = some s' ∧ s'.readBack image = s := by
    simpa using hs
  obtain ⟨s₀, effect, hs₀, heffect, hplaced⟩ := hplaces.get (Layout.sound_start memLen) hs'
  refine ⟨effect, ?_, hplaced.performs hresolved⟩
  rw [hmemLen, hplaced.ofStatement_readBack]
  exact heffect

end AnnaToolchain
