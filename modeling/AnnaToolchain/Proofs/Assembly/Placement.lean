import AnnaToolchain.Assembly.Layout
import AnnaToolchain.Proofs.Assembly.Aliases

/-! # Placed statements

    A program that can be placed is placed statement by statement
    (`Places`).  What has been written stays as it is (`Extends`), and only
    what has been written can wait for a label (`Sound`); so each word of a
    statement, and the label it waits for, are found in the finished layout
    where they were put (`Places.get`).  Statements write where nothing has
    been written yet, so that no two of them have an address in common
    (`Places.disjoint`), and nothing else is written (`Places.covered`). -/

namespace AnnaToolchain

/-- The addresses of a statement's words. -/
def Statement.addresses (s : Statement) : List Word :=
  match s.address with
  | none => []
  | some start => (List.range s.words.length).map fun k => start + BitVec.ofNat 16 k

theorem Statement.mem_addresses {s : Statement} {a : Word} :
    a ∈ s.addresses ↔
      ∃ start k, s.address = some start ∧ k < s.words.length ∧ start + BitVec.ofNat 16 k = a := by
  unfold addresses
  cases s.address with
  | none => simp
  | some start => simp

namespace Layout

/-! ## What stays -/

/-- What a layout has written, the layout `l'` has as well. -/
structure Extends (l l' : Layout) : Prop where
  memLen : l'.image.memLen = l.image.memLen
  words : ∀ address word, l.image.get? address = some word → l'.image.get? address = some word
  waiting : ∀ address word, l.image.get? address = some word →
    l'.relocations[address]? = l.relocations[address]?

theorem Extends.refl (l : Layout) : Extends l l :=
  ⟨rfl, fun _ _ h => h, fun _ _ _ => rfl⟩

theorem Extends.trans {l l' l'' : Layout} (h : Extends l l') (h' : Extends l' l'') :
    Extends l l'' where
  memLen := h'.memLen.trans h.memLen
  words := fun a w ha => h'.words a w (h.words a w ha)
  waiting := fun a w ha => (h'.waiting a w (h.words a w ha)).trans (h.waiting a w ha)

/-- Only words that have been written wait for a label. -/
def Sound (l : Layout) : Prop :=
  ∀ address r, l.relocations[address]? = some r → ∃ word, l.image.get? address = some word

theorem Sound.waiting_eq_none {l : Layout} (h : l.Sound) {address : Word}
    (hn : l.image.get? address = none) : l.relocations[address]? = none := by
  cases hr : l.relocations[address]? with
  | none => rfl
  | some r =>
    obtain ⟨word, hw⟩ := h address r hr
    rw [hn] at hw
    cases hw

theorem sound_start (memLen : Nat) : (start memLen).Sound := by
  intro address r h
  simp [start] at h

/-! ## Labels -/

/-- A layout with the same words, the same words waiting and the same place to go on. -/
structure SameWords (l l' : Layout) : Prop where
  memLen : l'.image.memLen = l.image.memLen
  words : l'.image.words = l.image.words
  waiting : l'.relocations = l.relocations
  cursor : l'.cursor = l.cursor
  aliases : l'.aliases = l.aliases

theorem SameWords.get? {l l' : Layout} (h : SameWords l l') (address : Word) :
    l'.image.get? address = l.image.get? address := by
  unfold Image.get?
  rw [h.words]

theorem SameWords.extends {l l' : Layout} (h : SameWords l l') : Extends l l' where
  memLen := h.memLen
  words := fun a w ha => by rw [h.get?, ha]
  waiting := fun a w _ => by rw [h.waiting]

theorem SameWords.sound {l l' : Layout} (h : SameWords l l') (hs : l.Sound) : l'.Sound := by
  intro address r hr
  rw [h.waiting] at hr
  rw [h.get?]
  exact hs address r hr

theorem defineLabel_ok {value : Word} {l l' : Layout} {label : String}
    (h : defineLabel value l label = .ok l') : SameWords l l' := by
  unfold defineLabel at h
  split at h
  · cases h
    exact ⟨rfl, rfl, rfl, rfl, rfl⟩
  · cases h

theorem defineLabels_ok {l l' : Layout} {labels : List String} {value : Word}
    (h : l.defineLabels labels value = .ok l') : SameWords l l' := by
  induction labels generalizing l with
  | nil =>
    cases h
    exact ⟨rfl, rfl, rfl, rfl, rfl⟩
  | cons label labels ih =>
    obtain ⟨l₁, h₁, h₂⟩ := bind_eq_ok h
    have first := defineLabel_ok h₁
    have rest := ih h₂
    exact ⟨rest.memLen.trans first.memLen, rest.words.trans first.words,
      rest.waiting.trans first.waiting, rest.cursor.trans first.cursor,
      rest.aliases.trans first.aliases⟩

/-! ## Words -/

/-- The address of the next word. -/
def next (l : Layout) : Word :=
  BitVec.ofNat 16 l.cursor

/-- While there is room, labels are given the address of the next word. -/
theorem labelAddress_eq {l : Layout} (h : l.cursor < l.image.memLen) : l.labelAddress = l.next := by
  unfold labelAddress next
  rw [Nat.mod_eq_of_lt h]

theorem toNat_next {l : Layout} (h : l.cursor < l.image.memLen) : l.next.toNat = l.cursor := by
  have hle := l.image.memLen_le
  unfold maxMemory at hle
  unfold next
  rw [BitVec.toNat_ofNat]
  omega

theorem next_congr {l l' : Layout} (h : l'.cursor = l.cursor) : l'.next = l.next := by
  unfold next
  rw [h]

/-- What writing a word has done. -/
structure Written (l : Layout) (site : Site) (e : Emission) (l' : Layout) : Prop where
  inside : l.cursor < l.image.memLen
  fresh : l.image.get? l.next = none
  memLen : l'.image.memLen = l.image.memLen
  get? : ∀ address, l'.image.get? address
    = if l.next = address then some e.word else l.image.get? address
  cursor : l'.cursor = l.cursor + 1
  aliases : l'.aliases = l.aliases
  waiting : ∀ address, l'.relocations[address]?
    = if l.next = address then (e.label.map fun label => ⟨label, site⟩).or l.relocations[address]?
      else l.relocations[address]?

theorem write_ok {l l' : Layout} {site : Site} {e : Emission}
    (h : l.write site e = .ok l') : Written l site e l' := by
  unfold write at h
  split at h
  · next hin =>
    simp only at h
    split at h
    · -- the word is inside memory, and its place is free
      next image hw =>
      obtain ⟨hfresh, himage⟩ := Image.write?_eq_some_iff.mp hw
      cases h
      refine ⟨hin, hfresh, ?_, ?_, rfl, rfl, ?_⟩
      · rw [himage]
        rfl
      · intro address
        rw [himage, Image.get?_set]
        rfl
      · intro address
        cases e.label with
        | none => simp
        | some label =>
          show (l.relocations.insert l.next ⟨label, site⟩)[address]? = _
          rw [Std.ExtTreeMap.getElem?_insert]
          by_cases ha : l.next = address <;> simp [ha]
    · cases h
  · cases h

theorem Written.extends {l l' : Layout} {site : Site} {e : Emission}
    (h : Written l site e l') : Extends l l' := by
  have hne : ∀ address word, l.image.get? address = some word → l.next ≠ address := by
    rintro address word hw rfl
    rw [h.fresh] at hw
    cases hw
  refine ⟨h.memLen, ?_, ?_⟩
  · intro address word hw
    rw [h.get?, if_neg (hne address word hw), hw]
  · intro address word hw
    rw [h.waiting, if_neg (hne address word hw)]

theorem Written.sound {l l' : Layout} {site : Site} {e : Emission} (h : Written l site e l')
    (hs : l.Sound) : l'.Sound := by
  intro address r hr
  rw [h.get?]
  by_cases ha : l.next = address
  · exact ⟨e.word, if_pos ha⟩
  · rw [h.waiting, if_neg ha] at hr
    rw [if_neg ha]
    exact hs address r hr

theorem Written.next {l l' : Layout} {site : Site} {e : Emission} (h : Written l site e l') :
    l'.next = l.next + 1 := by
  unfold Layout.next
  rw [h.cursor, Word.ofNat_add_one]

/-- The word of an emission stands at an address, and waits for the label it needs with its site in
    the program. -/
structure Holds (l : Layout) (site : Site) (address : Word) (e : Emission) : Prop where
  word : l.image.get? address = some e.word
  waiting : l.relocations[address]? = e.label.map fun label => ⟨label, site⟩

theorem Holds.extends {l l' : Layout} {site : Site} {address : Word} {e : Emission}
    (h : l.Holds site address e) (hx : Extends l l') : l'.Holds site address e :=
  ⟨hx.words _ _ h.word, (hx.waiting _ _ h.word).trans h.waiting⟩

theorem Written.holds {l l' : Layout} {site : Site} {e : Emission}
    (h : Written l site e l') (hs : l.Sound) : l'.Holds site l.next e := by
  refine ⟨?_, ?_⟩
  · rw [h.get?, if_pos rfl]
  · rw [h.waiting, if_pos rfl, hs.waiting_eq_none h.fresh, Option.or_none]

/-- What writing the words of statement number `number`, from its word number `first` on, has
    done. -/
structure WrittenAll (l : Layout) (number first : Nat) (es : List Emission) (l' : Layout) :
    Prop where
  extended : Extends l l'
  sound : l'.Sound
  cursor : l'.cursor = l.cursor + es.length
  aliases : l'.aliases = l.aliases
  inside : es ≠ [] → l.cursor + es.length ≤ l.image.memLen
  holds : ∀ k e, es[k]? = some e → l'.Holds ⟨number, first + k⟩ (l.next + BitVec.ofNat 16 k) e
  fresh : ∀ k, k < es.length → l.image.get? (l.next + BitVec.ofNat 16 k) = none
  covered : ∀ a, (l'.image.get? a).isSome →
    (l.image.get? a).isSome ∨ ∃ k, k < es.length ∧ l.next + BitVec.ofNat 16 k = a

theorem WrittenAll.nil {l : Layout} (hs : l.Sound) (number first : Nat) :
    WrittenAll l number first [] l where
  extended := .refl l
  sound := hs
  cursor := rfl
  aliases := rfl
  inside := nofun
  holds := nofun
  fresh := fun k hk => absurd hk (Nat.not_lt_zero k)
  covered := fun _ ha => .inl ha

/-- The first word is written, and the others leave it alone. -/
theorem WrittenAll.cons {l l₁ l' : Layout} {number first : Nat} {e : Emission}
    {es : List Emission} (hs : l.Sound) (hw : Written l ⟨number, first⟩ e l₁)
    (hrest : WrittenAll l₁ number (first + 1) es l') :
    WrittenAll l number first (e :: es) l' := by
  -- word number `k + 1` from here is number `k` from the next one
  have hshift : ∀ k, l.next + BitVec.ofNat 16 (k + 1) = l₁.next + BitVec.ofNat 16 k := by
    intro k
    rw [hw.next, Word.add_one_add_ofNat]
  refine ⟨hw.extends.trans hrest.extended, hrest.sound, ?_, ?_, ?_, ?_, ?_, ?_⟩
  · rw [hrest.cursor, hw.cursor, List.length_cons]
    omega
  · exact hrest.aliases.trans hw.aliases
  · -- the last word is inside memory, be it this one or a later one
    intro _
    have hin := hw.inside
    rw [List.length_cons]
    by_cases hes : es = []
    · rw [hes, List.length_nil]
      omega
    · have hle := hrest.inside hes
      rw [hw.cursor, hw.memLen] at hle
      omega
  · intro k e' hk
    cases k with
    | zero =>
      cases hk
      have hfirst := (hw.holds hs).extends hrest.extended
      rwa [Word.add_ofNat_zero]
    | succ k =>
      rw [hshift, Nat.add_comm k 1, ← Nat.add_assoc]
      exact hrest.holds k e' hk
  · intro k hk
    cases k with
    | zero =>
      rw [Word.add_ofNat_zero]
      exact hw.fresh
    | succ k =>
      -- what is free after the first word was free before
      have hfree := hrest.fresh k (Nat.lt_of_succ_lt_succ hk)
      rw [← hshift, hw.get?] at hfree
      split at hfree
      · cases hfree
      · exact hfree
  · intro a ha
    rcases hrest.covered a ha with hwritten | ⟨k, hk, rfl⟩
    · rw [hw.get?] at hwritten
      split at hwritten
      · next hnext => exact .inr ⟨0, Nat.zero_lt_succ _, by rw [Word.add_ofNat_zero, hnext]⟩
      · exact .inl hwritten
    · exact .inr ⟨k + 1, Nat.succ_lt_succ hk, hshift k⟩

theorem writeAll_ok {number : Nat} {es : List Emission} {l l' : Layout} {done ws : List Word}
    (hs : l.Sound) (h : writeAll number l done es = (ws, .ok l')) :
    ws = done.reverse ++ es.map (·.word) ∧ WrittenAll l number done.length es l' := by
  induction es generalizing l done with
  | nil =>
    cases h
    exact ⟨by simp, .nil hs number _⟩
  | cons e es ih =>
    unfold writeAll at h
    split at h
    · next l₁ h₁ =>
      have hw := write_ok h₁
      obtain ⟨hws, hrest⟩ := ih (hw.sound hs) h
      exact ⟨by simp [hws], .cons hs hw hrest⟩
    · cases h

/-! ## Statements -/

/-- Statement number `number` as it was placed, by what it does. -/
inductive Placed (l : Layout) (number : Nat) (s : Statement) : Effect → Statement → Prop where
  | moveTo (address : Word) : Placed l number s (.moveTo address) (unplaced s)
  | define (value : Word) : Placed l number s (.define value) (unplaced s)
  | emit {es : List Emission} {aliases : Aliases} {start : Word}
      (inside : es ≠ [] → start.toNat + es.length ≤ l.image.memLen)
      (holds : ∀ k e, es[k]? = some e → l.Holds ⟨number, k⟩ (start + BitVec.ofNat 16 k) e) :
      Placed l number s (.emit es aliases)
        { s with address := some start, words := es.map (·.word) }

theorem Placed.extends {l l' : Layout} {number : Nat} {s s' : Statement} {effect : Effect}
    (h : l.Placed number s effect s') (hx : Extends l l') : l'.Placed number s effect s' := by
  cases h with
  | moveTo address => exact .moveTo address
  | define value => exact .define value
  | emit inside holds =>
    exact .emit (by rw [hx.memLen]; exact inside) fun k e hk => (holds k e hk).extends hx

/-- What applying the effect of a statement has done. -/
structure Applied (l : Layout) (number : Nat) (s : Statement) (effect : Effect) (s' : Statement)
    (l' : Layout) : Prop where
  placed : l'.Placed number s effect s'
  extended : Extends l l'
  sound : l'.Sound
  aliases : l'.aliases = effect.aliases l.aliases
  fresh : ∀ a ∈ s'.addresses, l.image.get? a = none
  covered : ∀ a, (l'.image.get? a).isSome → (l.image.get? a).isSome ∨ a ∈ s'.addresses

theorem apply_moveTo_ok {l l' : Layout} {number : Nat} {s s' : Statement} {address : Word}
    (hs : l.Sound) (h : l.apply number s (.moveTo address) = (s', .ok l')) :
    l.Applied number s (.moveTo address) s' l' := by
  cases h
  exact ⟨.moveTo address, ⟨rfl, fun _ _ h => h, fun _ _ _ => rfl⟩, hs, rfl,
    List.forall_mem_nil _, fun _ ha => .inl ha⟩

theorem apply_define_ok {l l' : Layout} {number : Nat} {s s' : Statement} {value : Word}
    (hs : l.Sound) (h : l.apply number s (.define value) = (s', .ok l')) :
    l.Applied number s (.define value) s' l' := by
  have hw : SameWords l l' := defineLabels_ok (congrArg Prod.snd h)
  have hs' : s' = unplaced s := (congrArg Prod.fst h).symm
  rw [hs']
  refine ⟨.define value, hw.extends, hw.sound hs, hw.aliases, List.forall_mem_nil _, ?_⟩
  intro a ha
  rw [hw.get?] at ha
  exact .inl ha

/-- What writing the words of a statement has done, step by step. -/
theorem apply_emit_cases {l l' : Layout} {number : Nat} {s s' : Statement} {es : List Emission}
    {aliases : Aliases} (h : l.apply number s (.emit es aliases) = (s', .ok l')) :
    ∃ l₁ ws, l.defineLabels s.labels l.labelAddress = .ok l₁ ∧
      writeAll number { l₁ with aliases := aliases } [] es = (ws, .ok l') ∧
      s' = { s with address := some l.labelAddress, words := ws } := by
  unfold apply at h
  cases hd : l.defineLabels s.labels l.labelAddress with
  | error cause => simp [hd] at h
  | ok l₁ =>
    rcases hw : writeAll number { l₁ with aliases := aliases } [] es with ⟨ws, written⟩
    simp only [hd, hw, Prod.mk.injEq] at h
    obtain ⟨rfl, rfl⟩ := h
    exact ⟨l₁, ws, rfl, hw, rfl⟩

theorem apply_emit_ok {l l' : Layout} {number : Nat} {s s' : Statement} {es : List Emission}
    {aliases : Aliases} (hs : l.Sound)
    (h : l.apply number s (.emit es aliases) = (s', .ok l')) :
    l.Applied number s (.emit es aliases) s' l' := by
  obtain ⟨l₁, ws, hd, hw, rfl⟩ := apply_emit_cases h
  -- labels and names are set first, and leave the words as they are
  have hl : SameWords l l₁ := defineLabels_ok hd
  have hnames : Extends l { l₁ with aliases := aliases } :=
    ⟨hl.memLen, hl.extends.words, hl.extends.waiting⟩
  have hsound : Sound { l₁ with aliases := aliases } := hl.sound hs
  have hnext : next { l₁ with aliases := aliases } = l.next := next_congr hl.cursor
  have hget : ∀ a, Image.get? l₁.image a = l.image.get? a := hl.get?
  obtain ⟨hws, hall⟩ := writeAll_ok hsound hw
  have hextends : Extends l l' := hnames.trans hall.extended
  have hlength : ws.length = es.length := by simp [hws]
  by_cases hes : es = []
  · subst hes
    rw [hws]
    refine ⟨.emit nofun nofun, hextends, hall.sound, hall.aliases, List.forall_mem_nil _, ?_⟩
    intro a ha
    rcases hall.covered a ha with hwritten | ⟨k, hk, -⟩
    · rw [hget] at hwritten
      exact .inl hwritten
    · exact absurd hk (Nat.not_lt_zero k)
  · -- with a word to write there is room, so that labels are given its address
    have hfits : l₁.cursor + es.length ≤ l₁.image.memLen := hall.inside hes
    rw [hl.cursor, hl.memLen] at hfits
    have hpos := List.length_pos_iff.mpr hes
    have hin : l.cursor < l.image.memLen := by omega
    rw [labelAddress_eq hin]
    refine ⟨?_, hextends, hall.sound, hall.aliases, ?_, ?_⟩
    · rw [hws]
      refine .emit (fun _ => ?_) fun k e hk => ?_
      · rw [toNat_next hin, hextends.memLen]
        exact hfits
      · rw [← hnext, ← Nat.zero_add k]
        simpa using hall.holds k e hk
    · intro a ha
      obtain ⟨start, k, hstart, hk, rfl⟩ := Statement.mem_addresses.mp ha
      cases hstart
      have hfree := hall.fresh k (hlength ▸ hk)
      rwa [hget, hnext] at hfree
    · intro a ha
      rcases hall.covered a ha with hwritten | ⟨k, hk, rfl⟩
      · rw [hget] at hwritten
        exact .inl hwritten
      · refine .inr (Statement.mem_addresses.mpr ⟨l.next, k, rfl, ?_, by rw [hnext]⟩)
        rwa [hlength]

theorem place_eq_apply {l : Layout} {number : Nat} {s : Statement} {effect : Effect}
    (h : Effect.ofStatement l.image.memLen l.aliases s = .ok effect) :
    l.place number s = l.apply number s effect := by
  unfold place
  rw [h]

/-- Placing a statement applies what it does. -/
theorem apply_of_place {l l' : Layout} {number : Nat} {s s' : Statement}
    (h : l.place number s = (s', .ok l')) :
    ∃ effect, Effect.ofStatement l.image.memLen l.aliases s = .ok effect ∧
      l.apply number s effect = (s', .ok l') := by
  cases he : Effect.ofStatement l.image.memLen l.aliases s with
  | error cause => simp [place, he] at h
  | ok effect =>
    rw [place_eq_apply he] at h
    exact ⟨effect, rfl, h⟩

theorem place_ok {l l' : Layout} {number : Nat} {s s' : Statement} (hs : l.Sound)
    (h : l.place number s = (s', .ok l')) :
    ∃ effect, Effect.ofStatement l.image.memLen l.aliases s = .ok effect ∧
      l.Applied number s effect s' l' := by
  obtain ⟨effect, heffect, happly⟩ := apply_of_place h
  refine ⟨effect, heffect, ?_⟩
  cases effect with
  | moveTo address => exact apply_moveTo_ok hs happly
  | define value => exact apply_define_ok hs happly
  | emit es aliases => exact apply_emit_ok hs happly

/-! ## Programs -/

/-- Statements placed one after another, the first of them as statement number `n`. -/
inductive Places : Nat → Layout → List Statement → List Statement → Layout → Prop where
  | nil (n : Nat) (l : Layout) : Places n l [] [] l
  | cons {n : Nat} {l l₁ l' : Layout} {s s' : Statement} {ss ss' : List Statement}
      (h : l.place n s = (s', .ok l₁)) (rest : Places (n + 1) l₁ ss ss' l') :
      Places n l (s :: ss) (s' :: ss') l'

theorem placeFrom_ok {l l' : Layout} {done p : List Statement} {placed : Program}
    (h : l.placeFrom done p = (placed, .ok l')) :
    ∃ ss, placed = done.reverse ++ ss ∧ Places done.length l p ss l' := by
  induction p generalizing l done with
  | nil =>
    cases h
    exact ⟨[], by simp, .nil _ _⟩
  | cons s p ih =>
    unfold placeFrom at h
    split at h
    · next s' l₁ hplace =>
      obtain ⟨ss, hss, hrest⟩ := ih h
      exact ⟨s' :: ss, by simp [hss], .cons hplace hrest⟩
    · cases h

section

variable {n : Nat} {l l' : Layout} {ss ss' : List Statement}

theorem Places.extends (h : Places n l ss ss' l') (hs : l.Sound) : Extends l l' ∧ l'.Sound := by
  induction h with
  | nil n l => exact ⟨.refl l, hs⟩
  | cons hplace _ ih =>
    obtain ⟨_, -, happlied⟩ := place_ok hs hplace
    obtain ⟨hx, hs'⟩ := ih happlied.sound
    exact ⟨happlied.extended.trans hx, hs'⟩

/-- **Every statement** of a program is found in the finished layout as it was placed, read with
    the names in force where it stands. -/
theorem Places.get (h : Places n l ss ss' l') (hs : l.Sound) {i : Nat} {s' : Statement}
    (hi : ss'[i]? = some s') :
    ∃ s effect, ss[i]? = some s ∧
      Effect.ofStatement l.image.memLen ((ss.take i).foldl Aliases.after l.aliases) s
        = .ok effect ∧
      l'.Placed (n + i) s effect s' := by
  induction h generalizing i with
  | nil n l => cases hi
  | @cons n l l₁ l' s₀ s₀' ss ss' hplace rest ih =>
    obtain ⟨effect, heffect, happlied⟩ := place_ok hs hplace
    cases i with
    | zero =>
      -- what follows leaves the first statement as it was placed
      cases hi
      exact ⟨s₀, effect, rfl, heffect, happlied.placed.extends (rest.extends happlied.sound).1⟩
    | succ i =>
      obtain ⟨s, effect', hget, heffect', hplaced'⟩ := ih happlied.sound hi
      rw [Nat.add_assoc, Nat.add_comm 1 i] at hplaced'
      refine ⟨s, effect', hget, ?_, hplaced'⟩
      rw [List.take_succ_cons, List.foldl_cons, ← Effect.aliases_ofStatement heffect,
        ← happlied.aliases, ← happlied.extended.memLen]
      exact heffect'

/-- What is written was written before, or is a word of a statement. -/
theorem Places.covered (h : Places n l ss ss' l') (hs : l.Sound) {a : Word}
    (ha : (l'.image.get? a).isSome) :
    (l.image.get? a).isSome ∨ ∃ s' ∈ ss', a ∈ s'.addresses := by
  induction h with
  | nil n l => exact .inl ha
  | cons hplace _ ih =>
    obtain ⟨_, -, happlied⟩ := place_ok hs hplace
    rcases ih happlied.sound ha with hwritten | ⟨t, ht, hmem⟩
    · rcases happlied.covered a hwritten with hbefore | hmem
      · exact .inl hbefore
      · exact .inr ⟨_, List.mem_cons_self, hmem⟩
    · exact .inr ⟨t, List.mem_cons_of_mem _ ht, hmem⟩

/-- Statements are placed where nothing has been written. -/
theorem Places.fresh (h : Places n l ss ss' l') (hs : l.Sound) {t : Statement} (ht : t ∈ ss')
    {a : Word} (ha : a ∈ t.addresses) : l.image.get? a = none := by
  induction h with
  | nil n l => cases ht
  | @cons n l l₁ l' s s' ss ss' hplace _ ih =>
    obtain ⟨_, -, happlied⟩ := place_ok hs hplace
    rcases List.mem_cons.mp ht with rfl | ht
    · exact happlied.fresh a ha
    · have hfree := ih happlied.sound ht
      cases hget : l.image.get? a with
      | none => rfl
      | some word =>
        rw [happlied.extended.words a word hget] at hfree
        cases hfree

/-- The words of a placed statement are written. -/
theorem Placed.written {s s' : Statement} {effect : Effect} (h : l.Placed n s effect s')
    {a : Word} (ha : a ∈ s'.addresses) : (l.image.get? a).isSome := by
  cases h with
  | moveTo address | define value => cases ha
  | @emit es _ _ _ holds =>
    obtain ⟨start, k, hstart, hk, rfl⟩ := Statement.mem_addresses.mp ha
    cases hstart
    have hk' : k < es.length := by simpa using hk
    rw [(holds k es[k] (List.getElem?_eq_getElem hk')).word]
    rfl

/-- **No address** belongs to two statements. -/
theorem Places.disjoint (h : Places n l ss ss' l') (hs : l.Sound) :
    ss'.Pairwise fun s t => ∀ a ∈ s.addresses, a ∉ t.addresses := by
  induction h with
  | nil n l => exact .nil
  | cons hplace rest ih =>
    obtain ⟨_, -, happlied⟩ := place_ok hs hplace
    refine List.pairwise_cons.mpr ⟨?_, ih happlied.sound⟩
    intro t ht a ha ha'
    have hwritten := happlied.placed.written ha
    rw [rest.fresh happlied.sound ht ha'] at hwritten
    cases hwritten

end

end Layout

end AnnaToolchain
