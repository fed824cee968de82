import AnnaToolchain.Proofs.Assembly.Success

/-! # Layouts behind each other

    While a program and the optimized program are placed side by side, the
    second layout stays behind the first (`Shadows`).  What the first one
    wrote in between is a gap in which the second one still has room.  So
    where the first one can write a word, the second one can, whether the
    word is the same or not; and where the first one writes a word alone, the
    gap grows. -/

namespace AnnaToolchain.Layout

/-- The layout `l'` is behind the layout `l`. -/
structure Shadows (l l' : Layout) : Prop where
  memLen : l'.image.memLen = l.image.memLen
  aliases : l'.aliases = l.aliases
  behind : l'.cursor ≤ l.cursor
  inside : l.cursor ≤ l.image.memLen
  /-- Only what the first one has written is written. -/
  fresh : ∀ address, l.image.get? address = none → l'.image.get? address = none
  gap : ∀ n, l'.cursor ≤ n → n < l.cursor →
    l.image.get? (BitVec.ofNat 16 n) ≠ none ∧ l'.image.get? (BitVec.ofNat 16 n) = none
  /-- Only what waits in the first one is waiting. -/
  waiting : ∀ address r', l'.relocations[address]? = some r' →
    ∃ address' r word, l.relocations[address']? = some r ∧ r.label = r'.label ∧
      l.image.get? address' = some word ∧ l'.image.get? address = some word

variable {l l' l₁ : Layout}

theorem shadows_start (memLen : Nat) : (start memLen).Shadows (start memLen) where
  memLen := rfl
  aliases := rfl
  behind := Nat.le_refl _
  inside := Nat.zero_le _
  fresh := fun _ h => h
  gap := fun _ _ h => absurd h (Nat.not_lt_zero _)
  waiting := fun address r' h => by simp [start] at h

/-! ## Words -/

theorem ofNat_ne_of_lt {m n : Nat} (hmn : m ≠ n) (hm : m < maxMemory) (hn : n < maxMemory) :
    BitVec.ofNat 16 m ≠ BitVec.ofNat 16 n := by
  intro heq
  have hnat := congrArg BitVec.toNat heq
  unfold maxMemory at hm hn
  simp only [BitVec.toNat_ofNat] at hnat
  omega

/-- A word that only the first layout writes makes the gap longer. -/
theorem Shadows.alone {site : Site} {e : Emission} (h : Shadows l l')
    (hw : Written l site e l₁) : Shadows l₁ l' := by
  have hx := hw.extends
  refine ⟨h.memLen.trans hw.memLen.symm, h.aliases.trans hw.aliases.symm, ?_, ?_, ?_, ?_, ?_⟩
  · rw [hw.cursor]
    exact Nat.le_succ_of_le h.behind
  · rw [hw.cursor, hw.memLen]
    exact hw.inside
  · intro address hnone
    rw [hw.get?] at hnone
    split at hnone
    · cases hnone
    · exact h.fresh address hnone
  · intro n hle hlt
    rw [hw.cursor] at hlt
    by_cases hn : n = l.cursor
    · subst hn
      refine ⟨?_, h.fresh _ hw.fresh⟩
      rw [hw.get?, next, if_pos rfl]
      exact Option.some_ne_none _
    · obtain ⟨hsome, hnone⟩ := h.gap n hle (by omega)
      obtain ⟨word, hword⟩ := Option.ne_none_iff_exists'.mp hsome
      rw [hx.words _ _ hword]
      exact ⟨Option.some_ne_none _, hnone⟩
  · intro address r' hr'
    obtain ⟨address', r, word, hr, hlabel, hword, hword'⟩ := h.waiting address r' hr'
    refine ⟨address', r, word, ?_, hlabel, hx.words _ _ hword, hword'⟩
    rw [hx.waiting _ _ hword, hr]

/-- Where the first layout has written a word, the second one has room. -/
theorem Shadows.room {site : Site} {e : Emission} (h : Shadows l l')
    (hw : Written l site e l₁) :
    l'.cursor < l'.image.memLen ∧ l'.image.get? l'.next = none := by
  have hin := hw.inside
  have hbehind := h.behind
  refine ⟨by rw [h.memLen]; omega, ?_⟩
  rcases Nat.eq_or_lt_of_le hbehind with heq | hlt
  · rw [next_congr heq]
    exact h.fresh _ hw.fresh
  · exact (h.gap l'.cursor (Nat.le_refl _) hlt).2

/-- A word that both layouts write leaves the gap as long as it is.  The second word may differ from
    the first one, if it waits for no label. -/
theorem Shadows.both {site site' : Site} {e e' : Emission} (h : Shadows l l')
    (hs : l.Sound) (hs' : l'.Sound) (hw : Written l site e l₁)
    (he : e'.label = none ∨ e' = e) :
    ∃ l₁', l'.write site' e' = .ok l₁' ∧ Shadows l₁ l₁' := by
  obtain ⟨hin', hfresh'⟩ := h.room hw
  obtain ⟨l₁', hwrite⟩ := write_of_fresh site' e' hin' hfresh'
  have hw' := write_ok hwrite
  have hx := hw.extends
  have hx' := hw'.extends
  have hbehind := h.behind
  have hin := hw.inside
  have hmax := l.image.memLen_le
  -- the second word goes to the place of the first, or into the gap
  have hcovered : l₁.image.get? l'.next ≠ none := by
    rcases Nat.eq_or_lt_of_le hbehind with heq | hlt
    · rw [next_congr heq, hw.get?, if_pos rfl]
      nofun
    · obtain ⟨word, hword⟩ := Option.ne_none_iff_exists'.mp (h.gap _ (Nat.le_refl _) hlt).1
      unfold next
      rw [hx.words _ _ hword]
      nofun
  refine ⟨l₁', hwrite, ?_, ?_, ?_, ?_, ?_, ?_, ?_⟩
  · rw [hw'.memLen, hw.memLen, h.memLen]
  · rw [hw'.aliases, hw.aliases, h.aliases]
  · rw [hw'.cursor, hw.cursor]
    omega
  · rw [hw.cursor, hw.memLen]
    omega
  · intro address hnone
    have hne : l'.next ≠ address := by
      rintro rfl
      exact hcovered hnone
    rw [hw'.get?, if_neg hne]
    rw [hw.get?] at hnone
    split at hnone
    · cases hnone
    · exact h.fresh address hnone
  · intro n hle hlt
    rw [hw'.cursor] at hle
    rw [hw.cursor] at hlt
    have hne : l'.next ≠ BitVec.ofNat 16 n := ofNat_ne_of_lt (by omega) (by omega) (by omega)
    rw [hw'.get?, if_neg hne]
    by_cases hn : n = l.cursor
    · subst hn
      refine ⟨?_, h.fresh _ hw.fresh⟩
      rw [hw.get?, next, if_pos rfl]
      nofun
    · obtain ⟨hsome, hnone⟩ := h.gap n (by omega) (by omega)
      obtain ⟨word, hword⟩ := Option.ne_none_iff_exists'.mp hsome
      rw [hx.words _ _ hword]
      exact ⟨nofun, hnone⟩
  · intro address r' hr'
    by_cases haddress : l'.next = address
    · -- what waits there is the word just written, and it is the same word
      subst haddress
      have hholds' := hw'.holds hs'
      rw [hholds'.waiting] at hr'
      obtain ⟨label, hlabel, rfl⟩ := Option.map_eq_some_iff.mp hr'
      obtain rfl : e' = e := he.resolve_left fun hnone => by rw [hnone] at hlabel; cases hlabel
      have hholds := hw.holds hs
      refine ⟨l.next, ⟨label, site⟩, e'.word, ?_, rfl, hholds.word, hholds'.word⟩
      rw [hholds.waiting, hlabel]
      rfl
    · rw [hw'.waiting, if_neg haddress] at hr'
      obtain ⟨address', r, word, hr, hlabel, hword, hword'⟩ := h.waiting address r' hr'
      refine ⟨address', r, word, ?_, hlabel, hx.words _ _ hword, hx'.words _ _ hword'⟩
      rw [hx.waiting _ _ hword, hr]

/-! ## The words of a statement -/

/-- The words `es'` can take the place of the words `es`. -/
inductive Covers : List Emission → List Emission → Prop where
  | rest (es : List Emission) : Covers es []
  | cons {e e' : Emission} {es es' : List Emission} (he : e'.label = none ∨ e' = e)
      (h : Covers es es') : Covers (e :: es) (e' :: es')

theorem Covers.refl (es : List Emission) : Covers es es := by
  induction es with
  | nil => exact .rest []
  | cons e es ih => exact .cons (.inr rfl) ih

theorem Shadows.allAlone {n : Nat} {es : List Emission} {done ws : List Word}
    (h : Shadows l l') (hw : writeAll n l done es = (ws, .ok l₁)) : Shadows l₁ l' := by
  induction es generalizing l done with
  | nil =>
    cases hw
    exact h
  | cons e es ih =>
    unfold writeAll at hw
    split at hw
    · next l₂ hfirst => exact ih (h.alone (write_ok hfirst)) hw
    · cases hw

theorem Shadows.all {n n' : Nat} {es es' : List Emission} {done done' ws : List Word}
    (h : Shadows l l') (hs : l.Sound) (hs' : l'.Sound) (hc : Covers es es')
    (hw : writeAll n l done es = (ws, .ok l₁)) :
    ∃ ws' l₁', writeAll n' l' done' es' = (ws', .ok l₁') ∧ Shadows l₁ l₁' := by
  induction hc generalizing l l' done done' with
  | rest es => exact ⟨_, l', rfl, h.allAlone hw⟩
  | @cons e e' es es' he hc ih =>
    unfold writeAll at hw
    split at hw
    · next l₂ hfirst =>
      have hwritten := write_ok hfirst
      obtain ⟨l₂', hfirst', h₂⟩ : ∃ l₂',
          l'.write ⟨n', done'.length⟩ e' = .ok l₂' ∧ Shadows l₂ l₂' :=
        h.both hs hs' hwritten he
      obtain ⟨ws', l₁', hrest, h₁⟩ : ∃ ws' l₁',
          writeAll n' l₂' (e'.word :: done') es' = (ws', .ok l₁') ∧ Shadows l₁ l₁' :=
        ih h₂ (hwritten.sound hs) ((write_ok hfirst').sound hs') hw
      refine ⟨ws', l₁', ?_, h₁⟩
      unfold writeAll
      rw [hfirst']
      exact hrest
    · cases hw

/-! ## Statements -/

/-- Labels do not count. -/
theorem Shadows.sameWords {l₂ l₂' : Layout} (h : Shadows l l') (hw : SameWords l l₂)
    (hw' : SameWords l' l₂') : Shadows l₂ l₂' := by
  refine ⟨?_, ?_, ?_, ?_, ?_, ?_, ?_⟩
  · rw [hw'.memLen, hw.memLen, h.memLen]
  · rw [hw'.aliases, hw.aliases, h.aliases]
  · rw [hw'.cursor, hw.cursor]
    exact h.behind
  · rw [hw.cursor, hw.memLen]
    exact h.inside
  · intro address
    rw [hw.get?, hw'.get?]
    exact h.fresh address
  · intro n
    rw [hw.cursor, hw'.cursor, hw.get?, hw'.get?]
    exact h.gap n
  · intro address r'
    rw [hw.waiting, hw'.waiting, hw'.get?]
    simp only [hw.get?]
    exact h.waiting address r'

theorem SameWords.refl (l : Layout) : SameWords l l :=
  ⟨rfl, rfl, rfl, rfl, rfl⟩

/-- Names given to both layouts do not count. -/
theorem Shadows.withAliases (h : Shadows l l') (aliases : Aliases) :
    Shadows { l with aliases := aliases } { l' with aliases := aliases } :=
  ⟨h.memLen, rfl, h.behind, h.inside, h.fresh, h.gap, h.waiting⟩

/-- A statement that only the first layout places, and that gives no names. -/
theorem Shadows.placeAlone {n : Nat} {s t : Statement} {es : List Emission} (h : Shadows l l')
    (heffect : Effect.ofStatement l.image.memLen l.aliases s = .ok (.emit es l.aliases))
    (hplace : l.place n s = (t, .ok l₁)) : Shadows l₁ l' := by
  rw [place_eq_apply heffect] at hplace
  obtain ⟨l₀, ws, hdefined, hw, -⟩ := apply_emit_cases hplace
  have hlabels := defineLabels_ok hdefined
  have hnames : SameWords l { l₀ with aliases := l.aliases } :=
    ⟨hlabels.memLen, hlabels.words, hlabels.waiting, hlabels.cursor, rfl⟩
  exact (h.sameWords hnames (.refl l')).allAlone hw

/-- A statement that writes words in both layouts, if its labels are new in the second one. -/
theorem Shadows.placeWords {n : Nat} {s s' t : Statement} {es es' : List Emission}
    {aliases : Aliases} (n' : Nat) (h : Shadows l l') (hs : l.Sound) (hs' : l'.Sound)
    (heffect : Effect.ofStatement l.image.memLen l.aliases s = .ok (.emit es aliases))
    (heffect' : Effect.ofStatement l'.image.memLen l'.aliases s' = .ok (.emit es' aliases))
    (hc : Covers es es') (hnodup : s'.labels.Nodup)
    (hfresh : ∀ label ∈ s'.labels, l'.labelValue? label = none)
    (hplace : l.place n s = (t, .ok l₁)) :
    ∃ t' l₁', l'.place n' s' = (t', .ok l₁') ∧ Shadows l₁ l₁' := by
  rw [place_eq_apply heffect] at hplace
  obtain ⟨l₀, ws, hdefined, hw, -⟩ := apply_emit_cases hplace
  have hlabels := defineLabels_ok hdefined
  obtain ⟨l₀', hdefine⟩ := defineLabels_of_fresh hnodup hfresh l'.labelAddress
  have hlabels' := defineLabels_ok hdefine
  have h₀ := (h.sameWords hlabels hlabels').withAliases aliases
  obtain ⟨ws', l₁', hw', h₁⟩ : ∃ ws' l₁',
      writeAll n' { l₀' with aliases := aliases } [] es' = (ws', .ok l₁') ∧ Shadows l₁ l₁' :=
    h₀.all (hlabels.sound hs) (hlabels'.sound hs') hc hw
  exact ⟨_, l₁', place_emit heffect' hdefine hw', h₁⟩

/-- A statement of the same code is placed in both layouts, if its labels are new in the second
    one. -/
theorem Shadows.placeBoth {n : Nat} {s s' t : Statement} (n' : Nat) (h : Shadows l l') (hs : l.Sound) (hs' : l'.Sound)
    (hop : s'.op = s.op) (hoperands : s'.operands = s.operands)
    (horg : s.op = some (.directive .org) → s'.labels = [])
    (hlabels : ∀ label ∈ s.labels, label ∈ s'.labels) (hnodup : s'.labels.Nodup)
    (hfresh : ∀ label ∈ s'.labels, l'.labelValue? label = none)
    (hplace : l.place n s = (t, .ok l₁)) :
    ∃ t' l₁', l'.place n' s' = (t', .ok l₁') ∧ Shadows l₁ l₁' := by
  obtain ⟨effect, heffect, -⟩ := place_ok hs hplace
  have hdefine : s.labels ≠ [] → s'.labels ≠ [] := by
    intro hne hnil
    obtain ⟨label, hlabel⟩ := List.exists_mem_of_ne_nil _ hne
    have hmem := hlabels label hlabel
    rw [hnil] at hmem
    cases hmem
  have heffect' := Effect.ofStatement_congr hop hoperands horg hdefine heffect
  rw [← h.memLen, ← h.aliases] at heffect'
  cases Effect.ofMnemonic heffect with
  | @moveTo text address _ _ _ _ hin =>
    -- both go on at the same address, without a gap
    rw [place_moveTo heffect] at hplace
    cases hplace
    refine ⟨_, _, place_moveTo heffect', h.memLen, h.aliases, Nat.le_refl _, ?_, h.fresh, ?_,
      h.waiting⟩
    · exact Nat.le_of_lt hin
    · exact fun n hle hlt => absurd hle (Nat.not_le.mpr hlt)
  | @define text value _ _ _ _ =>
    obtain ⟨l₁', hdefine'⟩ := defineLabels_of_fresh hnodup hfresh value
    refine ⟨_, l₁', place_define heffect' hdefine', ?_⟩
    rw [place_eq_apply heffect] at hplace
    exact h.sameWords (defineLabels_ok (congrArg Prod.snd hplace)) (defineLabels_ok hdefine')
  | emit _ _ => exact h.placeWords n' hs hs' heffect heffect' (.refl _) hnodup hfresh hplace

end AnnaToolchain.Layout
