import AnnaToolchain.Proofs.Assembly.Resolution
import Mathlib.Data.List.Nodup

/-! # Labels of an assembled program

    A program that can be assembled has each label once, and its symbol
    table has these labels and no others.  A label on `.def` has the value
    given there, and every other label the address of the statement it is on
    (`Program.addressOf?_assemble`). -/

namespace AnnaToolchain

/-- What a label on a placed statement stands for. -/
def Statement.labelValue? (s : Statement) : Option Word :=
  match s.op, s.operands with
  | some (.directive .define), [value] => (Operand.parseWord value).toOption
  | _, _ => s.address

theorem Statement.labelValue?_of_ne {s : Statement} (h : s.op ≠ some (.directive .define)) :
    s.labelValue? = s.address := by
  unfold labelValue?
  split
  · next hop _ => exact absurd hop h
  · rfl

/-! ## What a statement does, by its mnemonic -/

/-- Only `.org` moves, and only `.def` defines. -/
inductive Effect.OfMnemonic (memLen : Nat) (s : Statement) : Effect → Prop where
  | moveTo {text : String} {address : Word} (hop : s.op = some (.directive .org))
      (hargs : s.operands = [text]) (hlabels : s.labels = [])
      (haddress : Operand.parseWord text = .ok address) (hin : address.toNat < memLen) :
      OfMnemonic memLen s (.moveTo address)
  | define {text : String} {value : Word} (hop : s.op = some (.directive .define))
      (hargs : s.operands = [text]) (hlabels : s.labels ≠ [])
      (hvalue : Operand.parseWord text = .ok value) : OfMnemonic memLen s (.define value)
  | emit {es : List Emission} {aliases : Aliases} (horg : s.op ≠ some (.directive .org))
      (hdefine : s.op ≠ some (.directive .define)) : OfMnemonic memLen s (.emit es aliases)

section

variable {memLen : Nat} {aliases : Aliases} {s : Statement} {effect : Effect}

theorem Effect.ofMnemonic_of_ofDirective {kind : Directive} (hop : s.op = some (.directive kind))
    (h : Effect.ofDirective memLen aliases s kind = .ok effect) :
    effect.OfMnemonic memLen s := by
  unfold ofDirective at h
  split at h
  · next text hargs =>
    split at h
    · cases h
    · next hlabels =>
      obtain ⟨address, haddress, h⟩ := bind_eq_ok h
      split at h
      · cases h
      · next hin =>
        cases h
        exact .moveTo hop hargs (Decidable.not_not.mp hlabels) (mapError_eq_ok haddress)
          (Nat.lt_of_not_ge hin)
  · next text hargs =>
    split at h
    · cases h
    · next hlabels =>
      obtain ⟨value, hvalue, h⟩ := bind_eq_ok h
      cases h
      exact .define hop hargs hlabels (mapError_eq_ok hvalue)
  · obtain ⟨_, -, h⟩ := bind_eq_ok h
    cases h
    exact .emit (by simp [hop]) (by simp [hop])
  · obtain ⟨_, -, h⟩ := bind_eq_ok h
    cases h
    exact .emit (by simp [hop]) (by simp [hop])
  · obtain ⟨_, -, h⟩ := bind_eq_ok h
    cases h
    exact .emit (by simp [hop]) (by simp [hop])
  · cases h

theorem Effect.ofMnemonic (h : Effect.ofStatement memLen aliases s = .ok effect) :
    effect.OfMnemonic memLen s := by
  unfold ofStatement at h
  cases hop : s.op with
  | none =>
    simp only [hop] at h
    cases h
    exact .emit (by simp [hop]) (by simp [hop])
  | some op =>
    simp only [hop] at h
    split at h
    · cases op with
      | real real =>
        obtain ⟨_, -, h⟩ := bind_eq_ok h
        cases h
        exact .emit (by simp [hop]) (by simp [hop])
      | pseudo pseudo =>
        obtain ⟨_, -, h⟩ := bind_eq_ok h
        cases h
        exact .emit (by simp [hop]) (by simp [hop])
      | directive kind => exact ofMnemonic_of_ofDirective hop h
    · cases h

end

/-! ## Defining labels -/

namespace SymbolTable

theorem define?_eq_some_iff {symbols symbols' : SymbolTable} {label : String} {address : Word} :
    symbols.define? label address = some symbols' ↔
      symbols.addressOf? label = none ∧ symbols' = symbols.insert label address := by
  have hcontains : symbols.contains label = (symbols.addressOf? label).isSome :=
    Std.ExtTreeMap.contains_eq_isSome_getElem?
  unfold define?
  rw [hcontains]
  cases symbols.addressOf? label with
  | none => simp [eq_comm]
  | some value => simp

end SymbolTable

namespace Layout

/-- The value of a label as far as labels have been defined. -/
def labelValue? (l : Layout) (label : String) : Option Word :=
  l.image.symbols.addressOf? label

/-- What defining labels has done: they are all different and new, and have the value now. -/
structure Defined (l : Layout) (labels : List String) (value : Word) (l' : Layout) : Prop where
  nodup : labels.Nodup
  fresh : ∀ label ∈ labels, l.labelValue? label = none
  values : ∀ name, l'.labelValue? name = if name ∈ labels then some value else l.labelValue? name

theorem defineLabel_defined {value : Word} {l l' : Layout} {label : String}
    (h : defineLabel value l label = .ok l') :
    l.labelValue? label = none ∧
      ∀ name, l'.labelValue? name = if label = name then some value else l.labelValue? name := by
  unfold defineLabel at h
  split at h
  · next symbols hsymbols =>
    cases h
    exact ⟨(SymbolTable.define?_eq_some_iff.mp hsymbols).1,
      SymbolTable.addressOf?_define? hsymbols⟩
  · cases h

theorem defineLabels_defined {l l' : Layout} {labels : List String} {value : Word}
    (h : l.defineLabels labels value = .ok l') : l.Defined labels value l' := by
  induction labels generalizing l with
  | nil =>
    cases h
    exact ⟨List.nodup_nil, nofun, fun name => by simp⟩
  | cons label labels ih =>
    obtain ⟨l₁, h₁, h₂⟩ := bind_eq_ok h
    obtain ⟨hnew, hvalue⟩ := defineLabel_defined h₁
    have hrest := ih h₂
    -- the labels after the first differ from it, since it is defined by then
    have hne : ∀ other ∈ labels, label ≠ other := by
      rintro other hother rfl
      have hfresh := hrest.fresh _ hother
      rw [hvalue, if_pos rfl] at hfresh
      cases hfresh
    refine ⟨List.nodup_cons.mpr ⟨fun hmem => hne _ hmem rfl, hrest.nodup⟩, ?_, ?_⟩
    · intro other hother
      rcases List.mem_cons.mp hother with rfl | hother
      · exact hnew
      · have hfresh := hrest.fresh other hother
        rwa [hvalue, if_neg (hne other hother)] at hfresh
    · intro name
      rw [hrest.values, hvalue]
      by_cases hmem : name ∈ labels
      · rw [if_pos hmem, if_pos (List.mem_cons_of_mem _ hmem)]
      · rw [if_neg hmem]
        by_cases hname : label = name
        · rw [if_pos hname, if_pos (hname ▸ List.mem_cons_self)]
        · have hother : name ∉ label :: labels := by simp [hmem, Ne.symm hname]
          rw [if_neg hname, if_neg hother]

theorem write_labels {l l' : Layout} {site : Site} {e : Emission}
    (h : l.write site e = .ok l') : l'.image.symbols = l.image.symbols := by
  unfold write at h
  split at h
  · simp only at h
    split at h
    · next image hw =>
      obtain ⟨-, himage⟩ := Image.write?_eq_some_iff.mp hw
      cases h
      rw [himage]
      rfl
    · cases h
  · cases h

theorem writeAll_labels {number : Nat} {es : List Emission} {l l' : Layout}
    {done ws : List Word} (h : writeAll number l done es = (ws, .ok l')) :
    l'.image.symbols = l.image.symbols := by
  induction es generalizing l done with
  | nil =>
    cases h
    rfl
  | cons e es ih =>
    unfold writeAll at h
    split at h
    · next l₁ h₁ => rw [ih h, write_labels h₁]
    · cases h

/-! ## Labels of statements -/

/-- What placing the statement `s` as `s'` has done to labels. -/
structure Labeled (l : Layout) (s s' : Statement) (l' : Layout) : Prop where
  same : s.SameCode s'
  nodup : s.labels.Nodup
  fresh : ∀ label ∈ s.labels, l.labelValue? label = none
  valued : s.labels ≠ [] → s'.labelValue?.isSome
  values : ∀ name,
    l'.labelValue? name = if name ∈ s.labels then s'.labelValue? else l.labelValue? name

/-- Labels are given one value, and that is what they stand for. -/
theorem Defined.labeled {l l₁ l' : Layout} {s s' : Statement} {value : Word}
    (h : l.Defined s.labels value l₁) (hsymbols : l'.image.symbols = l₁.image.symbols)
    (hsame : s.SameCode s') (hvalue : s'.labelValue? = some value) : l.Labeled s s' l' := by
  refine ⟨hsame, h.nodup, h.fresh, fun _ => by rw [hvalue]; rfl, fun name => ?_⟩
  rw [hvalue, ← h.values]
  unfold labelValue?
  rw [hsymbols]

theorem place_labeled {l l' : Layout} {n : Nat} {s s' : Statement}
    (h : l.place n s = (s', .ok l')) :
    l.Labeled s s' l' := by
  obtain ⟨effect, heffect, happly⟩ := apply_of_place h
  cases Effect.ofMnemonic heffect with
  | moveTo _ _ hlabels _ _ =>
    -- no label is on `.org`
    cases happly
    refine ⟨⟨rfl, rfl, rfl, rfl⟩, ?_, ?_, ?_, ?_⟩
    · rw [hlabels]
      exact List.nodup_nil
    · rw [hlabels]
      exact List.forall_mem_nil _
    · exact fun hne => absurd hlabels hne
    · intro name
      rw [hlabels, if_neg List.not_mem_nil]
      rfl
  | @define text value hop hargs hlabels hvalue =>
    have hs' : s' = unplaced s := (congrArg Prod.fst happly).symm
    have hdefined := defineLabels_defined (congrArg Prod.snd happly)
    rw [hs']
    refine hdefined.labeled rfl ⟨rfl, rfl, rfl, rfl⟩ ?_
    unfold Statement.labelValue? unplaced
    simp only [hop, hargs, hvalue]
    rfl
  | emit horg hdefine =>
    obtain ⟨l₁, ws, hd, hw, rfl⟩ := apply_emit_cases happly
    have hsymbols := writeAll_labels hw
    exact (defineLabels_defined hd).labeled hsymbols ⟨rfl, rfl, rfl, rfl⟩
      (Statement.labelValue?_of_ne hdefine)

/-! ## Labels of programs -/

/-- What placing statements has done to labels. -/
structure LabeledAll (l : Layout) (ss ss' : List Statement) (l' : Layout) : Prop where
  same : List.Forall₂ Statement.SameCode ss ss'
  nodup : (ss.flatMap (·.labels)).Nodup
  fresh : ∀ label ∈ ss.flatMap (·.labels), l.labelValue? label = none
  valued : ∀ label ∈ ss.flatMap (·.labels), (l'.labelValue? label).isSome
  kept : ∀ name, name ∉ ss.flatMap (·.labels) → l'.labelValue? name = l.labelValue? name
  values : ∀ s' ∈ ss', ∀ label ∈ s'.labels, l'.labelValue? label = s'.labelValue?

theorem Places.labeled {n : Nat} {l l' : Layout} {ss ss' : List Statement}
    (h : Places n l ss ss' l') :
    l.LabeledAll ss ss' l' := by
  induction h with
  | nil n l => exact ⟨.nil, List.nodup_nil, nofun, nofun, fun _ _ => rfl, nofun⟩
  | @cons n l l₁ l' s s' ss ss' hplace _ ih =>
    have hs := place_labeled hplace
    -- labels placed later are not among those of the first statement
    have hdisjoint : ∀ label ∈ s.labels, label ∉ ss.flatMap (·.labels) := by
      intro label hlabel hlater
      have hnone := ih.fresh label hlater
      have hsome := hs.valued (List.ne_nil_of_mem hlabel)
      rw [hs.values, if_pos hlabel] at hnone
      rw [hnone] at hsome
      cases hsome
    have hkept : ∀ label ∈ s.labels, l'.labelValue? label = s'.labelValue? := by
      intro label hlabel
      rw [ih.kept label (hdisjoint label hlabel), hs.values, if_pos hlabel]
    refine ⟨.cons hs.same ih.same, ?_, ?_, ?_, ?_, ?_⟩
    · rw [List.flatMap_cons, List.nodup_append]
      refine ⟨hs.nodup, ih.nodup, ?_⟩
      rintro label hlabel _ hlater rfl
      exact hdisjoint label hlabel hlater
    · intro label hlabel
      rw [List.flatMap_cons, List.mem_append] at hlabel
      rcases hlabel with hlabel | hlabel
      · exact hs.fresh label hlabel
      · have hnone := ih.fresh label hlabel
        rwa [hs.values, if_neg fun hmem => hdisjoint label hmem hlabel] at hnone
    · intro label hlabel
      rw [List.flatMap_cons, List.mem_append] at hlabel
      rcases hlabel with hlabel | hlabel
      · rw [hkept label hlabel]
        exact hs.valued (List.ne_nil_of_mem hlabel)
      · exact ih.valued label hlabel
    · intro name hname
      rw [List.flatMap_cons, List.mem_append, not_or] at hname
      rw [ih.kept name hname.2, hs.values, if_neg hname.1]
    · intro s₁ hs₁ label hlabel
      rcases List.mem_cons.mp hs₁ with rfl | hs₁
      · rw [hs.same.labels] at hlabel
        exact hkept label hlabel
      · exact ih.values s₁ hs₁ label hlabel

end Layout

/-! ## Addresses past statements that write nothing -/

namespace Layout

/-- Where the next word goes behind `.org`. -/
theorem cursor_of_org {l l₁ : Layout} {n : Nat} {s t : Statement}
    (h : l.place n s = (t, .ok l₁)) (horg : s.op = some (.directive .org)) :
    ∃ text address, s.operands = [text] ∧ Operand.parseWord text = .ok address ∧
      l₁.cursor = address.toNat := by
  obtain ⟨effect, heffect, happly⟩ := apply_of_place h
  cases Effect.ofMnemonic heffect with
  | moveTo _ hargs _ haddress _ =>
    cases happly
    exact ⟨_, _, hargs, haddress, rfl⟩
  | define hop _ _ _ =>
    rw [hop] at horg
    cases horg
  | emit hnot _ => exact absurd horg hnot

/-- Behind any other statement the words are counted on. -/
theorem cursor_of_place {l l₁ : Layout} {n : Nat} {s t : Statement} (hs : l.Sound)
    (h : l.place n s = (t, .ok l₁)) (horg : s.op ≠ some (.directive .org)) :
    l₁.cursor = l.cursor + t.words.length := by
  obtain ⟨effect, heffect, happly⟩ := apply_of_place h
  cases Effect.ofMnemonic heffect with
  | moveTo hop _ _ _ _ => exact absurd hop horg
  | define _ _ _ _ =>
    have ht : t = unplaced s := (congrArg Prod.fst happly).symm
    rw [ht, (defineLabels_ok (congrArg Prod.snd happly)).cursor]
    rfl
  | @emit es aliases _ _ =>
    obtain ⟨l₀, ws, hd, hw, rfl⟩ := apply_emit_cases happly
    have hlabels := defineLabels_ok hd
    obtain ⟨hws, hall⟩ := writeAll_ok (l := { l₀ with aliases := aliases }) (hlabels.sound hs) hw
    rw [hall.cursor, hws]
    simp [hlabels.cursor]

/-- A statement that writes nothing, and is not `.org`, leaves the next address as it is. -/
theorem labelAddress_of_silent {l l₁ : Layout} {n : Nat} {s t : Statement} (hs : l.Sound)
    (h : l.place n s = (t, .ok l₁)) (hwords : t.words = [])
    (horg : s.op ≠ some (.directive .org)) : l₁.labelAddress = l.labelAddress := by
  obtain ⟨_, -, happlied⟩ := place_ok hs h
  unfold labelAddress
  rw [cursor_of_place hs h horg, hwords, List.length_nil, Nat.add_zero, happlied.extended.memLen]

theorem address_of_place {l l₁ : Layout} {n : Nat} {s t : Statement}
    (h : l.place n s = (t, .ok l₁)) (horg : s.op ≠ some (.directive .org))
    (hdefine : s.op ≠ some (.directive .define)) : t.address = some l.labelAddress := by
  obtain ⟨effect, heffect, happly⟩ := apply_of_place h
  cases Effect.ofMnemonic heffect with
  | moveTo hop _ _ _ _ => exact absurd hop horg
  | define hop _ _ _ => exact absurd hop hdefine
  | emit _ _ =>
    obtain ⟨_, _, -, -, rfl⟩ := apply_emit_cases happly
    rfl

/-- Neither `.org` nor `.def` has an address. -/
theorem address_of_place_eq_none {l l₁ : Layout} {n : Nat} {s t : Statement}
    (h : l.place n s = (t, .ok l₁))
    (hop : s.op = some (.directive .org) ∨ s.op = some (.directive .define)) :
    t.address = none := by
  obtain ⟨effect, heffect, happly⟩ := apply_of_place h
  cases Effect.ofMnemonic heffect with
  | moveTo _ _ _ _ _ =>
    cases happly
    rfl
  | define _ _ _ _ =>
    have ht : t = unplaced s := (congrArg Prod.fst happly).symm
    rw [ht]
    rfl
  | emit horg hdefine => exact absurd hop (not_or.mpr ⟨horg, hdefine⟩)

end Layout

/-- Whether a statement writes no word and does not move. -/
def Statement.Silent (s : Statement) : Prop :=
  s.words = [] ∧ s.op ≠ some (.directive .org)

namespace Layout

/-- Behind silent statements the address is still the one there was before them. -/
theorem Places.address_of_silent {n : Nat} {l l' : Layout} {ss ss' : List Statement}
    (h : Places n l ss ss' l') (hs : l.Sound) {k : Nat} {t : Statement} (ht : ss'[k]? = some t)
    (hsilent : ∀ m u, m < k → ss'[m]? = some u → u.Silent)
    (horg : t.op ≠ some (.directive .org)) (hdefine : t.op ≠ some (.directive .define)) :
    t.address = some l.labelAddress := by
  induction h generalizing k with
  | nil n l => cases ht
  | @cons n l l₁ l' s s' ss ss' hplace _ ih =>
    have hop := (place_labeled hplace).same.op
    cases k with
    | zero =>
      cases ht
      rw [hop] at horg hdefine
      exact address_of_place hplace horg hdefine
    | succ k =>
      obtain ⟨hwords, hstays⟩ := hsilent 0 s' (Nat.zero_lt_succ k) rfl
      rw [hop] at hstays
      obtain ⟨_, -, happlied⟩ := place_ok hs hplace
      rw [← labelAddress_of_silent hs hplace hwords hstays]
      exact ih happlied.sound ht fun m u hm hu => hsilent (m + 1) u (Nat.succ_lt_succ hm) hu

theorem Places.drop {n : Nat} {l l' : Layout} {ss ss' : List Statement}
    (h : Places n l ss ss' l') (hs : l.Sound) (j : Nat) :
    ∃ n₁ l₁, l₁.Sound ∧ Places n₁ l₁ (ss.drop j) (ss'.drop j) l' := by
  induction h generalizing j with
  | nil n l => exact ⟨n, l, hs, by simpa using .nil n l⟩
  | @cons n l l₁ l' s s' ss ss' hplace rest ih =>
    cases j with
    | zero => exact ⟨n, l, hs, .cons hplace rest⟩
    | succ j =>
      obtain ⟨_, -, happlied⟩ := place_ok hs hplace
      exact ih happlied.sound j

end Layout

/-! ## Labels of an assembled program -/

theorem Statement.sameCode_readBack (s : Statement) (image : Image) :
    s.SameCode (s.readBack image) := by
  unfold readBack
  split <;> exact ⟨rfl, rfl, rfl, rfl⟩

theorem Statement.silent_readBack (s : Statement) (image : Image) :
    (s.readBack image).Silent ↔ s.Silent := by
  unfold Silent
  rw [(s.sameCode_readBack image).op]
  unfold readBack
  split
  · rfl
  · simp

theorem Statement.labelValue?_readBack (s : Statement) (image : Image) :
    (s.readBack image).labelValue? = s.labelValue? := by
  have hsame := s.sameCode_readBack image
  unfold labelValue?
  rw [hsame.op, hsame.operands, address_readBack]

namespace Program

variable {p placed : Program} {memLen : Nat} {image : Image}

/-- Assembling keeps what the statements say, and puts their labels in the symbol table. -/
theorem labeled_assemble (h : p.assemble memLen = (placed, .ok image)) :
    ∃ ps l, placed = ps.map (Statement.readBack image) ∧ l.image.symbols = image.symbols ∧
      (Layout.start memLen).LabeledAll p ps l := by
  obtain ⟨ps, l, hplaces, hplaced, hresolved⟩ := assemble_ok h
  exact ⟨ps, l, hplaced, hresolved.symbols.symm, hplaces.labeled⟩

/-- The statements of an assembled program say what they said before. -/
theorem sameCode_assemble (h : p.assemble memLen = (placed, .ok image)) :
    List.Forall₂ Statement.SameCode p placed := by
  obtain ⟨ps, l, rfl, -, hlabeled⟩ := labeled_assemble h
  rw [List.forall₂_map_right_iff]
  refine hlabeled.same.imp fun s s' hsame => ?_
  have hread := s'.sameCode_readBack image
  exact ⟨hread.labels.trans hsame.labels, hread.op.trans hsame.op,
    hread.operands.trans hsame.operands, hread.comment.trans hsame.comment⟩

theorem getElem?_assemble (h : p.assemble memLen = (placed, .ok image)) {i : Nat} {s : Statement}
    (hs : p[i]? = some s) : ∃ s', placed[i]? = some s' ∧ s.SameCode s' := by
  obtain ⟨hlength, hall⟩ := List.forall₂_iff_get.mp (sameCode_assemble h)
  obtain ⟨hi, rfl⟩ := List.getElem?_eq_some_iff.mp hs
  exact ⟨placed[i], List.getElem?_eq_getElem _, hall i hi (hlength ▸ hi)⟩

/-- A label on `.def` has the value that is given there. -/
theorem operands_define_assemble (h : p.assemble memLen = (placed, .ok image)) {s : Statement}
    (hs : s ∈ placed) (hop : s.op = some (.directive .define)) :
    ∃ text, s.operands = [text] ∧ s.labelValue? = (Operand.parseWord text).toOption := by
  obtain ⟨i, hi⟩ := List.mem_iff_getElem?.mp hs
  obtain ⟨effect, heffect, -⟩ := assembled h hi
  cases Effect.ofMnemonic heffect with
  | moveTo horg _ _ _ _ =>
    rw [hop] at horg
    cases horg
  | @define text value _ hargs _ _ =>
    refine ⟨text, hargs, ?_⟩
    unfold Statement.labelValue?
    simp only [hop, hargs]
  | emit _ hnot => exact absurd hop hnot

/-- No label is on `.org`. -/
theorem labels_org_assemble (h : p.assemble memLen = (placed, .ok image)) {s : Statement}
    (hs : s ∈ p) (horg : s.op = some (.directive .org)) : s.labels = [] := by
  obtain ⟨i, hi⟩ := List.mem_iff_getElem?.mp hs
  obtain ⟨s', hi', hsame⟩ := getElem?_assemble h hi
  obtain ⟨effect, heffect, -⟩ := assembled h hi'
  rw [← hsame.op] at horg
  rw [← hsame.labels]
  cases Effect.ofMnemonic heffect with
  | moveTo _ _ hlabels _ _ => exact hlabels
  | define hop _ _ _ =>
    rw [hop] at horg
    cases horg
  | emit hnot _ => exact absurd horg hnot

/-- No label is there twice. -/
theorem nodup_labels (h : p.assemble memLen = (placed, .ok image)) :
    (p.flatMap (·.labels)).Nodup := by
  obtain ⟨_, _, -, -, hlabeled⟩ := labeled_assemble h
  exact hlabeled.nodup

/-- **The symbol table** has the labels of the program and no others. -/
theorem isSome_addressOf?_assemble (h : p.assemble memLen = (placed, .ok image))
    (label : String) :
    (image.symbols.addressOf? label).isSome ↔ label ∈ p.flatMap (·.labels) := by
  obtain ⟨ps, l, -, hsymbols, hlabeled⟩ := labeled_assemble h
  rw [← hsymbols]
  refine ⟨fun hsome => ?_, hlabeled.valued label⟩
  apply Decidable.not_not.mp
  intro hmem
  have hkept := hlabeled.kept label hmem
  unfold Layout.labelValue? at hkept
  rw [hkept] at hsome
  cases hsome

/-- **Values of labels.**  A label stands for what it is on: the value of a `.def`, or the address
    of a statement. -/
theorem addressOf?_assemble (h : p.assemble memLen = (placed, .ok image)) {s : Statement}
    (hs : s ∈ placed) {label : String} (hlabel : label ∈ s.labels) :
    image.symbols.addressOf? label = s.labelValue? := by
  obtain ⟨ps, l, rfl, hsymbols, hlabeled⟩ := labeled_assemble h
  obtain ⟨s', hs', rfl⟩ := List.mem_map.mp hs
  rw [(s'.sameCode_readBack image).labels] at hlabel
  rw [s'.labelValue?_readBack, ← hlabeled.values s' hs' label hlabel, ← hsymbols]
  rfl

/-- **Addresses.**  Up to the next statement that writes words, statements have the address that
    statement has, unless there is `.org` in between. -/
theorem address_eq_of_silent (h : p.assemble memLen = (placed, .ok image)) {j k : Nat}
    {s t : Statement} (hs : placed[j]? = some s) (ht : placed[k]? = some t) (hjk : j ≤ k)
    (hsilent : ∀ m u, j ≤ m → m < k → placed[m]? = some u → u.Silent)
    (hsorg : s.op ≠ some (.directive .org)) (hsdefine : s.op ≠ some (.directive .define))
    (htorg : t.op ≠ some (.directive .org)) (htdefine : t.op ≠ some (.directive .define)) :
    t.address = s.address := by
  obtain ⟨ps, l, hplaces, rfl, -⟩ := assemble_ok h
  obtain ⟨_, l₁, hsound, hrest⟩ := hplaces.drop (Layout.sound_start memLen) j
  obtain ⟨s₀, hs₀, rfl⟩ := Option.map_eq_some_iff.mp (List.getElem?_map.symm.trans hs)
  obtain ⟨t₀, ht₀, rfl⟩ := Option.map_eq_some_iff.mp (List.getElem?_map.symm.trans ht)
  rw [Statement.address_readBack, Statement.address_readBack]
  rw [(s₀.sameCode_readBack image).op] at hsorg hsdefine
  rw [(t₀.sameCode_readBack image).op] at htorg htdefine
  have haddress {k : Nat} {u : Statement} (hu : ps[j + k]? = some u)
      (horg : u.op ≠ some (.directive .org)) (hdefine : u.op ≠ some (.directive .define))
      (hbefore : ∀ m v, j ≤ m → m < j + k → (ps.map (Statement.readBack image))[m]? = some v →
        v.Silent) : u.address = some l₁.labelAddress := by
    refine hrest.address_of_silent hsound (List.getElem?_drop.trans hu) ?_ horg hdefine
    intro m v hm hv
    rw [List.getElem?_drop] at hv
    refine (v.silent_readBack image).mp (hbefore (j + m) _ (by omega) (by omega) ?_)
    rw [List.getElem?_map, hv]
    rfl
  rw [haddress (k := 0) hs₀ hsorg hsdefine fun m v hle hlt => absurd hlt (by omega)]
  obtain ⟨k, rfl⟩ : ∃ k', k = j + k' := ⟨k - j, by omega⟩
  exact haddress ht₀ htorg htdefine hsilent

end Program

end AnnaToolchain
