import AnnaToolchain.Proofs.Assembly.Words
import AnnaToolchain.Proofs.Peephole.Positions
import AnnaToolchain.Proofs.Peephole.Shadow

/-! # Labels of an optimized program

    An optimized program is placed behind the program it was made of
    (`Lineage.places`), so that it is assembled as well (`optimize_assembles`)
    unless a label has come to stand on `.org`, or a branch does not reach.
    It has the same labels, and each of them stands for what it is on then
    (`optimize_labels`). -/

namespace AnnaToolchain.Peephole

open Layout

variable {memLen : Nat} {aliases : Aliases} {s : Statement} {effect : Effect}

/-! ## Words of statements that go, and of those that come -/

theorem op_of_push {x : String × String} (h : pushOperands? s = some x) :
    s.op = some (.pseudo .push) ∧ s.operands = [x.1, x.2] := by
  unfold pushOperands? at h
  split at h
  · next hop hargs =>
    cases h
    exact ⟨hop, hargs⟩
  · cases h

theorem op_of_pop {x : String × String} (h : popOperands? s = some x) :
    s.op = some (.pseudo .pop) ∧ s.operands = [x.1, x.2] := by
  unfold popOperands? at h
  split at h
  · next hop hargs =>
    cases h
    exact ⟨hop, hargs⟩
  · cases h

theorem op_of_branch {target : String} (h : branchTarget? s = some target) :
    s.op = some (.pseudo .br) ∨ s.op = some (.real (.branch .eq)) := by
  unfold branchTarget? at h
  split at h
  · next hop _ => exact .inl hop
  · next hop _ => exact .inr hop
  · cases h

/-- A statement that may go writes words and gives no names. -/
theorem effect_of_removable (hs : isRemovable s = true)
    (h : Effect.ofStatement memLen aliases s = .ok effect) : ∃ es, effect = .emit es aliases := by
  have hpseudo {op : Pseudo} (hop : s.op = some (.pseudo op)) :
      ∃ es, effect = .emit es aliases := by
    obtain ⟨es, -, heffect⟩ := Effect.ofStatement_pseudo hop h
    exact ⟨es, heffect⟩
  unfold isRemovable at hs
  rw [Bool.or_eq_true, Bool.or_eq_true] at hs
  rcases hs with (hs | hs) | hs
  · obtain ⟨x, hx⟩ := Option.isSome_iff_exists.mp hs
    exact hpseudo (op_of_push hx).1
  · obtain ⟨x, hx⟩ := Option.isSome_iff_exists.mp hs
    exact hpseudo (op_of_pop hx).1
  · obtain ⟨target, htarget⟩ := Option.isSome_iff_exists.mp hs
    rcases op_of_branch htarget with hop | hop
    · exact hpseudo hop
    · obtain ⟨e, -, heffect⟩ := Effect.ofStatement_real hop h
      exact ⟨[e], heffect⟩

/-- A `push` writes two words, and its value is a register. -/
theorem effect_of_push {sp value : String} (hpush : pushOperands? s = some (sp, value))
    (h : Effect.ofStatement memLen aliases s = .ok effect) :
    ∃ r e e', aliases.register value = .ok r ∧ effect = .emit [e, e'] aliases := by
  obtain ⟨hop, hargs⟩ := op_of_push hpush
  obtain ⟨es, hes, rfl⟩ := Effect.ofStatement_pseudo hop h
  rw [hargs] at hes
  obtain ⟨-, q, -, hq, rfl⟩ := Emission.ofPseudo_push hes
  exact ⟨q, _, _, hq, rfl⟩

/-- The value of a `pop` is a register. -/
theorem register_of_pop {sp value : String} (hpop : popOperands? s = some (sp, value))
    (h : Effect.ofStatement memLen aliases s = .ok effect) :
    ∃ r, aliases.register value = .ok r := by
  obtain ⟨hop, hargs⟩ := op_of_pop hpop
  obtain ⟨es, hes, rfl⟩ := Effect.ofStatement_pseudo hop h
  rw [hargs] at hes
  obtain ⟨-, q, -, hq, -⟩ := Emission.ofPseudo_pop hes
  exact ⟨q, hq⟩

/-- A `mov` between registers writes one word, which waits for no label. -/
theorem effect_of_mov {rd rs : String} {r q : Register} (hn : aliases.Native)
    (hop : s.op = some (.pseudo .mov)) (hargs : s.operands = [rd, rs])
    (hr : aliases.register rd = .ok r) (hq : aliases.register rs = .ok q) :
    ∃ e, e.label = none ∧ Effect.ofStatement memLen aliases s = .ok (.emit [e] aliases) := by
  refine ⟨{ word := (Instruction.ofRegisters (.math .add) rfl r q .zero).encode }, rfl, ?_⟩
  have hreal : Emission.ofInstruction aliases (.math .add) [rd, rs, "r0"]
      = .ok { word := (Instruction.ofRegisters (.math .add) rfl r q .zero).encode } := by
    have hregs : [rd, rs, "r0"].mapM aliases.register = .ok [r, q, .zero] := by
      simp only [List.mapM_cons, List.mapM_nil, hr, hq, hn.register_zero]
      rfl
    show ([rd, rs, "r0"].mapM aliases.register >>= _) = _
    rw [hregs]
    rfl
  have hpseudo : Emission.ofPseudo aliases .mov [rd, rs]
      = .ok [{ word := (Instruction.ofRegisters (.math .add) rfl r q .zero).encode }] := by
    show ([((.math .add : Opcode), [rd, rs, "r0"])].mapM fun real =>
      Emission.ofInstruction aliases real.1 real.2) = _
    simp only [List.mapM_cons, List.mapM_nil, hreal]
    rfl
  unfold Effect.ofStatement
  simp only [hop, hargs, hpseudo]
  rfl

/-! ## Placing what comes from a program -/

theorem native_place {l l₁ : Layout} {n : Nat} {s t : Statement} (hn : l.aliases.Native) (hs : l.Sound)
    (h : l.place n s = (t, .ok l₁)) : l₁.aliases.Native := by
  obtain ⟨effect, heffect, happlied⟩ := place_ok hs h
  rw [happlied.aliases, Effect.aliases_ofStatement heffect]
  exact Aliases.native_after hn s

theorem sound_place {l l₁ : Layout} {n : Nat} {s t : Statement} (hs : l.Sound)
    (h : l.place n s = (t, .ok l₁)) : l₁.Sound := by
  obtain ⟨_, -, happlied⟩ := place_ok hs h
  exact happlied.sound

theorem aliases_place_of_removable {l l₁ : Layout} {n : Nat} {s t : Statement} (hs : l.Sound)
    (hremovable : isRemovable s = true) (h : l.place n s = (t, .ok l₁)) :
    l₁.aliases = l.aliases := by
  obtain ⟨effect, heffect, happlied⟩ := place_ok hs h
  obtain ⟨es, rfl⟩ := effect_of_removable hremovable heffect
  exact happlied.aliases

/-- The register that a missing `pop` was to load is one where the `mov` stands: nothing in between
    has given a name. -/
theorem Lineage.register_of_spilled {value : String} {carried : List String} {p p' : Program}
    (h : Lineage (.spilled value) carried p p') {n : Nat} {l lEnd : Layout}
    {ps : List Statement} (hs : l.Sound) (hp : Places n l p ps lEnd) : ∃ r, l.aliases.register value = .ok r := by
  generalize hb : Before.spilled value = b at h
  induction h generalizing n l ps with
  | nil hb' | loose hb' _ _ _ _ | kept hb' _ _ _ _ _ _ | replaced hb' _ _ _ _ _ _ =>
    rw [← hb] at hb'
    cases hb'
  | gone why _ _ ih =>
    cases hp with
    | cons hplace hrest =>
      rw [← aliases_place_of_removable hs why.isRemovable hplace]
      exact ih (sound_place hs hplace) hrest (by rw [← hb]; rfl)
  | reloaded hpop _ _ _ =>
    cases hb
    cases hp with
    | cons hplace _ =>
      obtain ⟨effect, heffect, -⟩ := place_ok hs hplace
      exact register_of_pop hpop heffect

/-- A statement that only the program has leaves the optimized one further behind. -/
theorem shadows_of_removable {l l' l₁ : Layout} {n : Nat} {s t : Statement} (h : Shadows l l')
    (hs : l.Sound) (hremovable : isRemovable s = true) (hplace : l.place n s = (t, .ok l₁)) :
    Shadows l₁ l' := by
  obtain ⟨effect, heffect, -⟩ := place_ok hs hplace
  obtain ⟨es, rfl⟩ := effect_of_removable hremovable heffect
  exact h.placeAlone heffect hplace

/-- **Placing.**  Behind a program that can be placed, what comes from it can be placed, if no label
    stands on `.org`. -/
theorem Lineage.places {b : Before} {carried : List String} {p p' : Program}
    (h : Lineage b carried p p') {n n' : Nat} {l l' lEnd : Layout} {ps : List Statement}
    (hn : l.aliases.Native) (hs : l.Sound) (hs' : l'.Sound) (hshadows : Shadows l l')
    (hadmits : l'.Admits p') (horg : ∀ s ∈ p', s.op = some (.directive .org) → s.labels = [])
    (hp : Places n l p ps lEnd) :
    ∃ ps' lEnd', Places n' l' p' ps' lEnd' ∧ Shadows lEnd lEnd' := by
  induction h generalizing n n' l l' ps with
  | nil =>
    cases hp
    exact ⟨[], l', .nil n' l', hshadows⟩
  | @loose b carried s' ss' hb hop hlabels _ ih =>
    -- a loose statement writes nothing, so that the first layout need not move
    have heffect : Effect.ofStatement l.image.memLen l.aliases {} = .ok (.emit [] l.aliases) := rfl
    have heffect' : Effect.ofStatement l'.image.memLen l'.aliases s'
        = .ok (.emit [] l.aliases) := by
      unfold Effect.ofStatement
      rw [hop, hshadows.aliases]
    have hplace : l.place n {} = ({ address := some l.labelAddress }, .ok l) := rfl
    obtain ⟨t', l₁', hplace', h₁⟩ := hshadows.placeWords n' hs hs' heffect heffect' (.rest [])
      hadmits.head.1 hadmits.head.2 hplace
    obtain ⟨ps', lEnd', hrest', hEnd⟩ := ih hn hs (sound_place hs' hplace') h₁
      (hadmits.tail hplace') (fun s hmem => horg s (List.mem_cons_of_mem _ hmem)) hp
    exact ⟨t' :: ps', lEnd', .cons hplace' hrest', hEnd⟩
  | @kept b carried s s' ss ss' hb hop hoperands hlabels _ _ ih =>
    cases hp with
    | cons hplace hrest =>
      obtain ⟨t', l₁', hplace', h₁⟩ := hshadows.placeBoth n' hs hs' hop hoperands
        (fun hkind => horg s' List.mem_cons_self (hop.trans hkind))
        (fun label hlabel => by rw [hlabels]; exact List.mem_append_right _ hlabel)
        hadmits.head.1 hadmits.head.2 hplace
      obtain ⟨ps', lEnd', hrest', hEnd⟩ := ih (native_place hn hs hplace) (sound_place hs hplace)
        (sound_place hs' hplace') h₁ (hadmits.tail hplace')
        (fun s hmem => horg s (List.mem_cons_of_mem _ hmem)) hrest
      exact ⟨t' :: ps', lEnd', .cons hplace' hrest', hEnd⟩
  | @replaced b carried s s' ss ss' sp value value' hb hpush hop hoperands hlabels hlineage ih =>
    cases hp with
    | cons hplace hrest =>
      have hremovable := isRemovable_of_push (s := s) (by rw [hpush]; rfl)
      have hs₁ := sound_place hs hplace
      obtain ⟨effect, heffect, -⟩ := place_ok hs hplace
      obtain ⟨q, e, e₂, hq, rfl⟩ := effect_of_push hpush heffect
      obtain ⟨r, hr⟩ := hlineage.register_of_spilled hs₁ hrest
      rw [aliases_place_of_removable hs hremovable hplace] at hr
      obtain ⟨e', he', heffect'⟩ : ∃ e', e'.label = none ∧
          Effect.ofStatement l.image.memLen l.aliases s' = .ok (.emit [e'] l.aliases) :=
        effect_of_mov hn hop hoperands hr hq
      have heffect₁ : Effect.ofStatement l'.image.memLen l'.aliases s'
          = .ok (.emit [e'] l.aliases) := by
        rw [hshadows.memLen, hshadows.aliases, heffect']
      obtain ⟨t', l₁', hplace', h₁⟩ := hshadows.placeWords n' hs hs' heffect heffect₁
        (.cons (.inl he') (.rest _)) hadmits.head.1 hadmits.head.2 hplace
      obtain ⟨ps', lEnd', hrest', hEnd⟩ := ih (native_place hn hs hplace) hs₁
        (sound_place hs' hplace') h₁ (hadmits.tail hplace')
        (fun s hmem => horg s (List.mem_cons_of_mem _ hmem)) hrest
      exact ⟨t' :: ps', lEnd', .cons hplace' hrest', hEnd⟩
  | gone why _ _ ih =>
    cases hp with
    | cons hplace hrest =>
      exact ih (native_place hn hs hplace) (sound_place hs hplace) hs'
        (shadows_of_removable hshadows hs why.isRemovable hplace) hadmits horg hrest
  | reloaded hpop _ _ ih =>
    cases hp with
    | cons hplace hrest =>
      have hremovable := isRemovable_of_pop (by rw [hpop]; rfl)
      exact ih (native_place hn hs hplace) (sound_place hs hplace) hs'
        (shadows_of_removable hshadows hs hremovable hplace) hadmits horg hrest

/-! ## Assembling -/

/-- A word that can be patched with one label can be patched with any other, unless it is a branch
    that does not reach. -/
theorem patch_error_of_ok {memLen memLen' : Nat} {address address' word target target' : Word}
    {label label' : String} {patched : Word} {cause : AssemblyCause}
    (h : Relocation.patch memLen address word target label = .ok patched)
    (h' : Relocation.patch memLen' address' word target' label' = .error cause) :
    ∃ offset, cause = .branchTooFar label' offset := by
  unfold Relocation.patch at h h'
  split at h'
  · split at h'
    · cases h'
    · cases h'
      exact ⟨_, rfl⟩
  · cases h'
  · cases h'
  · next hother₁ hother₂ hother₃ =>
    -- no other word can be patched at all
    split at h
    · next cond hop => exact absurd hop (hother₁ cond)
    · next hop => exact absurd hop hother₂
    · next hop => exact absurd hop hother₃
    · cases h

/-- Only the labels of a program decide which labels are defined when it has been placed. -/
theorem isSome_labelValue?_of_labels {memLen : Nat} {p p' ps ps' : List Statement} {l l' : Layout}
    (hlabels : p'.flatMap (·.labels) = p.flatMap (·.labels))
    (hp : Places 0 (.start memLen) p ps l) (hp' : Places 0 (.start memLen) p' ps' l')
    {label : String}
    (h : (l.labelValue? label).isSome) : (l'.labelValue? label).isSome := by
  refine hp'.labeled.valued label ?_
  rw [hlabels]
  apply Decidable.not_not.mp
  intro hmem
  rw [hp.labeled.kept label hmem] at h
  have hnone : (Layout.start memLen).labelValue? label = none := Std.ExtTreeMap.getElem?_empty
  rw [hnone] at h
  cases h

/-- A word that cannot be patched, behind a program where all words have been, is a branch that does
    not reach. -/
theorem resolve_error_of_shadows {memLen : Nat} {p p' ps ps' : List Statement} {l l' : Layout}
    {image : Image} (hlabels : p'.flatMap (·.labels) = p.flatMap (·.labels))
    (hp : Places 0 (.start memLen) p ps l) (hp' : Places 0 (.start memLen) p' ps' l')
    (hresolved : Relocation.Resolved l.image l.relocations.toList image)
    (hshadows : Shadows l l') {address : Word} {r' : Relocation} {cause : AssemblyCause}
    (hr' : l'.relocations[address]? = some r')
    (herror : Relocation.resolve l'.image address r'.label = .error cause) :
    ∃ offset, cause = .branchTooFar r'.label offset := by
  obtain ⟨address', r, word, hr, hlabel, hword, hword'⟩ := hshadows.waiting address r' hr'
  obtain ⟨patched, hpatched, -⟩ := hresolved.patched address' r
    (Std.ExtTreeMap.mem_toList_iff_getElem?_eq_some.mpr hr)
  unfold Relocation.resolve at hpatched herror
  rw [hword, Option.getD_some] at hpatched
  rw [hword', Option.getD_some] at herror
  split at hpatched
  · cases hpatched
  · next target htarget =>
    -- the label has a value in both
    have hsome : (l'.labelValue? r'.label).isSome :=
      isSome_labelValue?_of_labels hlabels hp hp' (by
        rw [← hlabel, labelValue?, htarget]
        rfl)
    split at herror
    · next hnone =>
      rw [labelValue?, hnone] at hsome
      cases hsome
    · exact patch_error_of_ok hpatched herror

/-- **Assembling.**  If a program can be assembled, then so can the optimized one, unless a label
    has come to stand on `.org` or a branch does not reach. -/
theorem optimize_assembles (annotate : Bool) {p placed : Program} {memLen : Nat} {image : Image}
    (h : p.assemble memLen = (placed, .ok image))
    (horg : ∀ s ∈ (optimize annotate p).1, s.op = some (.directive .org) → s.labels = []) :
    (∃ placed' image', (optimize annotate p).1.assemble memLen = (placed', .ok image')) ∨
      ∃ placed' e label offset, (optimize annotate p).1.assemble memLen = (placed', .error e)
        ∧ e.cause = .branchTooFar label offset := by
  have hlineage := optimize_lineage annotate p
  have hlabels : (optimize annotate p).1.flatMap (·.labels) = p.flatMap (·.labels) :=
    hlineage.labels
  obtain ⟨ps, l, hplaces, -, hresolved⟩ := Program.assemble_ok h
  have hadmits : (Layout.start memLen).Admits (optimize annotate p).1 := by
    refine ⟨?_, fun label _ => Std.ExtTreeMap.getElem?_empty⟩
    rw [hlabels]
    exact Program.nodup_labels h
  obtain ⟨ps', l', hplaces', hshadows⟩ := hlineage.places Aliases.native_initial
    (sound_start memLen) (sound_start memLen) (shadows_start memLen) hadmits horg hplaces
  rcases Program.assemble_cases hplaces' with hok | ⟨a, r, cause, placed', s, hr, herr, hall⟩
  · exact .inl hok
  · obtain ⟨offset, hcause⟩ := resolve_error_of_shadows hlabels hplaces hplaces' hresolved hshadows
      hr herr
    exact .inr ⟨placed', _, r.label, offset, hall, hcause⟩

/-! ## What labels stand for -/

section

variable {p q placed placed' : Program} {memLen : Nat} {image image' : Image} {f : Nat → Nat}

/-- Two assembled programs with the same labels have symbol tables with the same labels. -/
theorem isSome_addressOf?_of_labels (h : p.assemble memLen = (placed, .ok image))
    (h' : q.assemble memLen = (placed', .ok image'))
    (hlabels : q.flatMap (·.labels) = p.flatMap (·.labels)) (label : String) :
    (image'.symbols.addressOf? label).isSome = (image.symbols.addressOf? label).isSome := by
  rw [Bool.eq_iff_iff, Program.isSome_addressOf?_assemble h',
    Program.isSome_addressOf?_assemble h, hlabels]

/-- A label stands for what it is on, where that is now. -/
theorem Tracks.addressOf? (hf : Tracks .anything p q f)
    (h' : q.assemble memLen = (placed', .ok image')) {i : Nat} {s : Statement}
    (hs : p[i]? = some s) {label : String} (hlabel : label ∈ s.labels) :
    ∃ s', placed'[f i]? = some s' ∧ image'.symbols.addressOf? label = s'.labelValue? := by
  obtain ⟨s₁, hs₁, hmem⟩ := hf.labels i s hs label hlabel
  obtain ⟨s', hs', hsame⟩ := Program.getElem?_assemble h' hs₁
  rw [← hsame.labels] at hmem
  exact ⟨s', hs', Program.addressOf?_assemble h' (List.mem_of_getElem? hs') hmem⟩

/-- A label that was on `.def` keeps its value. -/
theorem Tracks.addressOf?_define (hf : Tracks .anything p q f)
    (h : p.assemble memLen = (placed, .ok image))
    (h' : q.assemble memLen = (placed', .ok image')) {s : Statement} (hs : s ∈ p)
    (hop : s.op = some (.directive .define)) {label : String} (hlabel : label ∈ s.labels) :
    image'.symbols.addressOf? label = image.symbols.addressOf? label := by
  obtain ⟨i, hi⟩ := List.mem_iff_getElem?.mp hs
  obtain ⟨t, ht, hsame⟩ := Program.getElem?_assemble h hi
  have hstays := isRemovable_of_op_directive hop
  obtain ⟨s', hs', hvalue'⟩ := hf.addressOf? h' hi hlabel
  obtain ⟨text, hargs, hvalue⟩ := Program.operands_define_assemble h
    (List.mem_of_getElem? ht) (hsame.op.trans hop)
  -- the statement is still there, with the same value
  have hkept : s'.op = some (.directive .define) ∧ s'.operands = [text] := by
    cases hf.fate i s hi with
    | kept hget hop' hoperands' _ _ =>
      obtain ⟨s'', hs'', hsame'⟩ := Program.getElem?_assemble h' hget
      cases hs'.symm.trans hs''
      rw [hsame'.op, hop', hop, hsame'.operands, hoperands', ← hsame.operands]
      exact ⟨rfl, hargs⟩
    | replaced _ hpush _ _ _ =>
      rw [isRemovable_of_push (by rw [hpush]; rfl)] at hstays
      cases hstays
    | gone why _ =>
      rw [why.isRemovable] at hstays
      cases hstays
  obtain ⟨text', hargs', hvalue₂⟩ := Program.operands_define_assemble h'
    (List.mem_of_getElem? hs') hkept.1
  cases hargs'.symm.trans hkept.2
  have hlabel' : label ∈ t.labels := by
    rw [hsame.labels]
    exact hlabel
  rw [hvalue', hvalue₂, ← hvalue,
    Program.addressOf?_assemble h (List.mem_of_getElem? ht) hlabel']

end

/-- The address that comes next from statement number `j` on: that of every statement up to the
    first one that writes words, as long as there is no `.org` before. -/
def NextAddress (placed : Program) (j : Nat) (address : Option Word) : Prop :=
  ∀ k t, j ≤ k → placed[k]? = some t →
    t.op ≠ some (.directive .org) → t.op ≠ some (.directive .define) →
    (∀ m u, j ≤ m → m < k → placed[m]? = some u → u.Silent) → address = t.address

/-- **Labels.**  Let a program be assembled, and no branch of the optimized program be too far.

    The optimized program is assembled if and only if no label has come to stand on `.org`.  Then
    it has the same labels, those on `.def` with the same values.  The label of a statement stands
    for what it is on now, that statement or the next one that is left: for the address that comes
    next there, or for a value, if what is left is `.def`. -/
theorem optimize_labels (annotate : Bool) {p placed : Program} {memLen : Nat} {image : Image}
    (h : p.assemble memLen = (placed, .ok image))
    (hrange : ∀ placed' e, (optimize annotate p).1.assemble memLen = (placed', .error e) →
      ∀ label offset, e.cause ≠ .branchTooFar label offset) :
    ((∃ placed' image', (optimize annotate p).1.assemble memLen = (placed', .ok image')) ↔
      ∀ s ∈ (optimize annotate p).1, s.op = some (.directive .org) → s.labels = []) ∧
    ∀ placed' image', (optimize annotate p).1.assemble memLen = (placed', .ok image') →
      (∀ label,
        (image'.symbols.addressOf? label).isSome = (image.symbols.addressOf? label).isSome) ∧
      (∀ s ∈ p, s.op = some (.directive .define) → ∀ label ∈ s.labels,
        image'.symbols.addressOf? label = image.symbols.addressOf? label) ∧
      ∃ f, Tracks .anything p (optimize annotate p).1 f ∧
        ∀ i s, p[i]? = some s → ∀ label ∈ s.labels, ∃ s', placed'[f i]? = some s' ∧
          image'.symbols.addressOf? label = s'.labelValue? ∧
          (s'.op ≠ some (.directive .define) →
            NextAddress placed' (f i) (image'.symbols.addressOf? label)) := by
  refine ⟨⟨?_, fun horg => ?_⟩, fun placed' image' h' => ?_⟩
  · rintro ⟨placed', image', h'⟩ s hs horg
    exact Program.labels_org_assemble h' hs horg
  · rcases optimize_assembles annotate h horg with hok | ⟨placed', e, label, offset, herror, hcause⟩
    · exact hok
    · exact absurd hcause (hrange placed' e herror label offset)
  · obtain ⟨f, hf⟩ := optimize_tracks annotate p
    have hlabels : (optimize annotate p).1.flatMap (·.labels) = p.flatMap (·.labels) :=
      (optimize_lineage annotate p).labels
    refine ⟨isSome_addressOf?_of_labels h h' hlabels,
      fun s hs hop label hlabel => hf.addressOf?_define h h' hs hop hlabel, f, hf, ?_⟩
    intro i s hs label hlabel
    obtain ⟨s', hs', hvalue⟩ := hf.addressOf? h' hs hlabel
    refine ⟨s', hs', hvalue, fun hdefine k t hle ht htorg htdefine hsilent => ?_⟩
    -- what carries a label is not `.org`
    have hsorg : s'.op ≠ some (.directive .org) := by
      intro horg
      obtain ⟨s₁, hs₁, hmem⟩ := hf.labels i s hs label hlabel
      obtain ⟨s₂, hs₂, hsame⟩ := Program.getElem?_assemble h' hs₁
      cases hs'.symm.trans hs₂
      rw [hsame.op] at horg
      rw [Program.labels_org_assemble h' (List.mem_of_getElem? hs₁) horg] at hmem
      cases hmem
    rw [hvalue, Statement.labelValue?_of_ne hdefine, Program.address_eq_of_silent h' hs' ht hle
      hsilent hsorg hdefine htorg htdefine]

/-- A branch to the next statement, and a label with a value. -/
def shortcut : Program :=
  [{ labels := ["start"], op := some (.pseudo .br), operands := ["&end"] },
   { labels := ["end"], op := some (.pseudo .halt) },
   { labels := ["size"], op := some (.directive .define), operands := ["10"] }]

/-- The image of `shortcut`. -/
def shortcutImage : Image :=
  { Image.empty maxMemory with
    words := ((∅ : Std.ExtTreeMap Word Word).insert 0 0x9000).insert 1 0xF000
    symbols := (((∅ : SymbolTable).insert "start" 0).insert "end" 1).insert "size" 10 }

theorem optimize_shortcut : (optimize false shortcut).1 =
    [{ labels := ["start", "end"], op := some (.pseudo .halt) },
     { labels := ["size"], op := some (.directive .define), operands := ["10"] }] := by
  have hsweep : sweep false shortcut =
      ([{ labels := ["start", "end"], op := some (.pseudo .halt) },
        { labels := ["size"], op := some (.directive .define), operands := ["10"] }], 1) := by
    rw [sweep, shortcut, sweepFrom_of_some (p := ⟨[],
      [{ labels := ["start", "end"], op := some (.pseudo .halt) },
       { labels := ["size"], op := some (.directive .define), operands := ["10"] }]⟩)
      (by decide +kernel)]
    exact sweepFrom_of_normal (by decide +kernel)
  rw [optimize_of_reduced hsweep, optimize_of_normal (by decide +kernel)]

theorem optimize_labels_shortcut :
    (shortcut.assemble maxMemory).2 = .ok shortcutImage ∧
    ∃ placed' image', (optimize false shortcut).1.assemble maxMemory = (placed', .ok image') ∧
      image'.symbols.addressOf? "size" = shortcutImage.symbols.addressOf? "size" := by
  have hassemble : (shortcut.assemble maxMemory).2 = .ok shortcutImage := by decide +kernel
  have hok : (((optimize false shortcut).1.assemble maxMemory).2).toOption.isSome = true := by
    rw [optimize_shortcut]
    decide +kernel
  obtain ⟨hiff, hlabels⟩ := optimize_labels false (Prod.ext rfl hassemble) (by
    intro placed' e herror
    rw [herror] at hok
    cases hok)
  obtain ⟨placed', image', h'⟩ := hiff.mpr (by rw [optimize_shortcut]; decide)
  obtain ⟨-, hdefine, -⟩ := hlabels placed' image' h'
  refine ⟨hassemble, placed', image', h', hdefine
    { labels := ["size"], op := some (.directive .define), operands := ["10"] } ?_ rfl "size" ?_⟩
  · decide
  · decide

/-- A label whose statement goes may come to stand on `.def`, and stand for a value then. -/
example : reduce? false []
      { labels := ["here"], op := some (.pseudo .push), operands := ["r7", "r1"] }
      [{ op := some (.pseudo .pop), operands := ["r7", "r1"] },
        { labels := ["size"], op := some (.directive .define), operands := ["10"] }]
    = some ⟨[], [{
        labels := ["here", "size"], op := some (.directive .define), operands := ["10"] }]⟩ := by
  decide +kernel

end AnnaToolchain.Peephole
