import AnnaToolchain.Proofs.Assembly.Labels

/-! # When assembly succeeds

    What a program needs to be assembled: each statement says something that
    can be done (`Effect.ofStatement_congr` tells from what), its labels are
    new, its words have room, and in the end each waiting word can be
    patched.  Failures of the last kind are found again in the layout
    (`Program.assemble_cases`). -/

namespace AnnaToolchain

/-! ## Effects -/

section

variable {memLen : Nat} {aliases : Aliases} {s s' : Statement} {effect : Effect}

/-- What a statement does depends on its code.  Of its labels it matters only that there is none on
    `.org`, and one on `.def`. -/
theorem Effect.ofStatement_congr (hop : s'.op = s.op) (hoperands : s'.operands = s.operands)
    (horg : s.op = some (.directive .org) → s'.labels = [])
    (hdefine : s.labels ≠ [] → s'.labels ≠ [])
    (h : Effect.ofStatement memLen aliases s = .ok effect) :
    Effect.ofStatement memLen aliases s' = .ok effect := by
  have hmnemonic := Effect.ofMnemonic h
  unfold ofStatement at h ⊢
  rw [hop, hoperands]
  cases hs : s.op with
  | none =>
    simp only [hs] at h
    exact h
  | some op =>
    simp only [hs] at h
    split at h
    · next harity =>
      simp only [harity, if_true]
      cases op with
      | real real => exact h
      | pseudo pseudo => exact h
      | directive kind =>
        -- only these two directives look at labels
        unfold ofDirective at h ⊢
        rw [hoperands]
        cases hmnemonic with
        | moveTo hkind hargs hlabels _ hin =>
          cases hkind.symm.trans hs
          rw [hargs] at h ⊢
          simp only [hlabels] at h
          simp only [horg hs]
          exact h
        | define hkind hargs hlabels hvalue =>
          cases hkind.symm.trans hs
          rw [hargs] at h ⊢
          simp only [if_neg hlabels] at h
          simp only [if_neg (hdefine hlabels)]
          exact h
        | emit hnotOrg hnotDefine =>
          rw [hs] at hnotOrg hnotDefine
          cases kind with
          | org => exact absurd rfl hnotOrg
          | define => exact absurd rfl hnotDefine
          | fill | cstr => exact h
          | ralias =>
            generalize s.operands = operands at h ⊢
            rcases operands with _ | ⟨_, _ | ⟨_, _ | ⟨_, _⟩⟩⟩ <;> exact h
    · cases h

end

namespace Layout

/-! ## Labels -/

theorem defineLabels_of_fresh {l : Layout} {labels : List String} (hnodup : labels.Nodup)
    (hfresh : ∀ label ∈ labels, l.labelValue? label = none) (value : Word) :
    ∃ l', l.defineLabels labels value = .ok l' := by
  induction labels generalizing l with
  | nil => exact ⟨l, rfl⟩
  | cons label labels ih =>
    obtain ⟨hnew, hnodup⟩ := List.nodup_cons.mp hnodup
    have hdefine : l.image.symbols.define? label value
        = some (l.image.symbols.insert label value) :=
      SymbolTable.define?_eq_some_iff.mpr ⟨hfresh label List.mem_cons_self, rfl⟩
    have hfirst : defineLabel value l label = .ok
        { l with image := { l.image with symbols := l.image.symbols.insert label value } } := by
      unfold defineLabel
      rw [hdefine]
    -- the others are still new
    obtain ⟨-, hvalues⟩ := defineLabel_defined hfirst
    obtain ⟨l', hrest⟩ := ih hnodup fun other hother => by
      rw [hvalues, if_neg fun heq => hnew (by rwa [heq])]
      exact hfresh other (List.mem_cons_of_mem _ hother)
    refine ⟨l', ?_⟩
    show (defineLabel value l label >>= fun l => l.defineLabels labels value) = .ok l'
    rw [hfirst]
    exact hrest

/-- Labels that differ from each other and from those of a layout. -/
structure Admits (l : Layout) (p : List Statement) : Prop where
  nodup : (p.flatMap (·.labels)).Nodup
  fresh : ∀ label ∈ p.flatMap (·.labels), l.labelValue? label = none

theorem Admits.head {l : Layout} {s : Statement} {p : List Statement} (h : l.Admits (s :: p)) :
    s.labels.Nodup ∧ ∀ label ∈ s.labels, l.labelValue? label = none := by
  obtain ⟨hnodup, hfresh⟩ := h
  rw [List.flatMap_cons] at hnodup hfresh
  exact ⟨(List.nodup_append.mp hnodup).1,
    fun label hlabel => hfresh label (List.mem_append_left _ hlabel)⟩

theorem Admits.tail {l l' : Layout} {n : Nat} {s s' : Statement} {p : List Statement}
    (h : l.Admits (s :: p)) (hplace : l.place n s = (s', .ok l')) : l'.Admits p := by
  obtain ⟨hnodup, hfresh⟩ := h
  rw [List.flatMap_cons] at hnodup hfresh
  obtain ⟨-, hrest, hdisjoint⟩ := List.nodup_append.mp hnodup
  refine ⟨hrest, fun label hlabel => ?_⟩
  rw [(place_labeled hplace).values, if_neg fun hmem => hdisjoint label hmem label hlabel rfl]
  exact hfresh label (List.mem_append_right _ hlabel)

/-! ## Words -/

theorem write_of_fresh {l : Layout} (site : Site) (e : Emission)
    (hin : l.cursor < l.image.memLen) (hfresh : l.image.get? l.next = none) :
    ∃ l', l.write site e = .ok l' := by
  unfold write
  rw [if_pos hin]
  simp only [Image.write?_eq_some_iff.mpr ⟨hfresh, rfl⟩, ← next.eq_1]
  exact ⟨_, rfl⟩

/-! ## Statements -/

theorem place_moveTo {l : Layout} {n : Nat} {s : Statement} {address : Word}
    (heffect : Effect.ofStatement l.image.memLen l.aliases s = .ok (.moveTo address)) :
    l.place n s = (unplaced s, .ok { l with cursor := address.toNat }) := by
  unfold place
  rw [heffect]
  rfl

theorem place_define {l l' : Layout} {n : Nat} {s : Statement} {value : Word}
    (heffect : Effect.ofStatement l.image.memLen l.aliases s = .ok (.define value))
    (hlabels : l.defineLabels s.labels value = .ok l') : l.place n s = (unplaced s, .ok l') := by
  unfold place
  rw [heffect]
  simp only [apply, hlabels]

theorem place_emit {l l₁ l' : Layout} {n : Nat} {s : Statement} {es : List Emission}
    {aliases : Aliases} {ws : List Word}
    (heffect : Effect.ofStatement l.image.memLen l.aliases s = .ok (.emit es aliases))
    (hlabels : l.defineLabels s.labels l.labelAddress = .ok l₁)
    (hwords : writeAll n { l₁ with aliases := aliases } [] es = (ws, .ok l')) :
    l.place n s = ({ s with address := some l.labelAddress, words := ws }, .ok l') := by
  unfold place
  rw [heffect]
  simp only [apply, hlabels, hwords]

/-! ## Programs -/

theorem placeFrom_of_places {n : Nat} {l l' : Layout} {ss ss' done : List Statement}
    (h : Places n l ss ss' l') (hn : done.length = n) :
    l.placeFrom done ss = (done.reverse ++ ss', .ok l') := by
  induction h generalizing done with
  | nil n l => rw [placeFrom, List.append_nil]
  | @cons n l l₁ l' s s' ss ss' hplace _ ih =>
    have hnext : (s' :: done).length = n + 1 := by rw [List.length_cons, hn]
    rw [placeFrom, hn, hplace]
    simp only [ih hnext, List.reverse_cons, List.append_assoc, List.singleton_append]

end Layout

/-! ## Patching -/

/-- Patching fails at a word that cannot be patched in the image as it was at first. -/
theorem Relocation.resolveAll_cases {p : Program} {image : Image} {rs : List (Word × Relocation)}
    (hd : rs.Pairwise fun x y => x.1 ≠ y.1) :
    (∃ p' image', resolveAll p image rs = (p', .ok image')) ∨
      ∃ address r cause p' s, (address, r) ∈ rs ∧ resolve image address r.label = .error cause ∧
        resolveAll p image rs = (p', .error (.on s cause)) := by
  induction rs generalizing p image with
  | nil => exact .inl ⟨p, image, rfl⟩
  | cons x rs ih =>
    obtain ⟨a, r⟩ := x
    obtain ⟨hne, hrs⟩ := List.pairwise_cons.mp hd
    unfold resolveAll
    cases hr : resolve image a r.label with
    | error cause => exact .inr ⟨a, r, cause, p, _, List.mem_cons_self, hr, rfl⟩
    | ok word =>
      rcases @ih (record p r.site word) (image.set a word) hrs
        with h | ⟨address, r', cause, p', s, hmem, herror, h⟩
      · exact .inl h
      · -- what has been patched stands at another address
        rw [resolve_set_ne image word (hne _ hmem)] at herror
        exact .inr ⟨address, r', cause, p', s, List.mem_cons_of_mem _ hmem, herror, h⟩

/-- **Assembly** of a program that can be placed succeeds, or a waiting word cannot be patched. -/
theorem Program.assemble_cases {p ps : Program} {memLen : Nat} {l : Layout}
    (h : Layout.Places 0 (.start memLen) p ps l) :
    (∃ placed image, p.assemble memLen = (placed, .ok image)) ∨
      ∃ address r cause placed s, l.relocations[address]? = some r ∧
        Relocation.resolve l.image address r.label = .error cause ∧
        p.assemble memLen = (placed, .error (.on s cause)) := by
  have hlayout : p.layout memLen = (ps, .ok l) := Layout.placeFrom_of_places h rfl
  unfold assemble
  rw [hlayout]
  rcases @Relocation.resolveAll_cases ps l.image _ (pairwise_toList l.relocations)
    with hok | ⟨a, r, cause, placed, s, hmem, hr, herr⟩
  · exact .inl hok
  · exact .inr ⟨a, r, cause, placed, s,
      Std.ExtTreeMap.mem_toList_iff_getElem?_eq_some.mp hmem, hr, herr⟩

end AnnaToolchain
