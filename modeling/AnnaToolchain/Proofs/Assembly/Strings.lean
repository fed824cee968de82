import AnnaToolchain.Proofs.Assembly.Straight
import AnnaToolchain.Proofs.Program.Code
import AnnaToolchain.Proofs.Token.Quotation

/-! # The words of texts

    `.cstr` writes the characters of its texts one after another, and a zero
    behind the last (`Emission.ofCstr_eq_ok_iff`).  It can do so for all
    texts without characters above U+FFFF, and wherever there is room
    (`Program.assembles_texts`). -/

namespace AnnaToolchain

/-- No character is above U+FFFF. -/
def Text.IsNarrow (text : String) : Prop :=
  ∀ c ∈ text.toList, c.toNat < 65536

namespace Emission

/-- The word of a character. -/
def character (c : Char) : Emission :=
  { word := BitVec.ofNat 16 c.toNat }

/-- The words of texts: their characters in a row, and a zero. -/
def texts (contents : List String) : List Emission :=
  (contents.flatMap String.toList).map character ++ [{ word := 0 }]

theorem ofChar_eq_ok_iff {c : Char} {e : Emission} :
    ofChar c = .ok e ↔ c.toNat < 65536 ∧ e = character c := by
  have hsize : UInt16.size = 65536 := rfl
  unfold ofChar
  rw [hsize]
  by_cases hc : c.toNat < 65536
  · rw [if_pos hc]
    exact ⟨fun h => ⟨hc, (Except.ok.inj h).symm⟩, fun h => congrArg Except.ok h.2.symm⟩
  · rw [if_neg hc]
    exact ⟨nofun, fun h => absurd h.1 hc⟩

theorem mapM_ofChar_eq_ok_iff {cs : List Char} {es : List Emission} :
    cs.mapM ofChar = .ok es ↔ (∀ c ∈ cs, c.toNat < 65536) ∧ es = cs.map character := by
  rw [mapM_eq_ok_iff]
  induction cs generalizing es with
  | nil =>
    rw [List.forall₂_nil_left_iff]
    exact ⟨fun h => ⟨List.forall_mem_nil _, h⟩, fun h => h.2⟩
  | cons c cs ih =>
    rw [List.forall₂_cons_left_iff, List.forall_mem_cons]
    constructor
    · rintro ⟨e, es', he, hes', rfl⟩
      obtain ⟨hc, rfl⟩ := ofChar_eq_ok_iff.mp he
      obtain ⟨hcs, rfl⟩ := ih.mp hes'
      exact ⟨⟨hc, hcs⟩, rfl⟩
    · rintro ⟨⟨hc, hcs⟩, rfl⟩
      exact ⟨_, _, ofChar_eq_ok_iff.mpr ⟨hc, rfl⟩, ih.mpr ⟨hcs, rfl⟩, rfl⟩

theorem ofText_eq_ok_iff {operand : String} {es : List Emission} :
    ofText operand = .ok es ↔ ∃ text, Quotes operand text ∧ Text.IsNarrow text ∧
      es = text.toList.map character := by
  unfold ofText
  constructor
  · intro h
    obtain ⟨text, htext, hes⟩ := bind_eq_ok h
    obtain ⟨found, hparse, hfound⟩ := bind_eq_ok (mapError_eq_ok htext)
    obtain ⟨hnarrow, rfl⟩ := mapM_ofChar_eq_ok_iff.mp hes
    refine ⟨text, Operand.quotes_of_parse ?_, hnarrow, rfl⟩
    -- only a text is taken for one
    cases found with
    | text contents =>
      cases hfound
      exact hparse
    | _ => cases hfound
  · rintro ⟨text, hquotes, hnarrow, rfl⟩
    rw [hquotes.parse]
    exact mapM_ofChar_eq_ok_iff.mpr ⟨hnarrow, rfl⟩

theorem mapM_ofText_eq_ok_iff {operands : List String} {ess : List (List Emission)} :
    operands.mapM ofText = .ok ess ↔ ∃ contents, List.Forall₂ Quotes operands contents ∧
      (∀ text ∈ contents, Text.IsNarrow text) ∧
      ess = contents.map fun text => text.toList.map character := by
  rw [mapM_eq_ok_iff]
  induction operands generalizing ess with
  | nil =>
    rw [List.forall₂_nil_left_iff]
    constructor
    · rintro rfl
      exact ⟨[], .nil, List.forall_mem_nil _, rfl⟩
    · rintro ⟨contents, hquotes, -, rfl⟩
      rw [List.forall₂_nil_left_iff.mp hquotes]
      rfl
  | cons operand operands ih =>
    rw [List.forall₂_cons_left_iff]
    constructor
    · rintro ⟨es, ess', hes, hess', rfl⟩
      obtain ⟨text, hquotes, hnarrow, rfl⟩ := ofText_eq_ok_iff.mp hes
      obtain ⟨contents, hrest, hall, rfl⟩ := ih.mp hess'
      exact ⟨text :: contents, .cons hquotes hrest, List.forall_mem_cons.mpr ⟨hnarrow, hall⟩, rfl⟩
    · rintro ⟨contents, hquotes, hall, rfl⟩
      obtain ⟨text, contents, hfirst, hrest, rfl⟩ := List.forall₂_cons_left_iff.mp hquotes
      obtain ⟨hnarrow, hall⟩ := List.forall_mem_cons.mp hall
      exact ⟨_, _, ofText_eq_ok_iff.mpr ⟨text, hfirst, hnarrow, rfl⟩,
        ih.mpr ⟨contents, hrest, hall, rfl⟩, rfl⟩

/-- **The words of `.cstr`.** -/
theorem ofCstr_eq_ok_iff {operands : List String} {es : List Emission} :
    ofCstr operands = .ok es ↔ ∃ contents, List.Forall₂ Quotes operands contents ∧
      (∀ text ∈ contents, Text.IsNarrow text) ∧ es = texts contents := by
  have hflatten (contents : List String) :
      (contents.map fun text => text.toList.map character).flatten
        = (contents.flatMap String.toList).map character := by
    rw [List.map_flatMap]
    rfl
  unfold ofCstr
  constructor
  · intro h
    obtain ⟨ess, hess, hes⟩ := bind_eq_ok h
    obtain ⟨contents, hquotes, hnarrow, rfl⟩ := mapM_ofText_eq_ok_iff.mp hess
    refine ⟨contents, hquotes, hnarrow, ?_⟩
    rw [← Except.ok.inj hes, hflatten]
    rfl
  · rintro ⟨contents, hquotes, hnarrow, rfl⟩
    rw [mapM_ofText_eq_ok_iff.mpr ⟨contents, hquotes, hnarrow, rfl⟩, ok_bind, hflatten]
    rfl

theorem length_texts (contents : List String) :
    (texts contents).length = (contents.flatMap String.toList).length + 1 := by
  rw [texts, List.length_append, List.length_map, List.length_singleton]

/-- No word of a text waits for a label. -/
theorem label_of_mem_texts {contents : List String} {e : Emission} (h : e ∈ texts contents) :
    e.label = none := by
  rcases List.mem_append.mp h with h | h
  · obtain ⟨c, -, rfl⟩ := List.mem_map.mp h
    rfl
  · rw [List.mem_singleton.mp h]

end Emission

/-! ## Statements -/

/-- A `.cstr` statement that does anything writes its texts. -/
theorem Effect.exists_texts {memLen : Nat} {aliases : Aliases} {s : Statement} {effect : Effect}
    (hop : s.op = some (.directive .cstr))
    (h : Effect.ofStatement memLen aliases s = .ok effect) :
    ∃ contents, List.Forall₂ Quotes s.operands contents ∧
      (∀ text ∈ contents, Text.IsNarrow text) ∧
      effect = .emit (Emission.texts contents) aliases := by
  unfold ofStatement at h
  simp only [hop] at h
  split at h
  · unfold ofDirective at h
    obtain ⟨es, hes, h⟩ := bind_eq_ok h
    obtain ⟨contents, hquotes, hnarrow, rfl⟩ := Emission.ofCstr_eq_ok_iff.mp hes
    exact ⟨contents, hquotes, hnarrow, (Except.ok.inj h).symm⟩
  · cases h

theorem Effect.ofStatement_texts {aliases : Aliases} {s : Statement} {contents : List String}
    (memLen : Nat) (hop : s.op = some (.directive .cstr))
    (hquotes : List.Forall₂ Quotes s.operands contents) (hne : contents ≠ [])
    (hnarrow : ∀ text ∈ contents, Text.IsNarrow text) :
    Effect.ofStatement memLen aliases s = .ok (.emit (Emission.texts contents) aliases) := by
  have harity : (Mnemonic.arity (.directive .cstr)).accepts s.operands.length = true := by
    have hlength : 0 < s.operands.length := by
      rw [hquotes.length_eq]
      exact List.length_pos_of_ne_nil hne
    exact decide_eq_true hlength
  unfold ofStatement
  simp only [hop, harity, if_true]
  unfold ofDirective
  simp only [Emission.ofCstr_eq_ok_iff.mpr ⟨contents, hquotes, hnarrow, rfl⟩]
  rfl

/-! ## Programs -/

/-- Words that wait for no label are written where there is room. -/
theorem Layout.exists_writeAll {l : Layout} {n : Nat} {es : List Emission} {done : List Word}
    (hd : l.Dense) (hplain : ∀ e ∈ es, e.label = none)
    (hroom : l.cursor + es.length ≤ l.image.memLen) :
    ∃ ws l', writeAll n l done es = (ws, .ok l') ∧
      ∀ a : Word, l'.relocations[a]? = l.relocations[a]? := by
  induction es generalizing l done with
  | nil => exact ⟨_, l, rfl, fun _ => rfl⟩
  | cons e es ih =>
    obtain ⟨hlabel, hplain⟩ := List.forall_mem_cons.mp hplain
    rw [List.length_cons] at hroom
    obtain ⟨l₁, hwrite⟩ := write_of_fresh ⟨n, done.length⟩ e (by omega) (hd.get?_next (by omega))
    have hw := write_ok hwrite
    have hroom₁ : l₁.cursor + es.length ≤ l₁.image.memLen := by
      rw [hw.cursor, hw.memLen]
      omega
    obtain ⟨ws, l', hrest, hwaiting⟩ := @ih l₁ (e.word :: done) (hw.dense hd) hplain hroom₁
    refine ⟨ws, l', ?_, fun a => ?_⟩
    · rw [writeAll, hwrite]
      exact hrest
    · rw [hwaiting, hw.waiting, hlabel]
      split
      · rfl
      · rfl

/-- **Every text** without characters above U+FFFF can be written in a program, read back from it,
    and assembled, as long as it fits into memory. -/
theorem Program.assembles_texts {contents : List String} (hne : contents ≠ [])
    (hnarrow : ∀ text ∈ contents, Text.IsNarrow text)
    (hshort : ∀ text ∈ contents, text.length ≤ Quotation.maxLength)
    (hfits : (contents.flatMap String.toList).length < maxMemory) :
    ∃ p placed image,
      parse (".cstr " ++ String.intercalate ", " (contents.map Quotation.quote)) = .ok p ∧
      p.assemble maxMemory = (placed, .ok image) ∧
      ∃ s ∈ placed, s.op = some (.directive .cstr) ∧
        List.Forall₂ Quotes s.operands contents := by
  have hquotes : List.Forall₂ Quotes (contents.map Quotation.quote) contents := by
    rw [List.forall₂_map_left_iff, List.forall₂_same]
    exact fun text htext => Operand.quotes_quote (hshort text htext)
  have hcode : ∀ s ∈ [Statement.code (.directive .cstr) (contents.map Quotation.quote)],
      s.IsCode := by
    intro s hs
    refine ⟨_, _, List.mem_singleton.mp hs, fun operand hoperand => ?_⟩
    obtain ⟨text, htext, rfl⟩ := List.mem_map.mp hoperand
    exact Quotation.isOperandText_quote (hshort text htext)
  obtain ⟨p, hparse, hp⟩ := parse_code hcode
  have htext : Program.codeText [Statement.code (.directive .cstr) (contents.map Quotation.quote)]
      = ".cstr " ++ String.intercalate ", " (contents.map Quotation.quote) := by
    obtain ⟨text, rest, rfl⟩ := List.exists_cons_of_ne_nil hne
    rfl
  -- the program that is read has one statement, which is placed at the front of memory
  obtain ⟨s, rest, rfl, hs, hrest⟩ := List.map_eq_cons_iff.mp hp
  obtain rfl := List.map_eq_nil_iff.mp hrest
  have hop : s.op = some (.directive .cstr) := congrArg Statement.op hs
  have hoperands : s.operands = contents.map Quotation.quote := congrArg Statement.operands hs
  have hlabels : s.labels = [] := congrArg Statement.labels hs
  rw [← hoperands] at hquotes
  have hroom : (Layout.start maxMemory).cursor + (Emission.texts contents).length
      ≤ (Layout.start maxMemory).image.memLen := by
    rw [Emission.length_texts]
    show 0 + _ ≤ maxMemory
    omega
  obtain ⟨ws, l, hwords, hwaiting⟩ := Layout.exists_writeAll (Layout.dense_start maxMemory)
    (fun e => Emission.label_of_mem_texts) hroom
  have hdefine : (Layout.start maxMemory).defineLabels s.labels
      (Layout.start maxMemory).labelAddress = .ok (Layout.start maxMemory) := by
    rw [hlabels]
    rfl
  have hplace := Layout.place_emit (Effect.ofStatement_texts _ hop hquotes hne hnarrow) hdefine
    hwords
  rcases assemble_cases (.cons hplace (.nil 1 l)) with ⟨placed, image, hassemble⟩ | hfailed
  · refine ⟨[s], placed, image, ?_, hassemble, ?_⟩
    · rw [← htext]
      exact hparse
    · obtain ⟨t, rest, hcodes, hnil, rfl⟩ := List.forall₂_cons_left_iff.mp (sameCode_assemble hassemble)
      refine ⟨t, List.mem_cons_self, hcodes.op.trans hop, ?_⟩
      rwa [hcodes.operands]
  · -- no word waits for a label
    obtain ⟨a, r, -, -, -, hr, -⟩ := hfailed
    rw [hwaiting] at hr
    simp [Layout.start] at hr

end AnnaToolchain
