import AnnaToolchain.Proofs.Assembly.Account
import AnnaToolchain.Proofs.Assembly.Body
import AnnaToolchain.Proofs.Assembly.Referring
import AnnaToolchain.Proofs.Token.Decimal

/-! # Numbers in place of labels

    A program that is assembled can be written without references to labels:
    each of them is replaced by the number it is resolved to (`Literal`).
    The two programs are placed in step.  Where the one writes a word that
    waits for a label, the other writes at once what that word becomes
    (`Layout.Settled`); so both become one image, and their statements have
    the same addresses and the same words (`Program.assemble_literal`). -/

namespace AnnaToolchain

/-! ## Literal programs -/

namespace Statement

/-- The operand `text` of an assembled statement, written without a label: any text of its number,
    or if it is no label the text itself. -/
def LiteralOperand (symbols : SymbolTable) (s : Statement) (text text' : String) : Prop :=
  (s.label? text = none ∧ text' = text) ∨
    ∃ n, s.number? symbols text = some n ∧ NumberOrLabel.parse text' = .ok (.number n)

/-- The statement `t` is the assembled statement `s`, written without labels as operands. -/
structure Literal (symbols : SymbolTable) (s t : Statement) : Prop where
  labels : t.labels = s.labels
  op : t.op = s.op
  operands : List.Forall₂ (s.LiteralOperand symbols) s.operands t.operands

/-- An operand with the label in it replaced by its number in decimal. -/
def literalOperand (symbols : SymbolTable) (s : Statement) (text : String) : String :=
  match s.number? symbols text with
  | some n => toString n
  | none => text

/-- An assembled statement with its labels replaced by their numbers in decimal. -/
def literal (symbols : SymbolTable) (s : Statement) : Statement :=
  { s with operands := s.operands.map (s.literalOperand symbols) }

variable {symbols : SymbolTable} {s t : Statement}

theorem number?_eq_none {text : String} (h : s.label? text = none) :
    s.number? symbols text = none := by
  unfold number?
  rw [h]
  rfl

theorem eq_of_literalOperand {text text' : String} (h : s.LiteralOperand symbols text text')
    (hlabel : s.label? text = none) : text' = text := by
  rcases h with ⟨-, htext⟩ | ⟨n, hn, -⟩
  · exact htext
  · rw [number?_eq_none hlabel] at hn
    cases hn

theorem eq_of_literalOperands {texts texts' : List String}
    (h : List.Forall₂ (s.LiteralOperand symbols) texts texts')
    (hlabels : ∀ text ∈ texts, s.label? text = none) : texts' = texts := by
  induction h with
  | nil => rfl
  | cons hfirst _ ih =>
    obtain ⟨hlabel, hlabels⟩ := List.forall_mem_cons.mp hlabels
    rw [eq_of_literalOperand hfirst hlabel, ih hlabels]

theorem exists_of_literalOperands {front texts' : List String} {last : String} {n : Int}
    (h : List.Forall₂ (s.LiteralOperand symbols) (front ++ [last]) texts')
    (hfront : ∀ other ∈ front, s.label? other = none) (hn : s.number? symbols last = some n) :
    ∃ value, texts' = front ++ [value] ∧ NumberOrLabel.parse value = .ok (.number n) := by
  induction front generalizing texts' with
  | nil =>
    obtain ⟨value, rest, hvalue, hrest, rfl⟩ := List.forall₂_cons_left_iff.mp h
    rw [List.forall₂_nil_left_iff.mp hrest]
    refine ⟨value, rfl, ?_⟩
    -- what has a number is a label
    rcases hvalue with ⟨hlabel, -⟩ | ⟨n', hn', hparse⟩
    · rw [number?_eq_none hlabel] at hn
      cases hn
    · rw [hn] at hn'
      cases hn'
      exact hparse
  | cons other front ih =>
    obtain ⟨hother, hfront⟩ := List.forall_mem_cons.mp hfront
    obtain ⟨text', rest, hfirst, hrest, rfl⟩ := List.forall₂_cons_left_iff.mp h
    obtain ⟨value, rfl, hparse⟩ := ih hrest hfront
    exact ⟨value, by rw [eq_of_literalOperand hfirst hother]; rfl, hparse⟩

/-- A literal statement refers to no label. -/
theorem Literal.label?_eq_none (h : s.Literal symbols t) :
    ∀ text ∈ t.operands, t.label? text = none := by
  have hreal : t.isReal = s.isReal := by rw [isReal, isReal, h.op]
  have hoperand {text text' : String} (h : s.LiteralOperand symbols text text') :
      t.label? text' = none := by
    rcases h with ⟨hlabel, rfl⟩ | ⟨n, -, hparse⟩
    · rw [label?, hreal]
      exact hlabel
    · exact Statement.label?_eq_none (NumberOrLabel.labelOf?_of_number hparse)
  exact forall_mem_right_of_forall₂ (fun _ _ => hoperand) h.operands

/-! ### What a literal statement does -/

variable {memLen : Nat} {aliases : Aliases} {image : Image} {effect : Effect}

theorem literal_literal (hb : aliases.Bare)
    (heffect : Effect.ofStatement memLen aliases s = .ok effect) (hp : s.Performs image effect) :
    s.Literal image.symbols (s.literal image.symbols) := by
  refine ⟨rfl, rfl, ?_⟩
  have hsame {text : String} (h : s.label? text = none) :
      s.LiteralOperand image.symbols text (s.literalOperand image.symbols text) := by
    refine .inl ⟨h, ?_⟩
    unfold literalOperand
    rw [number?_eq_none h]
  refine List.forall₂_map_right_iff.mpr (List.forall₂_same.mpr fun text htext => ?_)
  rcases references hb heffect hp with ⟨hnone, -⟩ | ⟨front, last, n, href⟩
  · exact hsame (hnone text htext)
  · rw [href.operands, List.mem_append, List.mem_singleton] at htext
    rcases htext with hfront | rfl
    · exact hsame (href.others text hfront)
    · refine .inr ⟨n, href.number, ?_⟩
      unfold literalOperand
      rw [href.number]
      exact NumberOrLabel.parse_toString href.writable.1 href.writable.2

/-- **A literal statement** asks at once for the words that the statement with labels becomes. -/
theorem Literal.ofStatement (h : s.Literal image.symbols t) (hb : aliases.Bare)
    (heffect : Effect.ofStatement memLen aliases s = .ok effect) (hp : s.Performs image effect) :
    Effect.ofStatement memLen aliases t = .ok (effect.settle s.words) := by
  rcases references hb heffect hp with ⟨hnone, hsettle⟩ | ⟨front, last, n, href⟩
  · -- nothing has been replaced
    have hbody : t.body = s.body := by
      unfold body
      rw [h.labels, h.op, eq_of_literalOperands h.operands hnone]
    rw [Effect.ofStatement_of_body hbody, hsettle, heffect]
  · have hoperands := h.operands
    rw [href.operands] at hoperands
    obtain ⟨value, hvalue, hparse⟩ := exists_of_literalOperands hoperands href.others href.number
    have hbody : t.body = { s with operands := front ++ [value] }.body := by
      unfold body
      rw [h.labels, h.op, hvalue]
    rw [Effect.ofStatement_of_body hbody, href.settles value hparse]

end Statement

/-- An image is its words, the length of its memory and its symbols. -/
theorem Image.eq_of_get? {image image' : Image} (hmemLen : image.memLen = image'.memLen)
    (hsymbols : image.symbols = image'.symbols) (hget : ∀ a, image.get? a = image'.get? a) :
    image = image' := by
  have hwords : image.words = image'.words := Std.ExtTreeMap.ext_getElem? fun a => hget a
  obtain ⟨_, _, _, _, _⟩ := image
  obtain ⟨_, _, _, _, _⟩ := image'
  cases hwords
  cases hmemLen
  cases hsymbols
  rfl

/-! ## Literal layouts -/

namespace Layout

/-- The layout `m` of a literal program goes with the layout `l` of the program with labels: it has
    the words that `image` has in the end where `l` has written, and no word waits. -/
structure Settled (image : Image) (l m : Layout) : Prop where
  memLen : m.image.memLen = l.image.memLen
  symbols : m.image.symbols = l.image.symbols
  get? : ∀ a, m.image.get? a = (l.image.get? a).bind fun _ => image.get? a
  cursor : m.cursor = l.cursor
  aliases : m.aliases = l.aliases
  waiting : m.relocations = ∅

variable {image : Image} {l l₁ m : Layout}

theorem settled_start (image : Image) (memLen : Nat) :
    Settled image (start memLen) (start memLen) :=
  ⟨rfl, rfl, fun a => by simp [start], rfl, rfl, rfl⟩

theorem Settled.defineLabel (h : Settled image l m) {value : Word} {label : String}
    (hl : Layout.defineLabel value l label = .ok l₁) :
    ∃ m₁, Layout.defineLabel value m label = .ok m₁ ∧ Settled image l₁ m₁ := by
  unfold Layout.defineLabel at hl ⊢
  rw [h.symbols]
  cases hdefine : l.image.symbols.define? label value with
  | none => simp [hdefine] at hl
  | some symbols =>
    simp only [hdefine] at hl
    cases hl
    exact ⟨_, rfl, h.memLen, rfl, h.get?, h.cursor, h.aliases, h.waiting⟩

theorem Settled.defineLabels (h : Settled image l m) {labels : List String} {value : Word}
    (hl : l.defineLabels labels value = .ok l₁) :
    ∃ m₁, m.defineLabels labels value = .ok m₁ ∧ Settled image l₁ m₁ := by
  induction labels generalizing l m with
  | nil =>
    cases hl
    exact ⟨m, rfl, h⟩
  | cons label labels ih =>
    obtain ⟨l', hfirst, hrest⟩ := bind_eq_ok hl
    obtain ⟨m', hfirst', h'⟩ := h.defineLabel hfirst
    obtain ⟨m₁, hrest', h₁⟩ := ih h' hrest
    refine ⟨m₁, ?_, h₁⟩
    show (Layout.defineLabel value m label >>= fun m => m.defineLabels labels value) = .ok m₁
    rw [hfirst']
    exact hrest'

theorem Settled.write (h : Settled image l m) {site : Site} (site' : Site) {e : Emission}
    {word : Word} (hl : l.write site e = .ok l₁) (hword : image.get? l.next = some word) :
    ∃ m₁, m.write site' { word := word } = .ok m₁ ∧ Settled image l₁ m₁ := by
  have hw := write_ok hl
  have hnext : BitVec.ofNat 16 m.cursor = l.next := congrArg (BitVec.ofNat 16) h.cursor
  have hfree : m.image.get? l.next = none := by rw [h.get?, hw.fresh]; rfl
  have hwrite : m.image.write? l.next word = some (m.image.set l.next word) :=
    Image.write?_eq_some_iff.mpr ⟨hfree, rfl⟩
  unfold Layout.write
  rw [h.cursor, h.memLen, if_pos hw.inside, ← h.cursor, hnext]
  simp only [hwrite]
  refine ⟨_, rfl, h.memLen.trans hw.memLen.symm, ?_, fun a => ?_, ?_,
    h.aliases.trans hw.aliases.symm, h.waiting⟩
  · exact h.symbols.trans (write_labels hl).symm
  · rw [Image.get?_set, hw.get?, h.get?]
    by_cases ha : l.next = a
    · rw [if_pos ha, if_pos ha, ← ha, hword]
      rfl
    · rw [if_neg ha, if_neg ha]
  · rw [hw.cursor, ← h.cursor]

/-- The literal program writes the words that a statement has in the end. -/
theorem Settled.writeAll (h : Settled image l m) {number : Nat} {es : List Emission}
    {done ws words : List Word} (done' : List Word)
    (hl : Layout.writeAll number l done es = (ws, .ok l₁))
    (hlength : words.length = es.length)
    (hwords : ∀ k word, words[k]? = some word →
      image.get? (l.next + BitVec.ofNat 16 k) = some word) :
    ∃ m₁, Layout.writeAll number m done' (words.map fun word => { word := word })
      = (done'.reverse ++ words, .ok m₁) ∧ Settled image l₁ m₁ := by
  induction es generalizing l m done done' words with
  | nil =>
    cases hl
    rw [List.length_eq_zero_iff.mp hlength]
    exact ⟨m, by simp [Layout.writeAll], h⟩
  | cons e es ih =>
    unfold Layout.writeAll at hl
    obtain ⟨word, words, rfl⟩ := List.exists_cons_of_length_eq_add_one hlength
    split at hl
    · next l' hfirst =>
      have hword := hwords 0 word rfl
      rw [Word.add_ofNat_zero] at hword
      obtain ⟨m', hfirst', h'⟩ := h.write ⟨number, done'.length⟩ hfirst hword
      have hnext := (write_ok hfirst).next
      obtain ⟨m₁, hrest, h₁⟩ := ih h' (word :: done') hl (Nat.succ.inj hlength)
        fun k word' hk => by
          rw [hnext, Word.add_one_add_ofNat]
          exact hwords (k + 1) word' hk
      refine ⟨m₁, ?_, h₁⟩
      rw [List.map_cons, Layout.writeAll, hfirst']
      simp only [hrest, List.reverse_cons, List.append_assoc, List.singleton_append]
    · cases hl

/-- The words of a statement go where they are found in the end. -/
theorem get?_of_holds {l₂ : Layout} (hs : l.Sound) (hsame : SameWords l l₂) {n : Nat}
    {u : Statement} {es : List Emission} {ws : List Word} {aliases : Aliases}
    (hwrite : Layout.writeAll n { l₂ with aliases := aliases } [] es = (ws, .ok l₁))
    (hholds : u.Holds image l.labelAddress es) (k : Nat) (word : Word)
    (hk : u.words[k]? = some word) :
    image.get? (next { l₂ with aliases := aliases } + BitVec.ofNat 16 k) = some word := by
  have hlt := (List.getElem?_eq_some_iff.mp hk).1
  rw [hholds.length] at hlt
  obtain ⟨word', hword', hget, -⟩ := hholds.words k _ (List.getElem?_eq_getElem hlt)
  rw [hk] at hword'
  cases hword'
  -- there is room for a word, so labels are given the address of the next one
  have hsound : Sound { l₂ with aliases := aliases } := hsame.sound hs
  have hinside : l₂.cursor + es.length ≤ l₂.image.memLen :=
    (writeAll_ok hsound hwrite).2.inside (List.ne_nil_of_length_pos (by omega))
  rw [hsame.cursor, hsame.memLen] at hinside
  have hnext : next { l₂ with aliases := aliases } = l.labelAddress := by
    rw [labelAddress_eq (by omega)]
    exact next_congr hsame.cursor
  rw [hnext]
  exact hget

/-- **One statement** of the literal program is placed as the one with labels is in the end. -/
theorem Settled.apply (h : Settled image l m) (hs : l.Sound) (hb : l.aliases.Bare) {n : Nat}
    {s s' u t : Statement} {effect : Effect} (hl : l.apply n s effect = (s', .ok l₁))
    (hlabels : u.labels = s.labels) (haddress : u.address = s'.address)
    (heffect : Effect.ofStatement l.image.memLen l.aliases u = .ok effect)
    (hp : u.Performs image effect) (ht : u.Literal image.symbols t) :
    ∃ t' m₁, m.place n t = (t', .ok m₁) ∧ Settled image l₁ m₁ ∧
      t'.address = u.address ∧ t'.words = u.words := by
  have heffect' := ht.ofStatement hb heffect hp
  rw [← h.memLen, ← h.aliases] at heffect'
  have htlabels : t.labels = s.labels := ht.labels.trans hlabels
  cases effect with
  | moveTo address =>
    obtain ⟨hnone, hwords⟩ := hp
    cases hl
    refine ⟨_, _, place_moveTo heffect', ?_, hnone.symm, hwords.symm⟩
    exact ⟨h.memLen, h.symbols, h.get?, rfl, h.aliases, h.waiting⟩
  | define value =>
    obtain ⟨hnone, hwords⟩ := hp
    obtain ⟨m₁, hdefine, h₁⟩ := h.defineLabels (congrArg Prod.snd hl)
    rw [← htlabels] at hdefine
    exact ⟨_, _, place_define heffect' hdefine, h₁, hnone.symm, hwords.symm⟩
  | emit es aliases =>
    obtain ⟨start, hholds⟩ := hp
    obtain ⟨l₂, ws, hdefine, hwrite, rfl⟩ := apply_emit_cases hl
    -- labels are given the same address
    have hlabelAddress : m.labelAddress = l.labelAddress := by
      unfold labelAddress
      rw [h.cursor, h.memLen]
    obtain ⟨m₂, hdefine', h₂⟩ := h.defineLabels hdefine
    rw [← htlabels, ← hlabelAddress] at hdefine'
    have hnames : Settled image { l₂ with aliases := aliases } { m₂ with aliases := aliases } :=
      ⟨h₂.memLen, h₂.symbols, h₂.get?, h₂.cursor, rfl, h₂.waiting⟩
    have hsame : SameWords l l₂ := defineLabels_ok hdefine
    have hstart : start = l.labelAddress := Option.some.inj (hholds.address.symm.trans haddress)
    rw [hstart] at hholds
    have hwords := get?_of_holds hs hsame hwrite hholds
    obtain ⟨m₁, hwrite', h₁⟩ := hnames.writeAll [] hwrite hholds.length hwords
    refine ⟨_, _, place_emit heffect' hdefine' hwrite', h₁, ?_, ?_⟩
    · rw [hlabelAddress, hholds.address]
    · rw [List.reverse_nil, List.nil_append]

/-- **A literal program** is placed as the one with labels is in the end. -/
theorem Settled.places {n : Nat} {l l' m : Layout} {ss ss' ts : List Statement}
    (hplaces : Places n l ss ss' l') (h : Settled image l m) (hs : l.Sound) (hb : l.aliases.Bare)
    (hr : Relocation.Resolved l'.image l'.relocations.toList image)
    (hts : List.Forall₂ (Statement.Literal image.symbols) (ss'.map (Statement.readBack image)) ts) :
    ∃ ts' m', Places n m ts ts' m' ∧ Settled image l' m' ∧
      ts'.map (fun t => (t.address, t.words))
        = (ss'.map (Statement.readBack image)).map fun s => (s.address, s.words) := by
  induction hplaces generalizing m ts with
  | nil n l =>
    rw [List.map_nil, List.forall₂_nil_left_iff] at hts
    rw [hts]
    exact ⟨[], m, .nil n m, h, rfl⟩
  | @cons n l l₁ l' s s' ss ss' hplace rest ih =>
    obtain ⟨t, ts, ht, hrest, rfl⟩ := List.forall₂_cons_left_iff.mp hts
    obtain ⟨effect, heffect, happly⟩ := apply_of_place hplace
    obtain ⟨effect', heffect', happlied⟩ := place_ok hs hplace
    rw [heffect] at heffect'
    cases heffect'
    -- the statement is found in the end as it is placed now
    have hplaced := happlied.placed.extends (rest.extends happlied.sound).1
    have hlabels : (s'.readBack image).labels = s.labels :=
      congrArg (·.labels) ((s'.unplaced_readBack image).trans (unplaced_of_place hplace))
    obtain ⟨t', m₁, ht', h₁, haddress, hwords⟩ := h.apply hs hb happly hlabels
      (s'.address_readBack image) ((hplaced.ofStatement_readBack _ _).trans heffect)
      (hplaced.performs hr) ht
    have hb₁ : l₁.aliases.Bare := by
      rw [happlied.aliases, Effect.aliases_ofStatement heffect]
      exact Aliases.bare_after hb s
    obtain ⟨ts', m', hts', h', hsame⟩ := ih h₁ happlied.sound hb₁ hr hrest
    refine ⟨t' :: ts', m', .cons ht' hts', h', ?_⟩
    rw [List.map_cons, List.map_cons, List.map_cons, haddress, hwords, hsame]

/-- What a layout of a literal program has in the end is the image. -/
theorem Settled.image_eq (h : Settled image l m) (hs : l.Sound)
    (hr : Relocation.Resolved l.image l.relocations.toList image) : m.image = image := by
  refine Image.eq_of_get? (h.memLen.trans hr.memLen.symm) (h.symbols.trans hr.symbols.symm) ?_
  intro a
  have hsome := hr.isSome_get? hs a
  rw [h.get?]
  cases hl : l.image.get? a with
  | none =>
    rw [hl, Option.isSome_none, Option.isSome_eq_false_iff, Option.isNone_iff_eq_none] at hsome
    rw [hsome]
    rfl
  | some word => rfl

end Layout

/-! ## Assembly -/

namespace Program

variable {p q placed : Program} {memLen : Nat} {image : Image}

/-- **Literal programs.**  The labels of a program that is assembled have numbers, and the program
    with numbers of any spelling in their place becomes the same image, its statements placed alike
    and with the same words. -/
theorem assemble_literal (h : p.assemble memLen = (placed, .ok image)) :
    placed.map Layout.unplaced = p.map Layout.unplaced ∧
    List.Forall₂ (Statement.Literal image.symbols) placed
      (placed.map (Statement.literal image.symbols)) ∧
    ∀ q : Program, List.Forall₂ (Statement.Literal image.symbols) placed q →
      (∀ t ∈ q, ∀ text ∈ t.operands, t.label? text = none) ∧
      ∃ placed', q.assemble memLen = (placed', .ok image) ∧
        placed'.map (fun s => (s.address, s.words)) = placed.map fun s => (s.address, s.words) := by
  refine ⟨unplaced_assemble h, ?_, fun q hq => ⟨?_, ?_⟩⟩
  · refine List.forall₂_map_right_iff.mpr (List.forall₂_same.mpr fun s hs => ?_)
    obtain ⟨i, hi⟩ := List.mem_iff_getElem?.mp hs
    obtain ⟨effect, heffect, hperforms⟩ := assembled h hi
    exact Statement.literal_literal (Aliases.bare_aliasesBefore p i) heffect hperforms
  · exact forall_mem_right_of_forall₂ (fun _ _ hliteral => hliteral.label?_eq_none) hq
  · obtain ⟨ps, l, hplaces, rfl, hresolved⟩ := assemble_ok h
    have hsound := Layout.sound_start memLen
    obtain ⟨placed', m, hplaces', hsettled, hsame⟩ := Layout.Settled.places hplaces
      (Layout.settled_start image memLen) hsound Aliases.bare_initial hresolved hq
    refine ⟨placed', ?_, hsame⟩
    -- no word waits, so that nothing is left to patch
    have hlayout : q.layout memLen = (placed', .ok m) := Layout.placeFrom_of_places hplaces' rfl
    have hnone : m.relocations.toList = [] :=
      Std.ExtTreeMap.toList_eq_nil_iff.mpr hsettled.waiting
    unfold assemble
    rw [hlayout]
    simp only [hnone, Relocation.resolveAll]
    rw [hsettled.image_eq (hplaces.extends hsound).2 hresolved]

end Program

/-- Labels wherever they can stand, one of them for a number. -/
def relay : Program :=
  [{ labels := ["back"], op := some (.pseudo .lwi), operands := ["r1", "&size"] },
   { op := some (.real .lli), operands := ["r2", "&size"] },
   { op := some (.real .lui), operands := ["r2", "&size"] },
   { op := some (.real (.branch .ne)), operands := ["r1", "&back"] },
   { op := some (.pseudo .br), operands := ["&back"] },
   { labels := ["size"], op := some (.directive .define), operands := ["0x1234"] }]

/-- The image of `relay`. -/
def relayImage : Image :=
  { Image.empty 16 with
    words := (((((∅ : Std.ExtTreeMap Word Word).insert 0 0x7234).insert 1 0x8212).insert 2
      0x7434).insert 3 0x8412).insert 4 0xA2FB |>.insert 5 0x90FA
    symbols := ((∅ : SymbolTable).insert "back" 0).insert "size" 0x1234 }

theorem assemble_literal_relay :
    (relay.assemble 16).2 = .ok relayImage ∧
    ∃ q : Program, q.map (·.operands)
        = [["r1", "4660"], ["r2", "52"], ["r2", "18"], ["r1", "-5"], ["-6"], ["0x1234"]] ∧
      ∃ placed', q.assemble 16 = (placed', .ok relayImage) := by
  have hassemble : (relay.assemble 16).2 = .ok relayImage := by decide +kernel
  obtain ⟨-, hliteral, hall⟩ := Program.assemble_literal (Prod.ext rfl hassemble)
  obtain ⟨-, placed', hplaced, -⟩ := hall _ hliteral
  exact ⟨hassemble, _, by decide +kernel, placed', hplaced⟩

end AnnaToolchain
