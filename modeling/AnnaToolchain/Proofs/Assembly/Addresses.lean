import AnnaToolchain.Proofs.Assembly.Success
import Mathlib.Algebra.GroupWithZero.Nat

/-! # Addresses of an assembled program

    The order of a program says where its statements are placed: at the value
    of the last `.org`, or the front of memory, and behind it by the words
    written since (`Program.cursor`).  At the end of memory that address
    wraps to the front.  Labels take the addresses of their statements, and
    those on `.def` the value given there (`Program.assemble_addresses`). -/

namespace AnnaToolchain

namespace Statement

/-- Whether a statement is `.org`. -/
def isOrg (s : Statement) : Bool :=
  s.op == some (.directive .org)

@[simp] theorem isOrg_iff {s : Statement} : s.isOrg = true ↔ s.op = some (.directive .org) :=
  beq_iff_eq

theorem isOrg_eq_false {s : Statement} (h : s.op ≠ some (.directive .org)) : s.isOrg = false := by
  rw [Bool.eq_false_iff, Ne, isOrg_iff]
  exact h

/-- The number that the one operand of a statement is. -/
def value? (s : Statement) : Option Int :=
  match s.operands with
  | [text] => (Operand.parse text >>= Operand.asInt).toOption
  | _ => none

theorem value?_of_parseWord {s : Statement} {text : String} {word : Word}
    (hargs : s.operands = [text]) (h : Operand.parseWord text = .ok word) :
    ∃ n, s.value? = some n ∧ word = Word.ofInt n := by
  obtain ⟨operand, hoperand, h⟩ := bind_eq_ok h
  obtain ⟨n, hn, h⟩ := bind_eq_ok h
  refine ⟨n, ?_, (Except.ok.inj h).symm⟩
  unfold value?
  simp only [hargs, hoperand, ok_bind, hn]
  rfl

end Statement

namespace Program

/-- The value of the last `.org` of a program, or zero. -/
def origin (done : Program) : Int :=
  match done.reverse.find? Statement.isOrg with
  | some s => s.value?.getD 0
  | none => 0

/-- The number of words since the last `.org` of a program. -/
def wordsSinceOrg (done : Program) : Nat :=
  ((done.reverse.takeWhile fun s => !s.isOrg).map (·.words.length)).sum

/-- Where the next word goes behind a program: an `.org` counts modulo `2 ^ 16`. -/
def cursor (done : Program) : Nat :=
  (Word.ofInt done.origin).toNat + done.wordsSinceOrg

theorem cursor_nil : cursor [] = 0 := rfl

section

variable {done : Program} {s : Statement}

theorem origin_concat_org (hs : s.isOrg = true) : origin (done ++ [s]) = s.value?.getD 0 := by
  unfold origin
  simp [hs]

theorem origin_concat (hs : s.isOrg = false) : origin (done ++ [s]) = done.origin := by
  unfold origin
  simp [hs]

theorem wordsSinceOrg_concat_org (hs : s.isOrg = true) : wordsSinceOrg (done ++ [s]) = 0 := by
  unfold wordsSinceOrg
  simp [hs]

theorem wordsSinceOrg_concat (hs : s.isOrg = false) :
    wordsSinceOrg (done ++ [s]) = done.wordsSinceOrg + s.words.length := by
  unfold wordsSinceOrg
  simp [hs, Nat.add_comm]

theorem cursor_concat_org {n : Int} (hs : s.isOrg = true) (hn : s.value? = some n) :
    cursor (done ++ [s]) = (Word.ofInt n).toNat := by
  unfold cursor
  rw [origin_concat_org hs, wordsSinceOrg_concat_org hs, hn]
  rfl

theorem cursor_concat (hs : s.isOrg = false) :
    cursor (done ++ [s]) = done.cursor + s.words.length := by
  unfold cursor
  rw [origin_concat hs, wordsSinceOrg_concat hs, Nat.add_assoc]

end

end Program

theorem Statement.isOrg_readBack (s : Statement) (image : Image) :
    (s.readBack image).isOrg = s.isOrg := by
  unfold isOrg
  rw [(s.sameCode_readBack image).op]

theorem Statement.value?_readBack (s : Statement) (image : Image) :
    (s.readBack image).value? = s.value? := by
  unfold value?
  rw [(s.sameCode_readBack image).operands]

/-- Only the number of words matters. -/
theorem Program.cursor_readBack (done : Program) (image : Image) :
    cursor (done.map (Statement.readBack image)) = done.cursor := by
  have horigin : origin (done.map (Statement.readBack image)) = done.origin := by
    unfold origin
    rw [← List.map_reverse, List.find?_map]
    simp only [Function.comp_def, Statement.isOrg_readBack]
    cases done.reverse.find? Statement.isOrg with
    | none => rfl
    | some s =>
      show (s.readBack image).value?.getD 0 = s.value?.getD 0
      rw [s.value?_readBack]
  have hwords : wordsSinceOrg (done.map (Statement.readBack image)) = done.wordsSinceOrg := by
    unfold wordsSinceOrg
    rw [← List.map_reverse, List.takeWhile_map, List.map_map]
    simp only [Function.comp_def, Statement.isOrg_readBack, Statement.length_words_readBack]
  unfold cursor
  rw [horigin, hwords]

/-! ## Placing -/

namespace Layout

variable {n : Nat} {l l' l₁ : Layout} {s t : Statement} {ss ss' : List Statement}

/-- What a statement adds to the program behind which the next one is placed. -/
theorem cursor_concat_of_place {done : Program} (hs : l.Sound) (h : l.place n s = (t, .ok l₁))
    (hcursor : l.cursor = done.cursor) : l₁.cursor = Program.cursor (done ++ [t]) := by
  have hcode := (place_labeled h).same
  by_cases horg : s.op = some (.directive .org)
  · obtain ⟨text, address, hargs, haddress, hnext⟩ := cursor_of_org h horg
    obtain ⟨v, hv, rfl⟩ := Statement.value?_of_parseWord (hcode.operands.trans hargs) haddress
    rw [hnext, Program.cursor_concat_org (Statement.isOrg_iff.mpr (hcode.op.trans horg)) hv]
  · have hnot : t.isOrg = false := Statement.isOrg_eq_false (by rwa [hcode.op])
    rw [cursor_of_place hs h horg, Program.cursor_concat hnot, hcursor]

/-- **Addresses.**  Each statement is placed where the statements before it say. -/
theorem Places.address_cursor (h : Places n l ss ss' l') (hs : l.Sound) {done : Program}
    (hcursor : l.cursor = done.cursor) {i : Nat} {t : Statement} (ht : ss'[i]? = some t)
    (horg : t.op ≠ some (.directive .org)) (hdefine : t.op ≠ some (.directive .define)) :
    t.address = some (BitVec.ofNat 16 (Program.cursor (done ++ ss'.take i) % l.image.memLen)) := by
  induction h generalizing done i with
  | nil n l => cases ht
  | cons hplace _ ih =>
    have hop := (place_labeled hplace).same.op
    obtain ⟨_, -, happlied⟩ := place_ok hs hplace
    cases i with
    | zero =>
      cases ht
      rw [hop] at horg hdefine
      rw [address_of_place hplace horg hdefine, List.take_zero, List.append_nil, ← hcursor]
      rfl
    | succ i =>
      rw [ih happlied.sound (cursor_concat_of_place hs hplace hcursor) ht,
        happlied.extended.memLen, List.take_succ_cons, List.append_assoc, List.singleton_append]

/-- Neither `.org` nor `.def` has an address. -/
theorem Places.address_eq_none (h : Places n l ss ss' l') (ht : t ∈ ss')
    (hop : t.op = some (.directive .org) ∨ t.op = some (.directive .define)) :
    t.address = none := by
  induction h with
  | nil n l => cases ht
  | cons hplace _ ih =>
    rcases List.mem_cons.mp ht with rfl | ht
    · rw [(place_labeled hplace).same.op] at hop
      exact address_of_place_eq_none hplace hop
    · exact ih ht

end Layout

namespace Program

variable {p placed : Program} {memLen : Nat} {image : Image}

/-- Each statement of an assembled program has the address that the statements before it say. -/
theorem address_assemble (h : p.assemble memLen = (placed, .ok image)) {i : Nat} {s : Statement}
    (hs : placed[i]? = some s) (horg : s.op ≠ some (.directive .org))
    (hdefine : s.op ≠ some (.directive .define)) :
    s.address = some (BitVec.ofNat 16 (Program.cursor (placed.take i) % image.memLen)) := by
  have hmemLen : image.memLen = (Layout.start memLen).image.memLen := memLen_assemble h
  obtain ⟨ps, l, hplaces, rfl, -⟩ := assemble_ok h
  obtain ⟨s', hs', rfl⟩ := Option.map_eq_some_iff.mp (List.getElem?_map.symm.trans hs)
  rw [(s'.sameCode_readBack image).op] at horg hdefine
  rw [← List.map_take, cursor_readBack, Statement.address_readBack, hmemLen]
  exact hplaces.address_cursor (Layout.sound_start memLen) cursor_nil.symm hs' horg hdefine

theorem address_assemble_eq_none (h : p.assemble memLen = (placed, .ok image)) {s : Statement}
    (hs : s ∈ placed)
    (hop : s.op = some (.directive .org) ∨ s.op = some (.directive .define)) :
    s.address = none := by
  obtain ⟨ps, l, hplaces, rfl, -⟩ := assemble_ok h
  obtain ⟨s', hs', rfl⟩ := List.mem_map.mp hs
  rw [(s'.sameCode_readBack image).op] at hop
  rw [Statement.address_readBack]
  exact hplaces.address_eq_none hs' hop

/-- The symbol table has each label of a program once. -/
theorem keys_symbols_assemble (h : p.assemble memLen = (placed, .ok image)) :
    image.symbols.keys.Perm (p.flatMap (·.labels)) := by
  refine (List.perm_ext_iff_of_nodup Std.ExtTreeMap.nodup_keys (nodup_labels h)).mpr ?_
  intro label
  rw [← isSome_addressOf?_assemble h label, SymbolTable.addressOf?,
    ← Std.ExtTreeMap.contains_eq_isSome_getElem?, Std.ExtTreeMap.contains_iff_mem,
    ← Std.ExtTreeMap.mem_keys]

/-- The operand of `.org` and of `.def` is a number. -/
theorem value?_assemble (h : p.assemble memLen = (placed, .ok image)) {s : Statement}
    (hs : s ∈ placed)
    (hop : s.op = some (.directive .org) ∨ s.op = some (.directive .define)) :
    ∃ n, s.value? = some n ∧
      (s.op = some (.directive .define) → s.labelValue? = some (Word.ofInt n)) := by
  obtain ⟨i, hi⟩ := List.mem_iff_getElem?.mp hs
  obtain ⟨effect, heffect, -⟩ := assembled h hi
  cases Effect.ofMnemonic heffect with
  | moveTo horg hargs _ haddress _ =>
    obtain ⟨n, hn, -⟩ := Statement.value?_of_parseWord hargs haddress
    refine ⟨n, hn, fun hdefine => ?_⟩
    rw [horg] at hdefine
    cases hdefine
  | define hdefine hargs _ hvalue =>
    obtain ⟨n, hn, rfl⟩ := Statement.value?_of_parseWord hargs hvalue
    refine ⟨n, hn, fun _ => ?_⟩
    unfold Statement.labelValue?
    simp only [hdefine, hargs, hvalue]
    rfl
  | emit horg hdefine => exact absurd hop (not_or.mpr ⟨horg, hdefine⟩)

/-- **Addresses** and labels of an assembled program are what the order of its statements says. -/
theorem assemble_addresses (h : p.assemble memLen = (placed, .ok image)) :
    image.memLen = clampMemory memLen ∧
    List.Forall₂ Statement.SameCode p placed ∧
    (∀ i s, placed[i]? = some s →
      if s.op = some (.directive .org) ∨ s.op = some (.directive .define) then
        s.value?.isSome ∧ s.address = none
      else s.address = some (BitVec.ofNat 16 (Program.cursor (placed.take i) % image.memLen))) ∧
    (p.flatMap (·.labels)).Nodup ∧
    image.symbols.keys.Perm (p.flatMap (·.labels)) ∧
    ∀ s ∈ placed, ∀ label ∈ s.labels, image.symbols.addressOf? label =
      if s.op = some (.directive .define) then s.value?.map Word.ofInt else s.address := by
  refine ⟨memLen_assemble h, sameCode_assemble h, ?_, nodup_labels h, keys_symbols_assemble h, ?_⟩
  · intro i s hs
    split
    · next hop =>
      obtain ⟨n, hn, -⟩ := value?_assemble h (List.mem_of_getElem? hs) hop
      refine ⟨?_, address_assemble_eq_none h (List.mem_of_getElem? hs) hop⟩
      rw [hn]
      rfl
    · next hop =>
      obtain ⟨horg, hdefine⟩ := not_or.mp hop
      exact address_assemble h hs horg hdefine
  · intro s hs label hlabel
    rw [addressOf?_assemble h hs hlabel]
    by_cases hdefine : s.op = some (.directive .define)
    · obtain ⟨n, hn, hvalue⟩ := value?_assemble h hs (.inr hdefine)
      rw [if_pos hdefine, hvalue hdefine, hn]
      rfl
    · rw [if_neg hdefine, Statement.labelValue?_of_ne hdefine]

end Program

/-- A value, an alias and a word with labels at the end of memory, and a label behind them. -/
def rim : Program :=
  [{ labels := ["size"], op := some (.directive .define), operands := ["-2"] },
   { op := some (.directive .org), operands := ["4"] },
   { labels := ["base"], op := some (.directive .ralias), operands := ["r1", "base"] },
   { labels := ["last"], op := some (.pseudo .halt) },
   { labels := ["end"] }]

/-- The image of `rim`. -/
def rimImage : Image :=
  { Image.empty 5 with
    words := (∅ : Std.ExtTreeMap Word Word).insert 4 0xF000
    symbols := ((((∅ : SymbolTable).insert "size" 0xFFFE).insert "base" 4).insert "last" 4).insert
      "end" 0 }

theorem assemble_addresses_rim :
    (rim.assemble 5).2 = .ok rimImage ∧
    rimImage.symbols.keys.Perm ["size", "base", "last", "end"] ∧
    rimImage.symbols.addressOf? "end" = some 0 := by
  have hassemble : (rim.assemble 5).2 = .ok rimImage := by decide +kernel
  obtain ⟨-, -, -, -, hkeys, hvalues⟩ := Program.assemble_addresses (Prod.ext rfl hassemble)
  exact ⟨hassemble, hkeys,
    hvalues { labels := ["end"], address := some 0 } (by decide +kernel) "end" (by decide)⟩

/-- A word behind an `.org` to an address that is counted from the end of all words. -/
def brink : Program :=
  [{ op := some (.directive .org), operands := ["-2"] },
   { op := some (.pseudo .halt) }]

/-- **Origins** count modulo `2 ^ 16`, and not modulo the length of memory: in a memory of 65535
    words, `.org -2` moves to the last word, and not to the one before it. -/
theorem address_brink :
    ∃ placed image s, brink.assemble 65535 = (placed, .ok image) ∧ image.memLen = 65535 ∧
      placed[1]? = some s ∧ s.address = some 65534 ∧
      (Program.origin (placed.take 1) + Program.wordsSinceOrg (placed.take 1)) % 65535 = 65533 := by
  have hassemble : (brink.assemble 65535).2 = .ok
      { Image.empty 65535 with words := (∅ : Std.ExtTreeMap Word Word).insert 65534 0xF000 } := by
    decide +kernel
  have hplaced : (brink.assemble 65535).1 =
      [{ op := some (.directive .org), operands := ["-2"] },
       { op := some (.pseudo .halt), address := some 65534, words := [0xF000] }] := by
    decide +kernel
  refine ⟨_, _, { op := some (.pseudo .halt), address := some 65534, words := [0xF000] },
    Prod.ext hplaced hassemble, rfl, rfl, rfl, ?_⟩
  decide +kernel

end AnnaToolchain
