import AnnaToolchain.Proofs.Assembly.Strings

/-! # Texts from source to output

    The words that `.cstr` writes are read from memory as the texts it was
    given, up to the first zero character (`Memory.readText_eq`), and `outs`
    puts out what is read (`Machine.puts_of_facesText`).  So what a program
    says is what it prints (`Machine.texts_survive`). -/

namespace AnnaToolchain

namespace Memory

/-! ## Texts in memory -/

/-- Words stand in a row from an address on. -/
def HasWords (m : Memory) (address : Word) (ws : List Word) : Prop :=
  ∀ k w, ws[k]? = some w → m.read (address + BitVec.ofNat 16 k) = w

theorem HasWords.head {m : Memory} {address w : Word} {ws : List Word}
    (h : m.HasWords address (w :: ws)) : m.read address = w := by
  have hfirst := h 0 w rfl
  rwa [Word.add_ofNat_zero] at hfirst

theorem HasWords.tail {m : Memory} {address w : Word} {ws : List Word}
    (h : m.HasWords address (w :: ws)) : m.HasWords (address + 1) ws := by
  intro k w' hk
  have hnext := h (k + 1) w' hk
  rwa [Nat.add_comm, BitVec.ofNat_add, ← BitVec.add_assoc] at hnext

/-- No character is half of a surrogate pair. -/
theorem not_surrogate (c : Char) : ¬ (0xD800 ≤ c.toNat ∧ c.toNat ≤ 0xDFFF) := by
  have hvalid : c.toNat < 0xD800 ∨ (0xDFFF < c.toNat ∧ c.toNat < 0x110000) := c.valid
  omega

/-- **Reading** gives the characters up to the first zero. -/
theorem readChars_eq {m : Memory} {address : Word} {cs : List Char} {count : Nat}
    (hnarrow : ∀ c ∈ cs, c.toNat < 65536)
    (hwords : m.HasWords address (cs.map (BitVec.ofNat 16 ·.toNat) ++ [0]))
    (hcount : cs.length < count) (acc : List Char) :
    m.readChars address acc count = acc.reverse ++ cs.takeWhile (· ≠ '\x00') := by
  induction cs generalizing address count acc with
  | nil =>
    obtain ⟨count, rfl⟩ : ∃ n, count = n + 1 := ⟨count - 1, by simp at hcount; omega⟩
    have hzero : (m.read address).toNat = 0 := by
      rw [hwords.head]
      rfl
    rw [readChars]
    simp only [hzero, if_true, List.takeWhile_nil, List.append_nil]
  | cons c cs ih =>
    obtain ⟨hc, hcs⟩ := List.forall_mem_cons.mp hnarrow
    rw [List.length_cons] at hcount
    obtain ⟨count, rfl⟩ : ∃ n, count = n + 1 := ⟨count - 1, by omega⟩
    have hword : (m.read address).toNat = c.toNat := by
      rw [hwords.head, BitVec.toNat_ofNat]
      omega
    rw [readChars]
    simp only [hword, if_neg (not_surrogate c), Char.ofNat_toNat]
    by_cases hzero : c = '\x00'
    · rw [hzero]
      simp
    · have hne : c.toNat ≠ 0 := fun h => hzero (Char.toNat_inj.mp h)
      rw [if_neg hne, ih hcs hwords.tail (by omega), List.takeWhile_cons_of_pos (by simpa using hzero),
        List.reverse_cons, List.append_assoc]
      rfl

theorem readText_eq {m : Memory} {address : Word} {cs : List Char}
    (hnarrow : ∀ c ∈ cs, c.toNat < 65536)
    (hwords : m.HasWords address (cs.map (BitVec.ofNat 16 ·.toNat) ++ [0]))
    (hlength : cs.length < m.length) :
    m.readText address = String.ofList (cs.takeWhile (· ≠ '\x00')) := by
  unfold readText
  rw [readChars_eq hnarrow hwords hlength]
  rfl

end Memory

namespace Machine

/-! ## Printing -/

/-- The machine is about to execute `outs`, on a register other than `r0` that holds `address`. -/
structure FacesText (m : Machine) (address : Word) : Prop where
  instruction : ∃ i, Instruction.decode (m.memory.read m.pc) = .ok i ∧ i.opcode = .output .text ∧
    i.rd ≠ Register.zero ∧ m.register i.rd = address
  clear : m.atBreakpoint = false

/-- One step offers one value to the sink, and changes neither memory nor a register. -/
structure Puts (m : Machine) (value : Output) : Prop where
  sink : m.step.1.sink = (m.sink.emit value).1
  registers : m.step.1.registers = m.registers
  memory : m.step.1.memory = m.memory
  /-- Where the value is taken, the machine goes on to the next instruction. -/
  taken : (m.sink.emit value).2 = true →
    m.step.2 = .ok .cyclesExceeded ∧ m.step.1.pc = m.memory.wrap (m.pc + 1) ∧
      m.step.1.outputs = if m.sink.keeps then m.outputs.push value else m.outputs
  /-- Where it is refused, the machine stays where it is. -/
  refused : (m.sink.emit value).2 = false →
    m.step.2 = .error .outputClosed ∧ m.step.1.pc = m.pc ∧ m.step.1.outputs = m.outputs

theorem action_text {m : Machine} {i : Instruction} (hop : i.opcode = .output .text)
    (hrd : i.rd ≠ Register.zero) :
    m.action i = .ok (.print (.text (m.memory.readText (m.register i.rd)))) := by
  unfold action plainAction
  simp only [hop, if_neg hrd]
  rfl

/-- An instruction that puts out a value offers it to the sink. -/
theorem Faces.puts {m : Machine} {i : Instruction} {value : Output}
    (h : Faces { m with changes := .none } i)
    (ha : action { m with changes := .none } i = .ok (.print value)) : m.Puts value := by
  rcases hs : m.sink.emit value with ⟨sink, taken⟩
  have hs' : (start { m with changes := .none }).sink.emit value = (sink, taken) := hs
  cases taken with
  | true =>
    have hsteps := h.steps ha nofun (perform_print_taken hs') nofun
    have hrun : m.step = _ := hsteps.run_eq
    have htaken : (m.sink.emit value).2 ≠ false := by simp [hs]
    refine ⟨?_, ?_, ?_, fun _ => ⟨by rw [hrun], ?_, ?_⟩, fun hrefused => absurd hrefused htaken⟩
    · rw [hrun, hs]
      rfl
    all_goals rw [hrun]; rfl
  | false =>
    have hclear : atBreakpoint { m with changes := .none } = false := h.clear
    have hrun : m.step = conclude ({ start { m with changes := .none } with sink := sink },
        .error .outputClosed) := by
      unfold step run
      rw [runCycles_succ, hclear, h.fails ha nofun (perform_print_refused hs')]
      rfl
    have hrefused : (m.sink.emit value).2 ≠ true := by simp [hs]
    refine ⟨?_, ?_, ?_, fun htaken => absurd htaken hrefused, fun _ => ⟨?_, ?_, ?_⟩⟩
    · rw [hrun, hs]
      rfl
    all_goals rw [hrun]; rfl

/-- `outs` puts out the text that its register points to. -/
theorem puts_of_facesText {m : Machine} {address : Word} (h : m.FacesText address) :
    m.Puts (.text (m.memory.readText address)) := by
  obtain ⟨⟨i, hdecode, hop, hrd, rfl⟩, hclear⟩ := h
  have hfaces : Faces { m with changes := .none } i :=
    ⟨(Instruction.encode_of_decode hdecode).symm, hclear⟩
  exact hfaces.puts (action_text hop hrd)

/-! ## From source to output -/

/-- As long as nothing writes over them, the words of a statement stand where its image put them. -/
theorem hasWords_of_holds {s : Statement} {image : Image} {start : Word} {es : List Emission}
    {loaded m : Machine} (h : s.Holds image start es) (hplain : ∀ e ∈ es, e.label = none)
    (hloaded : loaded.memory.length = maxMemory)
    (hsame : ∀ a ∈ s.addresses, m.memory.read a = (loaded.load image).memory.read a) :
    m.memory.HasWords start (es.map (·.word)) := by
  intro k w hk
  rw [List.getElem?_map] at hk
  obtain ⟨e, he, rfl⟩ := Option.map_eq_some_iff.mp hk
  obtain ⟨word, -, hget, hresolves⟩ := h.words k e he
  have hword : word = e.word := by
    unfold Emission.Resolves at hresolves
    rwa [hplain e (List.mem_of_getElem? he)] at hresolves
  have hlt : k < s.words.length := by
    rw [h.length]
    exact (List.getElem?_eq_some_iff.mp he).1
  rw [hsame _ (Statement.mem_addresses.mpr ⟨start, k, h.address, hlt, rfl⟩), read_load hloaded,
    hget, hword]
  rfl

/-- **Texts survive.**  Each `.cstr` statement of an assembled program is a row of quotations.  On a
    machine that has loaded the image, and has not changed the words of the statement since, `outs`
    with its address puts out the quoted texts one after another, up to the first zero character,
    whether the sink takes them or not.
    All texts without characters above U+FFFF come that way from source: quoted, read back and
    assembled, as long as they fit. -/
theorem texts_survive :
    (∀ (p placed : Program) (image : Image) (s : Statement),
      p.assemble maxMemory = (placed, .ok image) → s ∈ placed →
      s.op = some (.directive .cstr) →
      ∃ start contents, s.address = some start ∧ List.Forall₂ Quotes s.operands contents ∧
        ∀ loaded m : Machine, loaded.memory.length = maxMemory → m.memory.length = maxMemory →
          (∀ a ∈ s.addresses, m.memory.read a = (loaded.load image).memory.read a) →
          m.FacesText start →
          m.Puts (.text (String.ofList
            ((contents.flatMap String.toList).takeWhile (· ≠ '\x00'))))) ∧
    ∀ contents : List String, contents ≠ [] →
      (∀ text ∈ contents, Text.IsNarrow text) →
      (∀ text ∈ contents, text.length ≤ Quotation.maxLength) →
      (contents.flatMap String.toList).length < maxMemory →
      ∃ p placed image,
        Program.parse (".cstr " ++ String.intercalate ", " (contents.map Quotation.quote)) = .ok p ∧
        p.assemble maxMemory = (placed, .ok image) ∧
        ∃ s ∈ placed, s.op = some (.directive .cstr) ∧
          List.Forall₂ Quotes s.operands contents := by
  refine ⟨?_, fun contents => Program.assembles_texts⟩
  intro p placed image s hassemble hs hop
  obtain ⟨i, hi⟩ := List.mem_iff_getElem?.mp hs
  obtain ⟨effect, heffect, hperforms⟩ := Program.assembled hassemble hi
  obtain ⟨contents, hquotes, hnarrow, rfl⟩ := Effect.exists_texts hop heffect
  obtain ⟨start, hholds⟩ := hperforms
  refine ⟨start, contents, hholds.address, hquotes, fun loaded m hloaded hm hsame hfaces => ?_⟩
  have hchars : ∀ c ∈ contents.flatMap String.toList, c.toNat < 65536 := by
    intro c hc
    obtain ⟨text, htext, hmem⟩ := List.mem_flatMap.mp hc
    exact hnarrow text htext c hmem
  have hwords : m.memory.HasWords start
      ((contents.flatMap String.toList).map (BitVec.ofNat 16 ·.toNat) ++ [0]) := by
    have hall := hasWords_of_holds hholds (fun e => Emission.label_of_mem_texts) hloaded hsame
    rw [Emission.texts, List.map_append, List.map_map] at hall
    exact hall
  -- the words end inside memory, and the zero is one of them
  have hlength : (contents.flatMap String.toList).length < m.memory.length := by
    have hmax := image.memLen_le
    have hinside := hholds.inside (List.append_ne_nil_of_right_ne_nil _ (List.cons_ne_nil _ _))
    rw [Emission.length_texts] at hinside
    omega
  rw [← Memory.readText_eq hchars hwords hlength]
  exact puts_of_facesText hfaces

end Machine

/-- A text in three parts, one of them with a zero character, and an instruction before it that puts
    it out. -/
def notice : Program :=
  [{ op := some (.real (.output .text)), operands := ["r1"] },
   { op := some (.directive .cstr), operands := ["\"a\\\"\"", " \"\\n\"", "\"b\\0c\""] }]

/-- The text of `notice` as it is assembled. -/
def noticeText : Statement :=
  { op := some (.directive .cstr), operands := ["\"a\\\"\"", " \"\\n\"", "\"b\\0c\""]
    address := some 1, words := [0x61, 0x22, 0x0A, 0x62, 0, 0x63, 0] }

/-- The image of `notice`. -/
def noticeImage : Image :=
  { Image.empty maxMemory with
    words := (((((((∅ : Std.ExtTreeMap Word Word).insert 0 0xF201).insert 1 0x61).insert 2
      0x22).insert 3 0x0A).insert 4 0x62).insert 5 0 |>.insert 6 0x63).insert 7 0 }

/-- A machine that has loaded `notice` and is about to execute its first instruction. -/
def noticeMachine : Machine :=
  { Machine.ready noticeImage .keep [] with registers := Registers.zeroed.set (.ofBits 1) 1 }

theorem texts_survive_notice :
    notice.assemble maxMemory = ((notice.assemble maxMemory).1, .ok noticeImage) ∧
    noticeMachine.Puts (.text "a\"\nb") := by
  have hassemble : notice.assemble maxMemory = ((notice.assemble maxMemory).1, .ok noticeImage) :=
    Prod.ext rfl (by decide +kernel)
  refine ⟨hassemble, ?_⟩
  obtain ⟨start, contents, haddress, hquotes, hputs⟩ := Machine.texts_survive.1 _ _ _ noticeText
    hassemble (by decide +kernel) rfl
  obtain rfl : 1 = start := Option.some.inj haddress
  -- what the operands quote
  have hparse (text' : String) {operand text : String} (h : Quotes operand text)
      (h' : Operand.parse operand = .ok (.text text')) : text = text' := by
    rw [h.parse] at h'
    cases h'
    rfl
  obtain ⟨t₁, rest₁, h₁, hrest₁, rfl⟩ := List.forall₂_cons_left_iff.mp hquotes
  obtain ⟨t₂, rest₂, h₂, hrest₂, rfl⟩ := List.forall₂_cons_left_iff.mp hrest₁
  obtain ⟨t₃, rest₃, h₃, hrest₃, rfl⟩ := List.forall₂_cons_left_iff.mp hrest₂
  obtain rfl := List.forall₂_nil_left_iff.mp hrest₃
  obtain rfl := hparse "a\"" h₁ (by decide +kernel)
  obtain rfl := hparse "\n" h₂ (by decide +kernel)
  obtain rfl := hparse "b\x00c" h₃ (by decide +kernel)
  have hloaded : ((Machine.new {}).setSink .keep).memory.length = maxMemory := by
    refine (Memory.length_fresh maxMemory .zeroed default).trans ?_
    rw [clampMemory_of_le (by decide) (Nat.le_refl _)]
  have hword : noticeMachine.memory.read noticeMachine.pc = 0xF201 :=
    (Machine.read_ready noticeImage .keep [] 0).trans (by decide +kernel)
  have hfaces : noticeMachine.FacesText 1 := by
    refine ⟨⟨⟨.output .text, 0xF201, rfl⟩, ?_, rfl, by decide, rfl⟩, ?_⟩
    · rw [hword]
      rfl
    · unfold Machine.atBreakpoint
      rw [show noticeMachine.memory.hasBreakpoint noticeMachine.pc = false from
        Machine.hasBreakpoint_ready noticeImage .keep [] 0]
      rfl
  exact hputs _ noticeMachine hloaded (Machine.length_ready noticeImage .keep []) (fun _ _ => rfl)
    hfaces

end AnnaToolchain
