import AnnaToolchain.Assembly
import AnnaToolchain.Proofs.Assembly.Words
import AnnaToolchain.Proofs.Token.Alone
import AnnaToolchain.Proofs.Token.Sources

/-! # Operands that are read a second time

    The assembler reads the operands of a statement from the texts that the
    parser has kept.  All of these are single tokens, and so are the operands
    that the assembler writes itself; so whatever else is wrong with a
    program, no token of it is bad (`Program.tokens_reread`). -/

namespace AnnaToolchain

/-! ## Lexical errors -/

/-- There is a bad token in the text, or none at all. -/
def OperandError.IsLexical : OperandError → Prop
  | .badToken _ _ | .missing => True
  | .notAnOperand _ | .mismatch _ _ => False

def AssemblyCause.IsLexical : AssemblyCause → Prop
  | .operand e => e.IsLexical
  | _ => False

/-- There is one token in the text, be it an operand or not. -/
def Legible (text : String) : Prop :=
  ∀ e, Operand.parse text = .error e → ¬ e.IsLexical

/-- If this fails, then not because of a token. -/
def Clean {α : Type} (x : Except AssemblyCause α) : Prop :=
  ∀ cause, x = .error cause → ¬ cause.IsLexical

section

variable {α β : Type} {text : String}

theorem clean_ok (a : α) : Clean (.ok a) := nofun

theorem clean_error {cause : AssemblyCause} (h : ¬ cause.IsLexical) :
    Clean (.error cause : Except AssemblyCause α) := by
  intro cause' hcause
  cases hcause
  exact h

theorem Clean.bind {x : Except AssemblyCause α} {f : α → Except AssemblyCause β} (hx : Clean x)
    (hf : ∀ a, x = .ok a → Clean (f a)) : Clean (x >>= f) := by
  intro cause h
  rcases bind_eq_error h with herror | ⟨a, ha, herror⟩
  · exact hx cause herror
  · exact hf a ha cause herror

theorem clean_mapM {f : α → Except AssemblyCause β} {as : List α} (h : ∀ a ∈ as, Clean (f a)) :
    Clean (as.mapM f) := by
  induction as with
  | nil => exact clean_ok []
  | cons a as ih =>
    obtain ⟨hfirst, hothers⟩ := List.forall_mem_cons.mp h
    rw [List.mapM_cons]
    exact hfirst.bind fun b _ => (ih hothers).bind fun bs _ => clean_ok (b :: bs)

theorem clean_range (x : Except RangeError α) : Clean (x.mapError AssemblyCause.range) := by
  cases x with
  | error e => exact clean_error id
  | ok a => exact clean_ok a

/-- A text of one token is read as one kind of operand or refused as another. -/
theorem Legible.view {view : Operand → Except OperandError α} (h : Legible text)
    (hview : ∀ operand e, view operand = .error e → ¬ e.IsLexical) :
    Clean ((Operand.parse text >>= view).mapError AssemblyCause.operand) := by
  cases hread : Operand.parse text >>= view with
  | ok a => exact clean_ok a
  | error e =>
    refine clean_error ?_
    rcases bind_eq_error hread with herror | ⟨operand, -, herror⟩
    · exact h e herror
    · exact hview operand e herror

end

theorem legible_of_parse {text : String} {operand : Operand}
    (h : Operand.parse text = .ok operand) : Legible text := by
  intro e herror
  rw [h] at herror
  cases herror

/-- Operands are legible as they are written. -/
theorem IsOperandText.legible {text : String} (h : IsOperandText text) : Legible text := by
  intro e herror
  rcases Operand.parse_cases h with ⟨operand, hread⟩ | ⟨-, hname⟩
  · rw [hread] at herror
    cases herror
  · rw [hname] at herror
    cases herror
    exact id

/-! ## Views -/

namespace Operand

variable {operand : Operand} {e : OperandError}

theorem asRegister_eq_error (h : operand.asRegister = .error e) : ¬ e.IsLexical := by
  cases operand <;> cases h <;> exact id

theorem asInt_eq_error (h : operand.asInt = .error e) : ¬ e.IsLexical := by
  cases operand <;> cases h <;> exact id

theorem asText_eq_error (h : operand.asText = .error e) : ¬ e.IsLexical := by
  cases operand <;> cases h <;> exact id

theorem clean_parseWord {text : String} (h : Legible text) :
    Clean ((parseWord text).mapError AssemblyCause.operand) := by
  refine h.view fun operand e herror => ?_
  rcases bind_eq_error herror with hint | ⟨n, -, hnone⟩
  · exact asInt_eq_error hint
  · cases hnone

end Operand

variable {aliases : Aliases} {text : String} {operands : List String}

theorem Aliases.clean_register (aliases : Aliases) (h : Legible text) :
    Clean (aliases.register text) := by
  unfold register
  split
  · exact clean_ok _
  · exact h.view fun _ _ => Operand.asRegister_eq_error

theorem Aliases.clean_add (aliases : Aliases) (real name : String) :
    Clean (aliases.add real name) := by
  unfold add
  split
  · exact clean_error id
  · split
    · exact clean_ok _
    · exact clean_error id

theorem NumberOrLabel.clean_parse (h : Legible text) : Clean (parse text) := by
  unfold parse
  split
  · next e herror => exact clean_error (h e herror)
  · exact clean_ok _
  · next operand _ _ =>
    cases hint : operand.asInt with
    | ok n => exact clean_ok _
    | error e => exact clean_error (Operand.asInt_eq_error hint)

/-! ## Words of a statement -/

namespace Emission

theorem clean_ofInstruction (aliases : Aliases) (op : Opcode)
    (h : ∀ text ∈ operands, Legible text) : Clean (ofInstruction aliases op operands) := by
  unfold ofInstruction
  split
  · have hregisters : Clean ((operands.take 3).mapM aliases.register) :=
      clean_mapM fun text htext => aliases.clean_register (h text (List.mem_of_mem_take htext))
    exact hregisters.bind fun _ _ => clean_ok _
  · split
    · next rd rs1 value =>
      refine (aliases.clean_register (h rd (by simp))).bind fun _ _ => ?_
      refine (aliases.clean_register (h rs1 (by simp))).bind fun _ _ => ?_
      refine (NumberOrLabel.clean_parse (h value (by simp))).bind fun read _ => ?_
      cases read with
      | number n => exact (clean_range _).bind fun _ _ => clean_ok _
      | label name => exact clean_ok _
    · exact clean_error id
  · split
    · next rd value =>
      refine (aliases.clean_register (h rd (by simp))).bind fun _ _ => ?_
      refine (NumberOrLabel.clean_parse (h value (by simp))).bind fun read _ => ?_
      cases read with
      | number n => exact (clean_range _).bind fun _ _ => clean_ok _
      | label name => exact clean_ok _
    · exact clean_error id
  · next hdirective => exact absurd hdirective op.format_ne_directive

/-- The operands of an expansion are those of the statement, four texts, and bytes. -/
theorem mem_expand {op : Pseudo} {reals : List (Opcode × List String)}
    (h : expand op operands = .ok reals) :
    ∀ real ∈ reals, ∀ text ∈ real.2,
      text ∈ operands ∨ text ∈ ["r0", "0", "1", "-1"] ∨ ∃ b, text = byteOperand b := by
  unfold expand at h
  split at h
  -- the first of these is `lwi`, which reads its operand, the other a wrong number of operands
  case h_7 rd value =>
    obtain ⟨read, -, h⟩ := bind_eq_ok h
    cases read with
    | label name =>
      obtain rfl := Except.ok.inj h
      simp
    | number n =>
      obtain rfl := Except.ok.inj h
      simp
  case h_8 => cases h
  all_goals
    obtain rfl := Except.ok.inj h
    simp

/-- The four texts are operands. -/
theorem legible_own : ∀ text ∈ ["r0", "0", "1", "-1"], Legible text := by
  refine List.forall_mem_cons.mpr ⟨legible_of_parse (Operand.parse_name 0), ?_⟩
  refine List.forall_mem_cons.mpr ⟨legible_of_parse Operand.parse_zero, ?_⟩
  refine List.forall_mem_cons.mpr ⟨legible_of_parse Operand.parse_one, ?_⟩
  exact List.forall_mem_singleton.mpr (legible_of_parse Operand.parse_minusOne)

theorem legible_expand {op : Pseudo} {reals : List (Opcode × List String)}
    (h : ∀ text ∈ operands, Legible text) (hexpand : expand op operands = .ok reals) :
    ∀ real ∈ reals, ∀ text ∈ real.2, Legible text := by
  intro real hreal text htext
  rcases mem_expand hexpand real hreal text htext with hgiven | hown | ⟨b, rfl⟩
  · exact h text hgiven
  · exact legible_own text hown
  · exact legible_of_parse (parse_byteOperand b)

theorem clean_expand (op : Pseudo) (h : ∀ text ∈ operands, Legible text) :
    Clean (expand op operands) := by
  unfold expand
  split
  case h_7 rd value =>
    refine (NumberOrLabel.clean_parse (h value (by simp))).bind fun read _ => ?_
    cases read with
    | label name => exact clean_ok _
    | number n => exact clean_ok _
  case h_8 => exact clean_error id
  all_goals exact clean_ok _

theorem clean_ofPseudo (aliases : Aliases) (op : Pseudo) (h : ∀ text ∈ operands, Legible text) :
    Clean (ofPseudo aliases op operands) := by
  refine (clean_expand op h).bind fun reals hreals => ?_
  exact clean_mapM fun real hreal =>
    clean_ofInstruction aliases real.1 (legible_expand h hreals real hreal)

/-! ## Data -/

theorem clean_ofFill (h : Legible text) : Clean (ofFill text) := by
  refine (NumberOrLabel.clean_parse h).bind fun read _ => ?_
  cases read with
  | number n => exact clean_ok _
  | label name => exact clean_ok _

theorem clean_ofChar (c : Char) : Clean (ofChar c) := by
  unfold ofChar
  split
  · exact clean_ok _
  · exact clean_error id

theorem clean_ofText (h : Legible text) : Clean (ofText text) :=
  (h.view fun _ _ => Operand.asText_eq_error).bind fun _ _ => clean_mapM fun c _ => clean_ofChar c

theorem clean_ofCstr (h : ∀ text ∈ operands, Legible text) : Clean (ofCstr operands) :=
  (clean_mapM fun text htext => clean_ofText (h text htext)).bind fun _ _ => clean_ok _

end Emission

/-! ## Statements -/

namespace Effect

variable {s : Statement}

theorem clean_ofDirective (memLen : Nat) (aliases : Aliases) (kind : Directive)
    (h : ∀ text ∈ s.operands, Legible text) : Clean (ofDirective memLen aliases s kind) := by
  unfold ofDirective
  split
  · next address hoperands =>
    rw [hoperands] at h
    split
    · exact clean_error id
    · refine (Operand.clean_parseWord (h address (by simp))).bind fun address _ => ?_
      split
      · exact clean_error id
      · exact clean_ok _
  · next value hoperands =>
    rw [hoperands] at h
    split
    · exact clean_error id
    · exact (Operand.clean_parseWord (h value (by simp))).bind fun _ _ => clean_ok _
  · next real name _ => exact (aliases.clean_add real name).bind fun _ _ => clean_ok _
  · exact (clean_mapM fun text htext => Emission.clean_ofFill (h text htext)).bind
      fun _ _ => clean_ok _
  · exact (Emission.clean_ofCstr h).bind fun _ _ => clean_ok _
  · exact clean_error id

theorem clean_ofStatement (memLen : Nat) (aliases : Aliases)
    (h : ∀ text ∈ s.operands, Legible text) : Clean (ofStatement memLen aliases s) := by
  unfold ofStatement
  split
  · exact clean_ok _
  · split
    · split
      · exact (Emission.clean_ofInstruction aliases _ h).bind fun _ _ => clean_ok _
      · exact (Emission.clean_ofPseudo aliases _ h).bind fun _ _ => clean_ok _
      · exact clean_ofDirective memLen aliases _ h
    · exact clean_error id

end Effect

/-! ## Programs -/

namespace Layout

theorem clean_defineLabels (l : Layout) (labels : List String) (value : Word) :
    Clean (l.defineLabels labels value) := by
  unfold defineLabels
  induction labels generalizing l with
  | nil => exact clean_ok l
  | cons label labels ih =>
    rw [List.foldlM_cons]
    refine Clean.bind ?_ fun l' _ => ih l'
    unfold defineLabel
    split
    · exact clean_ok _
    · exact clean_error id

theorem clean_write (l : Layout) (site : Site) (e : Emission) : Clean (l.write site e) := by
  unfold write
  split
  · simp only
    split
    · exact clean_ok _
    · exact clean_error id
  · exact clean_error id

theorem clean_writeAll (number : Nat) (l : Layout) (done : List Word) (es : List Emission) :
    Clean (writeAll number l done es).2 := by
  -- only room can be missing here, for the operands have all been read
  induction es generalizing l done with
  | nil => exact clean_ok l
  | cons e es ih =>
    rw [writeAll]
    split
    · exact ih _ _
    · next cause hcause =>
      exact clean_error (clean_write l _ e cause hcause)

theorem clean_apply (l : Layout) (number : Nat) (s : Statement) (effect : Effect) :
    Clean (l.apply number s effect).2 := by
  unfold apply
  split
  · exact clean_ok _
  · exact clean_defineLabels l _ _
  · split
    · next cause hcause => exact clean_error (clean_defineLabels l _ _ cause hcause)
    · exact clean_writeAll number _ [] _

theorem clean_place (l : Layout) (number : Nat) {s : Statement}
    (h : ∀ text ∈ s.operands, Legible text) : Clean (l.place number s).2 := by
  unfold place
  split
  · exact clean_apply l number s _
  · next cause hcause =>
    exact clean_error (Effect.clean_ofStatement l.image.memLen l.aliases h cause hcause)

theorem not_isLexical_placeFrom {l : Layout} {done p placed : List Statement} {e : AssemblyError}
    (h : ∀ s ∈ p, ∀ text ∈ s.operands, Legible text)
    (herror : l.placeFrom done p = (placed, .error e)) : ¬ e.cause.IsLexical := by
  induction p generalizing l done with
  | nil => cases herror
  | cons s p ih =>
    obtain ⟨hs, hp⟩ := List.forall_mem_cons.mp h
    rw [placeFrom] at herror
    split at herror
    · exact ih hp herror
    · next cause hcause =>
      cases herror
      exact clean_place l done.length hs cause (congrArg Prod.snd hcause)

end Layout

namespace Relocation

theorem clean_resolve (image : Image) (address : Word) (label : String) :
    Clean (resolve image address label) := by
  unfold resolve
  split
  · exact clean_error id
  · unfold patch
    split
    · split
      · exact clean_ok _
      · exact clean_error id
    · exact clean_ok _
    · exact clean_ok _
    · exact clean_error id

theorem not_isLexical_resolveAll {p placed : Program} {image : Image} {e : AssemblyError}
    {waiting : List (Word × Relocation)}
    (herror : resolveAll p image waiting = (placed, .error e)) : ¬ e.cause.IsLexical := by
  induction waiting generalizing p image with
  | nil => cases herror
  | cons first rest ih =>
    obtain ⟨address, r⟩ := first
    rw [resolveAll] at herror
    split at herror
    · exact ih herror
    · next cause hcause =>
      cases herror
      exact clean_resolve image address r.label cause hcause

end Relocation

namespace Program

theorem not_isLexical_assemble {p placed : Program} {memLen : Nat} {e : AssemblyError}
    (h : ∀ s ∈ p, ∀ text ∈ s.operands, Legible text)
    (herror : p.assemble memLen = (placed, .error e)) : ¬ e.cause.IsLexical := by
  unfold assemble at herror
  split at herror
  · next hlayout =>
    cases herror
    exact Layout.not_isLexical_placeFrom h hlayout
  · exact Relocation.not_isLexical_resolveAll herror

/-- **Tokens** are the same ones alone as in their lines.  So each operand of a program that has
    been read is read as an operand again or refused as a bare name, and assembling the program
    never fails because of a bad or missing token. -/
theorem tokens_reread :
    (∀ line ls, Token.lex line = ⟨ls, none⟩ → ∀ l ∈ ls,
      (∃ after, Text.IsRest line l.start (l.text.toList ++ after)) ∧
        Token.lex l.text = ⟨[⟨l.token, l.text, 0⟩], none⟩) ∧
    ∀ source p, parse source = .ok p →
      (∀ s ∈ p, ∀ text ∈ s.operands,
        (∃ operand, Operand.parse text = .ok operand) ∨
          (Token.isNameWord text.toList = true ∧
            Operand.parse text = .error (.notAnOperand text))) ∧
      ∀ memLen placed e, p.assemble memLen = (placed, .error e) → ¬ e.cause.IsLexical := by
  refine ⟨fun line ls h l hl => Token.lex_alone h hl, fun source p h => ?_⟩
  have hoperands : ∀ s ∈ p, ∀ text ∈ s.operands, IsOperandText text := fun s hs =>
    ((readable_of_parse h).statements s hs).written.operands
  refine ⟨fun s hs text htext => Operand.parse_cases (hoperands s hs text htext), ?_⟩
  intro memLen placed e herror
  exact not_isLexical_assemble (fun s hs text htext => (hoperands s hs text htext).legible) herror

/-- A sum with a bare name, which is no register. -/
def nameSum : Program :=
  [{ op := some (.real (.math .add)), operands := ["r1", "r2", "y"], line := 1 }]

/-- The name is refused as what it is. -/
theorem tokens_reread_nameSum :
    Token.lex "y" = ⟨[⟨.name "y", "y", 0⟩], none⟩ ∧ parse "add r1, r2, y" = .ok nameSum ∧
      nameSum.assemble 16 = (nameSum,
        .error ⟨1, "add r1, r2, y", .operand (.notAnOperand "y")⟩) ∧
      ¬ (AssemblyCause.operand (.notAnOperand "y")).IsLexical := by
  have hlex : Token.lex "add r1, r2, y" = ⟨(Token.lex "add r1, r2, y").lexemes, none⟩ := by
    decide +kernel
  have hmem : (⟨.name "y", "y", 12⟩ : Lexeme) ∈ (Token.lex "add r1, r2, y").lexemes := by
    decide +kernel
  have hparse : parse "add r1, r2, y" = .ok nameSum := by decide +kernel
  have hfails : nameSum.assemble 16
      = (nameSum, .error ⟨1, "add r1, r2, y", .operand (.notAnOperand "y")⟩) := by decide +kernel
  exact ⟨(tokens_reread.1 _ _ hlex _ hmem).2, hparse, hfails,
    (tokens_reread.2 _ _ hparse).2 16 nameSum _ hfails⟩

end Program

end AnnaToolchain
