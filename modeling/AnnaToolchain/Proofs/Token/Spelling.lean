import AnnaToolchain.Isa.Mnemonic
import AnnaToolchain.Proofs.Text.ReadBack
import AnnaToolchain.Proofs.Token.Single

/-! # Spelled lines

    A line of token texts with gaps between them is read as these tokens
    (`Reads`), whatever stands where in the line.  Mnemonics, the names of
    labels and the texts of operands are such texts. -/

namespace AnnaToolchain

/-- What a lexeme says, wherever it stands. -/
def Lexeme.content (l : Lexeme) : Token × String :=
  (l.token, l.text)

namespace Token

/-! ## Lines -/

/-- The characters are read as tokens with these texts. -/
def Reads (cs : List Char) (contents : List (Token × String)) : Prop :=
  ∀ start acc, ∃ ls, lexFrom start acc cs = ⟨acc.reverse ++ ls, none⟩ ∧
    ls.map Lexeme.content = contents

variable {cs : List Char} {contents : List (Token × String)}

theorem reads_nil : Reads [] [] := by
  intro start acc
  refine ⟨[], ?_, rfl⟩
  rw [lexFrom, List.append_nil]

theorem Reads.gap {c : Char} (hc : isGap c = true) (h : Reads cs contents) :
    Reads (c :: cs) contents := by
  intro start acc
  obtain ⟨ls, hlex, hcontents⟩ := h (start + c.utf8Size) acc
  refine ⟨ls, ?_, hcontents⟩
  rw [lexFrom, if_pos hc, hlex]

theorem Reads.token {token : Token} {text : String} (hs : Spells token text) (hstops : Stops cs)
    (h : Reads cs contents) : Reads (text.toList ++ cs) ((token, text) :: contents) := by
  intro start acc
  obtain ⟨c, run, htext, hgap, hscan⟩ := hs
  have hfound := hscan cs hstops
  have hback : String.ofList (c :: run) = text := by rw [← htext, String.ofList_toList]
  obtain ⟨ls, hlex, hcontents⟩ :=
    h (start + text.utf8ByteSize) (⟨token, text, start⟩ :: acc)
  refine ⟨⟨token, text, start⟩ :: ls, ?_, ?_⟩
  · rw [htext, List.cons_append, lexFrom, if_neg (by rw [hgap]; exact Bool.false_ne_true)]
    simp only [hfound, List.take_left, List.drop_left, hback, hlex, List.reverse_cons,
      List.append_assoc, List.singleton_append]
  · rw [List.map_cons, hcontents]
    rfl

/-- A comment takes up the rest of its line. -/
theorem scan_comment {body : List Char} (h : '\n' ∉ body) :
    scan '#' body = (body.length, .ok (.comment (String.ofList (Text.trimChars body)))) := by
  have hbody : body.takeWhile (· ≠ '\n') = body := by
    rw [List.takeWhile_eq_self_iff]
    intro c hc
    rw [decide_eq_true_eq]
    rintro rfl
    exact h hc
  have hfound : scan '#' body = _ := Scanned.comment.scan_eq
  rwa [hbody] at hfound

theorem reads_comment {body : List Char} (h : '\n' ∉ body) :
    Reads ('#' :: body)
      [(.comment (String.ofList (Text.trimChars body)), String.ofList ('#' :: body))] := by
  intro start acc
  refine ⟨[⟨.comment (String.ofList (Text.trimChars body)), String.ofList ('#' :: body), start⟩],
    ?_, rfl⟩
  rw [lexFrom, if_neg (by decide)]
  simp only [scan_comment h, List.take_length, List.drop_length]
  rw [lexFrom, List.reverse_cons]

/-- A text of spelled tokens is read as these. -/
theorem Reads.lex_eq {s : String} (h : Reads s.toList contents) :
    ∃ ls, lex s = ⟨ls, none⟩ ∧ ls.map Lexeme.content = contents := by
  obtain ⟨ls, hlex, hcontents⟩ := h 0 []
  exact ⟨ls, hlex, hcontents⟩

/-! ## Tokens stay within a line -/

theorem isLine_of_isWordChar {cs : List Char} (h : ∀ c ∈ cs, Text.isWordChar c = true) :
    Text.IsLine cs := by
  refine ⟨fun hmem => ?_, fun hlast => ?_⟩
  · exact absurd (h _ hmem) (by decide)
  · exact absurd (h _ (List.mem_of_getLast? hlast)) (by decide)

theorem isLine_of_length_wordRun {run : List Char} (h : (wordRun run).length = run.length) :
    Text.IsLine run := by
  have hrun : wordRun run = run := (List.takeWhile_prefix _).eq_of_length h
  apply isLine_of_isWordChar
  rw [← hrun]
  exact fun c => isWordChar_of_mem_wordRun

theorem exists_of_closing? {escaped : Bool} {index m : Nat} {cs : List Char}
    (h : Quotation.closing? escaped index cs = some m) :
    ∃ body rest, cs = body ++ '"' :: rest ∧ m = index + body.length ∧ '\n' ∉ body := by
  induction cs generalizing escaped index with
  | nil => cases h
  | cons c cs ih =>
    unfold Quotation.closing? at h
    split at h
    · cases h
    · next hline =>
      split at h
      · next hquote =>
        obtain rfl := Option.some.inj h
        exact ⟨[], cs, by rw [hquote.1]; rfl, rfl, List.not_mem_nil⟩
      · obtain ⟨body, rest, rfl, rfl, hbody⟩ := ih h
        refine ⟨c :: body, rest, rfl, by rw [List.length_cons]; omega, ?_⟩
        rw [List.mem_cons, not_or]
        exact ⟨fun heq => hline heq.symm, hbody⟩

/-- A token that is spelled stays within its line. -/
theorem Spells.isLine {token : Token} {text : String} (h : Spells token text)
    (hcomment : ∀ contents, token ≠ .comment contents) : Text.IsLine text.toList := by
  obtain ⟨c, run, htext, hgap, hscan⟩ := h
  have hfound := hscan [] stops_nil
  rw [List.append_nil] at hfound
  have hfirst : Text.IsLine [c] := by
    refine ⟨fun hmem => ?_, fun hlast => ?_⟩
    · -- no token starts with a line feed
      rw [← List.mem_singleton.mp hmem] at hfound
      have hnone : scan '\n' run = (0, .error .unknownSymbol) := rfl
      rw [hnone] at hfound
      exact absurd (congrArg Prod.snd hfound) (by nofun)
    · have hc : c = '\r' := Option.some.inj hlast
      rw [hc] at hgap
      exact absurd hgap (by decide)
  have hrun : Text.IsLine run := by
    generalize hn : run.length = n at hfound
    cases scanned_of_scan hfound with
    | colon | comma =>
      rw [List.length_eq_zero_iff.mp hn]
      exact Text.IsLine.nil
    | comment => exact absurd rfl (hcomment _)
    | text hclosing _ =>
      obtain ⟨body, rest, rfl, hm, hbody⟩ := exists_of_closing? hclosing
      rw [List.length_append, List.length_cons] at hn
      obtain rfl : rest = [] := List.length_eq_zero_iff.mp (by omega)
      refine ⟨?_, ?_⟩
      · rw [List.mem_append, not_or]
        exact ⟨hbody, by decide⟩
      · rw [List.getLast?_concat]
        decide
    | label | directive | signed | unsigned | register | name =>
      exact isLine_of_length_wordRun hn.symm
  rw [htext]
  exact hfirst.append hrun

/-! ## Names -/

theorem spells_colon : Spells .colon ":" :=
  ⟨':', [], rfl, by decide, fun _ _ => rfl⟩

theorem spells_comma : Spells .comma "," :=
  ⟨',', [], rfl, by decide, fun _ _ => rfl⟩

/-- Whether characters are a name: a word that is not `r` and digits. -/
def isNameWord : List Char → Bool
  | [] => false
  | c :: run =>
    Text.isNameStart c && run.all Text.isWordChar &&
      !((c == 'r' || c == 'R') && !run.isEmpty && run.all Text.isDigit)

/-- Whether a text is a dot and a word. -/
def isDirectiveWord : List Char → Bool
  | '.' :: c :: run => Text.isNameStart c && run.all Text.isWordChar
  | _ => false

theorem isGap_of_isNameStart {c : Char} (h : Text.isNameStart c = true) : isGap c = false := by
  cases hgap : isGap c with
  | false => rfl
  | true =>
    unfold isGap at hgap
    simp only [Bool.or_eq_true, beq_iff_eq] at hgap
    rcases hgap with (rfl | rfl) | rfl
    · exact absurd h (by decide)
    · exact absurd h (by decide)
    · exact absurd h (by decide)

theorem spells_name {s : String} (h : isNameWord s.toList = true) : Spells (.name s) s := by
  cases hs : s.toList with
  | nil =>
    rw [hs] at h
    cases h
  | cons c run =>
    rw [hs] at h
    simp only [isNameWord, Bool.and_eq_true, List.all_eq_true, Bool.not_eq_true'] at h
    obtain ⟨⟨hc, hrun⟩, hnot⟩ := h
    refine ⟨c, run, hs, isGap_of_isNameStart hc, fun rest hrest => ?_⟩
    have hword := wordRun_append hrun hrest
    have hname : ¬ ((c = 'r' ∨ c = 'R') ∧ run ≠ [] ∧ run.all Text.isDigit = true) := by
      rintro ⟨hr, hne, hdigits⟩
      have hempty : run.isEmpty = false := by simpa using hne
      simp [hdigits, hempty] at hnot
      rcases hr with rfl | rfl
      · exact hnot.1 rfl
      · exact hnot.2 rfl
    rw [← hword] at hname
    have hscanned := Scanned.name hc hname
    rw [hword, ← hs, String.ofList_toList] at hscanned
    exact hscanned.scan_eq

theorem spells_directive {s name : String} (h : isDirectiveWord s.toList = true)
    (hname : "." ++ name = s) : Spells (.directive name) s := by
  unfold isDirectiveWord at h
  split at h
  · next c run hs =>
    simp only [Bool.and_eq_true, List.all_eq_true] at h
    obtain ⟨hc, hrun⟩ := h
    refine ⟨'.', c :: run, hs, by decide, fun rest hrest => ?_⟩
    have hrun' : ∀ d ∈ c :: run, Text.isWordChar d = true :=
      List.forall_mem_cons.mpr ⟨Text.isWordChar_of_isNameStart hc, hrun⟩
    have hscanned : Scanned (c :: run ++ rest) '.' _ _ := Scanned.directive rfl hc
    have htext : String.ofList (c :: run) = name := by
      have hlist := congrArg String.toList hname
      rw [String.toList_append, hs] at hlist
      rw [← List.tail_eq_of_cons_eq hlist]
      exact String.ofList_toList
    rw [wordRun_append hrun' hrest, htext] at hscanned
    exact hscanned.scan_eq
  · cases h

end Token

/-! ## Mnemonics -/

theorem Opcode.mem_all (op : Opcode) : op ∈ all := by
  cases op with
  | math op => cases op <;> decide
  | branch cond => cases cond <;> decide
  | output kind => cases kind <;> decide
  | _ => decide

namespace Mnemonic

/-- The token a mnemonic is printed as. -/
def token : Mnemonic → Token
  | .real op => .name op.name
  | .pseudo op => .name op.name
  | .directive .org => .directive "org"
  | .directive .define => .directive "def"
  | .directive .fill => .directive "fill"
  | .directive .cstr => .directive "cstr"
  | .directive .ralias => .directive "ralias"

theorem token_eq (op : Mnemonic) :
    op.token = .name op.name ∨ ∃ name, op.token = .directive name ∧ "." ++ name = op.name := by
  cases op with
  | real op => exact .inl rfl
  | pseudo op => exact .inl rfl
  | directive kind => cases kind <;> exact .inr ⟨_, rfl, rfl⟩

theorem token_ne_comment (op : Mnemonic) (contents : String) : op.token ≠ .comment contents := by
  rcases op.token_eq with h | ⟨name, h, -⟩
  · rw [h]
    nofun
  · rw [h]
    nofun

theorem spells_token (op : Mnemonic) : Token.Spells op.token op.name := by
  cases op with
  | real op =>
    have hall : (Opcode.all.all fun op => Token.isNameWord op.name.toList) = true := by decide
    exact Token.spells_name (List.all_eq_true.mp hall op op.mem_all)
  | pseudo op =>
    apply Token.spells_name
    cases op <;> decide
  | directive kind => cases kind <;> exact Token.spells_directive (by decide) rfl

/-- A mnemonic is found by the name it is printed with. -/
theorem ofName?_name (op : Mnemonic) : ofName? op.name = some op := by
  cases op with
  | real op =>
    have hall : ∀ op ∈ Opcode.all, ofName? op.name = some (.real op) := by decide +kernel
    exact hall op op.mem_all
  | pseudo op => cases op <;> decide +kernel
  | directive kind => cases kind <;> decide +kernel

end Mnemonic

end AnnaToolchain
