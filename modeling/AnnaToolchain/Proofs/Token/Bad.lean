import AnnaToolchain.Proofs.Token.Spelling

/-! # Bad tokens

    A token that is found to be bad ends as a good one does: with its first
    character, with the word that it starts or with the quote that closes
    it.  Only a text without such a quote goes on to the end of its line
    (`badEnd_of_scan`). -/

namespace AnnaToolchain

namespace Token

variable {cs rest : List Char} {c : Char} {n : Nat} {e : LexError}

/-! ## Errors

    Only a text that is not closed is called so. -/

theorem takeDigit_error {base : NumberBase} {tooBig : LexError} {value : Nat}
    (h : takeDigit base tooBig value c = .error e) : e = base.badDigit ∨ e = tooBig := by
  unfold takeDigit at h
  split at h
  · exact .inl (Except.error.inj h).symm
  · split at h
    · cases h
    · exact .inr (Except.error.inj h).symm

theorem foldlM_takeDigit_error {base : NumberBase} {tooBig : LexError} {value : Nat}
    (h : cs.foldlM (takeDigit base tooBig) value = .error e) :
    e = base.badDigit ∨ e = tooBig := by
  induction cs generalizing value with
  | nil => cases h
  | cons c cs ih =>
    rw [List.foldlM_cons] at h
    rcases bind_eq_error h with h | ⟨value', -, h⟩
    · exact takeDigit_error h
    · exact ih h

theorem magnitude_error {tooBig : LexError} (htooBig : tooBig ≠ .unclosedText)
    (h : magnitude tooBig cs = .error e) : e ≠ .unclosedText := by
  unfold magnitude at h
  simp only at h
  generalize (NumberBase.split cs).1 = base at h
  split at h
  · obtain rfl := Except.error.inj h
    cases base <;> nofun
  · rcases foldlM_takeDigit_error h with rfl | rfl
    · cases base <;> nofun
    · exact htooBig

/-- A number that has to stay within bounds as well. -/
theorem bounded_error {tooBig : LexError} (htooBig : tooBig ≠ .unclosedText) {p : Nat → Prop}
    [DecidablePred p] {value : Nat → Word}
    (h : (do let n ← magnitude tooBig cs; if p n then return value n else throw tooBig) = .error e) :
    e ≠ .unclosedText := by
  rcases bind_eq_error h with h | ⟨n, -, h⟩
  · exact magnitude_error htooBig h
  · split at h
    · cases h
    · rwa [← Except.error.inj h]

theorem readUnsigned_error (h : readUnsigned cs = .error e) : e ≠ .unclosedText :=
  bounded_error (by decide) h

theorem readSigned_error (h : readSigned cs = .error e) : e ≠ .unclosedText :=
  bounded_error (by decide) h

theorem readRegister_error (h : readRegister cs = .error e) : e ≠ .unclosedText := by
  unfold readRegister at h
  split at h
  · cases h
  · obtain rfl := Except.error.inj h
    nofun

theorem quotation_error (h : Quotation.read cs = .error e) : e ≠ .unclosedText := by
  unfold Quotation.read at h
  simp only at h
  split at h
  · cases h
  · obtain rfl := Except.error.inj h
    nofun

/-! ## Where a bad token ends -/

/-- How a bad token ends: the error, and how many characters behind the first belong to it. -/
inductive BadEnd (rest : List Char) : Char → Nat → LexError → Prop
  /-- A text that is not closed takes in the rest of the line. -/
  | unclosed (hopen : Quotation.closing? false 0 rest = none) :
      BadEnd rest '"' (Text.restOfLine rest).length .unclosedText
  | closed {c : Char} {n : Nat} {e : LexError} (he : e ≠ .unclosedText)
      (hlast : (c :: rest.take n).getLast? ≠ some '\r') : BadEnd rest c n e

/-- A bad token that is one character, which separates no tokens. -/
theorem BadEnd.first (hgap : isGap c = false) (he : e ≠ .unclosedText) : BadEnd rest c 0 e := by
  refine .closed he ?_
  intro hlast
  obtain rfl := Option.some.inj hlast
  cases hgap

/-- A bad token that takes up a word. -/
theorem BadEnd.word (hgap : isGap c = false) (he : e ≠ .unclosedText) :
    BadEnd rest c (wordRun rest).length e := by
  refine .closed he ?_
  rw [take_length_wordRun, List.getLast?_cons]
  intro hlast
  cases hword : (wordRun rest).getLast? with
  | none =>
    rw [hword] at hlast
    obtain rfl := Option.some.inj hlast
    cases hgap
  | some d =>
    rw [hword] at hlast
    obtain rfl := Option.some.inj hlast
    exact absurd (isWordChar_of_mem_wordRun (List.mem_of_getLast? hword)) (by decide +kernel)

theorem badEnd_of_scanQuotation (h : scanQuotation rest = (n, .error e)) : BadEnd rest '"' n e := by
  unfold scanQuotation at h
  split at h
  · next m hclosing =>
    have hread := map_eq_error (congrArg Prod.snd h)
    obtain rfl : m + 1 = n := congrArg Prod.fst h
    obtain ⟨body, after, rfl, hm, -⟩ := exists_of_closing? hclosing
    obtain rfl : m = body.length := by omega
    refine .closed (quotation_error hread) ?_
    have htake : (body ++ '"' :: after).take (body.length + 1) = body ++ ['"'] := by
      rw [List.take_append, List.take_of_length_le (Nat.le_succ _), Nat.add_sub_cancel_left]
      rfl
    rw [htake, ← List.cons_append, List.getLast?_concat]
    decide
  · next hopen =>
    cases h
    exact .unclosed hopen

theorem badEnd_of_scanSigned {token : String → Token} (hgap : isGap c = false)
    (h : scanSigned rest token = (n, .error e)) : BadEnd rest c n e := by
  unfold scanSigned at h
  split at h
  · split at h
    · cases h
    · cases h
      exact .first hgap nofun
  · cases h
    exact .first hgap nofun

theorem badEnd_of_scanWord (hgap : isGap c = false) (h : scanWord c rest = (n, .error e)) :
    BadEnd rest c n e := by
  simp only [scanWord] at h
  split at h
  · obtain rfl : (wordRun rest).length = n := congrArg Prod.fst h
    exact .word hgap (readRegister_error (map_eq_error (congrArg Prod.snd h)))
  · cases h

/-- **A scan** that finds a bad token. -/
theorem badEnd_of_scan (hgap : isGap c = false) (h : scan c rest = (n, .error e)) :
    BadEnd rest c n e := by
  unfold scan at h
  -- the first character says which token it would be
  split at h
  · cases h
  split at h
  · cases h
  split at h
  · cases h
  split at h
  · next hc =>
    rw [hc]
    exact badEnd_of_scanQuotation h
  split at h
  · exact badEnd_of_scanSigned hgap h
  split at h
  · exact badEnd_of_scanSigned hgap h
  split at h
  · obtain rfl : (wordRun rest).length = n := congrArg Prod.fst h
    exact .word hgap (readSigned_error (map_eq_error (congrArg Prod.snd h)))
  split at h
  · obtain rfl : (wordRun rest).length = n := congrArg Prod.fst h
    exact .word hgap (readUnsigned_error (map_eq_error (congrArg Prod.snd h)))
  split at h
  · exact badEnd_of_scanWord hgap h
  · cases h
    exact .first hgap nofun

end Token

end AnnaToolchain
