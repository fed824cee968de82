import AnnaToolchain.Proofs.Text.Numerals
import AnnaToolchain.Proofs.Token.Single

/-! # Numbers as they are written

    A number is written with or without a minus sign, and with or without
    the mark of a base (`NumberBase.Writes`).  Its digits may be as many as
    one likes: what counts is the number that they stand for
    (`Text.IsNumeral`), and where there is a character among them that is no
    digit, the number that those before it stand for (`Text.Breaks`).

    Digits are taken one by one into 32 bits.  As leading digits stand for
    less than all of them, this comes to a comparison at the end
    (`Token.foldlM_takeDigit_of_isNumeral`). -/

namespace AnnaToolchain

/-! ## Digits -/

namespace Text

variable {base n : Nat} {c : Char} {cs : List Char}

/-- Behind digits that stand for `n` comes a character that is no digit of the base. -/
def Breaks (base : Nat) (cs : List Char) (n : Nat) : Prop :=
  ∃ digits c rest, cs = digits ++ c :: rest ∧ IsNumeral base digits n ∧ digitOf? base c = none

/-- Characters are digits throughout, or there is a first one that is none. -/
theorem isNumeral_or_breaks (base : Nat) (cs : List Char) :
    (∃ n, IsNumeral base cs n) ∨ ∃ n, Breaks base cs n := by
  induction cs using List.reverseRecOn with
  | nil => exact .inl ⟨0, isNumeral_nil.mpr rfl⟩
  | append_singleton cs c ih =>
    rcases ih with ⟨n, hn⟩ | ⟨n, digits, d, rest, rfl, hn, hd⟩
    · cases hc : digitOf? base c with
      | none => exact .inr ⟨n, cs, c, [], rfl, hn, hc⟩
      | some d => exact .inl ⟨_, isNumeral_concat.mpr ⟨n, d, hn, hc, rfl⟩⟩
    · exact .inr ⟨n, digits, d, rest ++ [c], List.append_assoc .., hn, hd⟩

theorem IsNumeral.digit (h : IsNumeral base cs n) : ∀ c ∈ cs, ∃ d, digitOf? base c = some d := by
  obtain ⟨ds, hds, -⟩ := h
  intro c hc
  have hall : ∀ c ∈ cs.reverse, ∃ d, digitOf? base c = some d :=
    forall_mem_right_of_forall₂ (fun d _ hd => ⟨d, hd⟩) hds.flip
  exact hall c (List.mem_reverse.mpr hc)

theorem digitValue?_of_digitOf? {d : Nat} (h : digitOf? base c = some d) :
    digitValue? c = some d ∧ d < base := by
  obtain ⟨hvalue, hlt⟩ := Option.filter_eq_some_iff.mp h
  exact ⟨hvalue, of_decide_eq_true hlt⟩

/-- The digits of all bases are made of ASCII digits and letters. -/
theorem isWordChar_of_digitOf? {d : Nat} (h : digitOf? base c = some d) : isWordChar c = true := by
  obtain ⟨hvalue, -⟩ := digitValue?_of_digitOf? h
  unfold digitValue? at hvalue
  split at hvalue
  · next hc => exact isWordChar_of_isDigit (isDigit_of_isAsciiDigit (by simpa [isAsciiDigit] using hc))
  split at hvalue
  · next hc =>
    have hle : c ≤ 'z' := Char.le_trans hc.2 (by decide)
    exact isWordChar_of_isNameStart (by simp [isNameStart, hc.1, hle])
  split at hvalue
  · next hc =>
    have hle : c ≤ 'Z' := Char.le_trans hc.2 (by decide)
    exact isWordChar_of_isNameStart (by simp [isNameStart, hc.1, hle])
  · cases hvalue

theorem isDigit_of_digitOf?_ten {d : Nat} (h : digitOf? 10 c = some d) : isDigit c = true := by
  obtain ⟨hvalue, hlt⟩ := digitValue?_of_digitOf? h
  unfold digitValue? at hvalue
  split at hvalue
  · next hc => exact isDigit_of_isAsciiDigit (by simpa [isAsciiDigit] using hc)
  split at hvalue
  · have := Option.some.inj hvalue
    omega
  split at hvalue
  · have := Option.some.inj hvalue
    omega
  · cases hvalue

end Text

/-! ## Bases -/

namespace NumberBase

/-- The characters write the digits in the base: hexadecimal behind `0x`, binary behind `0b`, and
    decimal where there is neither of the two. -/
inductive Writes (digits : List Char) : NumberBase → List Char → Prop
  | hexadecimal {x : Char} (hx : x = 'x' ∨ x = 'X') : Writes digits .hexadecimal ('0' :: x :: digits)
  | binary {b : Char} (hb : b = 'b' ∨ b = 'B') : Writes digits .binary ('0' :: b :: digits)
  | decimal (h : ∀ c rest, digits = '0' :: c :: rest → c ∉ ['x', 'X', 'b', 'B']) :
      Writes digits .decimal digits

variable {base : NumberBase} {digits cs : List Char}

theorem Writes.split_eq (h : Writes digits base cs) : split cs = (base, digits) := by
  cases h with
  | hexadecimal hx => rcases hx with rfl | rfl <;> rfl
  | binary hb => rcases hb with rfl | rfl <;> rfl
  | decimal h =>
    unfold split
    split
    · exact absurd (by decide) (h _ _ rfl)
    · exact absurd (by decide) (h _ _ rfl)
    · exact absurd (by decide) (h _ _ rfl)
    · exact absurd (by decide) (h _ _ rfl)
    · rfl

/-- All characters write something in a base. -/
theorem writes_split (cs : List Char) : Writes (split cs).2 (split cs).1 cs := by
  unfold split
  split
  · exact .hexadecimal (.inl rfl)
  · exact .hexadecimal (.inr rfl)
  · exact .binary (.inl rfl)
  · exact .binary (.inr rfl)
  · next hx hX hb hB =>
    refine .decimal fun c rest hcs hc => ?_
    simp only [List.mem_cons, List.not_mem_nil, or_false] at hc
    rcases hc with rfl | rfl | rfl | rfl
    · exact hx _ hcs
    · exact hX _ hcs
    · exact hb _ hcs
    · exact hB _ hcs

/-- Decimal digits write their number as they stand. -/
theorem writes_of_isNumeral {n : Nat} (h : Text.IsNumeral 10 digits n) :
    Writes digits .decimal digits := by
  refine .decimal fun c rest hdigits hc => ?_
  obtain ⟨d, hd⟩ := h.digit c (by rw [hdigits]; exact List.mem_cons_of_mem _ List.mem_cons_self)
  have hdigit := Text.isDigit_of_digitOf?_ten hd
  simp only [List.mem_cons, List.not_mem_nil, or_false] at hc
  rcases hc with rfl | rfl | rfl | rfl <;> exact absurd hdigit (by decide)

theorem Writes.ne_nil (h : Writes digits base cs) (hne : digits ≠ []) : cs ≠ [] := by
  cases h with
  | hexadecimal | binary => exact List.cons_ne_nil _ _
  | decimal => exact hne

theorem radix_pos (base : NumberBase) : 0 < base.radix := by
  cases base <;> decide

/-- What is written in a base starts with a digit, if there are digits and no more than these. -/
theorem Writes.isDigit_head {n : Nat} (h : Writes digits base cs)
    (hdigits : Text.IsNumeral base.radix digits n) {c : Char} (hc : cs.head? = some c) :
    Text.isDigit c = true := by
  cases h with
  | hexadecimal | binary =>
    cases hc
    decide
  | decimal =>
    obtain ⟨d, hd⟩ := hdigits.digit c (List.mem_of_mem_head? hc)
    exact Text.isDigit_of_digitOf?_ten hd

theorem Writes.isWordChar {n : Nat} (h : Writes digits base cs)
    (hdigits : Text.IsNumeral base.radix digits n) : ∀ c ∈ cs, Text.isWordChar c = true := by
  have hword : ∀ c ∈ digits, Text.isWordChar c = true := fun c hc =>
    (hdigits.digit c hc).elim fun _ => Text.isWordChar_of_digitOf?
  cases h with
  | hexadecimal hx =>
    refine List.forall_mem_cons.mpr ⟨by decide, List.forall_mem_cons.mpr ⟨?_, hword⟩⟩
    rcases hx with rfl | rfl <;> decide
  | binary hb =>
    refine List.forall_mem_cons.mpr ⟨by decide, List.forall_mem_cons.mpr ⟨?_, hword⟩⟩
    rcases hb with rfl | rfl <;> decide
  | decimal => exact hword

end NumberBase

namespace Token

/-! ## Magnitudes -/

section

variable {base : NumberBase} {tooBig : LexError} {digits cs : List Char} {n : Nat}

/-- Digits of any number are taken in, if what they stand for fits into 32 bits. -/
theorem foldlM_takeDigit_of_isNumeral (h : Text.IsNumeral base.radix digits n) :
    digits.foldlM (takeDigit base tooBig) 0
      = if n < UInt32.size then .ok n else .error tooBig := by
  induction digits using List.reverseRecOn generalizing n with
  | nil =>
    rw [Text.isNumeral_nil.mp h]
    rfl
  | append_singleton digits c ih =>
    obtain ⟨m, d, hm, hd, rfl⟩ := Text.isNumeral_concat.mp h
    have hle : m ≤ m * base.radix := Nat.le_mul_of_pos_right m base.radix_pos
    rw [List.foldlM_append, ih hm]
    split
    · next hlt =>
      rw [ok_bind, List.foldlM_cons, takeDigit, hd]
      simp only
      split <;> rfl
    · next hlt =>
      -- it was too much already
      rw [if_neg (by omega)]
      rfl

theorem foldlM_takeDigit_of_breaks (h : Text.Breaks base.radix digits n) :
    digits.foldlM (takeDigit base tooBig) 0
      = .error (if n < UInt32.size then base.badDigit else tooBig) := by
  obtain ⟨good, c, rest, rfl, hgood, hc⟩ := h
  rw [List.foldlM_append, foldlM_takeDigit_of_isNumeral hgood]
  split
  · rw [ok_bind, List.foldlM_cons, takeDigit, hc]
    rfl
  · rfl

theorem magnitude_of_isNumeral (hcs : NumberBase.Writes digits base cs) (hne : digits ≠ [])
    (h : Text.IsNumeral base.radix digits n) :
    magnitude tooBig cs = if n < UInt32.size then .ok n else .error tooBig := by
  unfold magnitude
  simp only [hcs.split_eq, if_neg hne]
  exact foldlM_takeDigit_of_isNumeral h

theorem magnitude_of_breaks (hcs : NumberBase.Writes digits base cs)
    (h : Text.Breaks base.radix digits n) :
    magnitude tooBig cs = .error (if n < UInt32.size then base.badDigit else tooBig) := by
  have hne : digits ≠ [] := by
    obtain ⟨good, c, rest, rfl, -⟩ := h
    exact List.append_ne_nil_of_right_ne_nil _ (List.cons_ne_nil c rest)
  unfold magnitude
  simp only [hcs.split_eq, if_neg hne]
  exact foldlM_takeDigit_of_breaks h

theorem magnitude_of_nil (hcs : NumberBase.Writes [] base cs) :
    magnitude tooBig cs = .error base.missingDigits := by
  unfold magnitude
  simp only [hcs.split_eq, if_true]

/-! ## Words -/

/-- A number that has to stay within bounds of less than 32 bits. -/
theorem bounded_of_magnitude {p : Nat → Prop} [DecidablePred p] {value : Nat → Word}
    (hp : p n → n < UInt32.size)
    (h : magnitude tooBig cs = if n < UInt32.size then .ok n else .error tooBig) :
    (do let n ← magnitude tooBig cs; if p n then return value n else throw tooBig)
      = if p n then .ok (value n) else .error tooBig := by
  rw [h]
  by_cases hlt : n < UInt32.size
  · rw [if_pos hlt]
    rfl
  · rw [if_neg hlt, if_neg fun hfits => hlt (hp hfits)]
    rfl

theorem readUnsigned_of_isNumeral (hcs : NumberBase.Writes digits base cs) (hne : digits ≠ [])
    (h : Text.IsNumeral base.radix digits n) :
    readUnsigned cs
      = if n < UInt16.size then .ok (BitVec.ofNat 16 n) else .error .unsignedTooBig :=
  bounded_of_magnitude (fun hlt => Nat.lt_trans hlt (by decide)) (magnitude_of_isNumeral hcs hne h)

theorem readSigned_of_isNumeral (hcs : NumberBase.Writes digits base cs) (hne : digits ≠ [])
    (h : Text.IsNumeral base.radix digits n) :
    readSigned cs = if n ≤ 32768 then .ok (Word.ofInt (-n)) else .error .signedTooBig :=
  bounded_of_magnitude (fun hle => Nat.lt_of_le_of_lt hle (by decide))
    (magnitude_of_isNumeral hcs hne h)

theorem readUnsigned_of_error {e : LexError} (h : magnitude .unsignedTooBig cs = .error e) :
    readUnsigned cs = .error e := by
  unfold readUnsigned
  rw [h]
  rfl

theorem readSigned_of_error {e : LexError} (h : magnitude .signedTooBig cs = .error e) :
    readSigned cs = .error e := by
  unfold readSigned
  rw [h]
  rfl

end

/-! ## Tokens -/

/-- What is lexed of a text that is one token, good or bad. -/
def lexedAs (text : String) : Except LexError Token → Lexed
  | .ok token => ⟨[⟨token, text, 0⟩], none⟩
  | .error e => ⟨[], some ⟨e, ⟨0, text.utf8ByteSize⟩⟩⟩

/-- The characters are read as one token, good or bad: by themselves, and in front of whatever does
    not go on with the word that they end in. -/
structure ReadAs (cs : List Char) (outcome : Except LexError Token) : Prop where
  alone : lex (String.ofList cs) = lexedAs (String.ofList cs) outcome
  inFront : ∃ c run, cs = c :: run ∧ isGap c = false ∧
    ∀ rest, Stops rest → scan c (run ++ rest) = (run.length, outcome)

theorem readAs_of_scan {c : Char} {run : List Char} {outcome : Except LexError Token}
    (hgap : isGap c = false)
    (h : ∀ rest, Stops rest → scan c (run ++ rest) = (run.length, outcome)) :
    ReadAs (c :: run) outcome := by
  refine ⟨?_, c, run, rfl, hgap, h⟩
  have hscan := h [] stops_nil
  rw [List.append_nil] at hscan
  cases outcome with
  | ok token => exact lex_of_scan String.toList_ofList hgap hscan
  | error e =>
    unfold lex
    rw [String.toList_ofList, lexFrom]
    simp only [hgap, hscan, Bool.false_eq_true, if_false, List.take_length, Nat.zero_add]
    rfl

/-- What is read by itself is found as the first token of its text. -/
theorem ReadAs.exists_scan {cs : List Char} {outcome : Except LexError Token}
    (h : ReadAs cs outcome) :
    ∃ c run, cs = c :: run ∧ isGap c = false ∧ scan c run = (run.length, outcome) := by
  obtain ⟨c, run, hcs, hgap, hscan⟩ := h.inFront
  have halone := hscan [] stops_nil
  rw [List.append_nil] at halone
  exact ⟨c, run, hcs, hgap, halone⟩

theorem isGap_of_isDigit {c : Char} (h : Text.isDigit c = true) : isGap c = false := by
  rw [Bool.eq_false_iff]
  intro hgap
  unfold isGap at hgap
  simp only [Bool.or_eq_true, beq_iff_eq] at hgap
  rcases hgap with (rfl | rfl) | rfl <;> exact absurd h (by decide)

variable {cs : List Char}

theorem readAs_unsigned {c : Char} (hc : Text.isDigit c = true)
    (hcs : ∀ d ∈ cs, Text.isWordChar d = true) :
    ReadAs (c :: cs) ((readUnsigned (c :: cs)).map .unsigned) := by
  refine readAs_of_scan (isGap_of_isDigit hc) fun rest hrest => ?_
  rw [scan_of_isDigit hc, wordRun_append hcs hrest]

theorem readAs_signed (hcs : ∀ d ∈ cs, Text.isWordChar d = true) :
    ReadAs ('-' :: cs) ((readSigned cs).map .signed) := by
  refine readAs_of_scan (by decide) fun rest hrest => ?_
  show ((wordRun (cs ++ rest)).length, (readSigned (wordRun (cs ++ rest))).map Token.signed) = _
  rw [wordRun_append hcs hrest]

/-- What is read of the characters `cs`, which write the digits in the base, without a sign and
    behind a minus sign. -/
structure ReadsNumber (base : NumberBase) (digits cs : List Char) : Prop where
  /-- There is nothing between good digits and bad ones. -/
  either : (∃ n, Text.IsNumeral base.radix digits n) ∨ ∃ n, Text.Breaks base.radix digits n
  unsigned : ∀ n, digits ≠ [] → Text.IsNumeral base.radix digits n →
    (n ≤ 65535 → ∃ value : Word, value.toNat = n ∧ ReadAs cs (.ok (.unsigned value))) ∧
    (65535 < n → ReadAs cs (.error .unsignedTooBig))
  signed : ∀ n, digits ≠ [] → Text.IsNumeral base.radix digits n →
    (n ≤ 32768 → ∃ value : Word, value.toInt = -n ∧ ReadAs ('-' :: cs) (.ok (.signed value))) ∧
    (32768 < n → ReadAs ('-' :: cs) (.error .signedTooBig))
  /-- Nothing follows the mark of a base. -/
  mark : digits = [] → base ≠ .decimal →
    ReadAs cs (.error .noDigitsAfterBase) ∧ ReadAs ('-' :: cs) (.error .noDigitsAfterBase)
  /-- Nothing follows the minus sign. -/
  sign : cs = [] → ReadAs ['-'] (.error .noDigits)
  /-- A word with a character that is no digit of the base. -/
  bad : ∀ n, Text.Breaks base.radix digits n → (∀ c ∈ cs, Text.isWordChar c = true) →
    ((∃ c, cs.head? = some c ∧ Text.isDigit c = true) →
      ReadAs cs (.error (if 2 ^ 32 - 1 < n then .unsignedTooBig else base.badDigit))) ∧
    ReadAs ('-' :: cs) (.error (if 2 ^ 32 - 1 < n then .signedTooBig else base.badDigit))

section

variable {base : NumberBase} {digits : List Char} {n : Nat}

/-- A number that fits into a word without a sign. -/
theorem readAs_unsigned_of_isNumeral (hcs : NumberBase.Writes digits base cs) (hne : digits ≠ [])
    (h : Text.IsNumeral base.radix digits n) :
    ReadAs cs (if n < UInt16.size then .ok (.unsigned (BitVec.ofNat 16 n))
      else .error .unsignedTooBig) := by
  obtain ⟨c, rest, rfl⟩ := List.exists_cons_of_ne_nil (hcs.ne_nil hne)
  have hread := readAs_unsigned (hcs.isDigit_head h rfl) (List.forall_mem_cons.mp (hcs.isWordChar h)).2
  rw [readUnsigned_of_isNumeral hcs hne h] at hread
  split
  · next hfits => rwa [if_pos hfits] at hread
  · next hfits => rwa [if_neg hfits] at hread

theorem readAs_signed_of_isNumeral (hcs : NumberBase.Writes digits base cs) (hne : digits ≠ [])
    (h : Text.IsNumeral base.radix digits n) :
    ReadAs ('-' :: cs) (if n ≤ 32768 then .ok (.signed (Word.ofInt (-n)))
      else .error .signedTooBig) := by
  have hread := readAs_signed (hcs.isWordChar h)
  rw [readSigned_of_isNumeral hcs hne h] at hread
  split
  · next hfits => rwa [if_pos hfits] at hread
  · next hfits => rwa [if_neg hfits] at hread

/-- The reading of a number whose magnitude is faulty. -/
theorem readAs_of_error {e e' : LexError} (hword : ∀ c ∈ cs, Text.isWordChar c = true)
    (hunsigned : magnitude .unsignedTooBig cs = .error e)
    (hsigned : magnitude .signedTooBig cs = .error e') :
    ((∃ c, cs.head? = some c ∧ Text.isDigit c = true) → ReadAs cs (.error e)) ∧
      ReadAs ('-' :: cs) (.error e') := by
  constructor
  · rintro ⟨c, hhead, hc⟩
    obtain ⟨rest, rfl⟩ := List.head?_eq_some_iff.mp hhead
    have hread := readAs_unsigned hc (List.forall_mem_cons.mp hword).2
    rwa [readUnsigned_of_error hunsigned] at hread
  · have hread := readAs_signed hword
    rwa [readSigned_of_error hsigned] at hread

theorem readsNumber_of_writes (h : NumberBase.Writes digits base cs) :
    ReadsNumber base digits cs where
  either := Text.isNumeral_or_breaks _ _
  unsigned n hne hn := by
    have hread := readAs_unsigned_of_isNumeral h hne hn
    constructor
    · intro hfits
      rw [if_pos (Nat.lt_succ_of_le hfits)] at hread
      refine ⟨_, ?_, hread⟩
      rw [BitVec.toNat_ofNat]
      omega
    · intro hover
      rwa [if_neg (Nat.not_lt.mpr hover)] at hread
  signed n hne hn := by
    have hread := readAs_signed_of_isNumeral h hne hn
    constructor
    · intro hfits
      rw [if_pos hfits] at hread
      refine ⟨_, ?_, hread⟩
      rw [Word.ofInt, BitVec.toInt_ofInt, Int.bmod_def]
      omega
    · intro hover
      rwa [if_neg (Nat.not_le.mpr hover)] at hread
  mark hnil hbase := by
    subst hnil
    have hword := h.isWordChar (n := 0) (Text.isNumeral_nil.mpr rfl)
    have hmissing : base.missingDigits = .noDigitsAfterBase := by
      cases base with
      | decimal => exact absurd rfl hbase
      | hexadecimal | binary => rfl
    have hread := readAs_of_error hword (magnitude_of_nil h) (magnitude_of_nil h)
    rw [hmissing] at hread
    refine ⟨hread.1 ?_, hread.2⟩
    -- the mark starts with a zero
    cases h with
    | hexadecimal | binary => exact ⟨'0', rfl, by decide⟩
    | decimal => exact absurd rfl hbase
  sign hnil := by
    subst hnil
    cases h with
    | decimal h =>
      have hcs : NumberBase.Writes [] .decimal [] := .decimal h
      exact (readAs_of_error (List.forall_mem_nil _) (magnitude_of_nil hcs) (magnitude_of_nil hcs)).2
  bad n hn hword := by
    have hover : n < UInt32.size ↔ ¬ 2 ^ 32 - 1 < n := by
      simp only [UInt32.size]
      omega
    have hread := readAs_of_error hword (magnitude_of_breaks h hn) (magnitude_of_breaks h hn)
    simp only [hover, ite_not] at hread
    exact hread

end

/-- **Numbers** of any length are read as what their digits stand for, if it fits into a word, and
    as too big otherwise.  A number without digits, or with a character that is no digit of its
    base, is never read: it fails for the digits that are missing, or for the bad one, unless those
    before it stand for more than 32 bits can hold. -/
theorem numbers_exact :
    (∀ cs, ∃ base digits, NumberBase.Writes digits base cs) ∧
    ∀ base digits cs, NumberBase.Writes digits base cs → ReadsNumber base digits cs :=
  ⟨fun cs => ⟨_, _, NumberBase.writes_split cs⟩, fun _ _ _ => readsNumber_of_writes⟩

/-- The number that is furthest below zero, with zeros in front of its digits; and one that is too
    big before the bad digit is reached. -/
theorem numbers_exact_lowest :
    (NumberBase.Writes "0008000".toList .hexadecimal "0X0008000".toList ∧
      ∃ value : Word, value.toInt = -32768 ∧
        lex "-0X0008000" = ⟨[⟨.signed value, "-0X0008000", 0⟩], none⟩) ∧
    NumberBase.Writes "4294967296A".toList .decimal "4294967296A".toList ∧
      lex "4294967296A" = ⟨[], some ⟨.unsignedTooBig, ⟨0, 11⟩⟩⟩ := by
  have hhex : NumberBase.Writes "0008000".toList .hexadecimal "0X0008000".toList :=
    .hexadecimal (.inr rfl)
  have hlowest : Text.IsNumeral 16 "0008000".toList 32768 :=
    Text.valueOf?_eq_some_iff.mp (by decide)
  have hdecimal : NumberBase.Writes "4294967296A".toList .decimal "4294967296A".toList :=
    .decimal nofun
  have hbig : Text.Breaks 10 "4294967296A".toList 4294967296 :=
    ⟨"4294967296".toList, 'A', [], rfl, Text.valueOf?_eq_some_iff.mp (by decide +kernel), by decide⟩
  obtain ⟨value, hvalue, hread⟩ :=
    ((numbers_exact.2 _ _ _ hhex).signed 32768 (by decide) hlowest).1 (Nat.le_refl _)
  have hword : ∀ c ∈ "4294967296A".toList, Text.isWordChar c = true :=
    List.all_eq_true.mp (by decide)
  have hfails := ((numbers_exact.2 _ _ _ hdecimal).bad _ hbig hword).1 ⟨'4', rfl, by decide⟩
  exact ⟨⟨hhex, value, hvalue, hread.alone⟩, hdecimal, hfails.alone⟩

end Token

end AnnaToolchain
