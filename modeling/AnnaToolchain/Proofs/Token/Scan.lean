import AnnaToolchain.Proofs.Outcome
import AnnaToolchain.Token.Lexer
import Mathlib.Data.List.TakeWhile

/-! # Scanned tokens

    The character a token starts with says what token it is, and the
    characters behind it how far it goes (`Scanned`).  Every token but a
    comment ends in itself: it is scanned again before whatever does not go
    on with the word it ends in (`spells_of_scan`). -/

namespace AnnaToolchain

namespace Text

/-- A digit of any script starts no name. -/
theorem isDigit_of_isNameStart {c : Char} (h : isNameStart c = true) : isDigit c = false := by
  have hall : ∀ n : Fin 128, isNameStart (Char.ofNat n) = true →
      isDigit (Char.ofNat n) = false := by decide +kernel
  have hlt : c.toNat < 128 := by
    unfold isNameStart at h
    simp only [Bool.or_eq_true, Bool.and_eq_true, decide_eq_true_eq, beq_iff_eq] at h
    rcases h with (⟨-, hle⟩ | ⟨-, hle⟩) | rfl
    · exact Nat.lt_of_le_of_lt hle (by decide)
    · exact Nat.lt_of_le_of_lt hle (by decide)
    · decide
  have hc := hall ⟨c.toNat, hlt⟩
  rw [Char.ofNat_toNat] at hc
  exact hc h

end Text

namespace Token

/-! ## What a scan finds -/

/-- The token found at a character, how many characters behind that one belong to it, and why. -/
inductive Scanned (rest : List Char) : Char → Nat → Token → Prop where
  | colon : Scanned rest ':' 0 .colon
  | comma : Scanned rest ',' 0 .comma
  | comment : Scanned rest '#' (rest.takeWhile (· ≠ '\n')).length
      (.comment (String.ofList (Text.trimChars (rest.takeWhile (· ≠ '\n')))))
  | text {n : Nat} {contents : String} (hclosing : Quotation.closing? false 0 rest = some n)
      (hread : Quotation.read (rest.take n) = .ok contents) :
      Scanned rest '"' (n + 1) (.text contents)
  | label {d : Char} (hhead : rest.head? = some d) (hd : Text.isNameStart d = true) :
      Scanned rest '&' (wordRun rest).length (.label (String.ofList (wordRun rest)))
  | directive {d : Char} (hhead : rest.head? = some d) (hd : Text.isNameStart d = true) :
      Scanned rest '.' (wordRun rest).length (.directive (String.ofList (wordRun rest)))
  | signed {value : Word} (hread : readSigned (wordRun rest) = .ok value) :
      Scanned rest '-' (wordRun rest).length (.signed value)
  | unsigned {c : Char} {value : Word} (hc : Text.isDigit c = true)
      (hread : readUnsigned (c :: wordRun rest) = .ok value) :
      Scanned rest c (wordRun rest).length (.unsigned value)
  | register {c : Char} {r : Register}
      (hc : (c = 'r' ∨ c = 'R') ∧ wordRun rest ≠ [] ∧ (wordRun rest).all Text.isDigit = true)
      (hread : readRegister (wordRun rest) = .ok r) :
      Scanned rest c (wordRun rest).length (.register r)
  | name {c : Char} (hc : Text.isNameStart c = true)
      (hnot : ¬ ((c = 'r' ∨ c = 'R') ∧ wordRun rest ≠ [] ∧
        (wordRun rest).all Text.isDigit = true)) :
      Scanned rest c (wordRun rest).length (.name (String.ofList (c :: wordRun rest)))

variable {c : Char} {rest : List Char} {n : Nat} {token : Token}

theorem scanSigned_ok {f : String → Token} (h : scanSigned rest f = (n, .ok token)) :
    ∃ d, rest.head? = some d ∧ Text.isNameStart d = true ∧ n = (wordRun rest).length ∧
      token = f (String.ofList (wordRun rest)) := by
  unfold scanSigned at h
  split at h
  · next d rest' =>
    split at h
    · next hd =>
      cases h
      exact ⟨d, rfl, hd, rfl, rfl⟩
    · cases h
  · cases h

theorem scanned_of_scanQuotation (h : scanQuotation rest = (n, .ok token)) :
    Scanned rest '"' n token := by
  unfold scanQuotation at h
  split at h
  · next m hclosing =>
    obtain ⟨contents, hread, rfl⟩ := map_eq_ok (congrArg Prod.snd h)
    obtain rfl : m + 1 = n := congrArg Prod.fst h
    exact .text hclosing hread
  · cases h

theorem scanned_of_scanWord (hc : Text.isNameStart c = true)
    (h : scanWord c rest = (n, .ok token)) : Scanned rest c n token := by
  simp only [scanWord] at h
  split at h
  · next hr =>
    obtain ⟨r, hread, rfl⟩ := map_eq_ok (congrArg Prod.snd h)
    obtain rfl : (wordRun rest).length = n := congrArg Prod.fst h
    exact .register hr hread
  · next hr =>
    cases h
    exact .name hc hr

/-- **A scan** that finds a token. -/
theorem scanned_of_scan (h : scan c rest = (n, .ok token)) : Scanned rest c n token := by
  unfold scan at h
  -- the first character says which token it is
  split at h
  · next hc =>
    cases h
    rw [hc]
    exact .colon
  split at h
  · next hc =>
    cases h
    rw [hc]
    exact .comma
  split at h
  · next hc =>
    cases h
    rw [hc]
    exact .comment
  split at h
  · next hc =>
    rw [hc]
    exact scanned_of_scanQuotation h
  split at h
  · next hc =>
    obtain ⟨d, hhead, hd, rfl, rfl⟩ := scanSigned_ok h
    rw [hc]
    exact .label hhead hd
  split at h
  · next hc =>
    obtain ⟨d, hhead, hd, rfl, rfl⟩ := scanSigned_ok h
    rw [hc]
    exact .directive hhead hd
  split at h
  · next hc =>
    obtain ⟨value, hread, rfl⟩ := map_eq_ok (congrArg Prod.snd h)
    obtain rfl : (wordRun rest).length = n := congrArg Prod.fst h
    rw [hc]
    exact .signed hread
  split at h
  · next hc =>
    obtain ⟨value, hread, rfl⟩ := map_eq_ok (congrArg Prod.snd h)
    obtain rfl : (wordRun rest).length = n := congrArg Prod.fst h
    exact .unsigned hc hread
  split at h
  · next hc => exact scanned_of_scanWord hc h
  · cases h

/-- The characters that tell a token by themselves. -/
def signs : List Char := [':', ',', '#', '"', '&', '.', '-']

theorem ne_of_mem_signs {p : Char → Bool} (hsigns : (signs.all fun x => !p x) = true)
    (hc : p c = true) : ∀ x ∈ signs, c ≠ x := by
  rintro x hx rfl
  have hnot := List.all_eq_true.mp hsigns c hx
  rw [hc] at hnot
  cases hnot

theorem scan_of_isDigit (hc : Text.isDigit c = true) :
    scan c rest = ((wordRun rest).length, (readUnsigned (c :: wordRun rest)).map .unsigned) := by
  have hne := ne_of_mem_signs (p := Text.isDigit) (by decide) hc
  unfold scan
  rw [if_neg (hne ':' (by decide)), if_neg (hne ',' (by decide)), if_neg (hne '#' (by decide)),
    if_neg (hne '"' (by decide)), if_neg (hne '&' (by decide)), if_neg (hne '.' (by decide)),
    if_neg (hne '-' (by decide)), if_pos hc]

theorem scan_of_isNameStart (hc : Text.isNameStart c = true) :
    scan c rest = scanWord c rest := by
  have hne := ne_of_mem_signs (p := Text.isNameStart) (by decide) hc
  have hdigit : ¬ Text.isDigit c = true := by rw [Text.isDigit_of_isNameStart hc]; nofun
  unfold scan
  rw [if_neg (hne ':' (by decide)), if_neg (hne ',' (by decide)), if_neg (hne '#' (by decide)),
    if_neg (hne '"' (by decide)), if_neg (hne '&' (by decide)), if_neg (hne '.' (by decide)),
    if_neg (hne '-' (by decide)), if_neg hdigit, if_pos hc]

theorem scanSigned_of_head {d : Char} (hhead : rest.head? = some d)
    (hd : Text.isNameStart d = true) (f : String → Token) :
    scanSigned rest f = ((wordRun rest).length, .ok (f (String.ofList (wordRun rest)))) := by
  cases rest with
  | nil => cases hhead
  | cons d' rest =>
    cases hhead
    unfold scanSigned
    simp only [hd, if_true]

/-- What may be found is found. -/
theorem Scanned.scan_eq (h : Scanned rest c n token) : scan c rest = (n, .ok token) := by
  cases h with
  | colon | comma | comment => rfl
  | text hclosing hread =>
    show scanQuotation rest = _
    unfold scanQuotation
    simp only [hclosing, hread]
    rfl
  | label hhead hd =>
    show scanSigned rest .label = _
    rw [scanSigned_of_head hhead hd]
  | directive hhead hd =>
    show scanSigned rest .directive = _
    rw [scanSigned_of_head hhead hd]
  | signed hread =>
    show ((wordRun rest).length, (readSigned (wordRun rest)).map Token.signed) = _
    rw [hread]
    rfl
  | unsigned hc hread =>
    rw [scan_of_isDigit hc, hread]
    rfl
  | register hc hread =>
    have hstart : Text.isNameStart c = true := by
      rcases hc.1 with rfl | rfl
      · decide
      · decide
    rw [scan_of_isNameStart hstart]
    simp only [scanWord, if_pos hc, hread]
    rfl
  | name hc hnot =>
    rw [scan_of_isNameStart hc]
    simp only [scanWord, if_neg hnot]

/-! ## Tokens that end in themselves -/

/-- No word goes on with these characters. -/
def Stops (rest : List Char) : Prop :=
  ∀ d, rest.head? = some d → Text.isWordChar d = false

theorem stops_nil : Stops [] := nofun

theorem stops_cons {c : Char} (hc : Text.isWordChar c = false) (cs : List Char) :
    Stops (c :: cs) := by
  intro d hd
  cases hd
  exact hc

theorem wordRun_append {run : List Char} (hrun : ∀ d ∈ run, Text.isWordChar d = true)
    (h : Stops rest) : wordRun (run ++ rest) = run := by
  unfold wordRun
  rw [List.takeWhile_append_of_pos hrun]
  cases rest with
  | nil => simp
  | cons d rest => rw [List.takeWhile_cons_of_neg (by rw [h d rfl]; nofun), List.append_nil]

theorem isWordChar_of_mem_wordRun {d : Char} (h : d ∈ wordRun rest) :
    Text.isWordChar d = true :=
  List.mem_takeWhile_imp h

theorem take_length_wordRun (rest : List Char) :
    rest.take (wordRun rest).length = wordRun rest :=
  (List.prefix_iff_eq_take.mp (List.takeWhile_prefix _)).symm

end Token

/-- The closing quote is found without looking further. -/
theorem Quotation.closing?_append {escaped : Bool} {index m : Nat} {cs : List Char}
    (h : closing? escaped index cs = some m) :
    ∃ k, m = index + k ∧ k < cs.length ∧
      ∀ rest, closing? escaped index (cs.take (k + 1) ++ rest) = some m := by
  induction cs generalizing escaped index with
  | nil => cases h
  | cons c cs ih =>
    unfold closing? at h
    split at h
    · cases h
    · next hline =>
      split at h
      · next hquote =>
        cases h
        refine ⟨0, rfl, Nat.zero_lt_succ _, fun rest => ?_⟩
        show closing? escaped m (c :: rest) = some m
        rw [closing?, if_neg hline, if_pos hquote]
      · next hquote =>
        obtain ⟨k, rfl, hk, hrest⟩ := ih h
        refine ⟨k + 1, by omega, Nat.succ_lt_succ hk, fun rest => ?_⟩
        rw [List.take_succ_cons, List.cons_append, closing?, if_neg hline, if_neg hquote]
        exact hrest rest

namespace Token

/-- The text spells the token, before whatever does not go on with the word it ends in. -/
def Spells (token : Token) (text : String) : Prop :=
  ∃ c run, text.toList = c :: run ∧ isGap c = false ∧
    ∀ rest, Stops rest → scan c (run ++ rest) = (run.length, .ok token)

theorem head?_wordRun_append {rest : List Char} {d : Char} (hhead : rest.head? = some d)
    (hd : Text.isNameStart d = true) (after : List Char) :
    (wordRun rest ++ after).head? = some d := by
  cases rest with
  | nil => cases hhead
  | cons d' rest =>
    cases hhead
    unfold wordRun
    rw [List.takeWhile_cons_of_pos (Text.isWordChar_of_isNameStart hd)]
    rfl

/-- **A token** that has been found is found again where its text stands, unless it is a comment:
    that goes on to the end of its line. -/
theorem spells_of_scan (hgap : isGap c = false) (h : scan c rest = (n, .ok token))
    (hcomment : ∀ contents, token ≠ .comment contents) :
    Spells token (String.ofList (c :: rest.take n)) := by
  refine ⟨c, rest.take n, String.toList_ofList, hgap, fun after hafter => ?_⟩
  have hword : ∀ d ∈ wordRun rest, Text.isWordChar d = true := fun d => isWordChar_of_mem_wordRun
  have hrun : wordRun (wordRun rest ++ after) = wordRun rest := wordRun_append hword hafter
  -- a token that takes up the word behind its first character is found before the same word
  have hfound : ∀ c token, Scanned (wordRun rest ++ after) c (wordRun rest).length token →
      scan c (rest.take (wordRun rest).length ++ after)
        = ((rest.take (wordRun rest).length).length, .ok token) := by
    intro c token hscanned
    rw [take_length_wordRun]
    exact hscanned.scan_eq
  cases scanned_of_scan h with
  | colon => rfl
  | comma => rfl
  | comment => exact absurd rfl (hcomment _)
  | @text m contents hclosing hread =>
    -- the text ends at its quote, which is found where it was
    obtain ⟨k, hk, hlt, hclosed⟩ := Quotation.closing?_append hclosing
    obtain rfl : m = k := by omega
    have hlength : (rest.take (m + 1)).length = m + 1 := by
      rw [List.length_take]
      omega
    have hcontents : (rest.take (m + 1) ++ after).take m = rest.take m := by
      rw [List.take_append_of_le_length (by omega), List.take_take, Nat.min_eq_left (by omega)]
    rw [hlength]
    exact (Scanned.text (hclosed after) (by rw [hcontents]; exact hread)).scan_eq
  | label hhead hd =>
    have hscanned := Scanned.label (head?_wordRun_append hhead hd after) hd
    rw [hrun] at hscanned
    exact hfound _ _ hscanned
  | directive hhead hd =>
    have hscanned := Scanned.directive (head?_wordRun_append hhead hd after) hd
    rw [hrun] at hscanned
    exact hfound _ _ hscanned
  | signed hread =>
    rw [← hrun] at hread
    have hscanned := Scanned.signed hread
    rw [hrun] at hscanned
    exact hfound _ _ hscanned
  | unsigned hc hread =>
    rw [← hrun] at hread
    have hscanned := Scanned.unsigned hc hread
    rw [hrun] at hscanned
    exact hfound _ _ hscanned
  | register hc hread =>
    rw [← hrun] at hc hread
    have hscanned := Scanned.register hc hread
    rw [hrun] at hscanned
    exact hfound _ _ hscanned
  | name hc hnot =>
    rw [← hrun] at hnot
    have hscanned := Scanned.name hc hnot
    rw [hrun] at hscanned
    exact hfound _ _ hscanned

end Token

end AnnaToolchain
