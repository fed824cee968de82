import AnnaToolchain.Proofs.Token.Alone
import AnnaToolchain.Proofs.Token.Bad
import Mathlib.Algebra.Group.Nat.Even

/-! # What the tokens cover

    Nothing of a text is lost between its tokens but gaps (`Covers`): they
    stand in the order of the text, each at its own characters, and what is
    before, between and behind them separates tokens.  Where there is a bad
    token the same holds up to its first character (`lex_covers`).

    A quoted text goes on to its closing quote, which is found by counting
    the backslashes before it (`Quotation.IsClosing`). -/

namespace AnnaToolchain

/-! ## Closing quotes -/

namespace Quotation

/-- How many backslashes the characters end in. -/
def backslashes (cs : List Char) : Nat :=
  (cs.reverse.takeWhile (· = '\\')).length

/-- Behind the first `n` characters there is a quote, and an even number of backslashes before
    it. -/
structure IsClosing (cs : List Char) (n : Nat) : Prop where
  quote : cs[n]? = some '"'
  even : Even (backslashes (cs.take n))

/-- The first quote that closes, in the line that the characters start in. -/
structure IsFirstClosing (cs : List Char) (n : Nat) : Prop extends IsClosing cs n where
  first : ∀ m < n, ¬ IsClosing cs m
  line : '\n' ∉ cs.take n

/-- The line ends before there is a quote that closes. -/
def IsOpen (cs : List Char) : Prop :=
  ∀ n, IsClosing cs n → '\n' ∈ cs.take n

theorem backslashes_concat (cs : List Char) (c : Char) :
    backslashes (cs ++ [c]) = if c = '\\' then backslashes cs + 1 else 0 := by
  unfold backslashes
  rw [List.reverse_concat, List.takeWhile_cons]
  by_cases hc : c = '\\'
  · rw [if_pos hc, if_pos (decide_eq_true hc), List.length_cons]
  · rw [if_neg hc, if_neg (by simpa using hc), List.length_nil]

/-- Whether a backslash that is not escaped itself stands at the end. -/
def isWaiting (cs : List Char) : Bool :=
  !decide (Even (backslashes cs))

theorem isWaiting_concat (cs : List Char) (c : Char) :
    isWaiting (cs ++ [c]) = (c == '\\' && !isWaiting cs) := by
  unfold isWaiting
  rw [backslashes_concat]
  by_cases hc : c = '\\'
  · rw [if_pos hc, beq_iff_eq.mpr hc, Bool.true_and, Bool.not_not,
      decide_eq_decide.mpr Nat.even_add_one, decide_not, Bool.not_not]
  · rw [if_neg hc, beq_eq_false_iff_ne.mpr hc, Bool.false_and, decide_eq_true Even.zero,
      Bool.not_true]

/-- What is to be found of the closing quote: the first one, or that there is none. -/
def Finds (cs : List Char) : Option Nat → Prop
  | some n => IsFirstClosing cs n
  | none => IsOpen cs

variable {whole before cs : List Char}

/-- The search for the closing quote, when it has come past the characters `before` and found
    none. -/
theorem finds_closing?_from (hwhole : whole = before ++ cs) (hline : '\n' ∉ before)
    (hnone : ∀ m < before.length, ¬ IsClosing whole m) :
    Finds whole (closing? (isWaiting before) before.length cs) := by
  induction cs generalizing before with
  | nil =>
    intro n hn
    -- there are no more characters
    have hlt := (List.getElem?_eq_some_iff.mp hn.quote).1
    rw [hwhole, List.append_nil] at hlt
    exact absurd hn (hnone n hlt)
  | cons c cs ih =>
    have hc : whole[before.length]? = some c := by
      rw [hwhole, List.getElem?_append_right (Nat.le_refl _), Nat.sub_self]
      rfl
    have htake : whole.take before.length = before := by rw [hwhole, List.take_left]
    unfold closing?
    split
    · next hend =>
      intro n hn
      rcases Nat.lt_trichotomy n before.length with hlt | rfl | hlt
      · exact absurd hn (hnone n hlt)
      · -- the line feed is no quote
        have hquote := hn.quote
        rw [hc, hend] at hquote
        exact absurd hquote (by decide)
      · obtain ⟨hlt', hget⟩ := List.getElem?_eq_some_iff.mp hc
        exact List.mem_take_iff_getElem.mpr ⟨before.length, by omega, by rw [hget, hend]⟩
    · next hend =>
      split
      · next hquote =>
        obtain ⟨rfl, hwaiting⟩ := hquote
        refine ⟨⟨hc, ?_⟩, hnone, by rwa [htake]⟩
        rw [htake]
        simpa [isWaiting] using hwaiting
      · next hquote =>
        have hlength : (before ++ [c]).length = before.length + 1 := List.length_append
        rw [← isWaiting_concat, ← hlength]
        refine ih (by rw [hwhole, List.append_assoc]; rfl) ?_ fun m hm hclosing => ?_
        · rw [List.mem_append, List.mem_singleton, not_or]
          exact ⟨hline, fun heq => hend heq.symm⟩
        · rw [hlength] at hm
          rcases Nat.lt_succ_iff_lt_or_eq.mp hm with hlt | rfl
          · exact hnone m hlt hclosing
          · -- this character would have been taken for the closing quote
            have heven := hclosing.even
            rw [htake] at heven
            refine hquote ⟨Option.some.inj (hc.symm.trans hclosing.quote), ?_⟩
            simpa [isWaiting] using heven

/-- **Closing quotes.**  The search finds the first quote that closes. -/
theorem finds_closing? (cs : List Char) : Finds cs (closing? false 0 cs) :=
  @finds_closing?_from cs [] cs rfl List.not_mem_nil nofun

theorem isFirstClosing_of_closing? {n : Nat} (h : closing? false 0 cs = some n) :
    IsFirstClosing cs n := by
  have hfinds := finds_closing? cs
  rwa [h] at hfinds

/-- None is found just if there is none. -/
theorem closing?_eq_none_iff : closing? false 0 cs = none ↔ IsOpen cs := by
  constructor
  · intro h
    have hfinds := finds_closing? cs
    rwa [h] at hfinds
  · intro hopen
    rw [Option.eq_none_iff_forall_ne_some]
    intro n h
    have hfirst := isFirstClosing_of_closing? h
    exact hfirst.line (hopen n hfirst.toIsClosing)

end Quotation

/-! ## Characters of a text -/

namespace Text

variable {text : String} {start : Nat} {cs cs' : List Char}

/-- The characters stand in the text from the start of the span to its stop. -/
def StandsAt (text : String) (span : Span) (cs : List Char) : Prop :=
  ∃ rest, IsRest text span.start (cs ++ rest) ∧
    span.stop = span.start + (String.ofList cs).utf8ByteSize

theorem IsRest.standsAt (h : IsRest text start (cs ++ cs')) :
    StandsAt text ⟨start, start + (String.ofList cs).utf8ByteSize⟩ cs :=
  ⟨cs', h, rfl⟩

/-- What is left when nothing is left starts where the text ends. -/
theorem IsRest.eq_utf8ByteSize (h : IsRest text start []) : start = text.utf8ByteSize := by
  obtain ⟨before, htext, rfl⟩ := h
  rw [List.append_nil] at htext
  rw [← htext, String.ofList_toList]

theorem utf8ByteSize_ofList_cons (c : Char) (cs : List Char) :
    (String.ofList (c :: cs)).utf8ByteSize = c.utf8Size + (String.ofList cs).utf8ByteSize := by
  rw [String.ofList_cons, String.utf8ByteSize_append, String.utf8ByteSize_singleton]

end Text

namespace Token

variable {text : String} {start stop : Nat} {cs rest : List Char} {ls : List Lexeme}

/-! ## Spaces -/

/-- Nothing stands at the span but what separates tokens. -/
def OnlyGaps (text : String) (span : Span) : Prop :=
  ∃ cs, Text.StandsAt text span cs ∧ ∀ c ∈ cs, isGap c = true

/-- The places before, between and behind the tokens from byte `start` to byte `stop`. -/
def spaces (start stop : Nat) : List Lexeme → List Span
  | [] => [⟨start, stop⟩]
  | l :: ls => ⟨start, l.span.start⟩ :: spaces l.span.stop stop ls

/-- The tokens cover the text up to byte `stop`: each stands at its own characters, none is empty,
    the next one starts where the one before has stopped, and there is nothing but gaps before,
    between and behind them. -/
structure Covers (text : String) (ls : List Lexeme) (stop : Nat) : Prop where
  stands : ∀ l ∈ ls, Text.StandsAt text l.span l.text.toList
  within : ∀ l ∈ ls, l.span.Within text
  nonempty : ∀ l ∈ ls, l.span.start < l.span.stop
  ordered : ls.Pairwise fun l l' => l.span.stop ≤ l'.span.start
  spaces : ∀ span ∈ spaces 0 stop ls, OnlyGaps text span

/-- Tokens that are read one after another, behind gaps from byte `origin` on. -/
theorem Lexing.onlyGaps (h : Lexing start cs ls stop rest) {origin : Nat} (gaps : List Char)
    (hrest : Text.IsRest text origin (gaps ++ cs))
    (hstart : start = origin + (String.ofList gaps).utf8ByteSize)
    (hgaps : ∀ c ∈ gaps, isGap c = true) :
    ∀ span ∈ Token.spaces origin stop ls, OnlyGaps text span := by
  induction h generalizing origin gaps with
  | done => exact List.forall_mem_singleton.mpr ⟨gaps, ⟨_, hrest, hstart⟩, hgaps⟩
  | @gap _ _ c cs _ _ hgap _ ih =>
    refine ih (gaps ++ [c]) ?_ ?_ ?_
    · rwa [List.append_assoc, List.singleton_append]
    · rw [String.ofList_append, String.utf8ByteSize_append, Text.utf8ByteSize_ofList_cons, hstart,
        String.ofList_nil, Nat.add_assoc]
      rfl
    · intro d hd
      rcases List.mem_append.mp hd with hd | hd
      · exact hgaps d hd
      · rwa [List.mem_singleton.mp hd]
  | @token start _ n c cs _ _ token hgap hscan _ ih =>
    have hfrom := hrest.append
    rw [← hstart] at hfrom
    refine List.forall_mem_cons.mpr ⟨⟨gaps, ⟨_, hrest, hstart⟩, hgaps⟩, ?_⟩
    exact ih [] (hfrom.cut n).append rfl (List.forall_mem_nil _)

/-- Tokens are found in the order in which they stand. -/
theorem Lexing.ordered (h : Lexing start cs ls stop rest) :
    (∀ l ∈ ls, start ≤ l.span.start) ∧ ls.Pairwise fun l l' => l.span.stop ≤ l'.span.start := by
  induction h with
  | done => exact ⟨List.forall_mem_nil _, List.Pairwise.nil⟩
  | gap _ _ ih => exact ⟨fun l hl => Nat.le_trans (Nat.le_add_right _ _) (ih.1 l hl), ih.2⟩
  | token _ _ _ ih =>
    refine ⟨List.forall_mem_cons.mpr ⟨Nat.le_refl _, fun l hl => ?_⟩, List.pairwise_cons.mpr ih⟩
    exact Nat.le_trans (Nat.le_add_right _ _) (ih.1 l hl)

/-- A token stands where it has been found. -/
theorem Lexing.standsAt (h : Lexing 0 text.toList ls stop rest) {l : Lexeme} (hl : l ∈ ls) :
    Text.StandsAt text l.span l.text.toList ∧ l.span.start < l.span.stop := by
  obtain ⟨c, cs, n, hrest, -, -, htext⟩ := h.found hl
  have hspan : l.span = ⟨l.start, l.start + (String.ofList (c :: cs.take n)).utf8ByteSize⟩ := by
    rw [Lexeme.span, Lexeme.stop, htext]
  rw [hspan, htext, String.toList_ofList]
  refine ⟨(hrest.cut n).standsAt, Nat.lt_add_of_pos_right ?_⟩
  rw [Text.utf8ByteSize_ofList_cons]
  exact Nat.add_pos_left c.utf8Size_pos _

theorem Lexing.covers (h : Lexing 0 text.toList ls stop rest) : Covers text ls stop where
  stands _ hl := (h.standsAt hl).1
  within := (h.within (Text.isRest_toList text)).1
  nonempty _ hl := (h.standsAt hl).2
  ordered := h.ordered.2
  spaces := h.onlyGaps [] (Text.isRest_toList text) rfl (List.forall_mem_nil _)

/-! ## Quoted texts -/

/-- The token is a quoted text: from its opening quote to the first one that closes it. -/
def IsQuoted (text : String) (l : Lexeme) : Prop :=
  ∃ rest n, Text.IsRest text l.span.start ('"' :: rest) ∧ Quotation.IsFirstClosing rest n ∧
    l.text.toList = '"' :: rest.take (n + 1)

/-- A quote is what a text starts with, and nothing else is. -/
theorem eq_quote_iff {c : Char} {n : Nat} {token : Token} (h : Scanned rest c n token) :
    c = '"' ↔ ∃ contents, token = .text contents := by
  cases h with
  | text _ _ => exact ⟨fun _ => ⟨_, rfl⟩, fun _ => rfl⟩
  | colon | comma | comment | label | directive | signed => exact ⟨nofun, nofun⟩
  | unsigned hc =>
    refine ⟨?_, nofun⟩
    rintro rfl
    exact absurd hc (by decide)
  | register hc =>
    refine ⟨?_, nofun⟩
    rintro rfl
    exact absurd hc.1 (by decide)
  | name hc =>
    refine ⟨?_, nofun⟩
    rintro rfl
    exact absurd hc (by decide)

theorem Lexing.isQuoted (h : Lexing 0 text.toList ls stop rest) {l : Lexeme} (hl : l ∈ ls) :
    (l.text.toList.head? = some '"' ↔ ∃ contents, l.token = .text contents) ∧
      ((∃ contents, l.token = .text contents) → IsQuoted text l) := by
  obtain ⟨c, cs, n, hrest, -, hscan, htext⟩ := h.found hl
  have hscanned := scanned_of_scan hscan
  have hhead : l.text.toList.head? = some c := by rw [htext, String.toList_ofList, List.head?_cons]
  constructor
  · rw [hhead, Option.some_inj]
    exact eq_quote_iff hscanned
  · rintro ⟨contents, htoken⟩
    rw [htoken] at hscanned
    cases hscanned with
    | @text m _ hclosing _ =>
      refine ⟨cs, m, hrest, Quotation.isFirstClosing_of_closing? hclosing, ?_⟩
      rw [htext, String.toList_ofList]

/-- A bad token is a text that is not closed, just if it starts with a quote and no other one
    closes it. -/
theorem eq_unclosedText_iff {c : Char} {n : Nat} {e : LexError} (hgap : isGap c = false)
    (h : scan c rest = (n, .error e)) :
    e = .unclosedText ↔ c = '"' ∧ Quotation.IsOpen rest := by
  constructor
  · rintro rfl
    cases badEnd_of_scan hgap h with
    | unclosed hopen => exact ⟨rfl, Quotation.closing?_eq_none_iff.mp hopen⟩
    | closed he => exact absurd rfl he
  · rintro ⟨rfl, hopen⟩
    have hscan : scan '"' rest = scanQuotation rest := rfl
    rw [hscan, scanQuotation, Quotation.closing?_eq_none_iff.mpr hopen] at h
    exact (Except.error.inj (congrArg Prod.snd h)).symm

/-! ## Texts -/

/-- What lexing makes of a text. -/
structure LexedWhole (text : String) : Prop where
  /-- Without a bad token, the tokens cover the text. -/
  good : (lex text).failure = none → Covers text (lex text).lexemes text.utf8ByteSize
  /-- Otherwise they cover it up to the first character of the bad one, which is no gap. -/
  bad : ∀ failure, (lex text).failure = some failure →
    Covers text (lex text).lexemes failure.span.start ∧ failure.span.Within text ∧
      ∃ c rest, Text.IsRest text failure.span.start (c :: rest) ∧ isGap c = false ∧
        (failure.error = .unclosedText ↔ c = '"' ∧ Quotation.IsOpen rest)
  /-- A token that starts with a quote is a text, and ends with the quote that closes it. -/
  quoted : ∀ l ∈ (lex text).lexemes,
    (l.text.toList.head? = some '"' ↔ ∃ contents, l.token = .text contents) ∧
      ((∃ contents, l.token = .text contents) → IsQuoted text l)

/-- **Lexing** covers every text: its tokens and the gaps around them are all there is, up to the
    end or to the first bad token. -/
theorem lex_covers (text : String) : LexedWhole text := by
  rcases exists_lexing 0 text.toList with
    ⟨ls, stop, h⟩ | ⟨ls, start, c, rest, n, e, h, hgap, hscan⟩
  · have hlex : lex text = ⟨ls, none⟩ := IsLexed.lex_eq ⟨stop, h⟩
    have hstop := (h.within (Text.isRest_toList text)).2.eq_utf8ByteSize
    constructor
    · intro _
      rw [hlex, ← hstop]
      exact h.covers
    · intro failure hfailure
      rw [hlex] at hfailure
      cases hfailure
    · rw [hlex]
      exact fun _ => h.isQuoted
  · have hlex := h.lex_eq_of_error hgap hscan
    have hrest := (h.within (Text.isRest_toList text)).2
    constructor
    · intro hnone
      rw [hlex] at hnone
      cases hnone
    · intro failure hfailure
      rw [hlex] at hfailure
      obtain rfl := Option.some.inj hfailure
      rw [hlex]
      exact ⟨h.covers, (FirstBad.intro h hgap hscan).within, c, rest, hrest, hgap,
        eq_unclosedText_iff hgap hscan⟩
    · rw [hlex]
      exact fun _ => h.isQuoted

/-- A text with a quote within another one, and with a quote that nothing closes behind it. -/
def halfQuoted : String :=
  "\taé: \"b\\\"é\\\\\" \"#\\\""

theorem lex_covers_halfQuoted :
    (lex halfQuoted).failure = some ⟨.unclosedText, ⟨16, 20⟩⟩ ∧
      Covers halfQuoted (lex halfQuoted).lexemes 16 ∧
      ⟨.text "b\"é\\", "\"b\\\"é\\\\\"", 6⟩ ∈ (lex halfQuoted).lexemes ∧
      IsQuoted halfQuoted ⟨.text "b\"é\\", "\"b\\\"é\\\\\"", 6⟩ := by
  have hfailure : (lex halfQuoted).failure = some ⟨.unclosedText, ⟨16, 20⟩⟩ := by decide +kernel
  have hmem : ⟨.text "b\"é\\", "\"b\\\"é\\\\\"", 6⟩ ∈ (lex halfQuoted).lexemes := by
    decide +kernel
  have hlexed := lex_covers halfQuoted
  exact ⟨hfailure, (hlexed.bad _ hfailure).1, hmem, (hlexed.quoted _ hmem).2 ⟨_, rfl⟩⟩

end Token

end AnnaToolchain
