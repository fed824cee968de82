import AnnaToolchain.Text.Digits
import AnnaToolchain.Text.Line
import Mathlib.Algebra.Group.Nat.Defs
import Mathlib.Data.List.TakeWhile

/-! # Text that is read back

    What is written with a separator is cut at that separator again, as long
    as the parts do not hold it: lines (`lineChars_join`), and the fields of
    a line (`fields_intercalate`).  A number written in a fixed number of
    hexadecimal digits has its value (`valueOf?_fixedHex`). -/

namespace AnnaToolchain.Text

/-! ## Pieces -/

section

variable {p : Char → Bool} {cs : List Char}

theorem piecesAt_of_forall_not (h : ∀ c ∈ cs, p c = false) : piecesAt p cs = (cs, []) := by
  induction cs with
  | nil => rfl
  | cons c cs ih =>
    have hc : p c = false := h c List.mem_cons_self
    have hcs := ih fun c hc => h c (List.mem_cons_of_mem _ hc)
    rw [piecesAt_cons, hc, hcs]
    rfl

theorem piecesAt_append_cons {d : Char} (h : ∀ c ∈ cs, p c = false) (hd : p d = true)
    (rest : List Char) :
    piecesAt p (cs ++ d :: rest) = (cs, (piecesAt p rest).1 :: (piecesAt p rest).2) := by
  induction cs with
  | nil =>
    rw [List.nil_append, piecesAt_cons, hd]
    rfl
  | cons c cs ih =>
    have hc : p c = false := h c List.mem_cons_self
    have hcs := ih fun c hc => h c (List.mem_cons_of_mem _ hc)
    rw [List.cons_append, piecesAt_cons, hc, hcs]
    rfl

end

theorem piecesAt_intercalate {p : Char → Bool} {d : Char} (hd : p d = true) {f : List Char}
    {fs : List (List Char)} (h : ∀ g ∈ f :: fs, ∀ c ∈ g, p c = false) :
    (piecesAt p ([d].intercalate (f :: fs))).1 :: (piecesAt p ([d].intercalate (f :: fs))).2
      = f :: fs := by
  induction fs generalizing f with
  | nil => rw [List.intercalate_singleton, piecesAt_of_forall_not (h f List.mem_cons_self)]
  | cons g fs ih =>
    have hrest := ih fun g' hg' => h g' (List.mem_cons_of_mem _ hg')
    rw [List.intercalate_cons_cons, List.append_assoc, List.singleton_append,
      piecesAt_append_cons (h f List.mem_cons_self) hd, hrest]

/-! ## Lines -/

theorem dropReturn_of_ne {cs : List Char} (h : cs.getLast? ≠ some '\r') : dropReturn cs = cs :=
  if_neg h

theorem restOfLine_of_not_mem {cs : List Char} (h : '\n' ∉ cs) : restOfLine cs = cs := by
  have hline : cs.takeWhile (· ≠ '\n') = cs := by
    rw [List.takeWhile_eq_self_iff]
    intro c hc
    rw [decide_eq_true_eq]
    rintro rfl
    exact h hc
  unfold restOfLine
  rw [hline, if_neg (Nat.lt_irrefl _)]

/-- Each line ended by a line feed, and nothing after the last one. -/
theorem piecesAt_lines {lines : List (List Char)} (h : ∀ line ∈ lines, '\n' ∉ line) :
    (piecesAt (· == '\n') (lines.flatMap (· ++ ['\n']))).1
        :: (piecesAt (· == '\n') (lines.flatMap (· ++ ['\n']))).2 = lines ++ [[]] := by
  induction lines with
  | nil => rfl
  | cons line lines ih =>
    have hline : ∀ c ∈ line, (c == '\n') = false := by
      intro c hc
      rw [beq_eq_false_iff_ne]
      rintro rfl
      exact h line List.mem_cons_self hc
    rw [List.flatMap_cons, List.append_assoc, List.singleton_append,
      piecesAt_append_cons hline rfl, ih fun line hl => h line (List.mem_cons_of_mem _ hl)]
    rfl

/-- Characters that make up one line, and all of it. -/
def IsLine (cs : List Char) : Prop :=
  '\n' ∉ cs ∧ cs.getLast? ≠ some '\r'

theorem IsLine.nil : IsLine [] :=
  ⟨List.not_mem_nil, nofun⟩

theorem IsLine.append {cs cs' : List Char} (h : IsLine cs) (h' : IsLine cs') :
    IsLine (cs ++ cs') := by
  refine ⟨?_, ?_⟩
  · rw [List.mem_append, not_or]
    exact ⟨h.1, h'.1⟩
  · intro hlast
    rw [List.getLast?_append, Option.or_eq_some_iff] at hlast
    rcases hlast with hlast | ⟨-, hlast⟩
    · exact h'.2 hlast
    · exact h.2 hlast

theorem IsLine.intercalate {sep : List Char} (hsep : IsLine sep) {css : List (List Char)}
    (h : ∀ cs ∈ css, IsLine cs) : IsLine (sep.intercalate css) := by
  match css with
  | [] => exact IsLine.nil
  | [cs] =>
    rw [List.intercalate_singleton]
    exact h cs List.mem_cons_self
  | cs :: cs' :: css =>
    rw [List.intercalate_cons_cons]
    have hrest := IsLine.intercalate hsep fun cs'' h'' => h cs'' (List.mem_cons_of_mem _ h'')
    exact ((h cs List.mem_cons_self).append hsep).append hrest

/-- **Lines.**  Lines that hold no line feed, and do not end in a carriage return, are read
    back. -/
theorem lineChars_join {lines : List (List Char)} (h : ∀ line ∈ lines, IsLine line) :
    lineChars (lines.flatMap (· ++ ['\n'])) = lines := by
  have hpieces := piecesAt_lines fun line hl => (h line hl).1
  unfold lineChars
  simp only [hpieces, List.dropLast_concat, List.getLast?_concat, Option.getD_some, if_true,
    List.append_nil]
  -- no line has a carriage return to lose
  calc lines.map dropReturn
      = lines.map id := List.map_congr_left fun line hl => dropReturn_of_ne (h line hl).2
    _ = lines := List.map_id lines

/-- Lines with nothing after the last one, none of them empty. -/
theorem lineChars_intercalate {lines : List (List Char)}
    (h : ∀ line ∈ lines, IsLine line ∧ line ≠ []) : lineChars (['\n'].intercalate lines) = lines := by
  cases lines with
  | nil => rfl
  | cons line lines =>
    have hline : ∀ g ∈ line :: lines, ∀ c ∈ g, (c == '\n') = false := by
      intro g hg c hc
      rw [beq_eq_false_iff_ne]
      rintro rfl
      exact (h g hg).1.1 hc
    have hpieces := piecesAt_intercalate (p := (· == '\n')) (d := '\n') rfl hline
    have hlast := List.getLast?_eq_some_getLast (List.cons_ne_nil line lines)
    have hmem := List.getLast_mem (List.cons_ne_nil line lines)
    unfold lineChars
    simp only [hpieces, hlast, Option.getD_some, if_neg (h _ hmem).2]
    -- no line has a carriage return to lose
    calc (line :: lines).dropLast.map dropReturn ++ [(line :: lines).getLast _]
        = (line :: lines).dropLast.map id ++ [(line :: lines).getLast _] := by
          congr 1
          exact List.map_congr_left fun g hg =>
            dropReturn_of_ne (h g (List.dropLast_subset _ hg)).1.2
      _ = line :: lines := by rw [List.map_id, List.dropLast_concat_getLast]

/-! ## Fields -/

/-- **Fields.**  Fields without white space, one space apart, are read back. -/
theorem fields_intercalate {fs : List (List Char)}
    (h : ∀ f ∈ fs, f ≠ [] ∧ ∀ c ∈ f, isBlank c = false) :
    fields ([' '].intercalate fs) = fs := by
  cases fs with
  | nil => rfl
  | cons f fs =>
    have hblank : isBlank ' ' = true := by decide
    have hpieces := piecesAt_intercalate hblank fun g hg => (h g hg).2
    unfold fields
    simp only [hpieces]
    -- none of the fields is empty
    rw [List.filter_eq_self]
    intro g hg
    simpa using (h g hg).1

theorem mem_intercalate {sep : List Char} {fs : List (List Char)} {c : Char}
    (h : c ∈ sep.intercalate fs) : c ∈ sep ∨ ∃ f ∈ fs, c ∈ f := by
  match fs with
  | [] => cases h
  | [f] =>
    rw [List.intercalate_singleton] at h
    exact .inr ⟨f, List.mem_cons_self, h⟩
  | f :: g :: fs =>
    rw [List.intercalate_cons_cons, List.append_assoc, List.mem_append, List.mem_append] at h
    rcases h with h | h | h
    · exact .inr ⟨f, List.mem_cons_self, h⟩
    · exact .inl h
    · rcases mem_intercalate h with h | ⟨f', hf', h⟩
      · exact .inl h
      · exact .inr ⟨f', List.mem_cons_of_mem _ hf', h⟩

theorem intercalate_ne_nil (sep : List Char) {f : List Char} (h : f ≠ [])
    (fs : List (List Char)) : sep.intercalate (f :: fs) ≠ [] := by
  intro hnil
  cases fs with
  | nil =>
    rw [List.intercalate_singleton] at hnil
    exact h hnil
  | cons g fs =>
    rw [List.intercalate_cons_cons, List.append_assoc] at hnil
    exact h (List.append_eq_nil_iff.mp hnil).1

/-- A text of fields starts within one of them. -/
theorem mem_of_head?_intercalate {sep : List Char} {fs : List (List Char)} (h : ∀ f ∈ fs, f ≠ [])
    {c : Char} (hc : (sep.intercalate fs).head? = some c) : ∃ f ∈ fs, c ∈ f := by
  match fs with
  | [] => cases hc
  | [f] =>
    rw [List.intercalate_singleton] at hc
    exact ⟨f, List.mem_cons_self, List.mem_of_mem_head? hc⟩
  | f :: g :: fs =>
    obtain ⟨d, f', rfl⟩ := List.exists_cons_of_ne_nil (h f List.mem_cons_self)
    rw [List.intercalate_cons_cons, List.append_assoc] at hc
    cases hc
    exact ⟨_, List.mem_cons_self, List.mem_cons_self⟩

/-- A text of fields ends within one of them. -/
theorem mem_of_getLast?_intercalate {sep : List Char} {fs : List (List Char)}
    (h : ∀ f ∈ fs, f ≠ []) {c : Char} (hc : (sep.intercalate fs).getLast? = some c) :
    ∃ f ∈ fs, c ∈ f := by
  match fs with
  | [] => cases hc
  | [f] =>
    rw [List.intercalate_singleton] at hc
    exact ⟨f, List.mem_cons_self, List.mem_of_mem_getLast? hc⟩
  | f :: g :: fs =>
    have hrest : ∀ f ∈ g :: fs, f ≠ [] := fun f hf => h f (List.mem_cons_of_mem _ hf)
    rw [List.intercalate_cons_cons, List.getLast?_append, Option.or_eq_some_iff] at hc
    rcases hc with hc | ⟨hnone, -⟩
    · obtain ⟨f', hf', hmem⟩ := mem_of_getLast?_intercalate hrest hc
      exact ⟨f', List.mem_cons_of_mem _ hf', hmem⟩
    · -- the fields from the second on are not empty
      exact absurd (List.getLast?_eq_none_iff.mp hnone)
        (intercalate_ne_nil sep (hrest g List.mem_cons_self) fs)

/-! ## Trimming -/

theorem dropWhile_of_head {p : Char → Bool} {cs : List Char}
    (h : ∀ c, cs.head? = some c → p c = false) : cs.dropWhile p = cs := by
  cases cs with
  | nil => rfl
  | cons c cs => rw [List.dropWhile_cons_of_neg (by simpa using h c rfl)]

/-- Text that neither starts nor ends in white space is not trimmed. -/
theorem trimChars_of_ends {cs : List Char} (hfirst : ∀ c, cs.head? = some c → isBlank c = false)
    (hlast : ∀ c, cs.getLast? = some c → isBlank c = false) : trimChars cs = cs := by
  have hreverse : cs.reverse.dropWhile isBlank = cs.reverse := by
    apply dropWhile_of_head
    rwa [List.head?_reverse]
  unfold trimChars trimEndChars
  rw [dropWhile_of_head hfirst, hreverse, List.reverse_reverse]

theorem head?_dropWhile {p : Char → Bool} {cs : List Char} {c : Char}
    (h : (cs.dropWhile p).head? = some c) : p c = false := by
  have hne : cs.dropWhile p ≠ [] := by
    intro hnil
    rw [hnil] at h
    cases h
  have hhead := List.head_dropWhile_not p hne
  rw [List.head?_eq_some_head hne] at h
  rwa [Option.some.inj h] at hhead

theorem getLast?_trimEndChars {cs : List Char} {c : Char}
    (h : (trimEndChars cs).getLast? = some c) : isBlank c = false := by
  unfold trimEndChars at h
  rw [List.getLast?_reverse] at h
  exact head?_dropWhile h

/-- Trimming takes away a front and an end. -/
theorem isPrefix_trimEndChars (cs : List Char) : trimEndChars cs <+: cs := by
  have hsuffix : cs.reverse.dropWhile isBlank <:+ cs.reverse := List.dropWhile_suffix _
  rw [← List.reverse_prefix, List.reverse_reverse] at hsuffix
  exact hsuffix

theorem mem_of_mem_trimChars {cs : List Char} {c : Char} (h : c ∈ trimChars cs) : c ∈ cs :=
  (List.dropWhile_suffix _).mem ((isPrefix_trimEndChars _).mem h)

theorem head?_trimChars {cs : List Char} {c : Char} (h : (trimChars cs).head? = some c) :
    isBlank c = false := by
  obtain ⟨rest, hrest⟩ := isPrefix_trimEndChars (cs.dropWhile isBlank)
  have hhead : (cs.dropWhile isBlank).head? = some c := by
    unfold trimChars at h
    rw [← hrest, List.head?_append, h]
    rfl
  exact head?_dropWhile hhead

theorem getLast?_trimChars {cs : List Char} {c : Char} (h : (trimChars cs).getLast? = some c) :
    isBlank c = false :=
  getLast?_trimEndChars h

theorem trimChars_trimChars (cs : List Char) : trimChars (trimChars cs) = trimChars cs :=
  trimChars_of_ends (fun _ => head?_trimChars) fun _ => getLast?_trimChars

theorem trimChars_eq_self_iff {cs : List Char} :
    trimChars cs = cs ↔
      (∀ c, cs.head? = some c → isBlank c = false) ∧
        ∀ c, cs.getLast? = some c → isBlank c = false := by
  refine ⟨fun h => ?_, fun h => trimChars_of_ends h.1 h.2⟩
  rw [← h]
  exact ⟨fun _ => head?_trimChars, fun _ => getLast?_trimChars⟩

theorem isLine_trimChars {cs : List Char} (h : '\n' ∉ cs) : IsLine (trimChars cs) := by
  refine ⟨fun hmem => h (mem_of_mem_trimChars hmem), fun hlast => ?_⟩
  have hblank := getLast?_trimEndChars hlast
  exact absurd hblank (by decide)

/-! ## Hexadecimal numbers -/

theorem digitOf?_hexDigit {n : Nat} (h : n < 16) : digitOf? 16 (hexDigit n) = some n := by
  have hall : ∀ n : Fin 16, digitOf? 16 (hexDigit n) = some n.val := by decide
  exact hall ⟨n, h⟩

theorem valueOf?_concat (base : Nat) (cs : List Char) (c : Char) :
    valueOf? base (cs ++ [c])
      = (valueOf? base cs).bind fun n => (digitOf? base c).map (n * base + ·) := by
  unfold valueOf?
  rw [List.foldl_append]
  rfl

/-- **Numbers.**  Hexadecimal digits have the value they were written for, up to those that were
    left out. -/
theorem valueOf?_fixedHex (width n : Nat) :
    valueOf? 16 (fixedHex width n) = some (n % 16 ^ width) := by
  induction width generalizing n with
  | zero => rw [Nat.pow_zero, Nat.mod_one]; rfl
  | succ width ih =>
    have hdigit : digitOf? 16 (hexDigit (n % 16)) = some (n % 16) :=
      digitOf?_hexDigit (Nat.mod_lt n (by decide))
    rw [fixedHex, valueOf?_concat, ih, hdigit]
    show some (n / 16 % 16 ^ width * 16 + n % 16) = _
    rw [Nat.pow_succ, Nat.mul_comm (16 ^ width) 16, Nat.mod_mul]
    congr 1
    omega

@[simp] theorem length_fixedHex (width n : Nat) : (fixedHex width n).length = width := by
  induction width generalizing n with
  | zero => rfl
  | succ width ih => rw [fixedHex, List.length_append, ih, List.length_singleton]

/-- What holds of the sixteen digits holds of all digits of a number. -/
theorem forall_mem_fixedHex {P : Char → Prop} (h : ∀ n : Fin 16, P (hexDigit n)) (width n : Nat) :
    ∀ c ∈ fixedHex width n, P c := by
  induction width generalizing n with
  | zero => exact List.forall_mem_nil _
  | succ width ih =>
    intro c hc
    rw [fixedHex] at hc
    rcases List.mem_append.mp hc with hc | hc
    · exact ih _ c hc
    · rw [List.mem_singleton.mp hc]
      exact h ⟨n % 16, Nat.mod_lt n (by decide)⟩

end AnnaToolchain.Text
