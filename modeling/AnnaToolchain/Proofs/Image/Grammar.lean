import AnnaToolchain.Proofs.Image.Reading
import AnnaToolchain.Proofs.Text.Fields
import AnnaToolchain.Proofs.Text.Numerals

/-! # The grammar of listings

    A line of a listing holds an origin or words (`HoldsMarks`); line by line
    these are the marks of the listing (`Marks`).  The marks say where the
    words go (`Says`), unless one of them is at fault: it is no number, or
    there is no place for it (`Offends`).

    A listing is read just if none of its marks is at fault, and otherwise
    fails with the fault of the first one (`ofListing_exact`).  Reading goes
    mark by mark: what each step keeps is that the image holds the words of
    the marks before (`Holds`). -/

namespace AnnaToolchain.Image

/-! ## Marks -/

/-- What can be at fault in a listing, with the number of its line. -/
inductive Mark where
  /-- What follows the colon of an origin. -/
  | origin (line : Nat) (text : List Char)
  | word (line : Nat) (text : List Char)

/-- What is left of a line without its comment and the white space around. -/
def IsContent (line content : List Char) : Prop :=
  ∃ before after, line = before ++ after ∧ '#' ∉ before ∧ (after = [] ∨ after.head? = some '#') ∧
    Text.Trims before content

/-- What a line holds: an origin, or words with white space between them. -/
inductive HoldsMarks (number : Nat) (line : List Char) : List Mark → Prop
  | origin {text : List Char} (h : IsContent line (':' :: text)) :
      HoldsMarks number line [.origin number text]
  | words {content : List Char} {fs : List (List Char)} (h : IsContent line content)
      (hcolon : content.head? ≠ some ':') (hfs : Text.IsFields content fs) :
      HoldsMarks number line (fs.map (.word number))

/-- The marks of a listing, line by line; the first line has the given number. -/
inductive Marks : Nat → List (List Char) → List Mark → Prop
  | nil {number : Nat} : Marks number [] []
  | cons {number : Nat} {line : List Char} {lines : List (List Char)} {marks marks' : List Mark}
      (hline : HoldsMarks number line marks) (hlines : Marks (number + 1) lines marks') :
      Marks number (line :: lines) (marks ++ marks')

theorem isContent_iff {line content : List Char} :
    IsContent line content ↔ lineContent line = content := by
  unfold lineContent
  constructor
  · rintro ⟨before, after, rfl, hbefore, hafter, htrims⟩
    have hall : ∀ c ∈ before, decide (c ≠ '#') = true := fun c hc =>
      decide_eq_true fun heq => hbefore (heq ▸ hc)
    have hnone : after.takeWhile (· ≠ '#') = [] := by
      rcases hafter with rfl | hafter
      · rfl
      · rw [List.takeWhile_eq_nil_iff]
        intro hlength hne
        rw [List.head?_eq_getElem?, List.getElem?_eq_getElem hlength] at hafter
        exact absurd (Option.some.inj hafter) (of_decide_eq_true hne)
    rw [List.takeWhile_append_of_pos hall, hnone, List.append_nil]
    exact Text.trims_iff.mp htrims
  · intro h
    refine ⟨line.takeWhile (· ≠ '#'), line.dropWhile (· ≠ '#'),
      List.takeWhile_append_dropWhile.symm, ?_, ?_, Text.trims_iff.mpr h⟩
    · intro hmem
      exact absurd (List.mem_takeWhile_imp hmem) (by decide)
    · cases hdrop : line.dropWhile (· ≠ '#') with
      | nil => exact .inl rfl
      | cons c rest =>
        have hhead : (line.dropWhile (· ≠ '#')).head? = some c := by rw [hdrop]; rfl
        exact .inr (congrArg some (by simpa using Text.head?_dropWhile hhead))

theorem exists_holdsMarks (number : Nat) (line : List Char) :
    ∃ marks, HoldsMarks number line marks := by
  have hcontent := isContent_iff.mpr (rfl : lineContent line = lineContent line)
  by_cases hcolon : (lineContent line).head? = some ':'
  · obtain ⟨text, htext⟩ := List.head?_eq_some_iff.mp hcolon
    rw [htext] at hcontent
    exact ⟨_, .origin hcontent⟩
  · obtain ⟨fs, hfs⟩ := Text.exists_isFields (lineContent line)
    exact ⟨_, .words hcontent hcolon hfs⟩

/-- Every listing has marks. -/
theorem exists_marks (number : Nat) (lines : List (List Char)) :
    ∃ marks, Marks number lines marks := by
  induction lines generalizing number with
  | nil => exact ⟨[], .nil⟩
  | cons line lines ih =>
    obtain ⟨marks, hline⟩ := exists_holdsMarks number line
    obtain ⟨marks', hlines⟩ := ih (number + 1)
    exact ⟨_, .cons hline hlines⟩

/-! ## What marks say -/

/-- One to four hexadecimal digits. -/
structure IsHexWord (cs : List Char) (w : Word) : Prop where
  length_pos : 1 ≤ cs.length
  length_le : cs.length ≤ 4
  value : Text.IsNumeral 16 cs w.toNat

/-- What a mark says, if it is a number. -/
inductive Mark.Says : Mark → ListingItem → Prop
  | origin {line : Nat} {text digits : List Char} {w : Word} (htext : Text.Trims text digits)
      (hdigits : IsHexWord digits w) : Says (.origin line text) (.origin w)
  | word {line : Nat} {text : List Char} {w : Word} (htext : IsHexWord text w) :
      Says (.word line text) (.word w)

/-- There is a place for each word: none is past the last address, and no two share one. -/
structure Addressed (items : List ListingItem) : Prop where
  inside : ∀ e ∈ numbered 0 items, e.2 < maxMemory
  distinct : (numbered 0 items).Pairwise fun e e' => e.2 ≠ e'.2

/-- The number of the word after the items. -/
def cursorAfter (items : List ListingItem) : Nat :=
  items.foldl ListingItem.next 0

/-- What is wrong with a mark that comes after the items. -/
inductive Offends (items : List ListingItem) : Mark → ImageError → Prop
  | badOrigin {line : Nat} {text : List Char} (h : ¬ ∃ item, Mark.Says (.origin line text) item) :
      Offends items (.origin line text) (.badOrigin line (String.ofList (':' :: text)))
  | badWord {line : Nat} {text : List Char} (h : ¬ ∃ item, Mark.Says (.word line text) item) :
      Offends items (.word line text) (.badWord line (String.ofList text))
  | tooLarge {line : Nat} {text : List Char} {w : Word} (h : Mark.Says (.word line text) (.word w))
      (hcursor : maxMemory ≤ cursorAfter items) : Offends items (.word line text) (.tooLarge line)
  | overlap {line : Nat} {text : List Char} {w : Word} (h : Mark.Says (.word line text) (.word w))
      (hcursor : cursorAfter items < maxMemory)
      (htaken : ∃ e ∈ numbered 0 items, e.2 = cursorAfter items) :
      Offends items (.word line text) (.overlap (BitVec.ofNat 16 (cursorAfter items)))

/-- The marks say what the items are, and there is a place for each word. -/
structure Sound (marks : List Mark) (items : List ListingItem) : Prop where
  agrees : List.Forall₂ Mark.Says marks items
  addressed : Addressed items

/-- The first mark that is at fault, and what is wrong with it. -/
def FirstOffence (marks : List Mark) (e : ImageError) : Prop :=
  ∃ before mark after items, marks = before ++ mark :: after ∧ Sound before items ∧
    Offends items mark e

theorem hexWord?_eq_some_iff {cs : List Char} {w : Word} :
    hexWord? cs = some w ↔ IsHexWord cs w := by
  unfold hexWord?
  constructor
  · intro h
    split at h
    · next hlength =>
      obtain ⟨n, hn, rfl⟩ := Option.map_eq_some_iff.mp h
      have hvalue := Text.valueOf?_eq_some_iff.mp hn
      have hlt : n < 2 ^ 16 :=
        Nat.lt_of_lt_of_le (hvalue.lt (by decide))
          (Nat.pow_le_pow_right (by decide) hlength.2)
      refine ⟨hlength.1, hlength.2, ?_⟩
      rwa [BitVec.toNat_ofNat, Nat.mod_eq_of_lt hlt]
    · cases h
  · rintro ⟨hpos, hle, hvalue⟩
    rw [if_pos ⟨hpos, hle⟩, Text.valueOf?_eq_some_iff.mpr hvalue, Option.map_some,
      BitVec.ofNat_toNat, BitVec.setWidth_eq]

/-! ## Reading marks -/

/-- Reads one mark. -/
def readMark (state : ListingState) : Mark → Except ImageError ListingState
  | .origin line text =>
    match hexWord? (Text.trimChars text) with
    | some address => .ok { state with cursor := address.toNat }
    | none => .error (.badOrigin line (String.ofList (':' :: text)))
  | .word line text => readWord line state text

section

variable {number : Nat} {line : List Char} {lines : List (List Char)} {marks : List Mark}

theorem readLine_eq (h : HoldsMarks number line marks) (state : ListingState) :
    readLine state (line, number) = marks.foldlM readMark state := by
  unfold readLine
  cases h with
  | @origin text hcontent =>
    rw [isContent_iff.mp hcontent]
    cases hword : hexWord? (Text.trimChars text) with
    | none => simp [readMark, hword, Except.bind, bind]
    | some address => simp [readMark, hword, Except.bind, bind, pure, Except.pure]
  | words hcontent hcolon hfs =>
    rw [isContent_iff.mp hcontent, List.foldlM_map, ← hfs.fields_eq]
    split
    · rfl
    · exact absurd rfl hcolon
    · rfl

theorem readLines_eq (h : Marks number lines marks) (state : ListingState) :
    readLines state lines number = marks.foldlM readMark state := by
  induction h generalizing state with
  | nil => rfl
  | cons hline _ ih =>
    rw [readLines_cons, readLine_eq hline, List.foldlM_append]
    exact bind_congr fun state => ih state

end

/-! ## Places -/

section

variable {items items' : List ListingItem}

theorem cursorAfter_concat (items : List ListingItem) (item : ListingItem) :
    cursorAfter (items ++ [item]) = item.next (cursorAfter items) :=
  List.foldl_concat ..

theorem numbered_concat_word (items : List ListingItem) (w : Word) :
    numbered 0 (items ++ [.word w]) = numbered 0 items ++ [(w, cursorAfter items)] :=
  numbered_append ..

theorem numbered_concat_origin (items : List ListingItem) (w : Word) :
    numbered 0 (items ++ [.origin w]) = numbered 0 items := by
  rw [numbered_append]
  exact List.append_nil _

theorem addressed_nil : Addressed [] :=
  ⟨List.forall_mem_nil _, .nil⟩

theorem Addressed.of_append (h : Addressed (items ++ items')) : Addressed items := by
  obtain ⟨hinside, hdistinct⟩ := h
  rw [numbered_append] at hinside hdistinct
  exact ⟨(List.forall_mem_append.mp hinside).1, (List.pairwise_append.mp hdistinct).1⟩

theorem Addressed.concat_origin (h : Addressed items) (w : Word) :
    Addressed (items ++ [.origin w]) := by
  constructor
  · rw [numbered_concat_origin]
    exact h.inside
  · rw [numbered_concat_origin]
    exact h.distinct

/-- There is a place for one more word if the next one is an address and has not been taken. -/
theorem addressed_concat_word_iff {w : Word} :
    Addressed (items ++ [.word w]) ↔
      Addressed items ∧ cursorAfter items < maxMemory ∧
        ∀ e ∈ numbered 0 items, e.2 ≠ cursorAfter items := by
  constructor
  · intro h
    have hinside := h.inside
    have hdistinct := h.distinct
    rw [numbered_concat_word] at hinside hdistinct
    refine ⟨h.of_append, ?_, fun e he => ?_⟩
    · exact (List.forall_mem_append.mp hinside).2 _ List.mem_cons_self
    · exact (List.pairwise_append.mp hdistinct).2.2 e he _ List.mem_cons_self
  · rintro ⟨⟨hinside, hdistinct⟩, hcursor, hfree⟩
    constructor
    · rw [numbered_concat_word]
      exact List.forall_mem_append.mpr ⟨hinside, List.forall_mem_singleton.mpr hcursor⟩
    · rw [numbered_concat_word]
      refine List.pairwise_append.mpr
        ⟨hdistinct, List.pairwise_singleton _ _, fun e he e' he' => ?_⟩
      rw [List.mem_singleton.mp he']
      exact hfree e he

/-- **One mark more** is at fault, or says where its word goes. -/
theorem Addressed.next (h : Addressed items) (mark : Mark) :
    (∃ item, mark.Says item ∧ Addressed (items ++ [item])) ∨ ∃ e, Offends items mark e := by
  by_cases hsaid : ∃ item, mark.Says item
  · obtain ⟨item, hsaid⟩ := hsaid
    cases hsaid with
    | @origin line text digits w htext hdigits =>
      exact .inl ⟨.origin w, .origin htext hdigits, h.concat_origin w⟩
    | @word line text w htext =>
      by_cases hcursor : cursorAfter items < maxMemory
      · by_cases htaken : ∃ e ∈ numbered 0 items, e.2 = cursorAfter items
        · exact .inr ⟨_, .overlap (.word htext) hcursor htaken⟩
        · have hfree : ∀ e ∈ numbered 0 items, e.2 ≠ cursorAfter items := fun e he heq =>
            htaken ⟨e, he, heq⟩
          exact .inl ⟨.word w, .word htext, addressed_concat_word_iff.mpr ⟨h, hcursor, hfree⟩⟩
      · exact .inr ⟨_, .tooLarge (.word htext) (Nat.not_lt.mp hcursor)⟩
  · cases mark with
    | origin line text => exact .inr ⟨_, .badOrigin hsaid⟩
    | word line text => exact .inr ⟨_, .badWord hsaid⟩

end

/-! ## Reading mark by mark -/

/-- What has been read after marks that say the items, and have a place for each word. -/
structure Holds (items : List ListingItem) (state : ListingState) : Prop where
  added : Added (empty maxMemory) (numbered 0 items) state.image
  symbols : state.image.symbols = ∅
  cursor : state.cursor = cursorAfter items
  addressed : Addressed items

section

variable {items items' : List ListingItem} {state : ListingState} {mark : Mark}
  {marks : List Mark} {e : ImageError}

theorem holds_start : Holds [] ⟨empty maxMemory, 0⟩ :=
  ⟨.refl _, rfl, rfl, addressed_nil⟩

/-- The next word has a free address just if no word before has been put there. -/
theorem Holds.get?_eq_none_iff (h : Holds items state) (hcursor : cursorAfter items < maxMemory) :
    state.image.get? (BitVec.ofNat 16 (cursorAfter items)) = none ↔
      ∀ e ∈ numbered 0 items, e.2 ≠ cursorAfter items := by
  have hwords := h.added.hasWords
  constructor
  · rintro hnone ⟨w, n⟩ he rfl
    rw [(hwords _ w).mpr ⟨_, he, rfl⟩] at hnone
    cases hnone
  · intro hfree
    rw [Option.eq_none_iff_forall_ne_some]
    intro w hw
    obtain ⟨n, he, heq⟩ := (hwords _ _).mp hw
    -- both are addresses, so the same word is the same number
    have hn : n < 2 ^ 16 := h.addressed.inside _ he
    have hcursor' : cursorAfter items < 2 ^ 16 := hcursor
    have hvalue := congrArg BitVec.toNat heq
    rw [BitVec.toNat_ofNat, BitVec.toNat_ofNat, Nat.mod_eq_of_lt hn,
      Nat.mod_eq_of_lt hcursor'] at hvalue
    exact hfree _ he hvalue

/-- **A step** over a mark that says something, with a place for its word. -/
theorem Holds.step (h : Holds items state) {item : ListingItem} (hsaid : mark.Says item)
    (haddressed : Addressed (items ++ [item])) :
    ∃ state', readMark state mark = .ok state' ∧ Holds (items ++ [item]) state' := by
  cases hsaid with
  | @origin line text digits w htext hdigits =>
    refine ⟨{ state with cursor := w.toNat }, ?_, ?_, h.symbols, ?_, haddressed⟩
    · simp only [readMark, htext.trimChars_eq, hexWord?_eq_some_iff.mpr hdigits]
    · rw [numbered_concat_origin]
      exact h.added
    · rw [cursorAfter_concat]
      rfl
  | @word line text w htext =>
    obtain ⟨-, hcursor, hfree⟩ := addressed_concat_word_iff.mp haddressed
    have hwrite := write_of_fresh w ((h.get?_eq_none_iff hcursor).mpr hfree)
    refine ⟨⟨state.image.set (BitVec.ofNat 16 (cursorAfter items)) w, cursorAfter items + 1⟩,
      ?_, ?_, h.symbols, ?_, haddressed⟩
    · simp only [readMark, readWord, hexWord?_eq_some_iff.mpr htext, h.cursor, if_pos hcursor,
        hwrite]
    · rw [numbered_concat_word]
      exact h.added.trans (.write hwrite)
    · rw [cursorAfter_concat]
      rfl

/-- **A step** at a mark that is at fault. -/
theorem Holds.offence (h : Holds items state) (hoffends : Offends items mark e) :
    readMark state mark = .error e := by
  cases hoffends with
  | @badOrigin line text hnone =>
    cases hword : hexWord? (Text.trimChars text) with
    | none => simp only [readMark, hword]
    | some w =>
      exact absurd ⟨_, .origin (Text.trims_trimChars text) (hexWord?_eq_some_iff.mp hword)⟩ hnone
  | @badWord line text hnone =>
    cases hword : hexWord? text with
    | none => simp only [readMark, readWord, hword]
    | some w => exact absurd ⟨_, .word (hexWord?_eq_some_iff.mp hword)⟩ hnone
  | tooLarge hsaid hcursor =>
    cases hsaid with
    | word htext =>
      simp only [readMark, readWord, hexWord?_eq_some_iff.mpr htext, h.cursor,
        if_neg (Nat.not_lt.mpr hcursor)]
  | overlap hsaid hcursor htaken =>
    cases hsaid with
    | word htext =>
      have hsome : state.image.get? (BitVec.ofNat 16 (cursorAfter items)) ≠ none := by
        obtain ⟨e, he, heq⟩ := htaken
        exact fun hnone => (h.get?_eq_none_iff hcursor).mp hnone e he heq
      obtain ⟨w', hw'⟩ := Option.ne_none_iff_exists'.mp hsome
      simp only [readMark, readWord, hexWord?_eq_some_iff.mpr htext, h.cursor, if_pos hcursor,
        write, write?, hw']

/-- **A run** over marks that say something, with a place for each word. -/
theorem Holds.run (h : Holds items state) (hsaid : List.Forall₂ Mark.Says marks items')
    (haddressed : Addressed (items ++ items')) :
    ∃ state', marks.foldlM readMark state = .ok state' ∧ Holds (items ++ items') state' := by
  induction hsaid generalizing items state with
  | nil =>
    rw [List.append_nil]
    exact ⟨state, rfl, h⟩
  | @cons mark item marks items' hmark hmarks ih =>
    rw [List.append_cons] at haddressed ⊢
    obtain ⟨state₁, hfirst, hholds⟩ := h.step hmark haddressed.of_append
    rw [List.foldlM_cons, hfirst]
    exact ih hholds haddressed

end

/-- Marks are all good, or there is a first one at fault. -/
theorem exists_sound_or_firstOffence (marks : List Mark) :
    (∃ items, Sound marks items) ∨ ∃ e, FirstOffence marks e := by
  induction marks using List.reverseRecOn with
  | nil => exact .inl ⟨[], .nil, addressed_nil⟩
  | append_singleton marks mark ih =>
    rcases ih with ⟨items, hsaid, haddressed⟩ | ⟨e, before, mark', after, items, rfl, hrest⟩
    · rcases haddressed.next mark with ⟨item, hmark, hnext⟩ | ⟨e, hoffends⟩
      · exact .inl ⟨items ++ [item], List.rel_append hsaid (.cons hmark .nil), hnext⟩
      · exact .inr ⟨e, marks, mark, [], items, rfl, ⟨hsaid, haddressed⟩, hoffends⟩
    · exact .inr ⟨e, before, mark', after ++ [mark], items, by simp, hrest⟩

theorem ofListing_eq {text : String} {marks : List Mark}
    (h : Marks 1 (Text.lineChars text.toList) marks) :
    ofListing text = (marks.foldlM readMark ⟨empty maxMemory, 0⟩).map ListingState.image := by
  rw [← readLines_eq h]
  rfl

section

variable {text : String} {marks : List Mark}

/-- A listing whose marks are good is read as the words that they say. -/
theorem ofListing_of_sound (h : Marks 1 (Text.lineChars text.toList) marks)
    {items : List ListingItem} (hsound : Sound marks items) :
    ∃ image, ofListing text = .ok image ∧ image.HasWords (numbered 0 items) ∧
      image.memLen = maxMemory ∧ image.symbols = ∅ := by
  obtain ⟨state, hread, hholds⟩ := holds_start.run hsound.agrees hsound.addressed
  refine ⟨state.image, ?_, hholds.added.hasWords, hholds.added.memLen, hholds.symbols⟩
  rw [ofListing_eq h, hread]
  rfl

theorem ofListing_of_firstOffence (h : Marks 1 (Text.lineChars text.toList) marks)
    {e : ImageError} (hfirst : FirstOffence marks e) : ofListing text = .error e := by
  obtain ⟨before, mark, after, items, rfl, hsound, hoffends⟩ := hfirst
  obtain ⟨state, hread, hholds⟩ := holds_start.run hsound.agrees hsound.addressed
  rw [ofListing_eq h, List.foldlM_append, hread, ok_bind, List.foldlM_cons, hholds.offence hoffends]
  rfl

end

/-- **Listings.**  A listing is read just if all its marks are numbers, and there is a place for
    each word; then the image has these words, each at the address that its number is, and nothing
    else.  Otherwise the error is that of the first mark at fault. -/
theorem ofListing_exact (text : String) :
    (∃ marks, Marks 1 (Text.lineChars text.toList) marks) ∧
    ∀ marks, Marks 1 (Text.lineChars text.toList) marks →
      ((∃ image, ofListing text = .ok image) ↔ ∃ items, Sound marks items) ∧
      (∀ image, ofListing text = .ok image → ∃ items, Sound marks items ∧
        image.HasWords (numbered 0 items) ∧ image.memLen = maxMemory ∧ image.symbols = ∅) ∧
      ∀ e, ofListing text = .error e ↔ FirstOffence marks e := by
  refine ⟨exists_marks _ _, fun marks hmarks => ?_⟩
  have hok : ∀ image, ofListing text = .ok image → ∃ items, Sound marks items ∧
      image.HasWords (numbered 0 items) ∧ image.memLen = maxMemory ∧ image.symbols = ∅ := by
    intro image himage
    rcases exists_sound_or_firstOffence marks with ⟨items, hsound⟩ | ⟨e, hfirst⟩
    · obtain ⟨image', himage', hwords⟩ := ofListing_of_sound hmarks hsound
      cases himage.symm.trans himage'
      exact ⟨items, hsound, hwords⟩
    · cases himage.symm.trans (ofListing_of_firstOffence hmarks hfirst)
  refine ⟨⟨?_, ?_⟩, hok, fun e => ⟨fun herror => ?_, ofListing_of_firstOffence hmarks⟩⟩
  · rintro ⟨image, himage⟩
    obtain ⟨items, hsound, -⟩ := hok image himage
    exact ⟨items, hsound⟩
  · rintro ⟨items, hsound⟩
    obtain ⟨image, himage, -⟩ := ofListing_of_sound hmarks hsound
    exact ⟨image, himage⟩
  · rcases exists_sound_or_firstOffence marks with ⟨items, hsound⟩ | ⟨e', hfirst⟩
    · obtain ⟨image, himage, -⟩ := ofListing_of_sound hmarks hsound
      cases herror.symm.trans himage
    · cases herror.symm.trans (ofListing_of_firstOffence hmarks hfirst)
      exact hfirst

/-- A listing that comes back to where it has been, with a bad number behind. -/
def returning : String :=
  "7205 F000 # two words\r\n\n : 0\n1 12G4"

theorem ofListing_exact_returning :
    ofListing returning = .error (.overlap 0) ∧
      ∃ marks, Marks 1 (Text.lineChars returning.toList) marks ∧
        FirstOffence marks (.overlap 0) ∧ ¬ ∃ items, Sound marks items := by
  obtain ⟨⟨marks, hmarks⟩, hexact⟩ := ofListing_exact returning
  obtain ⟨hread, -, hfirst⟩ := hexact marks hmarks
  have herror : ofListing returning = .error (.overlap 0) := by decide +kernel
  refine ⟨herror, marks, hmarks, (hfirst _).mp herror, fun hsound => ?_⟩
  obtain ⟨image, himage⟩ := hread.mpr hsound
  cases herror.symm.trans himage

end AnnaToolchain.Image
