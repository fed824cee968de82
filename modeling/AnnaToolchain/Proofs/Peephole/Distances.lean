import AnnaToolchain.Proofs.Assembly.LiteralBranch
import AnnaToolchain.Proofs.Peephole.Labels
import Mathlib.Algebra.Order.Group.Unbundled.Int

/-! # Distances in an optimized program

    Optimizing takes words out, and what stands behind them moves up as far
    as the next `.org` (`Tracks.behind`).  A branch by number keeps its
    number, so it goes on to the same statement where both ends have moved
    up by the same number of words, and misses it elsewhere
    (`optimize_literal_branches`). -/

namespace AnnaToolchain

/-! ## Words taken out -/

/-- Let a sum come down to `target`.  With `d` taken off the sum it comes down to `e` less than
    `target` if `d` and `e` are the same, and only then if the memory length divides `2 ^ 16`. -/
theorem emod_emod_sub {memLen target d e : Nat} {sum : Int} (hle : memLen ≤ 65536)
    (ht : target < memLen) (hd : d < memLen) (he : e ≤ target)
    (hsum : sum % 65536 % memLen = target) :
    (d = e → (sum - d) % 65536 % memLen = (target - e : Nat)) ∧
      (memLen ∣ 65536 → (sum - d) % 65536 % memLen = (target - e : Nat) → d = e) := by
  constructor
  · rintro rfl
    -- the sum in 16 bits is at least the target, so that `d` can be taken off there
    have hnonneg := Int.emod_nonneg sum (show (65536 : Int) ≠ 0 by decide)
    obtain ⟨low, hlow⟩ := Int.eq_ofNat_of_zero_le hnonneg
    rw [hlow, ← Int.natCast_emod, Int.natCast_inj] at hsum
    have hge := Nat.mod_le low memLen
    have hshift : (sum - d) % 65536 = ((low - d : Nat) : Int) := by omega
    have hdiv := Nat.div_add_mod low memLen
    rw [hshift, ← Int.natCast_emod, Int.natCast_inj,
      show low - d = memLen * (low / memLen) + (target - d) from by omega, Nat.mul_add_mod,
      Nat.mod_eq_of_lt (by omega)]
  · intro hdvd h
    have hdvd' : (memLen : Int) ∣ 65536 := Int.natCast_dvd_natCast.mpr hdvd
    rw [Int.emod_emod_of_dvd _ hdvd'] at hsum h
    have hdiff := Int.dvd_sub (Int.dvd_self_sub_of_emod_eq hsum) (Int.dvd_self_sub_of_emod_eq h)
    rw [show sum - target - (sum - d - (target - e : Nat)) = (d : Int) - e from by omega] at hdiff
    have hzero : (d : Int) - e = 0 :=
      Int.eq_zero_of_abs_lt_dvd hdiff (abs_lt.mpr ⟨by omega, by omega⟩)
    omega

namespace Peephole

/-- Statement number `i` is still there, as it was or as a `mov`. -/
def Survives (f : Nat → Nat) (i : Nat) : Prop :=
  f (i + 1) = f i + 1

theorem Survives.ne {f : Nat → Nat} {i : Nat} (h : Survives f i) : f (i + 1) ≠ f i := by
  unfold Survives at h
  omega

/-- The number of words that are missing before statement number `i` in the optimized program,
    since the last `.org`. -/
def takenOut (placed placed' : Program) (f : Nat → Nat) (i : Nat) : Nat :=
  Program.wordsSinceOrg (placed.take i) - Program.wordsSinceOrg (placed'.take (f i))

/-- The program `done'` stands at the origin that `done` stands at, and has written no more words
    there. -/
structure Behind (done done' : Program) : Prop where
  origin : done'.origin = done.origin
  words : done'.wordsSinceOrg ≤ done.wordsSinceOrg

section

variable {done done' : Program} {s s' : Statement}

/-- Behind `.org` both are at one origin again. -/
theorem Behind.org (hs : s.isOrg = true) (hs' : s'.isOrg = true)
    (hvalue : s'.value? = s.value?) : Behind (done ++ [s]) (done' ++ [s']) where
  origin := by
    rw [Program.origin_concat_org hs, Program.origin_concat_org hs', hvalue]
  words := by
    rw [Program.wordsSinceOrg_concat_org hs, Program.wordsSinceOrg_concat_org hs']

theorem Behind.both (h : Behind done done') (hs : s.isOrg = false) (hs' : s'.isOrg = false)
    (hle : s'.words.length ≤ s.words.length) : Behind (done ++ [s]) (done' ++ [s']) where
  origin := by
    rw [Program.origin_concat hs, Program.origin_concat hs', h.origin]
  words := by
    rw [Program.wordsSinceOrg_concat hs, Program.wordsSinceOrg_concat hs']
    exact Nat.add_le_add h.words hle

theorem Behind.alone (h : Behind done done') (hs : s.isOrg = false) :
    Behind (done ++ [s]) done' where
  origin := by
    rw [Program.origin_concat hs, h.origin]
  words := by
    rw [Program.wordsSinceOrg_concat hs]
    exact Nat.le_add_right_of_le h.words

end

/-- What has become of statement number `i`, the statement `t`, in the assembled program. -/
inductive Becomes (placed' : Program) (f : Nat → Nat) (i : Nat) (t : Statement) : Prop where
  | kept {t' : Statement} (hget : placed'[f i]? = some t') (hop : t'.op = t.op)
      (hoperands : t'.operands = t.operands) (hwords : t'.words.length = t.words.length)
      (hnext : f (i + 1) = f i + 1)
  | replaced {t' : Statement} (hget : placed'[f i]? = some t') (hpush : t.op = some (.pseudo .push))
      (hmov : t'.op = some (.pseudo .mov)) (htwo : t.words.length = 2)
      (hone : t'.words.length = 1) (hnext : f (i + 1) = f i + 1)
  | gone (hremovable : isRemovable t = true) (hnext : f (i + 1) = f i)

section

variable {b : Before} {p q placed placed' : Program} {memLen : Nat} {image image' : Image}
  {f : Nat → Nat} {i j : Nat} {t : Statement}

/-- The names in force are those that were in force before. -/
theorem Tracks.aliasesBefore (hf : Tracks b p q f) (hi : i ≤ p.length) :
    q.aliasesBefore (f i) = p.aliasesBefore i := by
  induction i with
  | zero =>
    rw [hf.zero]
    rfl
  | succ i ih =>
    have hs := List.getElem?_eq_getElem (show i < p.length by omega)
    have hbefore := ih (by omega)
    rw [Program.aliasesBefore_succ hs]
    cases hf.fate i _ hs with
    | kept hget hop hoperands _ hnext =>
      rw [hnext, Program.aliasesBefore_succ hget, hbefore]
      unfold Aliases.after
      rw [hop, hoperands]
    | replaced hget hpush hop _ hnext =>
      have hstays := op_ne_of_removable (isRemovable_of_push (by rw [hpush]; rfl)) .ralias
      rw [hnext, Program.aliasesBefore_succ hget, hbefore, Aliases.after_of_ne hstays,
        Aliases.after_of_ne (by rw [hop]; nofun)]
    | gone why hnext =>
      rw [hnext, hbefore, Aliases.after_of_ne (op_ne_of_removable why.isRemovable .ralias)]

/-- What two statements do is the same, so they write the same number of words. -/
theorem length_words_of_performs {t' : Statement} {effect : Effect} (h : t.Performs image effect)
    (h' : t'.Performs image' effect) : t'.words.length = t.words.length := by
  cases effect with
  | moveTo | define => rw [h.2, h'.2]
  | emit =>
    obtain ⟨_, hholds⟩ := h
    obtain ⟨_, hholds'⟩ := h'
    rw [hholds.length, hholds'.length]

/-- Statements that say the same, with the same names in force, write the same number of words. -/
theorem length_words_of_same {t' : Statement} {k : Nat}
    (h : p.assemble memLen = (placed, .ok image)) (h' : q.assemble memLen = (placed', .ok image'))
    (ht : placed[i]? = some t) (ht' : placed'[k]? = some t') (hop : t'.op = t.op)
    (hoperands : t'.operands = t.operands) (hlabels : t.labels ≠ [] → t'.labels ≠ [])
    (haliases : q.aliasesBefore k = p.aliasesBefore i) : t'.words.length = t.words.length := by
  obtain ⟨effect, heffect, hperforms⟩ := Program.assembled h ht
  obtain ⟨effect', heffect', hperforms'⟩ := Program.assembled h' ht'
  have horg : t.op = some (.directive .org) → t'.labels = [] := by
    intro horg
    cases Effect.ofMnemonic heffect' with
    | moveTo _ _ hnone _ _ => exact hnone
    | define hdefine _ _ _ => cases hdefine.symm.trans (hop.trans horg)
    | emit hnot _ => exact absurd (hop.trans horg) hnot
  have hmemLen : image'.memLen = image.memLen :=
    (Program.memLen_assemble h').trans (Program.memLen_assemble h).symm
  rw [hmemLen, haliases, Effect.ofStatement_congr hop hoperands horg hlabels heffect] at heffect'
  cases heffect'
  exact length_words_of_performs hperforms hperforms'

/-- A statement that is kept writes as many words as before, and the `mov` in the place of a `push`
    one word less. -/
theorem Tracks.becomes (hf : Tracks b p q f) (h : p.assemble memLen = (placed, .ok image))
    (h' : q.assemble memLen = (placed', .ok image')) (ht : placed[i]? = some t) :
    Becomes placed' f i t := by
  have hlength := (Program.sameCode_assemble h).length_eq
  have hlt : i < p.length := by
    rw [hlength]
    exact (List.getElem?_eq_some_iff.mp ht).1
  obtain ⟨t₁, ht₁, hsame⟩ := Program.getElem?_assemble h (List.getElem?_eq_getElem hlt)
  cases ht.symm.trans ht₁
  cases hf.fate i _ (List.getElem?_eq_getElem hlt) with
  | kept hget hop hoperands _ hnext =>
    obtain ⟨t', ht', hsame'⟩ := Program.getElem?_assemble h' hget
    have hop' : t'.op = t.op := hsame'.op.trans (hop.trans hsame.op.symm)
    have hoperands' : t'.operands = t.operands :=
      hsame'.operands.trans (hoperands.trans hsame.operands.symm)
    -- a label that was on it is on it still
    have hlabels : t.labels ≠ [] → t'.labels ≠ [] := by
      intro hne
      rw [hsame.labels] at hne
      obtain ⟨label, hlabel⟩ := List.exists_mem_of_ne_nil _ hne
      obtain ⟨s', hs', hmem⟩ := hf.labels i _ (List.getElem?_eq_getElem hlt) label hlabel
      cases hget.symm.trans hs'
      rw [hsame'.labels]
      exact List.ne_nil_of_mem hmem
    have hwords := length_words_of_same h h' ht ht' hop' hoperands' hlabels
      (hf.aliasesBefore hlt.le)
    exact .kept ht' hop' hoperands' hwords hnext
  | replaced hget hpush hop hoperands hnext =>
    obtain ⟨t', ht', hsame'⟩ := Program.getElem?_assemble h' hget
    rw [← pushOperands?_congr hsame.op hsame.operands] at hpush
    obtain ⟨hop₁, hargs₁⟩ := op_of_push hpush
    obtain ⟨_, _, _, -, -, hcode⟩ := Program.codes_push h ht hop₁ hargs₁
    obtain ⟨_, _, _, -, -, hcode'⟩ := Program.codes_mov h' ht' (hsame'.op.trans hop)
      (hsame'.operands.trans hoperands)
    exact .replaced ht' hop₁ (hsame'.op.trans hop) (by rw [hcode.words]; rfl)
      (by rw [hcode'.words]; rfl) hnext
  | gone why hnext =>
    refine .gone ?_ hnext
    rw [isRemovable_congr hsame.op hsame.operands]
    exact why.isRemovable

/-- What one statement does to the words behind which the next one stands. -/
theorem Becomes.behind (h : Becomes placed' f i t) (ht : placed[i]? = some t)
    (hb : Behind (placed.take i) (placed'.take (f i))) :
    Behind (placed.take (i + 1)) (placed'.take (f (i + 1))) := by
  have hstep {ss : Program} {k : Nat} {s : Statement} (hs : ss[k]? = some s) :
      ss.take (k + 1) = ss.take k ++ [s] := by
    rw [List.take_add_one, hs, Option.toList_some]
  rw [hstep ht]
  cases h with
  | @kept t' hget hop hoperands hwords hnext =>
    rw [hnext, hstep hget]
    by_cases horg : t.op = some (.directive .org)
    · have hvalue : t'.value? = t.value? := by
        unfold Statement.value?
        rw [hoperands]
      exact Behind.org (Statement.isOrg_iff.mpr horg) (Statement.isOrg_iff.mpr (hop.trans horg))
        hvalue
    · exact hb.both (Statement.isOrg_eq_false horg) (Statement.isOrg_eq_false (by rwa [hop]))
        hwords.le
  | replaced hget hpush hmov htwo hone hnext =>
    rw [hnext, hstep hget]
    exact hb.both (Statement.isOrg_eq_false (by rw [hpush]; nofun))
      (Statement.isOrg_eq_false (by rw [hmov]; nofun)) (by omega)
  | gone hremovable hnext =>
    rw [hnext]
    exact hb.alone (Statement.isOrg_eq_false (op_ne_of_removable hremovable .org))

/-- **Words** are only taken out, and each `.org` is where it was. -/
theorem Tracks.behind (hf : Tracks b p q f) (h : p.assemble memLen = (placed, .ok image))
    (h' : q.assemble memLen = (placed', .ok image')) (hi : i ≤ placed.length) :
    Behind (placed.take i) (placed'.take (f i)) := by
  induction i with
  | zero =>
    rw [hf.zero]
    exact ⟨rfl, Nat.le_refl _⟩
  | succ i ih =>
    have ht := List.getElem?_eq_getElem (show i < placed.length by omega)
    exact (hf.becomes h h' ht).behind ht (ih (by omega))

/-- A statement has moved up by the words that were taken out before it. -/
theorem Tracks.cursor_add_takenOut (hf : Tracks b p q f)
    (h : p.assemble memLen = (placed, .ok image))
    (h' : q.assemble memLen = (placed', .ok image')) (hi : i ≤ placed.length) :
    Program.cursor (placed'.take (f i)) + takenOut placed placed' f i
      = Program.cursor (placed.take i) := by
  obtain ⟨horigin, hwords⟩ := hf.behind h h' hi
  unfold Program.cursor takenOut
  rw [horigin]
  omega

/-- The first word of a statement that has survived. -/
theorem Tracks.firstWord? (hf : Tracks b p q f) (h : p.assemble memLen = (placed, .ok image))
    (h' : q.assemble memLen = (placed', .ok image')) (hj : Survives f j) {address : Word}
    (ha : placed.firstWord? j = some address) :
    ∃ address', placed'.firstWord? (f j) = some address' ∧
      address'.toNat + takenOut placed placed' f j = address.toNat := by
  obtain ⟨t, ht, hwords, -⟩ := Program.firstWord?_eq_some_iff.mp ha
  have hpos := List.length_pos_iff.mpr hwords
  have hget : ∃ t', placed'[f j]? = some t' ∧ t'.words ≠ [] := by
    cases hf.becomes h h' ht with
    | kept hget _ _ hlength _ => exact ⟨_, hget, List.length_pos_iff.mp (by omega)⟩
    | replaced hget _ _ _ hone _ => exact ⟨_, hget, List.length_pos_iff.mp (by omega)⟩
    | gone _ hnext => exact absurd hnext hj.ne
  obtain ⟨t', ht', hwords'⟩ := hget
  obtain ⟨-, haddress'⟩ := Program.cursor_of_words h' ht' hwords'
  have ha' := Program.firstWord?_eq_some_iff.mpr ⟨t', ht', hwords', haddress'⟩
  refine ⟨_, ha', ?_⟩
  rw [(Program.toNat_firstWord? h' ha').1, (Program.toNat_firstWord? h ha).1]
  exact hf.cursor_add_takenOut h h' (List.getElem?_eq_some_iff.mp ht).1.le

/-! ## Branches by number -/

/-- The statement is one word, and the image has it at the address of the statement. -/
structure IsWord (image : Image) (t : Statement) (word : Word) : Prop where
  words : t.words = [word]
  stands : ∃ start, t.address = some start ∧ image.get? start = some word

/-- A branch by number that has survived is the same word as before. -/
theorem Tracks.branchOffset? (hf : Tracks b p q f) (h : p.assemble memLen = (placed, .ok image))
    (h' : q.assemble memLen = (placed', .ok image')) (hi : Survives f i)
    (ht : placed[i]? = some t) {n : Int} (hn : t.branchOffset? = some n) :
    ∃ t' word, placed'[f i]? = some t' ∧ t'.branchOffset? = some n ∧ IsWord image t word ∧
      IsWord image' t' word := by
  obtain ⟨start, cond, rd, target, r, imm, hb, hr, himm, hcode, hword⟩ :=
    Program.codes_branch_number h ht hn
  cases hf.becomes h h' ht with
  | @kept t' hget hop hoperands _ _ =>
    have hn' : t'.branchOffset? = some n := (Statement.branchOffset?_congr hop hoperands).trans hn
    obtain ⟨start', cond', rd', target', r', imm', hb₁, hr', himm', hcode', hword'⟩ :=
      Program.codes_branch_number h' hget hn'
    -- it is read as before, with the names in force before
    cases hb.symm.trans ((Statement.branch?_congr hop hoperands).symm.trans hb₁)
    have hlt := (List.getElem?_eq_some_iff.mp ht).1
    rw [hf.aliasesBefore (by rw [(Program.sameCode_assemble h).length_eq]; exact hlt.le)] at hr'
    cases hr.symm.trans hr'
    cases BitVec.toInt_inj.mp (himm.trans himm'.symm)
    exact ⟨t', _, hget, hn', ⟨hcode.words, start, hcode.address, hword⟩,
      ⟨hcode'.words, start', hcode'.address, hword'⟩⟩
  | replaced _ hpush _ _ _ _ =>
    unfold Statement.branch? at hb
    rw [hpush] at hb
    cases hb
  | gone _ hnext => exact absurd hnext hi.ne

end

/-- **Literal branches.**  A branch by number that survives is the same word in the optimized
    image, wherever it goes.  Let it go, if it is taken, to the first word of a statement that
    survives as well, perhaps as a `mov`.  In the optimized image it goes to the first word of that
    same statement if as many words were taken out before the branch as before the statement, each
    counted since the last `.org`; and only then, if the length of memory divides `2 ^ 16`, as that
    of the largest memory does. -/
theorem optimize_literal_branches (annotate : Bool) {p placed placed' : Program} {memLen : Nat}
    {image image' : Image} (h : p.assemble memLen = (placed, .ok image))
    (h' : (optimize annotate p).1.assemble memLen = (placed', .ok image')) :
    (∃ f, Tracks .anything p (optimize annotate p).1 f) ∧
    ∀ f, Tracks .anything p (optimize annotate p).1 f →
      (∀ i t, Survives f i → placed[i]? = some t → t.branchOffset?.isSome →
        ∃ t' word, placed'[f i]? = some t' ∧ t'.branchOffset? = t.branchOffset? ∧
          IsWord image t word ∧ IsWord image' t' word) ∧
      ∀ i j, Survives f i → Survives f j → placed.BranchesTo image i j →
        (takenOut placed placed' f i = takenOut placed placed' f j →
          placed'.BranchesTo image' (f i) (f j)) ∧
        (image.memLen ∣ 65536 → placed'.BranchesTo image' (f i) (f j) →
          takenOut placed placed' f i = takenOut placed placed' f j) := by
  refine ⟨optimize_tracks annotate p, fun f hf => ⟨?_, ?_⟩⟩
  · intro i t hi ht hnumber
    obtain ⟨n, hn⟩ := Option.isSome_iff_exists.mp hnumber
    rw [hn]
    exact hf.branchOffset? h h' hi ht hn
  · intro i j hi hj hbranch
    obtain ⟨hnumber, address, target, haddress, htarget, -⟩ := id hbranch
    obtain ⟨t, ht, -, -⟩ := Program.firstWord?_eq_some_iff.mp haddress
    rw [ht, Option.bind_some] at hnumber
    obtain ⟨n, hn⟩ := Option.isSome_iff_exists.mp hnumber
    obtain ⟨t', _, ht', hn', -, -⟩ := hf.branchOffset? h h' hi ht hn
    -- both ends have moved up
    obtain ⟨address', haddress', hmoved⟩ := hf.firstWord? h h' hi haddress
    obtain ⟨target', htarget', hmoved'⟩ := hf.firstWord? h h' hj htarget
    have hsum : branchSum address' n = branchSum address n - takenOut placed placed' f i := by
      unfold branchSum
      omega
    have hmemLen : image'.memLen = image.memLen :=
      (Program.memLen_assemble h').trans (Program.memLen_assemble h).symm
    have hgoes := (Program.branchesTo_iff h ht hn haddress htarget).mp hbranch
    have hiff := Program.branchesTo_iff h' ht' hn' haddress' htarget'
    rw [hsum, hmemLen, show target'.toNat = target.toNat - takenOut placed placed' f j by omega]
      at hiff
    have hin := Program.toNat_firstWord? h haddress
    have hin' := Program.toNat_firstWord? h htarget
    obtain ⟨hsame, honly⟩ := emod_emod_sub (d := takenOut placed placed' f i)
      (e := takenOut placed placed' f j) image.memLen_le (by omega) (by omega) (by omega) hgoes
    exact ⟨fun heq => hiff.mpr (hsame heq), fun hdvd hgoes' => honly hdvd (hiff.mp hgoes')⟩

/-! ## A branch that misses -/

section

variable {b : Before} {p q : Program} {f : Nat → Nat} {i : Nat} {s : Statement}

theorem Tracks.survives (hf : Tracks b p q f) (hs : p[i]? = some s)
    (hstays : isRemovable s = false) : Survives f i := by
  cases hf.fate i s hs with
  | kept _ _ _ _ hnext => exact hnext
  | replaced _ hpush _ _ hnext => exact hnext
  | gone why _ =>
    rw [why.isRemovable] at hstays
    cases hstays

theorem Tracks.goes (hf : Tracks b p q f) (hs : p[i]? = some s)
    (hne : ∀ s', q[f i]? = some s' → s'.op ≠ s.op ∧ s'.op ≠ some (.pseudo .mov)) :
    f (i + 1) = f i := by
  cases hf.fate i s hs with
  | kept hget hop _ _ _ => exact absurd hop (hne _ hget).1
  | replaced hget _ hop _ _ => exact absurd hop (hne _ hget).2
  | gone _ hnext => exact hnext

end

/-- A branch over a `push` and a `pop` that go together, and a branch behind them, both to the
    end. -/
def leap : Program :=
  [{ op := some (.real (.branch .eq)), operands := ["r1", "5"] },
   { op := some (.pseudo .push), operands := ["r7", "r1"] },
   { op := some (.pseudo .pop), operands := ["r7", "r1"] },
   { op := some (.real (.branch .eq)), operands := ["r1", "0"] },
   { op := some (.pseudo .halt) }]

/-- The image of `leap`. -/
def leapImage : Image :=
  { Image.empty maxMemory with
    words := (((((((∅ : Std.ExtTreeMap Word Word).insert 0 0x9205).insert 1 0x63C0).insert 2
      0x3FFF).insert 3 0x3FC1).insert 4 0x53C0).insert 5 0x9200).insert 6 0xF000 }

/-- The optimized program. -/
def shortLeap : Program :=
  [{ op := some (.real (.branch .eq)), operands := ["r1", "5"] },
   { op := some (.real (.branch .eq)), operands := ["r1", "0"] },
   { op := some (.pseudo .halt) }]

/-- The image of `shortLeap`. -/
def shortLeapImage : Image :=
  { Image.empty maxMemory with
    words := (((∅ : Std.ExtTreeMap Word Word).insert 0 0x9205).insert 1 0x9200).insert 2 0xF000 }

theorem optimize_leap : (optimize false leap).1 = shortLeap := by
  have hsweep : sweep false leap = (shortLeap, 1) := by
    rw [sweep, leap, sweepFrom_of_none (by decide +kernel),
      sweepFrom_of_some (p := ⟨[{ op := some (.real (.branch .eq)), operands := ["r1", "5"] }],
        [{ op := some (.real (.branch .eq)), operands := ["r1", "0"] },
         { op := some (.pseudo .halt) }]⟩) (by decide +kernel)]
    exact sweepFrom_of_normal (by decide +kernel)
  rw [optimize_of_reduced hsweep, optimize_of_normal (by decide +kernel)]

theorem assemble_leap :
    leap.assemble maxMemory = ((leap.assemble maxMemory).1, .ok leapImage) :=
  Prod.ext rfl (by decide +kernel)

theorem assemble_optimize_leap :
    (optimize false leap).1.assemble maxMemory
      = ((shortLeap.assemble maxMemory).1, .ok shortLeapImage) := by
  rw [optimize_leap]
  exact Prod.ext rfl (by decide +kernel)

/-- The two branches and the end stay, in this order. -/
theorem tracks_leap {b : Before} {f : Nat → Nat} (hf : Tracks b leap shortLeap f) :
    f 0 = 0 ∧ f 3 = 1 ∧ f 4 = 2 ∧ f 5 = 3 := by
  have h₁ : f 1 = f 0 + 1 := hf.survives rfl (by decide +kernel)
  rw [hf.zero, Nat.zero_add] at h₁
  have h₂ : f 2 = f 1 := hf.goes rfl (by
    rw [h₁]
    rintro _ ⟨⟩
    decide)
  have h₃ : f 3 = f 2 := hf.goes rfl (by
    rw [h₂, h₁]
    rintro _ ⟨⟩
    decide)
  have h₄ : f 4 = f 3 + 1 := hf.survives rfl (by decide +kernel)
  have h₅ : f 5 = f 4 + 1 := hf.survives rfl (by decide +kernel)
  exact ⟨hf.zero, by omega, by omega, by omega⟩

/-- The first branch is the same word as before.  The second one has moved up by four words, and so
    has the end. -/
theorem optimize_literal_branches_leap :
    (leap.assemble maxMemory).2 = .ok leapImage ∧
    ((optimize false leap).1.assemble maxMemory).2 = .ok shortLeapImage ∧
    ∃ f, Tracks .anything leap (optimize false leap).1 f ∧ Survives f 0 ∧ Survives f 3 ∧
      Survives f 4 ∧
      (∃ t t' word, (leap.assemble maxMemory).1[0]? = some t ∧
        (shortLeap.assemble maxMemory).1[f 0]? = some t' ∧ IsWord leapImage t word ∧
        IsWord shortLeapImage t' word) ∧
      (leap.assemble maxMemory).1.BranchesTo leapImage 3 4 ∧
      (shortLeap.assemble maxMemory).1.BranchesTo shortLeapImage (f 3) (f 4) := by
  obtain ⟨⟨f, hf⟩, hall⟩ :=
    optimize_literal_branches false assemble_leap assemble_optimize_leap
  have hleap : Tracks .anything leap shortLeap f := optimize_leap ▸ hf
  obtain ⟨-, h₃, h₄, h₅⟩ := tracks_leap hleap
  have hfirst : Survives f 0 := hleap.survives rfl (by decide +kernel)
  have hi : Survives f 3 := by
    unfold Survives
    rw [h₄, h₃]
  have hj : Survives f 4 := by
    unfold Survives
    rw [h₅, h₄]
  have hbranch : (leap.assemble maxMemory).1.BranchesTo leapImage 3 4 :=
    ⟨by decide +kernel, 5, 6, by decide +kernel, by decide +kernel, by decide +kernel⟩
  obtain ⟨hsame, hmoves⟩ := hall f hf
  have ht := List.getElem?_eq_getElem
    (show 0 < (leap.assemble maxMemory).1.length from by decide +kernel)
  obtain ⟨t', word, ht', -, hword, hword'⟩ := hsame 0 _ hfirst ht (by decide +kernel)
  obtain ⟨hgoes, -⟩ := hmoves 3 4 hi hj hbranch
  refine ⟨congrArg Prod.snd assemble_leap, congrArg Prod.snd assemble_optimize_leap, f, hf, hfirst,
    hi, hj, ⟨_, t', word, ht, ht', hword, hword'⟩, hbranch, hgoes ?_⟩
  unfold takenOut
  rw [h₃, h₄]
  decide +kernel

/-- **Literal branches miss.**  The first branch went to the end.  It stays, and so does the end,
    but the four words between them that have gone are still counted, and the branch goes past the
    end. -/
theorem branch_misses_leap :
    leap.assemble maxMemory = ((leap.assemble maxMemory).1, .ok leapImage) ∧
    (optimize false leap).1.assemble maxMemory
      = ((shortLeap.assemble maxMemory).1, .ok shortLeapImage) ∧
    (∃ f, Tracks .anything leap (optimize false leap).1 f) ∧
    ∀ f, Tracks .anything leap (optimize false leap).1 f →
      Survives f 0 ∧ Survives f 4 ∧ (leap.assemble maxMemory).1.BranchesTo leapImage 0 4 ∧
      ¬ (shortLeap.assemble maxMemory).1.BranchesTo shortLeapImage (f 0) (f 4) := by
  refine ⟨assemble_leap, assemble_optimize_leap, optimize_tracks false leap, fun f hf => ?_⟩
  rw [optimize_leap] at hf
  obtain ⟨h₀, -, h₄, h₅⟩ := tracks_leap hf
  refine ⟨hf.survives rfl (by decide +kernel), ?_,
    ⟨by decide +kernel, 0, 6, by decide +kernel, by decide +kernel, by decide +kernel⟩, ?_⟩
  · unfold Survives
    rw [h₅, h₄]
  · rw [h₀, h₄]
    rintro ⟨-, address, target, haddress, htarget, hgoes⟩
    have h₁ : (shortLeap.assemble maxMemory).1.firstWord? 0 = some 0 := by decide +kernel
    have h₂ : (shortLeap.assemble maxMemory).1.firstWord? 2 = some 2 := by decide +kernel
    have h₃ : shortLeapImage.takenTarget? 0 = some 6 := by decide +kernel
    cases haddress.symm.trans h₁
    cases hgoes.symm.trans h₃
    cases htarget.symm.trans h₂

end Peephole

end AnnaToolchain
