import AnnaToolchain.Proofs.Peephole.Lineage

/-! # Where statements go

    Seen by position, a lineage is a map: statement number `i` of a program
    is statement number `f i` of what comes from it, or, if it has gone, the
    statement that then stood at its place is (`Tracks`).  The labels of a
    statement are on that statement. -/

namespace AnnaToolchain.Peephole

/-- What became of statement number `i`, the statement `s`, on the way from `p` to `p'`. -/
inductive Fate (b : Before) (p p' : Program) (f : Nat → Nat) (i : Nat) (s : Statement) : Prop where
  | kept {s' : Statement} (hget : p'[f i]? = some s') (hop : s'.op = s.op)
      (hoperands : s'.operands = s.operands) (hcomment : s'.comment = s.comment)
      (hnext : f (i + 1) = f i + 1)
  | replaced {s' : Statement} {sp value value' : String} (hget : p'[f i]? = some s')
      (hpush : pushOperands? s = some (sp, value)) (hop : s'.op = some (.pseudo .mov))
      (hoperands : s'.operands = [value', value]) (hnext : f (i + 1) = f i + 1)
  | gone (why : Gone (b.past (p.take i)) s (p'.drop (f i))) (hnext : f (i + 1) = f i)

/-- The map of positions from `p` to `p'`. -/
structure Tracks (b : Before) (p p' : Program) (f : Nat → Nat) : Prop where
  zero : f 0 = 0
  fate : ∀ i s, p[i]? = some s → Fate b p p' f i s
  labels : ∀ i s, p[i]? = some s → ∀ label ∈ s.labels,
    ∃ s', p'[f i]? = some s' ∧ label ∈ s'.labels
  /-- What comes from no statement only holds labels. -/
  loose : ∀ j s', f p.length ≤ j → p'[j]? = some s' → s'.op = none

variable {b b' : Before} {s : Statement} {p p' ss ss' : Program} {f : Nat → Nat} {i : Nat}

/-! ## From lineages to maps -/

/-- Positions one further on, behind `k` new statements. -/
def shift (k : Nat) (f : Nat → Nat) : Nat → Nat
  | 0 => 0
  | i + 1 => f i + k

/-- What is known of the statements before matters for the first statement only. -/
theorem Before.past_ne_anything (hb : b ≠ .anything → b' ≠ .anything) (ss : List Statement)
    (h : b.past ss ≠ .anything) : b'.past ss ≠ .anything := by
  cases ss with
  | nil => exact hb h
  | cons s ss => exact h

theorem Tracks.mono (h : Tracks b p p' f) (hb : b ≠ .anything → b' ≠ .anything) :
    Tracks b' p p' f := by
  refine ⟨h.zero, fun i s hs => ?_, h.labels, h.loose⟩
  cases h.fate i s hs with
  | kept hget hop hoperands hcomment hnext => exact .kept hget hop hoperands hcomment hnext
  | replaced hget hpush hop hoperands hnext => exact .replaced hget hpush hop hoperands hnext
  | gone why hnext =>
    exact .gone (why.congr rfl rfl id (fun label next hnext hmem => ⟨next, hnext, hmem⟩)
      (Before.past_ne_anything hb _)) hnext

theorem Fate.behind {first : Statement} (h : Fate (.after first) ss ss' f i s)
    (front : List Statement) :
    Fate b (first :: ss) (front ++ ss') (shift front.length f) (i + 1) s := by
  have hget : (front ++ ss')[f i + front.length]? = ss'[f i]? := by
    rw [List.getElem?_append_right (Nat.le_add_left _ _), Nat.add_sub_cancel]
  have hdrop : (front ++ ss').drop (f i + front.length) = ss'.drop (f i) := by
    rw [Nat.add_comm, ← List.drop_drop, List.drop_left]
  have hsucc {k : Nat} (hnext : f (i + 1) = f i + k) :
      shift front.length f (i + 1 + 1) = shift front.length f (i + 1) + k := by
    show f (i + 1) + front.length = f i + front.length + k
    omega
  cases h with
  | kept hget' hop hoperands hcomment hnext =>
    exact .kept (hget.trans hget') hop hoperands hcomment (hsucc hnext)
  | replaced hget' hpush hop hoperands hnext =>
    exact .replaced (hget.trans hget') hpush hop hoperands (hsucc hnext)
  | gone why hnext => exact .gone (hdrop ▸ why) (hsucc (k := 0) hnext)

theorem Tracks.cons (h : Tracks (.after s) ss ss' f) (front : List Statement)
    (hfate : Fate b (s :: ss) (front ++ ss') (shift front.length f) 0 s)
    (hlabels : ∀ label ∈ s.labels, ∃ s', (front ++ ss')[0]? = some s' ∧ label ∈ s'.labels) :
    Tracks b (s :: ss) (front ++ ss') (shift front.length f) := by
  have hget (j : Nat) : (front ++ ss')[j + front.length]? = ss'[j]? := by
    rw [List.getElem?_append_right (Nat.le_add_left _ _), Nat.add_sub_cancel]
  refine ⟨rfl, ?_, ?_, ?_⟩
  · intro i s₁ hs₁
    cases i with
    | zero =>
      cases hs₁
      exact hfate
    | succ i => exact (h.fate i s₁ hs₁).behind front
  · intro i s₁ hs₁ label hlabel
    cases i with
    | zero =>
      cases hs₁
      exact hlabels label hlabel
    | succ i =>
      obtain ⟨s', hs', hmem⟩ := h.labels i s₁ hs₁ label hlabel
      exact ⟨s', (hget (f i)).trans hs', hmem⟩
  · intro j s' hj hs'
    have hle : f ss.length + front.length ≤ j := hj
    obtain ⟨k, rfl⟩ : ∃ k, j = k + front.length := ⟨j - front.length, by omega⟩
    exact h.loose k s' (by omega) ((hget k).symm.trans hs')

/-- A lineage maps positions. -/
theorem Lineage.tracks {carried : List String} (h : Lineage b carried p p') :
    ∃ f, Tracks b p p' f := by
  have hnone {i : Nat} {s : Statement} {P : Prop} (hs : ([] : Program)[i]? = some s) : P := by
    rw [List.getElem?_nil] at hs
    cases hs
  induction h with
  | nil =>
    exact ⟨id, rfl, fun _ _ hs => hnone hs, fun _ _ hs => hnone hs, fun _ _ _ hs => hnone hs⟩
  | loose _ hop _ _ ih =>
    obtain ⟨f, hf⟩ := ih
    refine ⟨fun _ => 0, rfl, fun _ _ hs => hnone hs, fun _ _ hs => hnone hs,
      fun j s' _ hs' => ?_⟩
    cases j with
    | zero =>
      cases hs'
      exact hop
    | succ j => exact hf.loose j s' (by rw [List.length_nil, hf.zero]; omega) hs'
  | @kept b carried s s' ss ss' _ hop hoperands hlabels hcomment _ ih =>
    obtain ⟨f, hf⟩ := ih
    refine ⟨_, hf.cons [s'] (.kept rfl hop hoperands hcomment ?_) fun label hlabel => ?_⟩
    · show f 0 + 1 = 0 + 1
      rw [hf.zero]
    · exact ⟨s', rfl, by rw [hlabels]; exact List.mem_append_right _ hlabel⟩
  | @replaced b carried s s' ss ss' sp value value' _ hpush hop hoperands hlabels _ ih =>
    obtain ⟨f, hf⟩ := ih
    have hafter : Before.after s = .removable :=
      Before.after_of_removable (isRemovable_of_push (by rw [hpush]; rfl))
    have hf' : Tracks (.after s) ss ss' f := hf.mono fun _ => by rw [hafter]; nofun
    refine ⟨_, hf'.cons [s'] (.replaced rfl hpush hop hoperands ?_) fun label hlabel => ?_⟩
    · show f 0 + 1 = 0 + 1
      rw [hf.zero]
    · exact ⟨s', rfl, by rw [hlabels]; exact List.mem_append_right _ hlabel⟩
  | @gone b carried s ss ss' why _ rest ih =>
    obtain ⟨f, hf⟩ := ih
    have hafter : Before.after s = .removable := Before.after_of_removable why.isRemovable
    have hf' : Tracks (.after s) ss ss' f := hf.mono fun _ => by rw [hafter]; nofun
    refine ⟨_, hf'.cons [] (.gone why hf.zero) fun label hlabel => ?_⟩
    obtain ⟨s', hs', hmem⟩ := rest.head_labels (.inl (List.mem_append_right _ hlabel))
    exact ⟨s', by rw [← List.head?_eq_getElem?]; exact hs', hmem⟩
  | @reloaded s ss ss' sp value' hpop hlabels _ ih =>
    obtain ⟨f, hf⟩ := ih
    have hafter : Before.after s = .removable :=
      Before.after_of_removable (isRemovable_of_pop (by rw [hpop]; rfl))
    have hf' : Tracks (.after s) ss ss' f := hf.mono fun _ => by rw [hafter]; nofun
    refine ⟨_, hf'.cons [] (.gone (.stack ?_) hf.zero) fun label hlabel => ?_⟩
    · rw [hpop, Option.isSome_some, Bool.or_true]
    · rw [hlabels] at hlabel
      cases hlabel

/-- **Positions.**  Optimizing maps the positions of statements. -/
theorem optimize_tracks (annotate : Bool) (p : Program) :
    ∃ f, Tracks .anything p (optimize annotate p).1 f :=
  (optimize_lineage annotate p).tracks

end AnnaToolchain.Peephole
