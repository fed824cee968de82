import AnnaToolchain.Assembly

/-! # What a program is assembled from

    Labels, mnemonics and operands are all that is read of a program when it
    is assembled.  Two programs that have these in common become one image,
    or fail for one reason (`Program.assemble_of_body`); only the line and the
    text that an error shows may differ. -/

namespace AnnaToolchain

/-- What a statement is assembled from: its labels, its mnemonic and its operands. -/
def Statement.body (s : Statement) : List String × Option Mnemonic × List String :=
  (s.labels, s.op, s.operands)

theorem Effect.ofStatement_of_body {s s' : Statement} (h : s.body = s'.body) (memLen : Nat)
    (aliases : Aliases) : ofStatement memLen aliases s = ofStatement memLen aliases s' := by
  obtain ⟨labels, op, operands, _, _, _, _, _, _⟩ := s
  obtain ⟨labels', op', operands', _, _, _, _, _, _⟩ := s'
  obtain ⟨rfl, hrest⟩ := Prod.mk.inj h
  obtain ⟨rfl, rfl⟩ := Prod.mk.inj hrest
  rfl

/-- An outcome, with only the reason of a failure. -/
def Program.causeOf {α : Type} (outcome : Except AssemblyError α) : Except AssemblyCause α :=
  outcome.mapError AssemblyError.cause

namespace Layout

theorem apply_of_body {s s' : Statement} (h : s.body = s'.body) (l : Layout) (number : Nat)
    (effect : Effect) : (l.apply number s effect).2 = (l.apply number s' effect).2 := by
  have hlabels : s.labels = s'.labels := congrArg Prod.fst h
  cases effect with
  | moveTo address => rfl
  | define value => exact congrArg (l.defineLabels · value) hlabels
  | emit emissions aliases =>
    unfold apply
    rw [hlabels]
    cases l.defineLabels s'.labels l.labelAddress with
    | error cause => rfl
    | ok l' => rfl

theorem place_of_body {s s' : Statement} (h : s.body = s'.body) (l : Layout) (number : Nat) :
    (l.place number s).2 = (l.place number s').2 := by
  unfold place
  rw [Effect.ofStatement_of_body h]
  cases Effect.ofStatement l.image.memLen l.aliases s' with
  | error cause => rfl
  | ok effect => exact apply_of_body h l number effect

theorem placeFrom_of_body {p q : List Statement} (h : p.map Statement.body = q.map Statement.body)
    {done done' : List Statement} (hdone : done.length = done'.length) (l : Layout) :
    Program.causeOf (l.placeFrom done p).2 = Program.causeOf (l.placeFrom done' q).2 := by
  induction p generalizing q done done' l with
  | nil =>
    obtain rfl := List.map_eq_nil_iff.mp h.symm
    rfl
  | cons s p ih =>
    obtain ⟨s', q, rfl, hs, hrest⟩ := List.map_eq_cons_iff.mp h.symm
    have hplace := place_of_body hs.symm l done.length
    unfold placeFrom
    rw [← hdone]
    rcases hfirst : l.place done.length s with ⟨placed, outcome⟩
    rcases hfirst' : l.place done.length s' with ⟨placed', outcome'⟩
    rw [hfirst, hfirst'] at hplace
    obtain rfl : outcome = outcome' := hplace
    cases outcome with
    | error cause => rfl
    | ok l' =>
      refine ih hrest.symm ?_ l'
      rw [List.length_cons, List.length_cons, hdone]

end Layout

namespace Relocation

/-- The program that is patched plays no part in what becomes of the image. -/
theorem resolveAll_congr (p q : Program) (image : Image) (waiting : List (Word × Relocation)) :
    Program.causeOf (resolveAll p image waiting).2
      = Program.causeOf (resolveAll q image waiting).2 := by
  induction waiting generalizing p q image with
  | nil => rfl
  | cons first waiting ih =>
    obtain ⟨address, r⟩ := first
    unfold resolveAll
    cases resolve image address r.label with
    | error cause => rfl
    | ok word => exact ih _ _ _

end Relocation

/-- **Programs with the same labels, mnemonics and operands** are assembled alike. -/
theorem Program.assemble_of_body {p q : Program} (h : p.map Statement.body = q.map Statement.body)
    (memLen : Nat) : causeOf (p.assemble memLen).2 = causeOf (q.assemble memLen).2 := by
  have hlayout : causeOf (p.layout memLen).2 = causeOf (q.layout memLen).2 :=
    Layout.placeFrom_of_body h rfl (.start memLen)
  unfold assemble
  rcases hp : p.layout memLen with ⟨placed, outcome⟩
  rcases hq : q.layout memLen with ⟨placed', outcome'⟩
  rw [hp, hq] at hlayout
  cases outcome with
  | error e =>
    cases outcome' with
    | error e' =>
      have hcause : e.cause = e'.cause := Except.error.inj hlayout
      exact congrArg Except.error hcause
    | ok l' => cases hlayout
  | ok l =>
    cases outcome' with
    | error e' => cases hlayout
    | ok l' =>
      obtain rfl : l = l' := Except.ok.inj hlayout
      exact Relocation.resolveAll_congr _ _ _ _

end AnnaToolchain
