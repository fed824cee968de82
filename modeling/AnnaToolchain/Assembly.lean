import AnnaToolchain.Assembly.Relocation

/-! # Assembly

    A program is placed and then patched.  Its statements come back with
    their addresses and words, also when assembly fails: then as far as it
    came. -/

namespace AnnaToolchain

/-- Assembles a program for a memory of `memLen` words, or the nearest length there can be. -/
def Program.assemble (p : Program) (memLen : Nat) : Program × Except AssemblyError Image :=
  match p.layout memLen with
  | (placed, .error e) => (placed, .error e)
  | (placed, .ok layout) =>
    Relocation.resolveAll placed layout.image layout.relocations.toList

end AnnaToolchain
