import AnnaToolchain.Assembly.Layout

/-! # Relocation

    Once every label has its address, the words that wait for one are
    patched, in the order of their own addresses.  A branch is given the
    distance from the word after it to the label, the shorter way round
    memory; `lli` and `lui` the low and the high byte of the label.  A
    patched word goes into the image and into the statement it stands in. -/

namespace AnnaToolchain.Relocation

/-- The distance from the word after `address` to `target`, round a memory of `memLen` words. -/
def distance (memLen : Nat) (address target : Word) : Int :=
  let straight : Int := target.toNat - (address.toNat + 1)
  let half : Int := (memLen / 2 : Nat)
  if straight ≥ half then straight - memLen
  else if straight < -half then straight + memLen
  else straight

/-- The word `word` at `address` with the value of a label put in. -/
def patch (memLen : Nat) (address word target : Word) (label : String) :
    Except AssemblyCause Word :=
  match Opcode.ofWord? word with
  | some (.branch _) =>
    match Immediate.signed? 8 (distance memLen address target) with
    | .ok imm => .ok (word.withLowByte imm)
    | .error _ => .error (.branchTooFar label (distance memLen address target))
  | some .lli => .ok (word.withLowByte target.lowByte)
  | some .lui => .ok (word.withLowByte target.highByte)
  | _ => .error (.labelNotAllowed label)

/-- The patched word at an address of an image. -/
def resolve (image : Image) (address : Word) (label : String) : Except AssemblyCause Word :=
  match image.symbols.addressOf? label with
  | none => .error (.unresolvedLabel label)
  | some target => patch image.memLen address ((image.get? address).getD 0) target label

/-- Puts a word where it stands in a program. -/
def record (p : Program) (site : Site) (word : Word) : Program :=
  p.modify site.statement fun s => { s with words := s.words.set site.word word }

/-- Patches the waiting words in turn, in the image and in the program that was placed.  Returns
    the program as far as it has been patched, and the image or the first failure. -/
def resolveAll (p : Program) (image : Image) :
    List (Word × Relocation) → Program × Except AssemblyError Image
  | [] => (p, .ok image)
  | (address, r) :: rest =>
    match resolve image address r.label with
    | .ok word => resolveAll (record p r.site word) (image.set address word) rest
    | .error cause => (p, .error (.on (p[r.site.statement]?.getD {}) cause))

end AnnaToolchain.Relocation
