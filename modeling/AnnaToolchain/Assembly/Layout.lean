import AnnaToolchain.Assembly.Emission
import AnnaToolchain.Image.Basic

/-! # Layout

    Statements are placed one after another from address `0` on, or from
    where `.org` moves to.  A label is given the address of its statement;
    after the last word of memory that address wraps to the front, though no
    word can be written there. -/

namespace AnnaToolchain

/-- Where a word stands in a program: the number of its statement, and its own number there. -/
structure Site where
  statement : Nat
  word : Nat
  deriving DecidableEq, Repr

/-- A word that waits for the address of a label. -/
structure Relocation where
  label : String
  site : Site

/-- A program as far as it has been placed. -/
structure Layout where
  image : Image
  /-- The address of the next word.  It may be one past the end of memory. -/
  cursor : Nat
  aliases : Aliases
  /-- The words that wait for a label, by address. -/
  relocations : Std.ExtTreeMap Word Relocation

namespace Layout

/-- Nothing placed, in a memory of `memLen` words or the nearest length there can be. -/
def start (memLen : Nat) : Layout where
  image := .empty memLen
  cursor := 0
  aliases := .initial
  relocations := ∅

/-- The address labels are given now. -/
def labelAddress (l : Layout) : Word :=
  BitVec.ofNat 16 (l.cursor % l.image.memLen)

/-- Gives a label a value. -/
def defineLabel (value : Word) (l : Layout) (label : String) : Except AssemblyCause Layout :=
  match l.image.symbols.define? label value with
  | some symbols => .ok { l with image := { l.image with symbols := symbols } }
  | none => .error (.duplicateLabel label)

/-- Gives labels a value. -/
def defineLabels (l : Layout) (labels : List String) (value : Word) :
    Except AssemblyCause Layout :=
  labels.foldlM (defineLabel value) l

/-- Writes the word that stands at `site` in the program. -/
def write (l : Layout) (site : Site) (e : Emission) : Except AssemblyCause Layout :=
  if l.cursor < l.image.memLen then
    let address : Word := BitVec.ofNat 16 l.cursor
    match l.image.write? address e.word with
    | some image =>
      .ok { l with
        image := image
        cursor := l.cursor + 1
        relocations := match e.label with
          | some label => l.relocations.insert address ⟨label, site⟩
          | none => l.relocations }
    | none => .error (.overlap address)
  else .error (.outOfMemory l.cursor)

/-- Writes words of statement number `number`.  Returns the words that were written, `done`
    included, and the first failure if there is one. -/
def writeAll (number : Nat) (l : Layout) (done : List Word) :
    List Emission → List Word × Except AssemblyCause Layout
  | [] => (done.reverse, .ok l)
  | e :: rest =>
    match l.write ⟨number, done.length⟩ e with
    | .ok l => writeAll number l (e.word :: done) rest
    | .error cause => (done.reverse, .error cause)

/-- A statement as it is before it is placed. -/
def unplaced (s : Statement) : Statement :=
  { s with address := none, words := [] }

/-- Applies what statement number `number` does.  The statement returned knows its place as far as
    it has been found. -/
def apply (l : Layout) (number : Nat) (s : Statement) :
    Effect → Statement × Except AssemblyCause Layout
  | .moveTo address => (unplaced s, .ok { l with cursor := address.toNat })
  | .define value => (unplaced s, l.defineLabels s.labels value)
  | .emit emissions aliases =>
    match l.defineLabels s.labels l.labelAddress with
    | .error cause => (unplaced s, .error cause)
    | .ok l' =>
      let written := writeAll number { l' with aliases := aliases } [] emissions
      ({ s with address := some l.labelAddress, words := written.1 }, written.2)

/-- Places statement number `number`. -/
def place (l : Layout) (number : Nat) (s : Statement) : Statement × Except AssemblyCause Layout :=
  match Effect.ofStatement l.image.memLen l.aliases s with
  | .ok effect => l.apply number s effect
  | .error cause => (unplaced s, .error cause)

/-- Places the statements of a program, `done` being those already placed, last first.  After a
    failure the statements that follow are left as they are. -/
def placeFrom (l : Layout) (done : List Statement) :
    List Statement → Program × Except AssemblyError Layout
  | [] => (done.reverse, .ok l)
  | s :: rest =>
    match l.place done.length s with
    | (s', .ok l) => placeFrom l (s' :: done) rest
    | (s', .error cause) => ((s' :: done).reverse ++ rest, .error (.on s cause))

end Layout

/-- Places all statements of a program. -/
def Program.layout (p : Program) (memLen : Nat) : Program × Except AssemblyError Layout :=
  (Layout.start memLen).placeFrom [] p

end AnnaToolchain
