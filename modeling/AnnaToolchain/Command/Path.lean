/-! # Paths

    The part of a file's name after its last dot is the extension, unless
    the dot is the first character of the name. -/

namespace AnnaToolchain.Path

/-- A path up to the last dot of its file name, and the extension after that. -/
def split? (path : List Char) : Option (List Char × List Char) :=
  let backwards := path.reverse
  let extension := backwards.takeWhile fun c => c ≠ '.' ∧ c ≠ '/'
  match backwards.drop extension.length with
  | '.' :: c :: stem => if c = '/' then none else some ((c :: stem).reverse, extension.reverse)
  | _ => none

/-- The extension of a path. -/
def extension? (path : String) : Option String :=
  (split? path.toList).map fun parts => String.ofList parts.2

/-- A path with another extension, or with one if it had none. -/
def withExtension (path extension : String) : String :=
  match split? path.toList with
  | some parts => String.ofList parts.1 ++ "." ++ extension
  | none => path ++ "." ++ extension

end AnnaToolchain.Path
