import AnnaToolchain.Word
import Std.Data.ExtTreeMap

/-! # Symbol tables

    A symbol table gives labels their addresses, or the values of `.def`.
    Labels are told apart by case, and are ordered by their characters. -/

namespace AnnaToolchain

/-- The addresses of labels. -/
abbrev SymbolTable : Type := Std.ExtTreeMap String Word

namespace SymbolTable

/-- The address of a label. -/
def addressOf? (symbols : SymbolTable) (label : String) : Option Word :=
  symbols[label]?

/-- The first label, in label order, that has an address. -/
def labelAt? (symbols : SymbolTable) (address : Word) : Option String :=
  (symbols.toList.find? fun entry => entry.2 == address).map (·.1)

/-- Gives a label an address, unless it has one. -/
def define? (symbols : SymbolTable) (label : String) (address : Word) : Option SymbolTable :=
  if symbols.contains label then none else some (symbols.insert label address)

theorem addressOf?_define? {symbols symbols' : SymbolTable} {label : String} {address : Word}
    (h : symbols.define? label address = some symbols') (name : String) :
    symbols'.addressOf? name
      = if label = name then some address else symbols.addressOf? name := by
  unfold define? at h
  split at h
  · cases h
  · cases h
    simp [addressOf?, Std.ExtTreeMap.getElem?_insert]

end SymbolTable

end AnnaToolchain
