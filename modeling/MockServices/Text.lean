import Mathlib.Init

/-!
# Texts

A `char` of the path code is a `Char` here; nothing in that code depends
on its value beyond comparisons with ASCII characters and `toupper`.
-/

namespace MockServices

abbrev Text := List Char

/-- A string literal of the source. -/
def txt (literal : String) : Text := literal.toList

instance : Coe String Text := ⟨txt⟩

/-- What a function that is handed `text.c_str()` reads. -/
def cStr (text : Text) : Text := text.takeWhile (· ≠ '\x00')

end MockServices
