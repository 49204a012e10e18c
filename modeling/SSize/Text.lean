import Mathlib.Data.List.Basic

/-!
# Byte strings

`std::string` is a sequence of bytes with no encoding attached, and sqlite
compares `TEXT` columns byte by byte, so both are lists of bytes here.
-/

namespace SSize

/-- A `std::string` or a `std::string_view`. -/
abbrev Text := List UInt8

instance : LawfulBEq Text := inferInstance

/-- The bytes of a literal of the sources, which are UTF-8. -/
def bytes (s : String) : Text := s.toUTF8.data.toList

end SSize
