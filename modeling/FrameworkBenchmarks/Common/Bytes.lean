import Mathlib.Data.List.Basic

/-!
# Texts as bytes
-/

namespace FrameworkBenchmarks.Common

/-- The bytes of an ASCII text. -/
def ascii (s : String) : List UInt8 := s.toList.map fun c => UInt8.ofNat c.toNat

/-- The decimal digits. -/
def isDigit (c : UInt8) : Bool := 48 ≤ c && c ≤ 57

/-- The first place at which one list stands in another. -/
def find {α : Type} [BEq α] (s name : List α) : Option ℕ := s.tails.findIdx? fun rest => name.isPrefixOf rest

end FrameworkBenchmarks.Common
