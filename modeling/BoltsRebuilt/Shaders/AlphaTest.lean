/-
# The pixel shader without its alpha test

src/src/gpu/native/native_alpha_test_variant.h: `StripNativeAlphaTest` (lines 29-43)
and the scheduling of the compiles (lines 103-114).

The body of a generated pixel shader has one statement that can discard a pixel, on a
line of its own.  The other form of the shader has an empty statement in its place; a
body where the statement is not found once, alone on its line, has no other form.
-/

import Mathlib.Algebra.GroupWithZero.Nat
import Mathlib.Algebra.Ring.Int.Defs
import Mathlib.Data.List.Basic

namespace BoltsRebuilt
namespace Shaders

/-- `kNativeAlphaTestStatement`. -/
def alphaTestStatement : List Char := "AlphaTest(oC0.w);".toList

/-- `std::string::find`. -/
def findText (needle : List Char) : List Char → Option ℕ
  | [] => if needle = [] then some 0 else none
  | c :: s => if needle.isPrefixOf (c :: s) then some 0 else (findText needle s).map (· + 1)

/-- Blanks before the statement on its line. -/
def isIndent (c : Char) : Bool := c = ' ' || c = '\t'

/-- `StripNativeAlphaTest`: the new body, or nothing where it returns false. -/
def stripNativeAlphaTest (body : List Char) : Option (List Char) :=
  match findText alphaTestStatement body with
  | none => none
  | some place =>
    if (findText alphaTestStatement (body.drop (place + 1))).isSome then none
    else
      let before := body.take place
      let line := (before.reverse.dropWhile isIndent).reverse
      if line ≠ [] ∧ line.getLast? ≠ some '\n' then none
      else
        let after := body.drop (place + alphaTestStatement.length)
        let rest := if after.head? = some '\r' then after.tail else after
        if rest ≠ [] ∧ rest.head? ≠ some '\n' then none
        else some (before ++ ';' :: after)

/-- `NativeBaseSlotFree`. -/
def nativeBaseSlotFree (inFlight variantInFlight cap : ℕ) : Bool := inFlight - variantInFlight < cap

/-- `NativeNoAlphaTestCompileAdmitted`. -/
def nativeNoAlphaTestCompileAdmitted (inFlight variantInFlight cap : ℕ) : Bool :=
  variantInFlight = 0 && inFlight < cap

end Shaders
end BoltsRebuilt
