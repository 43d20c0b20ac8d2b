import Mathlib.Data.List.Basic

/-!
# Data shared by the components

The status codes and enumerations of the source, under its own names, and the strings.
-/

namespace Fipper

/-- A `std::string` or `std::string_view`: its characters. -/
abbrev Str := List Char

/-- Behaviour that C++ leaves undefined, with reading a token that a split does not have by itself; and code
that is not C++, so that there is no program to run. -/
inductive Fault
  | undefined
  | missingToken
  | illFormed
  deriving DecidableEq, Repr

/-- `fp::Result`. -/
inductive Result
  | eSuccess
  | eNothingToRecieve
  | eNothingToAccept
  | eFailure
  | eSaturated
  deriving DecidableEq, Repr

/-- `fp::HttpMethod`. -/
inductive HttpMethod
  | eGet
  | ePost
  | ePut
  | ePatch
  | eDelete
  deriving DecidableEq, Repr

end Fipper
