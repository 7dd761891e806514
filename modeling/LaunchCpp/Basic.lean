import Mathlib.Data.List.Lex
import Mathlib.Data.Char
import Mathlib.Algebra.Ring.Nat
import Mathlib.Algebra.Ring.Int.Defs
import Mathlib.Order.Lattice

/-! # Strings, error codes and results

    The vocabulary every module shares.  A `std::string` is a list of
    characters, so that the character loops of the source are recursions on
    it; `Error` and `Result` are the types of `error_code.hpp`. -/

namespace LaunchCpp

/-- `std::string`. -/
abbrev Str := List Char

instance decidableMemStrs (s : Str) (ss : List Str) : Decidable (s ∈ ss) :=
  List.instDecidableMemOfLawfulBEq s ss

/-- `ErrorCode` (`error_code.hpp`). -/
inductive ErrorCode where
  | success
  | invalidArgument
  | invalidConfiguration
  | processSpawnFailed
  | processNotFound
  | eventHandlerError
  | substitutionError
  | cyclicDependency
  | timeout
  | shutdownRequested
  | notImplemented
  | internalError
  | resourceExhausted
  | maxRetriesExceeded
  | unknownError
  deriving DecidableEq, Repr

/-- `Error`: a code with its message. -/
structure Error where
  code : ErrorCode
  message : Str
  deriving DecidableEq, Repr

namespace Error

/-- `Error()`, the success value. -/
def ok : Error := ⟨.success, []⟩

/-- `Error::is_success`. -/
def isSuccess (e : Error) : Bool := e.code = .success

/-- `Error::is_error`. -/
def isError (e : Error) : Bool := e.code ≠ .success

@[simp] theorem isSuccess_ok : ok.isSuccess = true := rfl

theorem isError_eq_not_isSuccess (e : Error) : e.isError = !e.isSuccess := by
  simp [isError, isSuccess]

end Error

/-- `Result<T>`: a value or an error. -/
abbrev Result (α : Type) := Except Error α

end LaunchCpp
