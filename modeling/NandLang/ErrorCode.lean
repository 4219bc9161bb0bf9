import NandLang.Loc
import NandLang.Number.Numeral

/-! Error codes: a family and a number, with the class of error that they stand for. -/
namespace NandLang

inductive Severity
  | fatal
  | error
  | warning
  deriving DecidableEq, Repr

namespace Severity

def all : List Severity := [.fatal, .error, .warning]

def label : Severity → String
  | .fatal => "FATAL"
  | .error => "ERROR"
  | .warning => "WARNING"

def text : Severity → String
  | .fatal => "fatal"
  | .error => "error"
  | .warning => "warning"

def isError : Severity → Bool
  | .warning => false
  | _ => true

end Severity

inductive Phase
  | reading
  | scoping
  | running
  | internal
  deriving DecidableEq, Repr

namespace Phase

def all : List Phase := [.reading, .scoping, .running, .internal]

def label : Phase → String
  | .reading => "SYNTAX"
  | .scoping => "SCOPE"
  | .running => "RUNTIME"
  | .internal => "INTERNAL"

def text : Phase → String
  | .reading => "syntax"
  | .scoping => "scope"
  | .running => "runtime"
  | .internal => "internal"

end Phase

inductive Category
  | malformedForm
  | unknownForm
  | wrongArity
  | invalidName
  | undefinedSymbol
  | redefinedSymbol
  | memoryError
  | useAfterFree
  | brokenInvariant
  deriving DecidableEq, Repr

namespace Category

def all : List Category :=
  [.malformedForm, .unknownForm, .wrongArity, .invalidName, .undefinedSymbol, .redefinedSymbol,
   .memoryError, .useAfterFree, .brokenInvariant]

def label : Category → String
  | .malformedForm => "MALFORMED_SEXP"
  | .unknownForm => "UNKNOWN_FORM"
  | .wrongArity => "WRONG_ARITY"
  | .invalidName => "INVALID_NAME"
  | .undefinedSymbol => "UNDEFINED_SYMBOL"
  | .redefinedSymbol => "REDEFINED_SYMBOL"
  | .memoryError => "MEMORY_ERROR"
  | .useAfterFree => "USE_AFTER_FREE"
  | .brokenInvariant => "INVARIANT_BROKEN"

def number (c : Category) : Nat := all.idxOf c + 1

end Category

structure ErrorCode where
  family : String
  number : Int
  category : Category
  phase : Phase
  severity : Severity := .error
  deriving DecidableEq, Repr

namespace ErrorCode

/-- Zeros fill up to four characters, the sign of a negative number included. -/
def numberChars (n : Int) : List Char :=
  let digits := Nat.toDigits 10 n.natAbs
  if n < 0 then '-' :: List.replicate (3 - digits.length) '0' ++ digits
  else List.replicate (4 - digits.length) '0' ++ digits

def chars (c : ErrorCode) : List Char :=
  c.family.toList ++ '-' :: numberChars c.number

/-- The code in full, however long its number is. -/
def text (c : ErrorCode) : String := String.ofList c.chars

def written (c : ErrorCode) : Except Number.WriteError String :=
  if Number.writable c.number then .ok c.text else .error .tooManyDigits

def describe (c : ErrorCode) : Except Number.WriteError String :=
  c.written.map fun text => s!"ErrorCode({Text.quoted text}, {c.category.label})"

/-- Codes are told apart by family and number alone. -/
def same (a b : ErrorCode) : Bool :=
  a.family == b.family && a.number == b.number

def spelled (c : ErrorCode) (s : String) : Except Number.WriteError Bool :=
  c.written.map (· == s)

def malformedForm : ErrorCode := ⟨"FL", 1000, .malformedForm, .reading, .error⟩
def unknownForm : ErrorCode := ⟨"FL", 1001, .unknownForm, .reading, .error⟩
def wrongArity : ErrorCode := ⟨"FL", 1002, .wrongArity, .reading, .error⟩
def invalidName : ErrorCode := ⟨"FL", 1003, .invalidName, .reading, .error⟩
def emptyProgram : ErrorCode := ⟨"FL", 1004, .malformedForm, .reading, .error⟩
def undeclared : ErrorCode := ⟨"FL", 3000, .undefinedSymbol, .scoping, .error⟩
def redeclared : ErrorCode := ⟨"FL", 3001, .redefinedSymbol, .scoping, .error⟩
def unbound : ErrorCode := ⟨"FL", 5000, .undefinedSymbol, .running, .error⟩
def invalidLocation : ErrorCode := ⟨"FL", 5001, .memoryError, .running, .error⟩
def rebound : ErrorCode := ⟨"FL", 5002, .redefinedSymbol, .running, .error⟩
def alreadyFreed : ErrorCode := ⟨"FL", 5003, .useAfterFree, .running, .error⟩
def invariantViolation : ErrorCode := ⟨"FL", 9000, .brokenInvariant, .internal, .fatal⟩

def published : List (String × ErrorCode) :=
  [("MALFORMED_SEXP", malformedForm),
   ("UNKNOWN_FORM", unknownForm),
   ("WRONG_ARITY", wrongArity),
   ("INVALID_NAME", invalidName),
   ("EMPTY_PROGRAM", emptyProgram),
   ("UNDECLARED_VARIABLE", undeclared),
   ("REDECLARED_VARIABLE", redeclared),
   ("RUNTIME_UNDECLARED_VARIABLE", unbound),
   ("INVALID_LOCATION", invalidLocation),
   ("RUNTIME_REDECLARED_VARIABLE", rebound),
   ("ALREADY_FREED", alreadyFreed),
   ("INVARIANT_VIOLATION", invariantViolation)]

end ErrorCode

structure Failure where
  text : String
  code : ErrorCode
  loc : Option Loc := none
  deriving DecidableEq, Repr

def Failure.message (f : Failure) : String :=
  match f.loc with
  | some l => s!"{l.text}: [{f.code.text}] {f.text}"
  | none => s!"[{f.code.text}] {f.text}"

end NandLang
