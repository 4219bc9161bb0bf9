/-! The words that the language keeps for itself. -/
namespace NandLang

inductive Keyword
  | yes
  | no
  | nand
  | decl
  | assign
  | ifThen
  | whileDo
  | seq
  | free
  deriving DecidableEq, Repr

namespace Keyword

def word : Keyword → String
  | .yes => "true"
  | .no => "false"
  | .nand => "nand"
  | .decl => "decl"
  | .assign => "assign"
  | .ifThen => "if"
  | .whileDo => "while"
  | .seq => "seq"
  | .free => "free"

def all : List Keyword := [.yes, .no, .nand, .decl, .assign, .ifThen, .whileDo, .seq, .free]

def ofWord? (w : String) : Option Keyword := all.find? (·.word == w)

def ofBool (b : Bool) : Keyword := if b then .yes else .no

end Keyword
end NandLang
