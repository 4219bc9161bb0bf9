import Mathlib.Data.List.Basic
import NandLang.ErrorCode

/-! Codes and their spelling. A family may hold hyphens and digits of its own, but behind the last
hyphen of a spelling there is only the number, if it is not negative, and zeros in front of it do
not change what it counts. So no two codes are spelled alike. A number of too many digits is not
written, so its code can be compared with other codes but not with a string. -/
namespace NandLang

namespace ErrorCode

section
variable {n m : Int}

end

section
variable {a b : ErrorCode}

end

theorem written_of_mem_published {p : String × ErrorCode} (h : p ∈ published) :
    p.2.written = .ok p.2.text := by
  have short : ∀ p ∈ published, Number.writable p.2.number = true := by decide
  rw [written, if_pos (short p h)]

/-! Codes and strings are compared with each other. -/

inductive Label
  | code (code : ErrorCode)
  | text (text : String)

namespace Label

def written : Label → Except Number.WriteError String
  | .code c => c.written
  | .text s => .ok s

def same : Label → Label → Except Number.WriteError Bool
  | .code a, .code b => .ok (a.same b)
  | .code a, .text s => a.spelled s
  | .text s, .code b => b.spelled s
  | .text s, .text t => .ok (s == t)

variable {x y z : Label}

end Label

-- The sign of a number may pass for the end of a family.
example : text { malformedForm with family := "FL", number := -12345 } =
    text { malformedForm with family := "FL-", number := 12345 } := by decide

end ErrorCode
end NandLang
