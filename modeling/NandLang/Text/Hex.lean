/-! Hexadecimal numerals of a least width. -/
namespace NandLang.Text

def hex (width n : Nat) : List Char :=
  let digits := Nat.toDigits 16 n
  List.replicate (width - digits.length) '0' ++ digits

end NandLang.Text
