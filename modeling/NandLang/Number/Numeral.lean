/-! The spelling that all numerals share: blanks around, a sign in front, underscores between
digits, and the decimal digits of every script. -/
namespace NandLang.Number

def isBlank (c : Char) : Bool :=
  c = ' ' || (9 ≤ c.toNat && c.toNat ≤ 13)

def isWideBlank (c : Char) : Bool :=
  let n := c.toNat
  n = 0x85 || n = 0xa0 || n = 0x1680 || (0x2000 ≤ n && n ≤ 0x200a) || n = 0x2028 || n = 0x2029 ||
    n = 0x202f || n = 0x205f || n = 0x3000

/-- Each script with decimal digits has its ten in a row; these are the zeros. -/
def zeros : List Nat :=
  [0x30, 0x660, 0x6f0, 0x7c0, 0x966, 0x9e6, 0xa66, 0xae6, 0xb66, 0xbe6, 0xc66, 0xce6, 0xd66, 0xde6,
   0xe50, 0xed0, 0xf20, 0x1040, 0x1090, 0x17e0, 0x1810, 0x1946, 0x19d0, 0x1a80, 0x1a90, 0x1b50,
   0x1bb0, 0x1c40, 0x1c50, 0xa620, 0xa8d0, 0xa900, 0xa9d0, 0xa9f0, 0xaa50, 0xabf0, 0xff10, 0x104a0,
   0x10d30, 0x11066, 0x110f0, 0x11136, 0x111d0, 0x112f0, 0x11450, 0x114d0, 0x11650, 0x116c0,
   0x11730, 0x118e0, 0x11950, 0x11c50, 0x11d50, 0x11da0, 0x16a60, 0x16ac0, 0x16b50, 0x1d7ce,
   0x1d7d8, 0x1d7e2, 0x1d7ec, 0x1d7f6, 0x1e140, 0x1e2f0, 0x1e950, 0x1fbf0]

def digitValue? (c : Char) : Option Nat :=
  (zeros.find? fun first => first ≤ c.toNat && c.toNat < first + 10).map (c.toNat - ·)

def asciiChar? (c : Char) : Option Char :=
  if c.toNat < 0x7f then some c
  else if isWideBlank c then some ' '
  else (digitValue? c).map fun d => Char.ofNat ('0'.toNat + d)

def ascii? (cs : List Char) : Option (List Char) :=
  if cs.all (·.toNat < 0x80) then some cs else cs.mapM asciiChar?

def strip (cs : List Char) : List Char :=
  ((cs.dropWhile isBlank).reverse.dropWhile isBlank).reverse

/-- Takes the underscores out; each has to stand between two digits. -/
def ungroup : List Char → Option (List Char)
  | [] => some []
  | d :: '_' :: e :: rest =>
    if d.isDigit && e.isDigit then (ungroup (e :: rest)).map (d :: ·) else none
  | c :: rest => if c = '_' then none else (ungroup rest).map (c :: ·)

def plain? (cs : List Char) : Option (List Char) :=
  (ascii? cs).bind fun ascii => ungroup (strip ascii)

def splitSign : List Char → Bool × List Char
  | '-' :: rest => (true, rest)
  | '+' :: rest => (false, rest)
  | cs => (false, cs)

def ofDigits (cs : List Char) : Nat :=
  cs.foldl (fun n c => 10 * n + (c.toNat - '0'.toNat)) 0

/-- The most digits that an integer numeral may have, leading zeros counted. Numerals that are read
keep to it, and so do error codes that are written by themselves. It is left out of messages and
listings: codes, source positions, memory locations and foreign values stand there in full. -/
def digitLimit : Nat := 4300

inductive WriteError
  | tooManyDigits
  deriving DecidableEq, Repr

def WriteError.message : WriteError → String
  | .tooManyDigits =>
    s!"Exceeds the limit ({digitLimit} digits) for integer string conversion; " ++
      "use sys.set_int_max_str_digits() to increase the limit"

/-- A sign is no digit. -/
def writable (n : Int) : Bool := (Nat.toDigits 10 n.natAbs).length ≤ digitLimit

def int? (cs : List Char) : Option Int :=
  (plain? cs).bind fun body =>
    let (negative, digits) := splitSign body
    if digits ≠ [] && digits.all Char.isDigit && digits.length ≤ digitLimit then
      some (if negative then -(ofDigits digits : Int) else ofDigits digits)
    else none

end NandLang.Number
