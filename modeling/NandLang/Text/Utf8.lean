import NandLang.Text.Hex

/-! Reading bytes as text. Bytes are UTF-8; the first byte that cannot continue a character is
reported with the bytes of that character read so far. -/
namespace NandLang.Text

inductive DecodeReason
  | start
  | continuation
  | ended
  deriving DecidableEq, Repr

def DecodeReason.text : DecodeReason → String
  | .start => "invalid start byte"
  | .continuation => "invalid continuation byte"
  | .ended => "unexpected end of data"

/-- The `count` bytes from position `start` on are no character. -/
structure DecodeError where
  start : Nat
  count : Nat
  first : UInt8
  reason : DecodeReason
  deriving DecidableEq, Repr

def DecodeError.message (e : DecodeError) : String :=
  let place :=
    if e.count = 1 then s!"byte 0x{String.ofList (hex 2 e.first.toNat)} in position {e.start}"
    else s!"bytes in position {e.start}-{e.start + e.count - 1}"
  s!"'utf-8' codec can't decode {place}: {e.reason.text}"

/-- A character whose first bytes are read: its value so far, the bytes still to come, and the
range that the next one has to lie in. -/
structure OpenChar where
  start : Nat
  first : UInt8
  value : Nat
  missing : Nat
  low : Nat
  high : Nat
  deriving DecidableEq, Repr

/-- The ranges of a second byte leave out overlong forms, surrogates and values past the last
code point. -/
def OpenChar.ofLead? (pos : Nat) (b : UInt8) : Option OpenChar :=
  let n := b.toNat
  if 0xc2 ≤ n && n ≤ 0xdf then some ⟨pos, b, n - 0xc0, 1, 0x80, 0xbf⟩
  else if 0xe0 ≤ n && n ≤ 0xef then
    some ⟨pos, b, n - 0xe0, 2, if n = 0xe0 then 0xa0 else 0x80, if n = 0xed then 0x9f else 0xbf⟩
  else if 0xf0 ≤ n && n ≤ 0xf4 then
    some ⟨pos, b, n - 0xf0, 3, if n = 0xf0 then 0x90 else 0x80, if n = 0xf4 then 0x8f else 0xbf⟩
  else none

structure Decoder where
  chars : List Char := []
  pos : Nat := 0
  inside : Option OpenChar := none

def Decoder.feed (d : Decoder) (b : UInt8) : Except DecodeError Decoder :=
  match d.inside with
  | none =>
    if b.toNat < 0x80 then .ok ⟨Char.ofNat b.toNat :: d.chars, d.pos + 1, none⟩
    else match OpenChar.ofLead? d.pos b with
      | some p => .ok ⟨d.chars, d.pos + 1, some p⟩
      | none => .error ⟨d.pos, 1, b, .start⟩
  | some p =>
    if p.low ≤ b.toNat && b.toNat ≤ p.high then
      let value := p.value * 64 + (b.toNat - 0x80)
      if p.missing ≤ 1 then .ok ⟨Char.ofNat value :: d.chars, d.pos + 1, none⟩
      else .ok ⟨d.chars, d.pos + 1, some { p with
        value := value, missing := p.missing - 1, low := 0x80, high := 0xbf }⟩
    else .error ⟨p.start, d.pos - p.start, p.first, .continuation⟩

def Decoder.finish (d : Decoder) : Except DecodeError (List Char) :=
  match d.inside with
  | none => .ok d.chars.reverse
  | some p => .error ⟨p.start, d.pos - p.start, p.first, .ended⟩

def decodeUtf8 (bytes : List UInt8) : Except DecodeError (List Char) := do
  (← bytes.foldlM Decoder.feed {}).finish

def unifyNewlines : List Char → List Char
  | [] => []
  | '\r' :: '\n' :: rest => '\n' :: unifyNewlines rest
  | c :: rest => (if c = '\r' then '\n' else c) :: unifyNewlines rest

end NandLang.Text
