import NandLang.Keyword
import NandLang.Node.Walk

/-! Printing trees as forms: `flat` on one line, `layout` with every block body and every item of a
sequence on a line of its own. A sequence nested to the right prints as one form. Both write onto
the text that follows, which keeps printing linear in the text. A foreign value has no form, and an
indent may be too wide; the first thing in the way ends the printing. -/
namespace NandLang.Node

def opening (k : Keyword) : List Char := '(' :: k.word.toList

/-- The one-line form. In a row of statements a sequence adds its own statements to the row. -/
def flatOnto (inRow : Bool) : Node → List Char → List Char
  | .lit b _, rest => (Keyword.ofBool b).word.toList ++ rest
  | .var x _, rest => x.toList ++ rest
  | .nand l r _, rest =>
    opening .nand ++ ' ' :: l.flatOnto false (' ' :: r.flatOnto false (')' :: rest))
  | .decl x e _, rest => opening .decl ++ ' ' :: x.toList ++ ' ' :: e.flatOnto false (')' :: rest)
  | .assign x e _, rest =>
    opening .assign ++ ' ' :: x.toList ++ ' ' :: e.flatOnto false (')' :: rest)
  | .ifThen c b _, rest =>
    opening .ifThen ++ ' ' :: c.flatOnto false (' ' :: b.flatOnto false (')' :: rest))
  | .whileDo c b _, rest =>
    opening .whileDo ++ ' ' :: c.flatOnto false (' ' :: b.flatOnto false (')' :: rest))
  | .seq a b _, rest =>
    if inRow then a.flatOnto false (' ' :: b.flatOnto true rest)
    else opening .seq ++ ' ' :: a.flatOnto false (' ' :: b.flatOnto true (')' :: rest))
  | .free x _, rest => opening .free ++ ' ' :: x.toList ++ ')' :: rest
  | .foreign v, rest => v.describe.toList ++ rest

def pad (indent : Int) (depth : Nat) : List Char :=
  List.replicate (depth * indent).toNat ' '

/-- The indented form. What closes a form stands at the end of the form's last line. -/
def layoutOnto (indent : Int) (inRow : Bool) (depth : Nat) : Node → List Char → List Char
  | .seq a b _, rest =>
    if inRow then a.layoutOnto indent false depth ('\n' :: b.layoutOnto indent true depth rest)
    else
      pad indent depth ++ opening .seq ++ '\n' :: a.layoutOnto indent false (depth + 1)
        ('\n' :: b.layoutOnto indent true (depth + 1) (')' :: rest))
  | .ifThen c b _, rest =>
    pad indent depth ++ opening .ifThen ++ ' ' :: c.flatOnto false
      ('\n' :: b.layoutOnto indent false (depth + 1) (')' :: rest))
  | .whileDo c b _, rest =>
    pad indent depth ++ opening .whileDo ++ ' ' :: c.flatOnto false
      ('\n' :: b.layoutOnto indent false (depth + 1) (')' :: rest))
  | n, rest => pad indent depth ++ n.flatOnto false rest

def misplaced? (n : Node) : Option Misplaced := n.foreign?.map fun v => ⟨.node, .foreign v⟩

def flat (n : Node) : Except Misplaced String :=
  match n.misplaced? with
  | some m => .error m
  | none => .ok (String.ofList (n.flatOnto false []))

inductive LayoutError
  | misplaced (misplaced : Misplaced)
  | widthRange
  deriving DecidableEq, Repr

def LayoutError.message : LayoutError → String
  | .misplaced m => m.message
  | .widthRange => "cannot fit 'int' into an index-sized integer"

/-- A width has to be a signed number of 64 bits, also a negative one that indents nothing. -/
def widthError? (indent : Int) (depth : Nat) : Option LayoutError :=
  let width := depth * indent
  if width < -Int.pow 2 63 || Int.pow 2 63 ≤ width then some .widthRange else none

/-- What is first in the way of a layout. A line's indent comes before what stands on the line. -/
def layoutError? (indent : Int) (inRow : Bool) (depth : Nat) : Node → Option LayoutError
  | .seq a b _ =>
    if inRow then a.layoutError? indent false depth <|> b.layoutError? indent true depth
    else
      widthError? indent depth <|> a.layoutError? indent false (depth + 1) <|>
        b.layoutError? indent true (depth + 1)
  | .ifThen c b _ | .whileDo c b _ =>
    widthError? indent depth <|> c.misplaced?.map .misplaced <|>
      b.layoutError? indent false (depth + 1)
  | n => widthError? indent depth <|> n.misplaced?.map .misplaced

def layout (n : Node) (indent : Int) : Except LayoutError String :=
  match n.layoutError? indent false 0 with
  | some e => .error e
  | none => .ok (String.ofList (n.layoutOnto indent false 0 []))

end NandLang.Node
