import NandLang.Number.Numeral
import NandLang.Text.Quoted

/-! Command line words against a table of options. A long option may be shortened as far as one name
fits, short flags may share a word, two hyphens alone end the options, and a negative number is no
option. What nothing is known about is left over. -/
namespace NandLang.Command

inductive Halt
  | shown (text : String)
  | misused (message : String)
  deriving DecidableEq, Repr

/-- What an option was given. Two hyphens where the value should be are no value: the option is then
void, which is found out only where its value is wanted. -/
inductive Given (α : Type)
  | value (a : α)
  | void
  deriving DecidableEq, Repr

namespace Given

def ofWord (word : String) : Given String := if word = "--" then .void else .value word

def mapM (f : α → Except ε β) : Given α → Except ε (Given β)
  | .value a => (f a).map .value
  | .void => .ok .void

end Given

inductive Effect (σ : Type)
  | set (change : σ → σ)
  | read (change : Given String → σ → Except String σ)
  | display (text : String)

def Effect.takesValue : Effect σ → Bool
  | .read _ => true
  | _ => false

structure Opt (σ : Type) where
  names : List String
  effect : Effect σ

def Opt.complain (o : Opt σ) (problem : String) : Halt :=
  .misused ("argument " ++ String.intercalate "/" o.names ++ ": " ++ problem)

inductive Wanted
  | one
  | remaining
  deriving DecidableEq, Repr

structure OptionTable (σ : Type) where
  options : List (Opt σ)
  wanted : Wanted

namespace OptionTable

def entries (t : OptionTable σ) : List (String × Opt σ) :=
  t.options.flatMap fun o => o.names.map (·, o)

def find? (t : OptionTable σ) (name : String) : Option (Opt σ) := t.entries.lookup name

end OptionTable

structure Mention (σ : Type) where
  option : Opt σ
  name : String
  attached : Option (List Char) := none

inductive Shape (σ : Type)
  | plain
  | dashes
  | unknown
  | option (mention : Mention σ)

structure Word (σ : Type) where
  text : String
  shape : Shape σ

def splitEquals (cs : List Char) : List Char × Option (List Char) :=
  match cs.dropWhile (· ≠ '=') with
  | [] => (cs, none)
  | _ :: value => (cs.takeWhile (· ≠ '='), some value)

def OptionTable.candidates (t : OptionTable σ) (cs : List Char) : List (Mention σ) :=
  match cs with
  | '-' :: '-' :: _ =>
    let (stem, attached) := splitEquals cs
    t.entries.filterMap fun (name, o) =>
      if stem.isPrefixOf name.toList then some ⟨o, name, attached⟩ else none
  | _ =>
    t.entries.filterMap fun (name, o) =>
      if name.toList = cs.take 2 then some ⟨o, name, some (cs.drop 2)⟩
      else if cs.isPrefixOf name.toList then some ⟨o, name, none⟩
      else none

/-- A hyphen and digits, perhaps with a point among or before them; a line end behind does not
count. -/
def looksNegative (cs : List Char) : Bool :=
  let isDigit (c : Char) : Bool := (Number.digitValue? c).isSome
  let body := if cs.getLast? = some '\n' then cs.dropLast else cs
  match body with
  | '-' :: rest =>
    match rest.dropWhile isDigit with
    | [] => !rest.isEmpty
    | '.' :: fraction => !fraction.isEmpty && fraction.all isDigit
    | _ => false
  | _ => false

def ambiguous (word : String) (names : List String) : Halt :=
  .misused (s!"ambiguous option: {word} could match " ++ String.intercalate ", " names)

/-- A word that starts with a hyphen and names no option is still plain if it looks like a number
or holds a blank. -/
def OptionTable.shape (t : OptionTable σ) (word : String) : Except Halt (Shape σ) :=
  let cs := word.toList
  if cs.head? ≠ some '-' then .ok .plain
  else match t.find? word with
  | some o => .ok (.option ⟨o, word, none⟩)
  | none =>
    if cs.length = 1 then .ok .plain
    else
      let (stem, attached) := splitEquals cs
      match attached, t.find? (String.ofList stem) with
      | some value, some o => .ok (.option ⟨o, String.ofList stem, some value⟩)
      | _, _ =>
        match t.candidates cs with
        | [m] => .ok (.option m)
        | [] => .ok (if looksNegative cs || cs.contains ' ' then .plain else .unknown)
        | several => .error (ambiguous word (several.map (·.name)))

/-- All words are looked at before any is acted on. -/
def OptionTable.words (t : OptionTable σ) : List String → Except Halt (List (Word σ))
  | [] => .ok []
  | word :: rest =>
    if word = "--" then .ok (⟨word, .dashes⟩ :: rest.map (⟨·, .plain⟩))
    else do
      let shape ← t.shape word
      .ok (⟨word, shape⟩ :: (← t.words rest))

structure Use (σ : Type) where
  option : Opt σ
  value : Option String := none

def Opt.ignored (o : Opt σ) (cs : List Char) : Halt :=
  o.complain ("ignored explicit argument " ++ Text.quoted (String.ofList cs))

/-- The uses that the word of a short option makes, by what is attached to the option. Behind a flag
every letter has to be a flag again, up to one that takes the rest as its value. -/
def OptionTable.cluster (t : OptionTable σ) (o : Opt σ) : List Char → Except Halt (List (Use σ))
  | [] => if o.effect.takesValue then .ok [⟨o, some ""⟩] else .error (o.ignored [])
  | c :: rest =>
    if o.effect.takesValue then .ok [⟨o, some (String.ofList (c :: rest))⟩]
    else match t.find? (String.ofList ['-', c]), rest with
      | none, _ => .error (o.ignored (c :: rest))
      | some next, [] => .ok [⟨o, none⟩, ⟨next, none⟩]
      | some next, rest => (t.cluster next rest).map (⟨o, none⟩ :: ·)

def OptionTable.uses (t : OptionTable σ) (m : Mention σ) : Except Halt (List (Use σ)) :=
  match m.attached, m.name.toList with
  | none, _ => .ok [⟨m.option, none⟩]
  | some cs, '-' :: '-' :: _ =>
    if m.option.effect.takesValue then .ok [⟨m.option, some (String.ofList cs)⟩]
    else .error (m.option.ignored cs)
  | some cs, _ => t.cluster m.option cs

def Use.apply (u : Use σ) (values : σ) : Except Halt σ :=
  match u.option.effect, u.value with
  | .set change, _ => .ok (change values)
  | .display text, _ => .error (.shown text)
  | .read change, some v => (change (.ofWord v) values).mapError u.option.complain
  | .read _, none => .error (u.option.complain "expected one argument")

def lacksValue (uses : List (Use σ)) : Bool :=
  match uses.getLast? with
  | some u => u.option.effect.takesValue && u.value.isNone
  | none => false

structure Parsed (σ : Type) where
  values : σ
  wanted : List String := []
  extras : List String := []

namespace OptionTable

def applyUses (p : Parsed σ) (uses : List (Use σ)) : Except Halt (Parsed σ) := do
  let values ← uses.foldlM (fun values u => u.apply values) p.values
  .ok { p with values := values }

def giveValue (uses : List (Use σ)) (v : String) : List (Use σ) :=
  match uses.getLast? with
  | some u => uses.dropLast ++ [{ u with value := some v }]
  | none => uses

/-- Takes the words in turn. Two hyphens right behind the wanted word are dropped with it. -/
def take (t : OptionTable σ) (p : Parsed σ) : List (Word σ) → Except Halt (Parsed σ)
  | [] => .ok p
  | ⟨text, .unknown⟩ :: rest => t.take { p with extras := p.extras ++ [text] } rest
  | ⟨_, .option m⟩ :: rest => do
    let uses ← t.uses m
    match lacksValue uses, rest with
    | true, ⟨v, .plain⟩ :: rest => t.take (← applyUses p (giveValue uses v)) rest
    | _, rest => t.take (← applyUses p uses) rest
  | ⟨text, .plain⟩ :: rest =>
    match t.wanted, p.wanted, rest with
    | .remaining, _, rest => .ok { p with wanted := text :: rest.map (·.text) }
    | .one, [], ⟨_, .dashes⟩ :: rest => t.take { p with wanted := [text] } rest
    | .one, [], rest => t.take { p with wanted := [text] } rest
    | .one, _, rest => t.take { p with extras := p.extras ++ [text] } rest
  | ⟨text, .dashes⟩ :: rest =>
    match t.wanted, p.wanted, rest with
    | .remaining, _, _ :: _ => .ok { p with wanted := text :: rest.map (·.text) }
    | .one, [], word :: rest => t.take { p with wanted := [word.text] } rest
    | _, _, rest => t.take { p with extras := p.extras ++ [text] } rest

def parse (t : OptionTable σ) (values : σ) (arguments : List String) :
    Except Halt (Parsed σ) := do
  t.take { values := values } (← t.words arguments)

end OptionTable
end NandLang.Command
