import NandLang.Event

/-! Running statements on a store. Every statement costs a step when it is entered, a loop one more
for each round. A machine may have a step budget, and may look the store over behind every
statement. -/
namespace NandLang

structure Machine where
  limit : Option Nat := none
  allocator : Allocator := .bump
  audit : Bool := false
  deriving DecidableEq, Repr

/-- Why an execution ended without a store. It is unfinished if a loop was given fewer rounds than
it takes. -/
inductive Stop
  | fault (fault : Fault)
  | misplaced (misplaced : Misplaced)
  | unsound (violations : List Violation)
  | exhausted (store : Store)
  | unfinished
  deriving DecidableEq, Repr

def Stop.message : Stop → String
  | .fault f => f.failure.message
  | .misplaced m => m.message
  | .unsound violations => (Violation.failure violations).message
  | .exhausted _ => "step budget exhausted"
  | .unfinished => "out of rounds"

/-- The steps taken so far and the log, newest event first. -/
structure Progress where
  steps : Nat := 0
  events : List Event := []
  deriving DecidableEq, Repr

def Exec (α : Type) : Type := Progress → Except Stop α × Progress

namespace Exec

@[inline] protected def pure (a : α) : Exec α := fun p => (.ok a, p)

@[inline] protected def bind (x : Exec α) (f : α → Exec β) : Exec β := fun p =>
  match x p with
  | (.ok a, next) => f a next
  | (.error stop, next) => (.error stop, next)

instance : Monad Exec where
  pure := Exec.pure
  bind := Exec.bind

@[inline] def stop (s : Stop) : Exec α := fun p => (.error s, p)

@[inline] def ofExcept (x : Except Stop α) : Exec α := fun p => (x, p)

@[inline] def log (e : Event) : Exec Unit := fun p => (.ok (), { p with events := e :: p.events })

end Exec

namespace Node

def resolve (s : Store) (x : Name) (loc : Option Loc) : Except Stop Location :=
  match s.lookup x with
  | none => .error (.fault ⟨.undeclared, x, none, loc⟩)
  | some l => if s.isFreed x then .error (.fault ⟨.alreadyFreed, x, some l, loc⟩) else .ok l

/-- Both operands are evaluated, whatever the first one yields. -/
def eval (s : Store) : Node → Except Stop Bool
  | .lit b _ => .ok b
  | .nand l r _ => do
    let left ← l.eval s
    let right ← r.eval s
    .ok !(left && right)
  | .var x loc => do
    let l ← resolve s x loc
    match s.read l with
    | some v => .ok v
    | none => .error (.fault ⟨.invalidLocation, x, some l, loc⟩)
  | n => .error (.misplaced ⟨.expression, n⟩)

end Node

namespace Machine

/-- Counts a step; past the budget the store reached is the result. -/
def tick (m : Machine) (s : Store) : Exec Unit := fun p =>
  let next := { p with steps := p.steps + 1 }
  match m.limit with
  | none => (.ok (), next)
  | some k => if k < next.steps then (.error (.exhausted s), next) else (.ok (), next)

def inspect (m : Machine) (s : Store) : Exec Store :=
  if m.audit && !s.violations.isEmpty then Exec.stop (.unsound s.violations) else pure s

def block (body : Store → Exec Store) (s : Store) : Exec Store := do
  let after ← body s
  pure (after.withEnvironment s.environment)

def rounds (m : Machine) (cond : Store → Except Stop Bool) (body : Store → Exec Store) :
    Nat → Nat → Store → Exec Store
  | 0, _, _ => Exec.stop .unfinished
  | fuel + 1, number, s => do
    if ← Exec.ofExcept (cond s) then
      Exec.log (.iteration (number + 1))
      let after ← block body s
      m.tick after
      m.rounds cond body fuel (number + 1) after
    else pure s

/-- Executes a statement. No loop in it runs for more than `fuel` rounds at a time. -/
def exec (m : Machine) (fuel : Nat) : Node → Store → Exec Store
  | .seq a b _, s => do
    m.tick s
    let inner ← m.exec fuel a s
    m.exec fuel b inner
  | .decl x e loc, s => do
    m.tick s
    let v ← Exec.ofExcept (e.eval s)
    match s.lookup x with
    | some l => Exec.stop (.fault ⟨.redeclared, x, some l, loc⟩)
    | none =>
      let (l, next) := m.allocator.allocate s
      Exec.log (.declared x l v)
      m.inspect (s.declare x l v next)
  | .assign x e loc, s => do
    m.tick s
    let v ← Exec.ofExcept (e.eval s)
    let l ← Exec.ofExcept (Node.resolve s x loc)
    match s.read l with
    | none => Exec.stop (.fault ⟨.invalidLocation, x, some l, loc⟩)
    | some _ => m.inspect (s.write l v)
  | .ifThen c b _, s => do
    m.tick s
    if ← Exec.ofExcept (c.eval s) then
      let after ← block (m.exec fuel b) s
      m.inspect after
    else m.inspect s
  | .whileDo c b _, s => do
    m.tick s
    let after ← m.rounds (fun s => c.eval s) (m.exec fuel b) fuel 0 s
    m.inspect after
  | .free x loc, s => do
    m.tick s
    let l ← Exec.ofExcept (Node.resolve s x loc)
    Exec.log (.released x l)
    m.inspect (s.release x l)
  | n, s => do
    m.tick s
    Exec.stop (.misplaced ⟨.statement, n⟩)

end Machine
end NandLang
