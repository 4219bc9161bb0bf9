import NandLang.Proofs.Visits

/-! What an execution comes to on its way: the statements that it enters, and the expressions that
it evaluates. One of them that stops stops the whole execution, for the same reason and with the
same progress. -/
namespace NandLang
namespace Node

/-- While an expression is evaluated on a store, this part of it is. A right operand is come to only
behind a left one that has a value. -/
inductive Evaluates (s : Store) : Node → Node → Prop
  | self (e : Node) : Evaluates s e e
  | left {l r e : Node} {loc : Option Loc} (part : Evaluates s l e) :
      Evaluates s (.nand l r loc) e
  | right {l r e : Node} {loc : Option Loc} {v : Bool} (value : l.eval s = .ok v)
      (part : Evaluates s r e) : Evaluates s (.nand l r loc) e

theorem Evaluates.error {s : Store} {c e : Node} {stop : Stop} (part : c.Evaluates s e)
    (stops : e.eval s = .error stop) : c.eval s = .error stop := by
  induction part with
  | self => exact stops
  | left _ ih => exact bind_eq_error_iff.mpr (.inl (ih stops))
  | right value _ ih =>
    exact bind_eq_error_iff.mpr (.inr ⟨_, value, bind_eq_error_iff.mpr (.inl (ih stops))⟩)

/-- The expression that a statement evaluates once, before all else. -/
def operand? : Node → Option Node
  | .decl _ e _ | .assign _ e _ | .ifThen e _ _ => some e
  | _ => none

end Node

namespace Machine
open Exec

variable {m : Machine} {fuel : Nat} {n k c b : Node} {loc : Option Loc} {s t u : Store}
  {p p' q r : Progress} {stop : Stop} {number : Nat}

/-- While a statement is executed, this one is entered, on a store and with the progress made by
then. Its step is yet to be counted. -/
inductive Enters (m : Machine) (fuel : Nat) :
    Node → Store → Progress → Node → Store → Progress → Prop
  | self (n : Node) (s : Store) (p : Progress) : Enters m fuel n s p n s p
  | first {a b k : Node} {loc : Option Loc} {s t : Store} {p p' q : Progress}
      (tick : m.tick s p = (.ok (), p')) (enters : Enters m fuel a s p' k t q) :
      Enters m fuel (.seq a b loc) s p k t q
  | second {a b k : Node} {loc : Option Loc} {s t u : Store} {p p' q r : Progress}
      (tick : m.tick s p = (.ok (), p')) (run : m.exec fuel a s p' = (.ok u, r))
      (enters : Enters m fuel b u r k t q) : Enters m fuel (.seq a b loc) s p k t q
  | branch {c b k : Node} {loc : Option Loc} {s t : Store} {p p' q : Progress}
      (tick : m.tick s p = (.ok (), p')) (cond : c.eval s = .ok true)
      (enters : Enters m fuel b s p' k t q) : Enters m fuel (.ifThen c b loc) s p k t q
  | round {c b k : Node} {loc : Option Loc} {number : Nat} {s t u : Store} {p p' q r : Progress}
      (tick : m.tick s p = (.ok (), p')) (turns : Turns m fuel c b s p' number u r)
      (room : number < fuel) (cond : c.eval u = .ok true)
      (enters : Enters m fuel b u (r.note [.iteration (number + 1)]) k t q) :
      Enters m fuel (.whileDo c b loc) s p k t q

/-- While a statement is executed, this expression is evaluated, by itself or as a part of another
one. -/
inductive Evaluates (m : Machine) (fuel : Nat) (n : Node) (s : Store) (p : Progress) (e : Node) :
    Store → Progress → Prop
  | operand {k c : Node} {t : Store} {q q' : Progress} (enters : m.Enters fuel n s p k t q)
      (operand : k.operand? = some c) (tick : m.tick t q = (.ok (), q'))
      (part : c.Evaluates t e) : Evaluates m fuel n s p e t q'
  | turn {c b : Node} {loc : Option Loc} {number : Nat} {t u : Store} {q q' r : Progress}
      (enters : m.Enters fuel n s p (.whileDo c b loc) t q) (tick : m.tick t q = (.ok (), q'))
      (turns : m.Turns fuel c b t q' number u r) (room : number < fuel)
      (part : c.Evaluates u e) : Evaluates m fuel n s p e u r

theorem Enters.visits (enters : m.Enters fuel n s p k t q) : m.Visits fuel n s p t q := by
  induction enters with
  | self => exact .enter
  | first tick _ ih => exact .first tick ih
  | second tick run _ ih => exact .second tick run ih
  | branch tick cond _ ih => exact .branch tick cond ih
  | round tick turns _ cond _ ih => exact .round tick turns cond ih

/-! Rounds of a loop, one by one. -/

theorem block_of_ok {body : Store → Exec Store} (run : body s p = (.ok t, q)) :
    block body s p = (.ok (t.withEnvironment s.environment), q) :=
  bind_of_ok run _

theorem block_of_error {body : Store → Exec Store} (run : body s p = (.error stop, q)) :
    block body s p = (.error stop, q) :=
  bind_of_error run _

theorem rounds_of_true {cond : Store → Except Stop Bool} (holds : cond s = .ok true)
    (body : Store → Exec Store) (fuel number : Nat) (p : Progress) :
    m.rounds cond body (fuel + 1) number s p =
      (block body s >>= fun t => m.tick t >>= fun _ => m.rounds cond body fuel (number + 1) t)
        (p.note [.iteration (number + 1)]) := by
  rw [rounds, holds]
  rfl

theorem rounds_of_error {cond : Store → Except Stop Bool} (stops : cond s = .error stop)
    (body : Store → Exec Store) (fuel number : Nat) (p : Progress) :
    m.rounds cond body (fuel + 1) number s p = (.error stop, p) := by
  rw [rounds, stops]
  rfl

theorem Turns.rounds_eq (turns : m.Turns fuel c b s p number t q) (left : Nat) :
    m.rounds (fun s => c.eval s) (m.exec fuel b) (number + left) 0 s p =
      m.rounds (fun s => c.eval s) (m.exec fuel b) left number t q := by
  induction turns generalizing left with
  | first => rw [Nat.zero_add]
  | next _ cond body tick ih =>
    rw [Nat.add_assoc, Nat.add_comm 1 left, ih, rounds_of_true cond, bind_of_ok (block_of_ok body),
      bind_of_ok tick]

theorem Turns.exec_of_error (tick : m.tick s p = (.ok (), p'))
    (turns : m.Turns fuel c b s p' number t q) (room : number < fuel)
    (stops : ∀ left, m.rounds (fun s => c.eval s) (m.exec fuel b) (left + 1) number t q =
      (.error stop, r)) :
    m.exec fuel (.whileDo c b loc) s p = (.error stop, r) := by
  obtain ⟨left, hleft⟩ := Nat.exists_eq_add_of_lt room
  have hrounds := turns.rounds_eq (left + 1)
  rw [stops, ← Nat.add_assoc, ← hleft] at hrounds
  rw [exec, bind_of_ok tick, bind_of_error hrounds]

/-! What stops, stops all around it. -/

theorem Enters.error (enters : m.Enters fuel n s p k t q)
    (run : m.exec fuel k t q = (.error stop, r)) : m.exec fuel n s p = (.error stop, r) := by
  induction enters with
  | self => exact run
  | first tick _ ih => rw [exec, bind_of_ok tick, bind_of_error (ih run)]
  | second tick done _ ih => rw [exec, bind_of_ok tick, bind_of_ok done, ih run]
  | branch tick cond _ ih =>
    rw [exec, bind_of_ok tick, cond]
    exact bind_of_error (block_of_error (ih run)) _
  | round tick turns room cond _ ih =>
    apply turns.exec_of_error tick room
    intro left
    rw [rounds_of_true cond, bind_of_error (block_of_error (ih run))]

theorem exec_of_operand (operand : k.operand? = some c) (tick : m.tick t q = (.ok (), r))
    (stops : c.eval t = .error stop) : m.exec fuel k t q = (.error stop, r) := by
  cases k <;> cases operand <;>
  · rw [exec, bind_of_ok tick, stops]
    rfl

theorem acts_of_exec (basic : k.basic = true) (run : m.exec fuel k s p = (.ok t, q)) :
    ∃ events, m.Acts s k events t ∧ q = p.next.note events := by
  have hends : (m.exec fuel k s).Ends p
      (fun t q => ∃ events, m.Acts s k events t ∧ q = p.next.note events) fun _ _ => True := by
    rw [m.exec_basic fuel basic, ends_bind]
    apply ends_tick
    · intro _
      rw [ends_bind]
      apply ends_ofExcept
      · rintro ⟨events, u⟩ hperform
        rw [ends_bind, ends_record]
        exact ends_inspect ⟨events, acts_of_perform hperform, rfl⟩ fun _ => trivial
      · exact fun _ _ => trivial
    · exact fun _ _ _ => trivial
  exact hends.ok run

theorem exec_of_perform_error (fuel : Nat) (basic : k.basic = true)
    (stops : m.perform t k = .error stop) (q : Progress) :
    m.exec fuel k t q = (.error stop, q.next) ∨
      (∃ budget, m.limit = some budget ∧ budget ≤ q.steps) ∧
        m.exec fuel k t q = (.error (.exhausted t), q.next) := by
  rw [m.exec_basic fuel basic, stops]
  obtain ⟨tick, -⟩ | ⟨tick, spent⟩ := m.tick_cases t q
  · rw [bind_of_ok tick]
    exact .inl rfl
  · exact .inr ⟨spent, bind_of_error tick _⟩

theorem Evaluates.error {e : Node} (evaluates : m.Evaluates fuel n s p e t q)
    (stops : e.eval t = .error stop) : m.exec fuel n s p = (.error stop, q) := by
  cases evaluates with
  | operand enters operand tick part =>
    exact enters.error (exec_of_operand operand tick (part.error stops))
  | turn enters tick turns room part =>
    apply enters.error
    apply turns.exec_of_error tick room
    exact fun left => rounds_of_error (part.error stops) _ left _ _

end Machine
end NandLang
