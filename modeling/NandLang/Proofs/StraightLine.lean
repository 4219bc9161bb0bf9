import NandLang.Proofs.Diagnosis
import NandLang.Proofs.Sequence

/-! Straight-line code. Where nothing branches and nothing is freed, the names in scope are at every
point the names that are bound, and all of them have values; so what the checker refuses is what
faults. The two look at the parts of a statement in different orders, and may blame different names
in it, but they stop at the same statement. -/
namespace NandLang
namespace Node

inductive StraightLine : Node → Prop
  | decl (x : Name) {e : Node} (value : e.Expression) (loc : Option Loc) :
      StraightLine (.decl x e loc)
  | assign (x : Name) {e : Node} (value : e.Expression) (loc : Option Loc) :
      StraightLine (.assign x e loc)
  | seq {a b : Node} (first : StraightLine a) (second : StraightLine b) (loc : Option Loc) :
      StraightLine (.seq a b loc)

def statements (nodes : List (Scope × Node)) : List Node := (nodes.map Prod.snd).filter isStmt

def actions (nodes : List (Scope × Node)) : List Node := (statements nodes).filter basic

variable {n k e : Node} {scope : Scope}

theorem StraightLine.statement (h : n.StraightLine) : n.Statement := by
  induction h with
  | decl x value loc => exact .decl x value loc
  | assign x value loc => exact .assign x value loc
  | seq _ _ loc iha ihb => exact .seq iha ihb loc

theorem statements_append (xs ys : List (Scope × Node)) :
    statements (xs ++ ys) = statements xs ++ statements ys := by
  simp [statements]

theorem actions_append (xs ys : List (Scope × Node)) :
    actions (xs ++ ys) = actions xs ++ actions ys := by
  simp [actions, statements]

theorem statements_cons_seq (a b : Node) (loc : Option Loc) (rest : List (Scope × Node)) :
    statements ((scope, .seq a b loc) :: rest) = .seq a b loc :: statements rest := rfl

theorem actions_cons_seq (a b : Node) (loc : Option Loc) (rest : List (Scope × Node)) :
    actions ((scope, .seq a b loc) :: rest) = actions rest := rfl

theorem Expression.statements_eq_nil (h : e.Expression) (scope : Scope) :
    statements (e.scopedNodes scope) = [] := by
  induction h with
  | lit | var => rfl
  | nand _ _ _ ihl ihr =>
    change statements (_ ++ _) = []
    rw [statements_append, ihl, ihr]
    rfl

theorem StraightLine.statements_of_basic (h : k.StraightLine) (basic : k.basic = true)
    (scope : Scope) : statements (k.scopedNodes scope) = [k] := by
  cases h with
  | seq => cases basic
  | decl x value loc | assign x value loc =>
    exact congrArg (List.cons _) (value.statements_eq_nil scope)

theorem StraightLine.actions_of_basic (h : k.StraightLine) (basic : k.basic = true)
    (scope : Scope) : actions (k.scopedNodes scope) = [k] := by
  rw [actions, h.statements_of_basic basic, List.filter_cons_of_pos basic, List.filter_nil]

end Node

/-- The names in scope are those that are bound, and all of them have values. -/
structure Store.Holds (s : Store) (scope : Scope) : Prop where
  inScope : s.InScope scope
  sound : s.Sound
  unfreed : s.freed = []

theorem Store.Holds.initial : Store.Holds {} [] := ⟨fun _ => Iff.rfl, .initial, rfl⟩

namespace Node

variable {s : Store} {scope : Scope} {e : Node} {x : Name}

theorem resolve_of_holds (holds : s.Holds scope) (hx : x ∈ scope) (loc : Option Loc) :
    ∃ l v, resolve s x loc = .ok l ∧ s.read l = some v := by
  obtain ⟨l, bound⟩ := Table.exists_get?_of_mem ((holds.inScope x).mp hx)
  have live : s.isFreed x = false := by
    rw [Store.isFreed, holds.unfreed]
    rfl
  obtain ⟨v, hv⟩ := Table.exists_get?_of_mem (holds.sound.stored_of_live bound live)
  exact ⟨l, v, resolve_eq_ok_iff.mpr ⟨bound, live⟩, hv⟩

theorem resolve_of_notMem (inScope : s.InScope scope) (hx : x ∉ scope) (loc : Option Loc) :
    resolve s x loc = .error (.fault ⟨.undeclared, x, none, loc⟩) := by
  have unbound : s.lookup x = none := by
    rwa [Store.lookup_eq_none_iff, ← inScope x]
  rw [resolve, unbound]

theorem Expression.eval_cases (h : e.Expression) (holds : s.Holds scope) :
    (e.firstBreach? scope = none ∧ ∃ v, e.eval s = .ok v) ∨
      ∃ d f, e.firstBreach? scope = some d ∧ e.eval s = .error (.fault f) ∧
        f.kind = .undeclared := by
  induction h with
  | lit b loc => exact .inl ⟨rfl, b, rfl⟩
  | var x loc =>
    rw [firstBreach?_eq rfl, breach?_of_uses rfl, eval]
    by_cases hx : x ∈ scope
    · obtain ⟨l, v, hl, hv⟩ := resolve_of_holds holds hx loc
      refine .inl ⟨by rw [if_pos hx]; rfl, v, ?_⟩
      rw [hl]
      exact bind_eq_ok_iff.mpr ⟨l, rfl, by rw [hv]⟩
    · rw [if_neg hx, resolve_of_notMem holds.inScope hx]
      exact .inr ⟨_, _, rfl, rfl, rfl⟩
  | nand _ _ loc ihl ihr =>
    rw [firstBreach?_of_parts rfl rfl, eval]
    obtain ⟨hl, v, hv⟩ | ⟨d, f, hl, hf, kind⟩ := ihl
    · rw [hl, hv, Option.none_or]
      obtain ⟨hr, w, hw⟩ | ⟨d, f, hr, hf, kind⟩ := ihr
      · exact .inl ⟨hr, _, by rw [hw]; rfl⟩
      · exact .inr ⟨d, f, hr, by rw [hf]; rfl, kind⟩
    · rw [hl, hf]
      exact .inr ⟨d, f, rfl, rfl, kind⟩

end Node

namespace Machine
open Exec Node

variable {m : Machine} {fuel : Nat} {n k : Node} {s t u : Store} {scope : Scope}

theorem holds_of_perform {events : List Event} (straight : k.StraightLine)
    (basic : k.basic = true) (accepted : k.firstBreach? scope = none) (holds : s.Holds scope)
    (h : m.perform s k = .ok (events, t)) : t.Holds (k.openNames.reverse ++ scope) := by
  have checked : k.checkStmt scope = .ok (k.openNames.reverse ++ scope) := by
    rw [straight.statement.checkStmt_eq, accepted]
    rfl
  have acts := acts_of_perform h
  refine ⟨inScope_of_perform checked holds.inScope h, acts.sound holds.sound, ?_⟩
  cases straight with
  | seq => cases basic
  | decl =>
    cases acts
    simp [Store.declare, holds.unfreed]
  | assign =>
    cases acts
    exact holds.unfreed

theorem perform_cases (m : Machine) (straight : k.StraightLine) (basic : k.basic = true)
    (holds : s.Holds scope) :
    (k.firstBreach? scope = none ∧ ∃ done, m.perform s k = .ok done) ∨
      ∃ d f, k.firstBreach? scope = some d ∧ m.perform s k = .error (.fault f) ∧
        (f.kind = .undeclared ∨ f.kind = .redeclared) := by
  cases straight with
  | seq => cases basic
  | decl x value loc =>
    rw [firstBreach?_eq rfl, breach?_of_declares rfl, perform]
    obtain ⟨hvalue, v, hv⟩ | ⟨d, f, hvalue, hf, kind⟩ := value.eval_cases holds
    · rw [hv]
      by_cases hx : x ∈ scope
      · obtain ⟨l, bound⟩ := Table.exists_get?_of_mem ((holds.inScope x).mp hx)
        refine .inr ⟨_, ⟨.redeclared, x, some l, loc⟩, by rw [if_pos hx]; rfl, ?_, .inr rfl⟩
        exact bind_eq_error_iff.mpr (.inr ⟨v, rfl, by rw [Store.lookup, bound]⟩)
      · have unbound : s.lookup x = none := by
          rwa [Store.lookup_eq_none_iff, ← holds.inScope x]
        refine .inl ⟨by rw [if_neg hx]; exact hvalue, ?_⟩
        rw [unbound]
        exact ⟨_, rfl⟩
    · -- The value is evaluated first, whatever the checker has to say of the name.
      rw [hf]
      by_cases hx : x ∈ scope
      · exact .inr ⟨_, f, by rw [if_pos hx]; rfl, rfl, .inl kind⟩
      · exact .inr ⟨d, f, by rw [if_neg hx]; exact hvalue, rfl, .inl kind⟩
  | assign x value loc =>
    rw [firstBreach?_eq rfl, breach?_of_uses rfl, perform]
    obtain ⟨hvalue, v, hv⟩ | ⟨d, f, hvalue, hf, kind⟩ := value.eval_cases holds
    · rw [hv]
      by_cases hx : x ∈ scope
      · obtain ⟨l, old, hl, hold⟩ := resolve_of_holds holds hx loc
        refine .inl ⟨by rw [if_pos hx]; exact hvalue, ([], s.write l v), ?_⟩
        rw [hl]
        exact bind_eq_ok_iff.mpr ⟨v, rfl, bind_eq_ok_iff.mpr ⟨l, rfl, by rw [hold]⟩⟩
      · rw [if_neg hx, resolve_of_notMem holds.inScope hx]
        exact .inr ⟨_, _, rfl, rfl, .inl rfl⟩
    · rw [hf]
      by_cases hx : x ∈ scope
      · exact .inr ⟨d, f, by rw [if_pos hx]; exact hvalue, rfl, .inl kind⟩
      · exact .inr ⟨_, f, by rw [if_neg hx]; rfl, rfl, .inl kind⟩

/-- Statements that run to their ends one after another, with the steps and the log of them all. -/
inductive RunsEach (m : Machine) (fuel : Nat) :
    List Node → Store → Store → Nat → List Event → Prop
  | nil (s : Store) : RunsEach m fuel [] s s 0 []
  | cons {n : Node} {rest : List Node} {s t u : Store} {k j : Nat} {es fs : List Event}
      (first : (m.exec fuel n s).Yields (.ok t) k es) (later : RunsEach m fuel rest t u j fs) :
      RunsEach m fuel (n :: rest) s u (k + j) (fs ++ es)

theorem RunsEach.append {ns ns' : List Node} {k j : Nat} {es fs : List Event}
    (h : m.RunsEach fuel ns s t k es) (h' : m.RunsEach fuel ns' t u j fs) :
    m.RunsEach fuel (ns ++ ns') s u (k + j) (fs ++ es) := by
  induction h with
  | nil => simpa using h'
  | cons first _ ih =>
    rw [Nat.add_assoc, ← List.append_assoc]
    exact .cons first (ih h')

theorem RunsEach.execEach {ns : List Node} {k : Nat} {es : List Event}
    (h : m.RunsEach fuel ns s t k es) (steps : Nat) :
    Interpreter.execEach ⟨m, steps⟩ fuel ns s = ⟨.ok t, ⟨m, steps + k⟩, es.reverse⟩ := by
  induction h generalizing steps with
  | nil => rfl
  | cons first _ ih =>
    rw [Interpreter.execEach_of_yields_ok first, ih]
    simp [Nat.add_assoc]

/-- Straight-line code runs to its end, where the names in scope are those that the checker
foretells. Every statement of it takes a step, and those that act do so in their order. -/
structure Completes (m : Machine) (fuel : Nat) (n : Node) (scope : Scope) (s t : Store)
    (events : List Event) : Prop where
  accepted : n.firstBreach? scope = none
  holds : t.Holds (n.openNames.reverse ++ scope)
  yields : (m.exec fuel n s).Yields (.ok t) (statements (n.scopedNodes scope)).length events
  each : ∃ steps, m.RunsEach fuel (actions (n.scopedNodes scope)) s t steps events

/-- Straight-line code stops at a statement that acts, both when it is checked and when it is
executed. All statements before that one are accepted, and run to their ends. -/
structure StopsAt (m : Machine) (fuel : Nat) (n : Node) (scope : Scope) (s : Store)
    (before : List (Scope × Node)) (here : Scope) (k : Node) (d : Diagnostic) (f : Fault) :
    Prop where
  comes : ∃ after, n.scopedNodes scope = before ++ (k.scopedNodes here ++ after)
  action : ∃ x e loc, k = .decl x e loc ∨ k = .assign x e loc
  unbroken : (before.findSome? fun e => e.2.breach? e.1) = none
  refused : k.firstBreach? here = some d
  kind : f.kind = .undeclared ∨ f.kind = .redeclared
  faults : ∃ t steps events, m.RunsEach fuel (actions before) s t steps events ∧
    (m.exec fuel k t).Yields (.error (.fault f)) 1 [] ∧
    (m.exec fuel n s).Yields (.error (.fault f)) ((statements before).length + 1) events

theorem StopsAt.firstBreach? {before : List (Scope × Node)} {here : Scope} {d : Diagnostic}
    {f : Fault} (stops : m.StopsAt fuel n scope s before here k d f) :
    n.firstBreach? scope = some d := by
  obtain ⟨after, hnodes⟩ := stops.comes
  rw [Node.firstBreach?, hnodes, List.findSome?_append, stops.unbroken, Option.none_or,
    List.findSome?_append]
  exact (congrArg (Option.or · _) stops.refused).trans Option.some_or

section
variable (unlimited : m.limit = none)
include unlimited

theorem exec_cases_of_basic (fuel : Nat) (straight : k.StraightLine) (basic : k.basic = true)
    (holds : s.Holds scope) :
    (∃ t events, m.Completes fuel k scope s t events) ∨
      ∃ d f, m.StopsAt fuel k scope s [] scope k d f := by
  obtain ⟨accepted, ⟨events, t⟩, hperform⟩ | ⟨d, f, refused, hperform, kind⟩ :=
    m.perform_cases straight basic holds
  · have hholds := holds_of_perform straight basic accepted holds hperform
    have hyields : (m.exec fuel k s).Yields (.ok t) 1 events := by
      intro p
      rw [m.exec_basic fuel basic, bind_of_ok (yields_tick unlimited s p), hperform]
      change (m.inspect t) _ = _
      rw [inspect_of_sound hholds.sound]
      rfl
    refine .inl ⟨t, events, accepted, hholds, ?_, 1, ?_⟩
    · rwa [straight.statements_of_basic basic]
    · rw [straight.actions_of_basic basic]
      exact .cons hyields (.nil t)
  · have hyields : (m.exec fuel k s).Yields (.error (.fault f)) 1 [] := by
      intro p
      rw [m.exec_basic fuel basic, bind_of_ok (yields_tick unlimited s p), hperform]
      rfl
    have action : ∃ x e loc, k = .decl x e loc ∨ k = .assign x e loc := by
      cases straight with
      | seq => cases basic
      | decl x _ loc => exact ⟨x, _, loc, .inl rfl⟩
      | assign x _ loc => exact ⟨x, _, loc, .inr rfl⟩
    exact .inr ⟨d, f, ⟨[], by simp⟩, action, rfl, refused, kind, s, 0, [], .nil s, hyields, hyields⟩

theorem exec_cases_of_straightLine (fuel : Nat) (straight : n.StraightLine)
    (holds : s.Holds scope) :
    (∃ t events, m.Completes fuel n scope s t events) ∨
      ∃ before here k d f, m.StopsAt fuel n scope s before here k d f := by
  induction straight generalizing s scope with
  | decl x value loc =>
    exact (exec_cases_of_basic unlimited fuel (.decl x value loc) rfl holds).imp_right
      fun ⟨d, f, stops⟩ => ⟨_, _, _, d, f, stops⟩
  | assign x value loc =>
    exact (exec_cases_of_basic unlimited fuel (.assign x value loc) rfl holds).imp_right
      fun ⟨d, f, stops⟩ => ⟨_, _, _, d, f, stops⟩
  | @seq a b first second loc iha ihb =>
    have hnodes : (Node.seq a b loc).scopedNodes scope = (scope, .seq a b loc) ::
        (a.scopedNodes scope ++ b.scopedNodes (a.openNames.reverse ++ scope)) := rfl
    obtain ⟨t, es, ha⟩ | ⟨before, here, k, d, f, stops⟩ := iha holds
    · obtain ⟨j, heach⟩ := ha.each
      obtain ⟨u, fs, hb⟩ | ⟨before, here, k, d, f, stops⟩ := ihb ha.holds
      · obtain ⟨j', heach'⟩ := hb.each
        refine .inl ⟨u, fs ++ es, ?_, ?_, ?_, j + j', ?_⟩
        · rw [firstBreach?_of_parts rfl rfl, ha.accepted, hb.accepted]
          rfl
        · rw [openNames_seq, List.reverse_append, List.append_assoc]
          exact hb.holds
        · rw [hnodes, statements_cons_seq, statements_append, List.length_cons,
            List.length_append]
          exact yields_seq unlimited ha.yields hb.yields loc
        · rw [hnodes, actions_cons_seq, actions_append]
          exact heach.append heach'
      · obtain ⟨after, hcomes⟩ := stops.comes
        obtain ⟨v, j', fs, hran, hk, hyields⟩ := stops.faults
        refine .inr ⟨(scope, .seq a b loc) :: (a.scopedNodes scope ++ before), here, k, d, f,
          ⟨after, ?_⟩, stops.action, ?_, stops.refused, stops.kind, v, j + j', fs ++ es, ?_, hk, ?_⟩
        · rw [hnodes, hcomes, List.cons_append, List.append_assoc]
        · rw [List.findSome?_cons]
          change (List.findSome? _ (_ ++ _)) = none
          rw [List.findSome?_append, stops.unbroken, Option.or_none]
          exact ha.accepted
        · rw [actions_cons_seq, actions_append]
          exact heach.append hran
        · rw [statements_cons_seq, statements_append, List.length_cons, List.length_append,
            Nat.add_right_comm, Nat.add_assoc (List.length _)]
          exact yields_seq unlimited ha.yields hyields loc
    · obtain ⟨after, hcomes⟩ := stops.comes
      obtain ⟨v, j, es, hran, hk, hyields⟩ := stops.faults
      refine .inr ⟨(scope, .seq a b loc) :: before, here, k, d, f,
        ⟨after ++ b.scopedNodes (a.openNames.reverse ++ scope), ?_⟩, stops.action, stops.unbroken,
        stops.refused, stops.kind, v, j, es, hran, hk, ?_⟩
      · rw [hnodes, hcomes]
        simp
      · rw [statements_cons_seq, List.length_cons]
        exact yields_seq_error unlimited hyields b loc

end
end Machine

/-- Straight-line code is accepted exactly if it runs to its end without a budget. Where it is
refused, a walk through it comes past statements that keep to the rule for names to a declaration or
an assignment that holds the node to blame. The statements before that one run to their ends, it
itself faults on a name that is missing or bound already, and so does the whole: what was logged is
what they logged, and no step was taken past it. -/
theorem straight_line_refused_where_faulting (i : Interpreter)
    (unlimited : i.machine.limit = none) (fuel : Nat) (c : Checker) {n : Node}
    (straight : n.StraightLine) :
    let checked := c.statement n []
    let executed := i.exec fuel n {}
    ((∃ scope, checked.result = .ok (some scope)) ↔ ∃ t, executed.result = .ok t) ∧
    ((∃ scope, checked.result = .ok (some scope)) ∨
      checked.result = .ok none ∧ ∃ d before here k after s f,
        let ran := i.execEach fuel (Node.actions before) {}
        checked.checker.diagnostics = [d] ∧
        n.scopedNodes [] = before ++ (k.scopedNodes here ++ after) ∧
        (∀ e ∈ before, ∀ code x, ¬e.2.Breaks e.1 code x) ∧
        (∃ x e loc, k = .decl x e loc ∨ k = .assign x e loc) ∧ d.BlamesFirst here k ∧
        ran.result = .ok s ∧ (ran.interpreter.exec fuel k s).result = .error (.fault f) ∧
        (f.kind = .undeclared ∨ f.kind = .redeclared) ∧
        executed.result = .error (.fault f) ∧ executed.events = ran.events ∧
        executed.interpreter.steps = i.steps + (Node.statements before).length + 1) := by
  intro checked executed
  have hchecked : checked = c.statement n [] := rfl
  rw [Checker.statement, straight.statement.checkStmt_eq] at hchecked
  obtain ⟨t, events, completes⟩ | ⟨before, here, k, d, f, stops⟩ :=
    Machine.exec_cases_of_straightLine unlimited fuel straight .initial
  · rw [completes.accepted] at hchecked
    have accepted : ∃ scope, checked.result = .ok (some scope) := by
      rw [hchecked]
      exact ⟨_, rfl⟩
    have returns : ∃ t, executed.result = .ok t :=
      ⟨t, congrArg _ (Interpreter.exec_of_yields completes.yields)⟩
    exact ⟨iff_of_true accepted returns, .inl accepted⟩
  · rw [stops.firstBreach?] at hchecked
    obtain ⟨after, hcomes⟩ := stops.comes
    obtain ⟨s, steps, events, hran, hk, hyields⟩ := stops.faults
    have hrefused : checked.result = .ok none := by rw [hchecked]; rfl
    have hran : i.execEach fuel (Node.actions before) {} =
        ⟨.ok s, ⟨i.machine, i.steps + steps⟩, events.reverse⟩ := hran.execEach i.steps
    have hexecuted : executed = _ := Interpreter.exec_of_yields hyields
    have hunbroken : ∀ e ∈ before, ∀ code x, ¬e.2.Breaks e.1 code x := fun e he =>
      Node.not_breaks_of_breach? (List.findSome?_eq_none_iff.mp stops.unbroken e he)
    refine ⟨iff_of_false ?_ ?_, .inr ⟨hrefused, d, before, here, k, after, s, f, ?_, hcomes,
      hunbroken, stops.action, Node.blamesFirst_of_firstBreach? stops.refused, ?_, ?_, stops.kind,
      ?_, ?_, ?_⟩⟩
    · rintro ⟨scope, hscope⟩
      cases hrefused.symm.trans hscope
    · rintro ⟨t, ht⟩
      rw [hexecuted] at ht
      cases ht
    · rw [hchecked]
      rfl
    · rw [hran]
    · rw [hran]
      exact congrArg Prod.fst (hk _)
    · rw [hexecuted]
    · rw [hexecuted, hran]
    · rw [hexecuted]
      rfl

def Node.declaredAgain : Node :=
  .seq (.seq (.decl "a" (.lit true none) none) (.assign "a" (.lit false none) none) none)
    (.seq (.decl "a" (.var "b" none) none) (.decl "b" (.lit true none) none) none) none

/-- Both stop at the third statement, the checker for its name and the machine for its value, and
the last statement is not come to. Without it and the third one the rest is accepted and ends. -/
theorem declaredAgain_refused_where_faulting :
    let again := Node.decl "a" (.var "b" none) none
    let d : Diagnostic := ⟨.redeclared, "a", again, none⟩
    let f : Fault := ⟨.undeclared, "b", none, none⟩
    let start := Node.seq (.decl "a" (.lit true none) none)
      (.assign "a" (.lit false none) none) none
    Node.declaredAgain.StraightLine ∧
    (Checker.statement {} Node.declaredAgain []).checker.diagnostics = [d] ∧
    (Interpreter.exec {} 0 Node.declaredAgain {}).result = .error (.fault f) ∧
    (∃ before here k after s, Node.declaredAgain.scopedNodes [] =
        before ++ (k.scopedNodes here ++ after) ∧ d.BlamesFirst here k ∧
      (Interpreter.execEach {} 0 (Node.actions before) {}).result = .ok s ∧
      (Node.statements before).length + 1 = 6) ∧
    start.StraightLine ∧ (∃ t, (Interpreter.exec {} 0 start {}).result = .ok t) ∧
    ∃ scope, (Checker.statement {} start []).result = .ok (some scope) := by
  intro again d f start
  have hstart : start.StraightLine := .seq (.decl _ (.lit _ _) _) (.assign _ (.lit _ _) _) _
  have hagain : Node.declaredAgain.StraightLine :=
    .seq hstart (.seq (.decl _ (.var _ _) _) (.decl _ (.lit _ _) _) _) _
  have hreturns : ∃ t, (Interpreter.exec {} 0 start {}).result = .ok t := ⟨_, rfl⟩
  have hsteps : (Interpreter.exec {} 0 Node.declaredAgain {}).interpreter.steps = 0 + 6 := rfl
  obtain ⟨-, ⟨_, accepted⟩ | ⟨-, d', before, here, k, after, s, g, hd, hnodes, -, -, hblames, hran,
    -, -, -, -, hcount⟩⟩ := straight_line_refused_where_faulting {} rfl 0 {} hagain
  · cases accepted
  · cases hd
    rw [hsteps, Nat.add_assoc] at hcount
    exact ⟨hagain, rfl, rfl, ⟨before, here, k, after, s, hnodes, hblames, hran,
      (Nat.add_left_cancel hcount).symm⟩, hstart, hreturns,
      (straight_line_refused_where_faulting {} rfl 0 {} hstart).1.mpr hreturns⟩

end NandLang
