import NandLang.Grammar
import NandLang.Proofs.Tree

/-! The grammar of programs, as a relation between data and the trees that they denote, and the
proof that data are read by it: a tree is read exactly where the grammar derives it, and everything
else is an error of form, of number or of name. -/
namespace NandLang

structure NameWord (w : String) : Prop where
  unreserved : ∀ k : Keyword, w ≠ k.word
  admitted : admitsName w.toList = true

inductive ExprForm (loc : Option Loc) : Datum → Node → Prop
  | yes : ExprForm loc (.symbol Keyword.yes.word) (.lit true loc)
  | no : ExprForm loc (.symbol Keyword.no.word) (.lit false loc)
  | name {x : Name} (name : NameWord x) : ExprForm loc (.symbol x) (.var x loc)
  | nand {d₁ d₂ : Datum} {l r : Node} (left : ExprForm loc d₁ l) (right : ExprForm loc d₂ r) :
      ExprForm loc (.list [.symbol Keyword.nand.word, d₁, d₂]) (.nand l r loc)

mutual

inductive StmtForm (loc : Option Loc) : Datum → Node → Prop
  | decl {x : Name} {d : Datum} {e : Node} (name : NameWord x) (value : ExprForm loc d e) :
      StmtForm loc (.list [.symbol Keyword.decl.word, .symbol x, d]) (.decl x e loc)
  | assign {x : Name} {d : Datum} {e : Node} (name : NameWord x) (value : ExprForm loc d e) :
      StmtForm loc (.list [.symbol Keyword.assign.word, .symbol x, d]) (.assign x e loc)
  | ifThen {d₁ d₂ : Datum} {c b : Node} (cond : ExprForm loc d₁ c) (body : StmtForm loc d₂ b) :
      StmtForm loc (.list [.symbol Keyword.ifThen.word, d₁, d₂]) (.ifThen c b loc)
  | whileDo {d₁ d₂ : Datum} {c b : Node} (cond : ExprForm loc d₁ c) (body : StmtForm loc d₂ b) :
      StmtForm loc (.list [.symbol Keyword.whileDo.word, d₁, d₂]) (.whileDo c b loc)
  | seq {data : List Datum} {n : Node} (row : RowForm loc data n) :
      StmtForm loc (.list (.symbol Keyword.seq.word :: data)) n
  | free {x : Name} (name : NameWord x) :
      StmtForm loc (.list [.symbol Keyword.free.word, .symbol x]) (.free x loc)

/-- A row of statements nests to the right; a single one is itself. -/
inductive RowForm (loc : Option Loc) : List Datum → Node → Prop
  | one {d : Datum} {n : Node} (only : StmtForm loc d n) : RowForm loc [d] n
  | more {d : Datum} {data : List Datum} {a b : Node} (first : StmtForm loc d a)
      (rest : RowForm loc data b) : RowForm loc (d :: data) (.seq a b loc)

end

def SyntaxError.Grammatical (e : SyntaxError) : Prop :=
  e.code = .unknownForm ∨ e.code = .wrongArity ∨ e.code = .invalidName

theorem Keyword.word_of_ofWord? {w : String} {k : Keyword} (h : Keyword.ofWord? w = some k) :
    w = k.word := by
  have := List.find?_some h
  exact (beq_iff_eq.mp this).symm

@[simp] theorem Keyword.ofWord?_word (k : Keyword) : Keyword.ofWord? k.word = some k := by
  cases k <;> decide

theorem Keyword.ofWord?_eq_none_iff {w : String} :
    Keyword.ofWord? w = none ↔ ∀ k : Keyword, w ≠ k.word := by
  constructor
  · rintro h k rfl
    rw [ofWord?_word] at h
    cases h
  · intro h
    cases hw : Keyword.ofWord? w with
    | none => rfl
    | some k => exact absurd (word_of_ofWord? hw) (h k)

namespace Datum

def Outcome {α : Type} (P : α → Prop) : Except SyntaxError α → Prop
  | .ok a => P a
  | .error e => e.Grammatical

theorem Outcome.bind {α β : Type} {P : α → Prop} {Q : β → Prop} {x : Except SyntaxError α}
    {f : α → Except SyntaxError β} (h : Outcome P x) (hf : ∀ a, P a → Outcome Q (f a)) :
    Outcome Q (x >>= f) := by
  cases x with
  | ok a => exact hf a h
  | error e => exact h

theorem Outcome.map₂ {α β γ : Type} {P : α → Prop} {Q : β → Prop} {R : γ → Prop} {f : α → β → γ}
    {x : Except SyntaxError α} {y : Except SyntaxError β} (hx : Outcome P x) (hy : Outcome Q y)
    (hf : ∀ a b, P a → Q b → R (f a b)) : Outcome R (do .ok (f (← x) (← y))) := by
  apply hx.bind
  intro a ha
  apply hy.bind
  intro b hb
  exact hf a b ha hb

theorem outcome_toName (d : Datum) : Outcome (fun x => d = .symbol x ∧ NameWord x) d.toName := by
  fun_cases toName d with
  | case1 w keyword => exact .inr (.inr rfl)
  | case2 w free admitted =>
    have free : Keyword.ofWord? w = none := by simpa using free
    exact ⟨rfl, Keyword.ofWord?_eq_none_iff.mp free, admitted⟩
  | case3 w free illegal => exact .inr (.inr rfl)
  | case4 d other => exact .inr (.inr rfl)

theorem outcome_toExpr (loc : Option Loc) (d : Datum) :
    Outcome (ExprForm loc d) (d.toExpr loc) := by
  fun_induction toExpr loc d with
  | case1 w h =>
    rw [Keyword.word_of_ofWord? h]
    exact .yes
  | case2 w h =>
    rw [Keyword.word_of_ofWord? h]
    exact .no
  | case3 w =>
    have := outcome_toName (.symbol w)
    revert this
    cases toName (.symbol w) with
    | error e => exact id
    | ok x =>
      rintro ⟨⟨⟩, name⟩
      exact .name name
  | case4 => exact .inl rfl
  | case5 tag h l r ihl ihr =>
    rw [Keyword.word_of_ofWord? h]
    exact ihl.map₂ ihr fun _ _ => .nand
  | case6 => exact .inr (.inl rfl)
  | case7 | case8 | case9 => exact .inl rfl

def items : Datum → List Datum
  | .list items => items
  | _ => []

@[elab_as_elim]
theorem items_induction {motive : Datum → Prop}
    (step : ∀ d : Datum, (∀ part ∈ d.items, motive part) → motive d) (d : Datum) : motive d := by
  apply step
  intro part hpart
  cases d with
  | list parts => exact items_induction step part
  | _ => cases hpart
termination_by sizeOf d
decreasing_by
  have := List.sizeOf_lt_of_mem hpart
  simp only [items, list.sizeOf_spec] at *
  omega

theorem outcome_toStmts {loc : Option Loc} {data : List Datum}
    (each : ∀ d ∈ data, Outcome (StmtForm loc d) (d.toStmt loc)) :
    Outcome (List.Forall₂ (StmtForm loc) data) (toStmts loc data) := by
  induction data with
  | nil => exact .nil
  | cons d rest ih =>
    obtain ⟨hd, hrest⟩ := List.forall_mem_cons.mp each
    rw [toStmts]
    exact hd.map₂ (ih hrest) fun _ _ => .cons

theorem rowForm_sequence {loc : Option Loc} {d : Datum} {data : List Datum} {n : Node}
    {ns : List Node} (first : StmtForm loc d n) (rest : List.Forall₂ (StmtForm loc) data ns) :
    RowForm loc (d :: data) (Node.sequence loc n ns) := by
  induction rest generalizing d n with
  | nil => exact .one first
  | cons next _ ih => exact .more first (ih next)

theorem outcome_toStmt (loc : Option Loc) (d : Datum) :
    Outcome (StmtForm loc d) (d.toStmt loc) := by
  induction d using items_induction with
  | step d ih =>
    fun_cases toStmt loc d with
    | case2 tag x e h =>
      rw [Keyword.word_of_ofWord? h]
      refine (outcome_toName x).map₂ (outcome_toExpr loc e) ?_
      rintro x e ⟨rfl, name⟩ value
      exact .decl name value
    | case3 tag x e h =>
      rw [Keyword.word_of_ofWord? h]
      refine (outcome_toName x).map₂ (outcome_toExpr loc e) ?_
      rintro x e ⟨rfl, name⟩ value
      exact .assign name value
    | case4 tag c b h =>
      rw [Keyword.word_of_ofWord? h]
      exact (outcome_toExpr loc c).map₂ (ih b (by simp [items])) fun _ _ => .ifThen
    | case5 tag c b h =>
      rw [Keyword.word_of_ofWord? h]
      exact (outcome_toExpr loc c).map₂ (ih b (by simp [items])) fun _ _ => .whileDo
    | case6 tag first rest h =>
      rw [Keyword.word_of_ofWord? h]
      refine (ih first (by simp [items])).map₂
        (outcome_toStmts fun d hd => ih d (by simp [items, hd])) ?_
      intro n ns hn hns
      exact .seq (rowForm_sequence hn hns)
    | case7 tag x h =>
      rw [Keyword.word_of_ofWord? h]
      apply (outcome_toName x).bind
      rintro x ⟨rfl, name⟩
      exact .free name
    | case8 | case9 | case10 | case11 | case12 | case13 => exact .inr (.inl rfl)
    | case1 | case14 | case15 | case16 => exact .inl rfl

end Datum

theorem Datum.toName_of_nameWord {x : Name} (h : NameWord x) : toName (.symbol x) = .ok x := by
  rw [toName, Keyword.ofWord?_eq_none_iff.mpr h.unreserved, if_neg (by simp), if_pos h.admitted]

theorem ExprForm.toExpr {loc : Option Loc} {d : Datum} {n : Node} (h : ExprForm loc d n) :
    d.toExpr loc = .ok n := by
  induction h with
  | yes | no => rfl
  | @name x name =>
    rw [Datum.toExpr, Keyword.ofWord?_eq_none_iff.mpr name.unreserved,
      Datum.toName_of_nameWord name]
    rfl
  | nand _ _ ihl ihr =>
    rw [Datum.toExpr, if_pos (Keyword.ofWord?_word .nand), ihl, ihr]
    rfl

mutual

theorem StmtForm.toStmt {loc : Option Loc} {d : Datum} {n : Node} :
    StmtForm loc d n → d.toStmt loc = .ok n
  | .decl name value => by
    simp only [Datum.toStmt, Keyword.ofWord?_word, Datum.toName_of_nameWord name, value.toExpr]
    rfl
  | .assign name value => by
    simp only [Datum.toStmt, Keyword.ofWord?_word, Datum.toName_of_nameWord name, value.toExpr]
    rfl
  | .ifThen cond body => by
    simp only [Datum.toStmt, Keyword.ofWord?_word, cond.toExpr, body.toStmt]
    rfl
  | .whileDo cond body => by
    simp only [Datum.toStmt, Keyword.ofWord?_word, cond.toExpr, body.toStmt]
    rfl
  | .seq row => by
    obtain ⟨d, data, a, ns, rfl, hd, hdata, rfl⟩ := row.toStmts
    simp only [Datum.toStmt, Keyword.ofWord?_word, hd, hdata]
    rfl
  | .free name => by
    simp only [Datum.toStmt, Keyword.ofWord?_word, Datum.toName_of_nameWord name]
    rfl

theorem RowForm.toStmts {loc : Option Loc} {data : List Datum} {n : Node} :
    RowForm loc data n → ∃ d rest a ns, data = d :: rest ∧ d.toStmt loc = .ok a ∧
      Datum.toStmts loc rest = .ok ns ∧ n = Node.sequence loc a ns
  | .one only => ⟨_, _, _, _, rfl, only.toStmt, rfl, rfl⟩
  | .more first rest => by
    obtain ⟨d, data, a, ns, rfl, hd, hdata, rfl⟩ := rest.toStmts
    refine ⟨_, _, _, a :: ns, rfl, first.toStmt, ?_, rfl⟩
    rw [Datum.toStmts, hd, hdata]
    rfl

end

theorem ExprForm.expression {loc : Option Loc} {d : Datum} {n : Node} (h : ExprForm loc d n) :
    n.Expression := by
  induction h with
  | yes | no => exact .lit _ _
  | name => exact .var _ _
  | nand _ _ ihl ihr => exact .nand ihl ihr _

mutual

theorem StmtForm.statement {loc : Option Loc} {d : Datum} {n : Node} :
    StmtForm loc d n → n.Statement
  | .decl _ value => .decl _ value.expression _
  | .assign _ value => .assign _ value.expression _
  | .ifThen cond body => .ifThen cond.expression body.statement _
  | .whileDo cond body => .whileDo cond.expression body.statement _
  | .seq row => row.statement
  | .free _ => .free _ _

theorem RowForm.statement {loc : Option Loc} {data : List Datum} {n : Node} :
    RowForm loc data n → n.Statement
  | .one only => only.statement
  | .more first rest => .seq first.statement rest.statement _

end

theorem ExprForm.stamped {loc : Option Loc} {d : Datum} {n : Node} (h : ExprForm loc d n) :
    ∀ m ∈ n.preorder, m.loc = loc := by
  induction h with
  | yes | no | name => simp [Node.preorder, Node.loc]
  | nand _ _ ihl ihr =>
    simp only [Node.preorder, List.forall_mem_cons, List.forall_mem_append]
    exact ⟨rfl, ihl, ihr⟩

mutual

theorem StmtForm.stamped {loc : Option Loc} {d : Datum} {n : Node} :
    StmtForm loc d n → ∀ m ∈ n.preorder, m.loc = loc
  | .decl _ value | .assign _ value => List.forall_mem_cons.mpr ⟨rfl, value.stamped⟩
  | .ifThen cond body | .whileDo cond body =>
    List.forall_mem_cons.mpr ⟨rfl, List.forall_mem_append.mpr ⟨cond.stamped, body.stamped⟩⟩
  | .seq row => row.stamped
  | .free _ => List.forall_mem_cons.mpr ⟨rfl, nofun⟩

theorem RowForm.stamped {loc : Option Loc} {data : List Datum} {n : Node} :
    RowForm loc data n → ∀ m ∈ n.preorder, m.loc = loc
  | .one only => only.stamped
  | .more first rest =>
    List.forall_mem_cons.mpr ⟨rfl, List.forall_mem_append.mpr ⟨first.stamped, rest.stamped⟩⟩

end

theorem Datum.Outcome.ok_of_eq {α : Type} {P : α → Prop} {x : Except SyntaxError α} {a : α}
    (h : Outcome P x) (hx : x = .ok a) : P a := by
  subst hx
  exact h

theorem Datum.Outcome.error {α : Type} {P : α → Prop} {x : Except SyntaxError α}
    (h : Outcome P x) (none : ∀ a, ¬P a) : ∃ e, x = .error e ∧ e.Grammatical := by
  cases x with
  | ok a => exact absurd h (none a)
  | error e => exact ⟨e, rfl, h⟩

/-- A datum is read as a statement exactly if the grammar derives it, and then as the tree that the
derivation denotes, each node of it at the location given. Every other datum is refused with an
error of grammar. The same holds of expressions. -/
theorem read_iff_derivable (loc : Option Loc) (d : Datum) :
    ((∀ n, d.toStmt loc = .ok n ↔ StmtForm loc d n) ∧
      (∀ n, StmtForm loc d n → ∀ m ∈ n.preorder, m.loc = loc) ∧
      ((∀ n, ¬StmtForm loc d n) → ∃ e, d.toStmt loc = .error e ∧ e.Grammatical)) ∧
    ((∀ n, d.toExpr loc = .ok n ↔ ExprForm loc d n) ∧
      (∀ n, ExprForm loc d n → ∀ m ∈ n.preorder, m.loc = loc) ∧
      ((∀ n, ¬ExprForm loc d n) → ∃ e, d.toExpr loc = .error e ∧ e.Grammatical)) ∧
    ∀ x, d.toName = .ok x ↔ d = .symbol x ∧ NameWord x := by
  have hstmt := Datum.outcome_toStmt loc d
  have hexpr := Datum.outcome_toExpr loc d
  refine ⟨⟨?_, fun _ => StmtForm.stamped, hstmt.error⟩,
    ⟨?_, fun _ => ExprForm.stamped, hexpr.error⟩, ?_⟩
  · exact fun n => ⟨hstmt.ok_of_eq, StmtForm.toStmt⟩
  · exact fun n => ⟨hexpr.ok_of_eq, ExprForm.toExpr⟩
  · intro x
    refine ⟨(Datum.outcome_toName d).ok_of_eq, ?_⟩
    rintro ⟨rfl, name⟩
    exact Datum.toName_of_nameWord name

theorem loopForm_read :
    let loop := Datum.list [.symbol "while", .symbol "a", .list [.symbol "free", .symbol "a"]]
    let tree := Node.whileDo (.var "a" none) (.free "a" none) none
    StmtForm none (.list [.symbol "seq", loop]) tree ∧
    (Datum.list [.symbol "seq", loop]).toStmt none = .ok tree ∧
    (∀ m ∈ tree.preorder, m.loc = none) ∧
    ∃ e, (Datum.list [.symbol "if", .symbol "a"]).toStmt none = .error e ∧ e.Grammatical := by
  intro loop tree
  have name : NameWord "a" := ⟨by rintro (_ | _) <;> decide, by decide⟩
  have derived : StmtForm none (.list [.symbol "seq", loop]) tree :=
    .seq (.one (.whileDo (.name name) (.free name)))
  have underivable : ∀ n, ¬StmtForm none (.list [.symbol "if", .symbol "a"]) n := by
    intro n h
    generalize hd : Datum.list [.symbol "if", .symbol "a"] = d at h
    cases h <;> simp [Keyword.word] at hd
  obtain ⟨⟨read, stamped, -⟩, -⟩ := read_iff_derivable none (.list [.symbol "seq", loop])
  obtain ⟨⟨-, -, refused⟩, -⟩ := read_iff_derivable none (.list [.symbol "if", .symbol "a"])
  exact ⟨derived, (read tree).mpr derived, stamped tree derived, refused underivable⟩

end NandLang
