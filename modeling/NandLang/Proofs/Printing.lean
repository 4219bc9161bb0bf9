import NandLang.Node.Printer
import NandLang.Proofs.Grammar
import NandLang.Proofs.Reader

/-! Printing and reading are inverse. A printed tree is read, character by character, as data that
the grammar derives the same tree from; and what any text is read as can be printed. -/
namespace NandLang

/-! Readable names are the names that a text can bring into a tree. -/

instance : DecidablePred Readable := fun x =>
  decidable_of_iff (legalName x.toList = true ∧ Keyword.ofWord? x = none ∧
      x.toList.map Char.toLower ∉ numberWords)
    ⟨fun ⟨legal, unreserved, wordless⟩ =>
      ⟨legal, Keyword.ofWord?_eq_none_iff.mp unreserved, wordless⟩,
      fun h => ⟨h.legal, Keyword.ofWord?_eq_none_iff.mpr h.unreserved, h.wordless⟩⟩

theorem Readable.nameWord {x : Name} (h : Readable x) : NameWord x :=
  ⟨h.unreserved, by rw [admitsName, h.legal, Bool.true_or]⟩

theorem Readable.reads {x : Name} (h : Readable x) : Reader.Reads x.toList [.symbol x] := by
  have := Reader.reads_name h.legal h.wordless
  rwa [String.ofList_toList] at this

theorem NameWord.readable {x : Name} (name : NameWord x) (word : AtomWord x) : Readable x := by
  have legal : legalName x.toList = true := by
    rcases Bool.or_eq_true_iff.mp name.admitted with legal | trailing
    · exact legal
    · -- A line end behind the name would leave a backslash in it.
      simp only [Bool.and_eq_true, decide_eq_true_eq] at trailing
      obtain ⟨hlast, legal⟩ := trailing
      have hsplit := List.dropLast_append_getLast? _ hlast
      have hslash := word.lines (List.mem_of_getLast? hlast)
      rw [← hsplit, List.mem_append, List.mem_singleton] at hslash
      rcases hslash with hslash | hslash
      · exact absurd (nameChar_of_legal legal _ hslash) (by decide)
      · cases hslash
  refine ⟨legal, name.unreserved, (Datum.ofAtom_of_legal legal).mp ?_⟩
  rw [word.symbol, String.ofList_toList]

theorem Keyword.legal (k : Keyword) : legalName k.word.toList = true := by
  cases k <;> decide

theorem Keyword.reads (k : Keyword) : Reader.Reads k.word.toList [.symbol k.word] := by
  have wordless : k.word.toList.map Char.toLower ∉ numberWords := by cases k <;> decide
  have := Reader.reads_name k.legal wordless
  rwa [String.ofList_toList] at this

/-! What the grammar derives from data that were read. -/

def Node.Legible (n : Node) : Prop := ∀ x ∈ n.names, Readable x

instance : DecidablePred Node.Legible := fun n =>
  inferInstanceAs (Decidable (∀ x ∈ n.names, Readable x))

theorem ExprForm.legible {loc : Option Loc} {d : Datum} {n : Node} (h : ExprForm loc d n)
    (spelled : d.Spelled) : n.Legible := by
  induction h with
  | yes | no => exact nofun
  | name name => exact List.forall_mem_singleton.mpr (name.readable spelled.word)
  | nand _ _ ihl ihr =>
    have each := spelled.each
    exact List.forall_mem_append.mpr ⟨ihl (each _ (by simp)), ihr (each _ (by simp))⟩

mutual

theorem StmtForm.legible {loc : Option Loc} {d : Datum} {n : Node} :
    StmtForm loc d n → d.Spelled → n.Legible
  | .decl name value, spelled | .assign name value, spelled => by
    have each := spelled.each
    have readable := name.readable (each (.symbol _) (by simp)).word
    exact List.forall_mem_cons.mpr ⟨readable, value.legible (each _ (by simp))⟩
  | .ifThen cond body, spelled | .whileDo cond body, spelled => by
    have each := spelled.each
    exact List.forall_mem_append.mpr
      ⟨cond.legible (each _ (by simp)), body.legible (each _ (by simp))⟩
  | .seq row, spelled => row.legible (List.forall_mem_cons.mp spelled.each).2
  | .free name, spelled =>
    List.forall_mem_singleton.mpr (name.readable (spelled.each (.symbol _) (by simp)).word)

theorem RowForm.legible {loc : Option Loc} {data : List Datum} {n : Node} :
    RowForm loc data n → (∀ d ∈ data, d.Spelled) → n.Legible
  | .one only, each => only.legible (each _ List.mem_cons_self)
  | .more first rest, each => by
    obtain ⟨hfirst, hrest⟩ := List.forall_mem_cons.mp each
    exact List.forall_mem_append.mpr ⟨first.legible hfirst, rest.legible hrest⟩

end

/-! Printed trees. -/

namespace Reader

theorem Reads.spaced {cs ds : List Char} {data data' : List Datum} (h : Reads cs data)
    (h' : Reads ds data') : Reads (cs ++ ' ' :: ds) (data ++ data') :=
  h.append rfl (h'.blank rfl)

theorem Reads.keyword {cs : List Char} {data : List Datum} (k : Keyword) (h : Reads cs data) :
    Reads (Node.opening k ++ ' ' :: cs ++ [')']) [.list (.symbol k.word :: data)] :=
  (k.reads.spaced h).form

end Reader

namespace Node

def relocate (loc : Option Loc) : Node → Node
  | .lit b _ => .lit b loc
  | .var x _ => .var x loc
  | .nand l r _ => .nand (l.relocate loc) (r.relocate loc) loc
  | .decl x e _ => .decl x (e.relocate loc) loc
  | .assign x e _ => .assign x (e.relocate loc) loc
  | .ifThen c b _ => .ifThen (c.relocate loc) (b.relocate loc) loc
  | .whileDo c b _ => .whileDo (c.relocate loc) (b.relocate loc) loc
  | .seq a b _ => .seq (a.relocate loc) (b.relocate loc) loc
  | .free x _ => .free x loc
  | .foreign v => .foreign v

theorem same_relocate (loc : Option Loc) (n : Node) : (n.relocate loc).same n = true := by
  induction n <;> simp_all [relocate, same, Foreign.same]

theorem relocate_of_stamped {loc : Option Loc} {n : Node} (h : ∀ m ∈ n.preorder, m.loc = loc) :
    n.relocate loc = n := by
  induction n <;> simp_all [relocate, preorder, Node.loc]

theorem flatOnto_append (n : Node) (inRow : Bool) (cs rest : List Char) :
    n.flatOnto inRow (cs ++ rest) = n.flatOnto inRow cs ++ rest := by
  induction n generalizing inRow cs with
  | lit | var | free | foreign => simp [flatOnto]
  | decl _ _ _ ih | assign _ _ _ ih => simp [flatOnto, ← ih]
  | nand _ _ _ ihl ihr | ifThen _ _ _ ihl ihr | whileDo _ _ _ ihl ihr =>
    simp [flatOnto, ← ihl, ← ihr]
  | seq _ _ _ iha ihb => cases inRow <;> simp [flatOnto, ← iha, ← ihb]

theorem flatOnto_cons (n : Node) (inRow : Bool) (c : Char) (rest : List Char) :
    n.flatOnto inRow (c :: rest) = n.flatOnto inRow [] ++ c :: rest :=
  n.flatOnto_append inRow [] (c :: rest)

theorem Expression.reads_back {e : Node} (h : e.Expression) (legible : e.Legible)
    (loc : Option Loc) :
    ∃ d, ExprForm loc d (e.relocate loc) ∧ Reader.Reads (e.flatOnto false []) [d] := by
  induction h with
  | lit b =>
    refine ⟨.symbol (Keyword.ofBool b).word, ?_, ?_⟩
    · cases b with
      | true => exact .yes
      | false => exact .no
    · rw [flatOnto, List.append_nil]
      exact Keyword.reads _
  | var x =>
    have readable := legible x List.mem_cons_self
    refine ⟨.symbol x, .name readable.nameWord, ?_⟩
    rw [flatOnto, List.append_nil]
    exact readable.reads
  | nand _ _ _ ihl ihr =>
    obtain ⟨hl, hr⟩ := List.forall_mem_append.mp legible
    obtain ⟨d₁, left, hleft⟩ := ihl hl
    obtain ⟨d₂, right, hright⟩ := ihr hr
    refine ⟨_, .nand left right, ?_⟩
    simpa [flatOnto, flatOnto_cons] using (hleft.spaced hright).keyword .nand

/-- A printed statement is read as a form of its own, and in a row as a row. -/
structure ReadsBack (loc : Option Loc) (n : Node) : Prop where
  alone : ∃ d, StmtForm loc d (n.relocate loc) ∧ Reader.Reads (n.flatOnto false []) [d]
  inRow : ∃ data, RowForm loc data (n.relocate loc) ∧ Reader.Reads (n.flatOnto true []) data

theorem ReadsBack.of_form {loc : Option Loc} {n : Node} {d : Datum}
    (row : n.flatOnto true [] = n.flatOnto false []) (form : StmtForm loc d (n.relocate loc))
    (reads : Reader.Reads (n.flatOnto false []) [d]) : n.ReadsBack loc :=
  ⟨⟨d, form, reads⟩, ⟨[d], .one form, row ▸ reads⟩⟩

theorem Statement.reads_back {n : Node} (h : n.Statement) (legible : n.Legible)
    (loc : Option Loc) : n.ReadsBack loc := by
  induction h with
  | decl x value =>
    obtain ⟨hx, he⟩ := List.forall_mem_cons.mp legible
    obtain ⟨d, form, reads⟩ := value.reads_back he loc
    refine .of_form rfl (.decl hx.nameWord form) ?_
    simpa [flatOnto, flatOnto_cons] using (hx.reads.spaced reads).keyword .decl
  | assign x value =>
    obtain ⟨hx, he⟩ := List.forall_mem_cons.mp legible
    obtain ⟨d, form, reads⟩ := value.reads_back he loc
    refine .of_form rfl (.assign hx.nameWord form) ?_
    simpa [flatOnto, flatOnto_cons] using (hx.reads.spaced reads).keyword .assign
  | ifThen cond _ _ ih =>
    obtain ⟨hc, hb⟩ := List.forall_mem_append.mp legible
    obtain ⟨d₁, form₁, reads₁⟩ := cond.reads_back hc loc
    obtain ⟨d₂, form₂, reads₂⟩ := (ih hb).alone
    refine .of_form rfl (.ifThen form₁ form₂) ?_
    simpa [flatOnto, flatOnto_cons] using (reads₁.spaced reads₂).keyword .ifThen
  | whileDo cond _ _ ih =>
    obtain ⟨hc, hb⟩ := List.forall_mem_append.mp legible
    obtain ⟨d₁, form₁, reads₁⟩ := cond.reads_back hc loc
    obtain ⟨d₂, form₂, reads₂⟩ := (ih hb).alone
    refine .of_form rfl (.whileDo form₁ form₂) ?_
    simpa [flatOnto, flatOnto_cons] using (reads₁.spaced reads₂).keyword .whileDo
  | seq _ _ _ iha ihb =>
    obtain ⟨ha, hb⟩ := List.forall_mem_append.mp legible
    obtain ⟨d, form, reads⟩ := (iha ha).alone
    obtain ⟨data, row, reads'⟩ := (ihb hb).inRow
    have hrow := RowForm.more form row
    have hreads := reads.spaced reads'
    refine ⟨⟨_, .seq hrow, ?_⟩, ⟨_, hrow, ?_⟩⟩
    · simpa [flatOnto, flatOnto_cons] using hreads.keyword .seq
    · simpa [flatOnto, flatOnto_cons] using hreads
  | free x =>
    have readable := legible x List.mem_cons_self
    refine .of_form rfl (.free readable.nameWord) ?_
    simpa [flatOnto] using readable.reads.keyword .free

theorem flat_of_native {n : Node} (native : n.foreign? = none) :
    n.flat = .ok (String.ofList (n.flatOnto false [])) := by
  rw [flat, misplaced?, native]
  rfl

theorem mapError_eq_ok_iff {ε ε' α : Type} {f : ε → ε'} {x : Except ε α} {a : α} :
    x.mapError f = .ok a ↔ x = .ok a := by
  cases x <;> simp [Except.mapError]

theorem parse_eq_ok_iff {text file : String} {n : Node} :
    parse text file = .ok n ↔ ∃ data, Datum.readForms text.toList = .ok data ∧
      RowForm (some { file := file }) data n := by
  constructor
  · fun_cases parse text file with
    | case1 | case2 | case3 | case4 => nofun
    | case5 loc first rest hread a ns hrest hfirst =>
      rintro ⟨⟩
      have row := Datum.rowForm_sequence ((Datum.outcome_toStmt loc first).ok_of_eq hfirst)
        ((Datum.outcome_toStmts fun d _ => Datum.outcome_toStmt loc d).ok_of_eq hrest)
      exact ⟨first :: rest, mapError_eq_ok_iff.mp hread, row⟩
  · rintro ⟨data, hread, row⟩
    obtain ⟨first, rest, a, ns, rfl, hfirst, hrest, rfl⟩ := row.toStmts
    rw [parse, readForms, mapError_eq_ok_iff.mpr hread]
    dsimp only
    rw [hfirst, hrest]

theorem parseExpr_eq_ok_iff {text : String} {n : Node} :
    parseExpr text = .ok n ↔ ∃ d, Datum.readForms text.toList = .ok [d] ∧
      ExprForm (some { file := anonymous }) d n := by
  constructor
  · fun_cases parseExpr text with
    | case1 | case3 => nofun
    | case2 loc d hread =>
      intro h
      exact ⟨d, mapError_eq_ok_iff.mp hread,
        (Datum.outcome_toExpr loc d).ok_of_eq (mapError_eq_ok_iff.mp h)⟩
  · rintro ⟨d, hread, form⟩
    rw [parseExpr, readForms, mapError_eq_ok_iff.mpr hread]
    exact mapError_eq_ok_iff.mpr form.toExpr

theorem Statement.parse_flat {n : Node} (h : n.Statement) (legible : n.Legible) (file : String) :
    ∃ text, n.flat = .ok text ∧ parse text file = .ok (n.relocate (some { file := file })) := by
  obtain ⟨d, form, reads⟩ := (h.reads_back legible (some { file := file })).alone
  refine ⟨_, flat_of_native h.foreign?_eq_none, parse_eq_ok_iff.mpr ⟨[d], ?_, .one form⟩⟩
  rw [String.toList_ofList]
  exact Datum.readForms_of_reads reads

theorem Expression.parseExpr_flat {e : Node} (h : e.Expression) (legible : e.Legible) :
    ∃ text, e.flat = .ok text ∧
      parseExpr text = .ok (e.relocate (some { file := anonymous })) := by
  obtain ⟨d, form, reads⟩ := h.reads_back legible (some { file := anonymous })
  refine ⟨_, flat_of_native h.foreign?_eq_none, parseExpr_eq_ok_iff.mpr ⟨d, ?_, form⟩⟩
  rw [String.toList_ofList]
  exact Datum.readForms_of_reads reads

end Node

/-- A well-formed tree of readable names is printed, and its text is read as the same tree. Whatever
is read from any text is such a tree, so printing it and reading it again gives it back, locations
included. -/
theorem printed_reads_back (file : String) :
    (∀ t : Node, t.Statement → t.Legible → ∃ text u, t.flat = .ok text ∧
      Node.parse text file = .ok u ∧ u.same t = true) ∧
    (∀ e : Node, e.Expression → e.Legible → ∃ text u, e.flat = .ok text ∧
      Node.parseExpr text = .ok u ∧ u.same e = true) ∧
    (∀ text t, Node.parse text file = .ok t → t.Statement ∧ t.Legible ∧
      ∃ printed, t.flat = .ok printed ∧ Node.parse printed file = .ok t) ∧
    (∀ text e, Node.parseExpr text = .ok e → e.Expression ∧ e.Legible ∧
      ∃ printed, e.flat = .ok printed ∧ Node.parseExpr printed = .ok e) := by
  refine ⟨?_, ?_, ?_, ?_⟩
  · intro t wellFormed legible
    obtain ⟨text, hflat, hparse⟩ := wellFormed.parse_flat legible file
    exact ⟨text, _, hflat, hparse, t.same_relocate _⟩
  · intro e wellFormed legible
    obtain ⟨text, hflat, hparse⟩ := wellFormed.parseExpr_flat legible
    exact ⟨text, _, hflat, hparse, e.same_relocate _⟩
  · intro text t h
    obtain ⟨data, hread, row⟩ := Node.parse_eq_ok_iff.mp h
    have legible := row.legible (Datum.spelled_readForms hread)
    obtain ⟨printed, hflat, hparse⟩ := row.statement.parse_flat legible file
    rw [Node.relocate_of_stamped row.stamped] at hparse
    exact ⟨row.statement, legible, printed, hflat, hparse⟩
  · intro text e h
    obtain ⟨d, hread, form⟩ := Node.parseExpr_eq_ok_iff.mp h
    have legible := form.legible (Datum.spelled_readForms hread d List.mem_cons_self)
    obtain ⟨printed, hflat, hparse⟩ := form.expression.parseExpr_flat legible
    rw [Node.relocate_of_stamped form.stamped] at hparse
    exact ⟨form.expression, legible, printed, hflat, hparse⟩

def Node.leftNested : Node :=
  .seq (.seq (.decl "nan-1" (.nand (.lit true none) (.var "infinite" none) none) none)
    (.free "_" none) none) (.whileDo (.var "nan-1" none) (.free "nan-1" none) none) none

theorem leftNested_reads_back :
    let loc : Option Loc := some { file := "noted" }
    let noted := Node.seq (.decl "a" (.lit true loc) loc) (.free "a" loc) loc
    let operand := Node.nand (.lit true none) (.var "infinite" none) none
    (Node.leftNested.Statement ∧ Node.leftNested.Legible ∧
      ∃ text u, Node.leftNested.flat = .ok text ∧ Node.parse text "noted" = .ok u ∧
        u.same Node.leftNested = true) ∧
    (Node.parse "(decl a true)(free a) ; done" "noted" = .ok noted ∧
      ∃ printed, noted.flat = .ok printed ∧ Node.parse printed "noted" = .ok noted) ∧
    ∃ text u, operand.flat = .ok text ∧ Node.parseExpr text = .ok u ∧ u.same operand = true ∧
      u.Expression ∧ u.Legible := by
  intro loc noted operand
  have hoperand : operand.Expression := .nand (.lit _ _) (.var _ _) _
  have hnested : Node.leftNested.Statement :=
    .seq (.seq (.decl _ hoperand _) (.free _ _) _) (.whileDo (.var _ _) (.free _ _) _) _
  have hlegible : Node.leftNested.Legible := by decide
  have hnoted : Node.parse "(decl a true)(free a) ; done" "noted" = .ok noted := by rfl
  obtain ⟨statements, expressions, texts, expressionTexts⟩ := printed_reads_back "noted"
  obtain ⟨text, u, hflat, hparse, hsame⟩ := expressions operand hoperand (by decide)
  obtain ⟨expression, legible, -⟩ := expressionTexts text u hparse
  exact ⟨⟨hnested, hlegible, statements _ hnested hlegible⟩, ⟨hnoted, (texts _ _ hnoted).2.2⟩,
    text, u, hflat, hparse, hsame, expression, legible⟩

end NandLang
