import NandLang.Proofs.Printing

/-! Names that can be written. The reader has told what an atom is before the rule for names is
asked, so a legal name that spells a number is never taken for a name. -/
namespace NandLang
namespace Node

theorem parse_of_one {text : String} {d : Datum} (h : Datum.readForms text.toList = .ok [d])
    (file : String) : parse text file =
      (d.toStmt (some { file := file })).mapError (⟨·, some { file := file }⟩) := by
  rw [parse, readForms, mapError_eq_ok_iff.mpr h]
  dsimp only
  cases d.toStmt (some { file := file }) <;> rfl

theorem parseExpr_of_one {text : String} {d : Datum} (h : Datum.readForms text.toList = .ok [d]) :
    parseExpr text = (d.toExpr (some { file := anonymous })).mapError (⟨·, none⟩) := by
  rw [parseExpr, readForms, mapError_eq_ok_iff.mpr h]

end Node

/-! The atom of a name, alone and in each form that names a variable. -/

section
variable {n : Name} (legal : legalName n.toList = true)
include legal

theorem readForms_name : Datum.readForms n.toList = .ok [.ofAtom n.toList] :=
  Datum.readForms_of_reads (Reader.reads_atom legal)

theorem readForms_valued (k : Keyword) :
    Datum.readForms ("(" ++ k.word ++ " " ++ n ++ " true)").toList =
      .ok [.list [.symbol k.word, .ofAtom n.toList, .symbol Keyword.yes.word]] := by
  have reads := ((Reader.reads_atom legal).spaced Keyword.yes.reads).keyword k
  refine Eq.trans (congrArg Datum.readForms ?_) (Datum.readForms_of_reads reads)
  simp [Node.opening, Keyword.word]

theorem readForms_bare (k : Keyword) :
    Datum.readForms ("(" ++ k.word ++ " " ++ n ++ ")").toList =
      .ok [.list [.symbol k.word, .ofAtom n.toList]] := by
  have reads := (Reader.reads_atom legal).keyword k
  refine Eq.trans (congrArg Datum.readForms ?_) (Datum.readForms_of_reads reads)
  simp [Node.opening]

end

/-- A legal name is read as itself, where it is an expression and in every statement that names a
variable, just if it is no word for a number. As such a word it is read as the number, which is no
expression and no name. -/
theorem name_read_unless_number (n : Name) (file : String) (legal : legalName n.toList = true)
    (unreserved : ∀ k : Keyword, n ≠ k.word) :
    let loc : Option Loc := some { file := file }
    (n.toList.map Char.toLower ∉ numberWords →
      Node.parseExpr n = .ok (.var n (some { file := Node.anonymous })) ∧
      Node.parse ("(decl " ++ n ++ " true)") file = .ok (.decl n (.lit true loc) loc) ∧
      Node.parse ("(assign " ++ n ++ " true)") file = .ok (.assign n (.lit true loc) loc) ∧
      Node.parse ("(free " ++ n ++ ")") file = .ok (.free n loc)) ∧
    (n.toList.map Char.toLower ∈ numberWords →
      ∃ x, Number.Binary64.ofNumeral? n.toList = some x ∧
        Node.parseExpr n = .error ⟨.notExpression (.float x), none⟩ ∧
        Node.parse ("(decl " ++ n ++ " true)") file = .error ⟨.notName (.float x), loc⟩ ∧
        Node.parse ("(assign " ++ n ++ " true)") file = .error ⟨.notName (.float x), loc⟩ ∧
        Node.parse ("(free " ++ n ++ ")") file = .error ⟨.notName (.float x), loc⟩) := by
  intro loc
  have hexpr := Node.parseExpr_of_one (readForms_name legal)
  have hdecl := Node.parse_of_one (readForms_valued legal .decl) file
  have hassign := Node.parse_of_one (readForms_valued legal .assign) file
  have hfree := Node.parse_of_one (readForms_bare legal .free) file
  constructor
  · intro wordless
    have hatom := (Datum.ofAtom_of_legal legal).mpr wordless
    rw [String.ofList_toList] at hatom
    have name : NameWord n := Readable.nameWord ⟨legal, unreserved, wordless⟩
    rw [hatom] at hexpr hdecl hassign hfree
    rw [(ExprForm.name name).toExpr] at hexpr
    rw [(StmtForm.decl name .yes).toStmt] at hdecl
    rw [(StmtForm.assign name .yes).toStmt] at hassign
    rw [(StmtForm.free name).toStmt] at hfree
    exact ⟨hexpr, hdecl, hassign, hfree⟩
  · intro word
    obtain ⟨x, hx, hatom⟩ := Datum.ofAtom_of_numberWord legal word
    rw [hatom] at hexpr hdecl hassign hfree
    exact ⟨x, hx, hexpr, hdecl, hassign, hfree⟩

theorem infinity_refused_as_name :
    (legalName "inf-1".toList = true ∧ (∀ k : Keyword, "inf-1" ≠ k.word) ∧
      Node.parseExpr "inf-1" = .ok (.var "inf-1" (some { file := Node.anonymous }))) ∧
    (legalName "Infinity".toList = true ∧ (∀ k : Keyword, "Infinity" ≠ k.word) ∧
      ∃ x, Number.Binary64.ofNumeral? "Infinity".toList = some x ∧
        Node.parse "(free Infinity)" "noted" =
          .error ⟨.notName (.float x), some { file := "noted" }⟩) := by
  have hname : ∀ k : Keyword, "inf-1" ≠ k.word := by
    intro k
    cases k <;> decide
  have hnumber : ∀ k : Keyword, "Infinity" ≠ k.word := by
    intro k
    cases k <;> decide
  obtain ⟨x, hx, -, -, -, hfree⟩ :=
    (name_read_unless_number "Infinity" "noted" (by decide) hnumber).2 (by decide)
  exact ⟨⟨by decide, hname,
    ((name_read_unless_number "inf-1" "noted" (by decide) hname).1 (by decide)).1⟩,
    by decide, hnumber, x, hx, hfree⟩

/-- A legal name that cannot be written. -/
theorem nan_not_read :
    legalName "nan".toList = true ∧ (∀ k : Keyword, "nan" ≠ k.word) ∧
    Node.parseExpr "nan" = .error ⟨.notExpression (.float .nan), none⟩ ∧
    Node.parse "(free nan)" "noted" =
      .error ⟨.notName (.float .nan), some { file := "noted" }⟩ := by
  refine ⟨by decide, fun k => ?_, rfl, rfl⟩
  cases k <;> decide

end NandLang
