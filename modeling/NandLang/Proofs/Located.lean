import NandLang.Proofs.Grammar

/-! Where a text fails to be a program. Once a text is read into forms, whatever is wrong with them
is reported at the file, however deep it lies. A text that cannot be read has no forms to look at,
and its error does not tell the file. -/
namespace NandLang

theorem SyntaxError.code_range (e : SyntaxError) :
    e.code.family = "FL" ∧ 1000 ≤ e.code.number ∧ e.code.number ≤ 1004 := by
  cases e <;> simp only [code] <;> decide

theorem Failure.message_of_loc {f : Failure} {l : Loc} (h : f.loc = some l) :
    f.message = l.text ++ ": [" ++ f.code.text ++ "] " ++ f.text := by
  rw [message, h]
  rfl

theorem Failure.message_of_unlocated {f : Failure} (h : f.loc = none) :
    f.message = "[" ++ f.code.text ++ "] " ++ f.text := by
  rw [message, h]
  rfl

theorem Loc.text_of_file (file : String) : Loc.text { file := file } = file ++ ":0:0" := by
  unfold text
  rw [String.append_assoc, String.append_assoc, String.append_assoc]
  rfl

namespace ParseError

theorem message_of_file {e : ParseError} {file : String} (h : e.loc = some { file := file }) :
    e.failure.message =
      file ++ ":0:0: " ++ ("[" ++ e.failure.code.text ++ "] " ++ e.failure.text) := by
  rw [Failure.message_of_loc h, Loc.text_of_file, ← String.toList_inj]
  simp

theorem message_of_unreadable (text : List Char) (error : ReadError) :
    (ParseError.mk (.unreadable text error) none).failure.message =
      "[FL-1000] S-expression syntax error: " ++ error.reason text := by
  rw [Failure.message_of_unlocated rfl]
  change "[" ++ ErrorCode.malformedForm.text ++ "] " ++ ("S-expression syntax error: " ++ _) = _
  rw [show ErrorCode.malformedForm.text = "FL-1000" by decide, ← String.toList_inj]
  simp

end ParseError

namespace Node

variable {text file : String}

theorem exists_unreadable {cause : SyntaxError} (h : readForms text = .error cause) :
    ∃ error, cause = .unreadable (Datum.wrap text.toList) error := by
  rw [readForms] at h
  cases hread : Datum.readForms text.toList with
  | ok data =>
    rw [hread] at h
    cases h
  | error error =>
    rw [hread] at h
    cases h
    exact ⟨error, rfl⟩

theorem parse_of_unreadable {cause : SyntaxError} (h : readForms text = .error cause) :
    parse text file = .error ⟨cause, none⟩ := by
  rw [parse, h]

theorem parse_of_empty (h : readForms text = .ok []) :
    parse text file = .error ⟨.emptyProgram, some { file := file }⟩ := by
  rw [parse, h]

theorem parse_of_forms {first : Datum} {rest : List Datum}
    (h : readForms text = .ok (first :: rest)) :
    (∃ n, parse text file = .ok n) ∨
      ∃ cause : SyntaxError, cause.Grammatical ∧
        parse text file = .error ⟨cause, some { file := file }⟩ := by
  have hfirst := Datum.outcome_toStmt (some { file := file }) first
  have hrest := Datum.outcome_toStmts fun d (_ : d ∈ rest) =>
    Datum.outcome_toStmt (some { file := file }) d
  rw [parse, h]
  dsimp only
  cases hf : first.toStmt (some { file := file }) with
  | error e =>
    rw [hf] at hfirst
    exact .inr ⟨e, hfirst, rfl⟩
  | ok n =>
    cases hr : Datum.toStmts (some { file := file }) rest with
    | error e =>
      rw [hr] at hrest
      exact .inr ⟨e, hrest, rfl⟩
    | ok ns => exact .inl ⟨_, rfl⟩

end Node

/-- A text that is no program has an error of reading, with a code from FL-1000 to FL-1004. If the
text is read into forms, the error is at the file and its message begins with that: there are no
forms, or some part of them is not of the grammar. If the text is not read, the code is FL-1000 and
the error is nowhere. -/
theorem failure_located_unless_unreadable (text file : String) :
    (∃ n, Node.parse text file = .ok n) ∨ ∃ e, Node.parse text file = .error e ∧
      (e.failure.code.family = "FL" ∧
        1000 ≤ e.failure.code.number ∧ e.failure.code.number ≤ 1004) ∧
      (∀ data, Node.readForms text = .ok data →
        e.loc = some { file := file } ∧
        e.failure.message =
          file ++ ":0:0: " ++ ("[" ++ e.failure.code.text ++ "] " ++ e.failure.text) ∧
        (data = [] ∧ e.cause = .emptyProgram ∨ data ≠ [] ∧ e.cause.Grammatical)) ∧
      ∀ cause, Node.readForms text = .error cause →
        e.loc = none ∧ e.failure.code = .malformedForm ∧
        ∃ reason, e.failure.message = "[FL-1000] S-expression syntax error: " ++ reason := by
  cases hread : Node.readForms text with
  | error cause =>
    obtain ⟨error, rfl⟩ := Node.exists_unreadable hread
    refine .inr ⟨_, Node.parse_of_unreadable hread, SyntaxError.code_range _, by simp, ?_⟩
    rintro _ ⟨⟩
    exact ⟨rfl, rfl, _, ParseError.message_of_unreadable _ _⟩
  | ok data =>
    cases data with
    | nil =>
      refine .inr ⟨_, Node.parse_of_empty hread, SyntaxError.code_range _, ?_, by simp⟩
      rintro _ ⟨⟩
      exact ⟨rfl, ParseError.message_of_file rfl, .inl ⟨rfl, rfl⟩⟩
    | cons first rest =>
      obtain accepted | ⟨cause, grammatical, hparse⟩ := Node.parse_of_forms hread
      · exact .inl accepted
      · refine .inr ⟨_, hparse, SyntaxError.code_range _, ?_, by simp⟩
        rintro _ ⟨⟩
        exact ⟨rfl, ParseError.message_of_file rfl, .inr ⟨by simp, grammatical⟩⟩

theorem keywordInBlock_located :
    ∃ data e, Node.readForms "(free a) (while a (free if))" = .ok data ∧
      Node.parse "(free a) (while a (free if))" "bad.fl" = .error e ∧
      e.loc = some { file := "bad.fl" } ∧ e.cause.Grammatical ∧
      e.failure.message = "bad.fl:0:0: [FL-1003] 'if' is a keyword and cannot name a variable" := by
  obtain ⟨n, ⟨⟩⟩ | ⟨_, ⟨⟩, -, located, -⟩ :=
    failure_located_unless_unreadable "(free a) (while a (free if))" "bad.fl"
  obtain ⟨hloc, hmessage, ⟨⟨⟩, -⟩ | ⟨-, grammatical⟩⟩ := located _ rfl
  exact ⟨_, _, rfl, rfl, hloc, grammatical, hmessage.trans (by decide)⟩

/-- A form that is not closed is an error whose message says nothing of the file. -/
theorem unclosed_not_located :
    ∃ e, Node.parse "(free a" "bad.fl" = .error e ∧ e.failure.code.text = "FL-1000" ∧
      e.loc = none ∧ ∀ rest, e.failure.message ≠ "bad.fl:0:0: " ++ rest := by
  refine ⟨⟨.unreadable (Datum.wrap "(free a".toList) (.mismatch .round none), none⟩, rfl,
    by decide, rfl, fun rest h => ?_⟩
  rw [ParseError.message_of_unreadable, ← String.toList_inj] at h
  simp at h

end NandLang
