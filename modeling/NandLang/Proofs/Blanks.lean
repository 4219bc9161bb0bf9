import NandLang.Proofs.Wrapping

/-! Line ends are blanks. Outside of comments and texts it does not matter to a reader which blanks
stand between two data, nor how many, so a text is read alike however it is laid out on lines. -/
namespace NandLang

/-- Every line end becomes a blank, together with the blanks behind it. A line is fresh up to the
first character that is no blank. -/
def joinLines (fresh : Bool) : List Char → List Char
  | [] => []
  | c :: cs =>
    if c = '\n' then ' ' :: joinLines true cs
    else if fresh && c = ' ' then joinLines true cs
    else c :: joinLines false cs

theorem mem_joinLines_of_mem {cs : List Char} {c : Char} (h : c ∈ cs) (fresh : Bool) :
    c ∈ joinLines fresh cs ∨ c = '\n' ∨ c = ' ' := by
  induction cs generalizing fresh with
  | nil => cases h
  | cons d cs ih =>
    rw [joinLines]
    split_ifs with hline hblank
    · rcases List.mem_cons.mp h with rfl | h
      · exact .inr (.inl hline)
      · exact (ih h true).imp_left (List.mem_cons_of_mem _)
    · rcases List.mem_cons.mp h with rfl | h
      · simp only [Bool.and_eq_true, decide_eq_true_eq] at hblank
        exact .inr (.inr hblank.2)
      · exact ih h true
    · rcases List.mem_cons.mp h with rfl | h
      · exact .inl List.mem_cons_self
      · exact (ih h false).imp_left (List.mem_cons_of_mem _)

theorem joinLines_false_append {cs : List Char} (line : '\n' ∉ cs) (rest : List Char) :
    joinLines false (cs ++ rest) = cs ++ joinLines false rest := by
  induction cs with
  | nil => rfl
  | cons c cs ih =>
    rw [List.mem_cons, not_or] at line
    simp [joinLines, Ne.symm line.1, ih line.2]

theorem joinLines_closing (fresh : Bool) (rest : List Char) :
    joinLines fresh (')' :: rest) = ')' :: joinLines false rest := by
  simp [joinLines]

theorem joinLines_append {cs rest : List Char} {fresh : Bool} (line : '\n' ∉ cs)
    (start : cs.head? ≠ some ' ') (hrest : joinLines true rest = joinLines false rest) :
    joinLines fresh (cs ++ rest) = cs ++ joinLines false rest := by
  cases cs with
  | nil =>
    cases fresh with
    | true => exact hrest
    | false => rfl
  | cons c cs =>
    rw [List.mem_cons, not_or] at line
    have hc : c ≠ ' ' := fun hc => start (congrArg some hc)
    simp [joinLines, Ne.symm line.1, hc, joinLines_false_append line.2]

/-- Neither begins a comment or a text, nor escapes or quotes what follows. -/
structure Plain (c : Char) : Prop where
  text : c ≠ '\x22'
  comment : c ≠ ';'
  escape : c ≠ '\x5c'
  quote : c ≠ '\x27'

theorem plain_line : Plain '\n' := by
  constructor <;> decide

theorem plain_of_name {c : Char} (h : NameChar c) : Plain c :=
  ⟨h.ne (by decide), h.ne (by decide), h.ne (by decide), h.ne (by decide)⟩

theorem Nesting.code_of_next? {n m : Nesting} {c : Char} (code : n.context = .code)
    (plain : Plain c) (h : n.next? c = some m) : m.context = .code := by
  rcases n with ⟨context, brackets⟩
  cases code
  simp only [next?, plain.text, plain.comment, plain.escape, if_false] at h
  split at h
  · cases h
    rfl
  · split_ifs at h
    cases h
    rfl
  · cases h
    rfl

namespace Reader

variable {r t : Reader} {c : Char} {cs rest : List Char}

def yield? (r : Reader) (cs : List Char) : Option (List Datum) :=
  ((cs.foldlM feed r).bind finish).toOption

theorem yield?_cons (r : Reader) (c : Char) (cs : List Char) :
    r.yield? (c :: cs) =
      (r.step c).toOption.bind fun next => (next.moveTo (next.pos + 1)).yield? cs := by
  rw [yield?, List.foldlM_cons, feed]
  cases r.step c <;> rfl

/-! Positions are told only by errors and by apostrophes. -/

theorem closeForm_moveTo (r : Reader) (b : Bracket) (pos : Nat) :
    ((r.moveTo pos).closeForm b).toOption = (r.closeForm b).toOption.map (moveTo · pos) := by
  fun_cases closeForm r b <;> simp_all [closeForm, moveTo, Except.toOption]

theorem start_moveTo (quote : c ≠ '\x27') (r : Reader) (pos : Nat) :
    ((r.moveTo pos).start c).toOption = (r.start c).toOption.map (moveTo · pos) := by
  unfold start
  split
  · rfl
  · exact closeForm_moveTo r _ pos
  · simp only [quote, if_false]
    split_ifs <;> rfl

theorem step_moveTo (quote : c ≠ '\x27') (r : Reader) (pos : Nat) :
    ((r.moveTo pos).step c).toOption = (r.step c).toOption.map (moveTo · pos) := by
  have hmode : (r.moveTo pos).mode = r.mode := rfl
  fun_cases step r c with
  | case1 hr =>
    simp only [step, hmode, hr]
    exact start_moveTo quote r pos
  | case2 hr =>
    simp only [step, hmode, hr]
    split_ifs <;> rfl
  | case8 chars hr hends =>
    simp only [step, hmode, hr, hends, if_true]
    exact start_moveTo quote (r.endAtom chars) pos
  | _ =>
    simp_all [step, Except.toOption]
    rfl

theorem yield?_moveTo (plain : ∀ c ∈ cs, Plain c) (r : Reader) (pos : Nat) :
    (r.moveTo pos).yield? cs = r.yield? cs := by
  induction cs generalizing r pos with
  | nil =>
    rcases r with ⟨_ | _ | ⟨chars, _ | _⟩ | ⟨chars, _ | _⟩, level, outer, _⟩ <;> rfl
  | cons c cs ih =>
    obtain ⟨hc, hcs⟩ := List.forall_mem_cons.mp plain
    rw [yield?_cons, yield?_cons, step_moveTo hc.quote]
    cases r.step c with
    | error e => rfl
    | ok next => exact (ih hcs next (pos + 1)).trans (ih hcs next (next.pos + 1)).symm

/-! Blanks. -/

theorem code_of_step (code : r.mode.context = .code) (plain : Plain c) (h : r.step c = .ok t) :
    t.mode.context = .code :=
  Nesting.code_of_next? (n := r.nesting) code plain (next?_of_step h)

theorem yield?_blank (code : r.mode.context = .code) (hc : isBlank c = true) (cs : List Char) :
    r.yield? (c :: cs) = (r.settle.moveTo (r.settle.pos + 1)).yield? cs := by
  have hstep : r.step c = .ok r.settle := by
    rw [step_of_code code (by simp [endsAtom, hc]), start_of_blank hc]
  rw [yield?_cons, hstep]
  rfl

/-- Line ends can be taken for blanks, and blanks behind them left out. -/
theorem yield?_joinLines (plain : ∀ c ∈ cs, Plain c) (plainRest : ∀ c ∈ rest, Plain c)
    (code : r.mode.context = .code) {fresh : Bool} (settled : fresh = true → r.mode = .between) :
    r.yield? (joinLines fresh cs ++ rest) = r.yield? (cs ++ rest) := by
  induction cs generalizing r fresh with
  | nil => rfl
  | cons c cs ih =>
    obtain ⟨hc, hcs⟩ := List.forall_mem_cons.mp plain
    rw [joinLines]
    split_ifs with hline hblank
    · subst hline
      rw [List.cons_append, List.cons_append, yield?_blank code rfl, yield?_blank code rfl]
      have hmode := mode_settle code
      exact ih (r := r.settle.moveTo (r.settle.pos + 1)) hcs (congrArg Mode.context hmode)
        fun _ => hmode
    · simp only [Bool.and_eq_true, decide_eq_true_eq] at hblank
      obtain ⟨hfresh, rfl⟩ := hblank
      have hmode := settled hfresh
      have hsettle : r.settle = r := by rw [settle, hmode]
      have hplain := List.forall_mem_append.mpr ⟨hcs, plainRest⟩
      rw [List.cons_append, yield?_blank code rfl, hsettle, yield?_moveTo hplain]
      exact ih hcs code fun _ => hmode
    · rw [List.cons_append, List.cons_append, yield?_cons, yield?_cons]
      cases hstep : r.step c with
      | error e => rfl
      | ok next =>
        have hnext := code_of_step code hc hstep
        exact ih (r := next.moveTo (next.pos + 1)) hcs hnext fun h => absurd h Bool.false_ne_true

end Reader

theorem Datum.readForms_joinLines {cs rest : List Char} (plain : ∀ c ∈ cs, Plain c)
    (plainRest : ∀ c ∈ rest, Plain c) (data : List Datum) :
    readForms (joinLines false cs ++ rest) = .ok data ↔ readForms (cs ++ rest) = .ok data := by
  have hyield : ∀ text : List Char,
      readForms text = .ok data ↔ (Reader.yield? {} (text ++ ['\n'])) = some data := by
    intro text
    rw [readForms_eq_ok_iff, readAll, Reader.yield?]
    cases (text ++ ['\n']).foldlM Reader.feed {} |>.bind Reader.finish <;> simp [Except.toOption]
  have hline : ∀ c ∈ rest ++ ['\n'], Plain c :=
    List.forall_mem_append.mpr ⟨plainRest, List.forall_mem_singleton.mpr plain_line⟩
  have hjoin := Reader.yield?_joinLines (r := {}) plain hline rfl
    fun h => absurd h Bool.false_ne_true
  rw [hyield, hyield, List.append_assoc, List.append_assoc, hjoin]

end NandLang
