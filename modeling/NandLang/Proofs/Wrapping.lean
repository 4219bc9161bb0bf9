import NandLang.Proofs.Execution
import NandLang.Proofs.Printing

/-! Texts are read as the items of a form that is written around them. Nothing in a text can close
that form before its end and go unnoticed: from there on the outermost level holds a datum, and the
bracket behind the text adds another one or is one too many. As long as the form is open, the reader
stands in it as a reader of the text alone would stand. -/
namespace NandLang

/-! Brackets that match. Which brackets count is told by what they stand in, not by what is read. -/

/-- What a character of a text stands in. Escaped is the character behind a backslash. -/
inductive Context
  | code
  | escaped
  | comment
  | text
  | escapedText
  deriving DecidableEq

/-- Where a text has come to, with the brackets that are open there, innermost first. -/
structure Nesting where
  context : Context := .code
  brackets : List Bracket := []
  deriving DecidableEq

open Reader in
def Nesting.next? (n : Nesting) (c : Char) : Option Nesting :=
  match n.context with
  | .code =>
    match opens? c, closes? c with
    | some b, _ => some { n with brackets := b :: n.brackets }
    | none, some b =>
      if n.brackets.head? = some b then some { n with brackets := n.brackets.tail } else none
    | none, none =>
      if c = '\x22' then some { n with context := .text }
      else if c = ';' then some { n with context := .comment }
      else if c = '\x5c' then some { n with context := .escaped }
      else some n
  | .escaped => some { n with context := .code }
  | .comment => some (if c = '\n' then { n with context := .code } else n)
  | .text =>
    if c = '\x22' then some { n with context := .code }
    else if c = '\x5c' then some { n with context := .escapedText }
    else some n
  | .escapedText => some { n with context := .text }

def nesting? (text : List Char) : Option Nesting := text.foldlM Nesting.next? {}

namespace Reader

variable {r t : Reader} {c : Char} {cs : List Char}

def Mode.context : Mode → Context
  | .between => .code
  | .comment => .comment
  | .text _ false => .text
  | .text _ true => .escapedText
  | .atom _ false => .code
  | .atom _ true => .escaped

def nesting (r : Reader) : Nesting := ⟨r.mode.context, r.outer.map Prod.fst⟩

theorem next?_of_start (code : r.mode.context = .code) (h : r.start c = .ok t) :
    r.nesting.next? c = some t.nesting := by
  have hnesting : r.nesting = ⟨.code, r.outer.map Prod.fst⟩ := by rw [nesting, code]
  rw [hnesting]
  revert h
  fun_cases start r c with
  | case1 b hopen =>
    rintro ⟨⟩
    simp [Nesting.next?, hopen, nesting, openForm, code]
  | case2 b hclose hopen =>
    fun_cases closeForm r b with
    | case1 | case2 | case4 => rintro ⟨⟩
    | case3 items level outer hlevel houter =>
      rintro ⟨⟩
      simp [Nesting.next?, hopen, hclose, nesting, houter, code]
  | case3 hclose hopen hblank =>
    rintro ⟨⟩
    have hne : ∀ d : Char, isBlank d = false → c ≠ d := by
      rintro d hd rfl
      simp [hd] at hblank
    simp [Nesting.next?, hopen, hclose, hnesting, hne '\x22' rfl, hne ';' rfl, hne '\x5c' rfl]
  | _ =>
    rintro ⟨⟩
    simp_all [Nesting.next?, nesting, mark, Mode.context]

theorem next?_of_step (h : r.step c = .ok t) : r.nesting.next? c = some t.nesting := by
  revert h
  fun_cases step r c with
  | case1 hmode => exact next?_of_start (congrArg Mode.context hmode)
  | case2 hmode =>
    rintro ⟨⟩
    split_ifs with hline <;> simp [Nesting.next?, nesting, hmode, Mode.context, hline]
  | case8 chars hmode hends =>
    have hnesting : r.nesting = (r.endAtom chars).nesting := by
      simp [nesting, hmode, endAtom, push, Mode.context]
    rw [hnesting]
    exact next?_of_start rfl
  | case9 | case10 =>
    rintro ⟨⟩
    simp_all [Nesting.next?, nesting, Mode.context, endsAtom]
  | _ =>
    rintro ⟨⟩
    simp_all [Nesting.next?, nesting, Mode.context, push]

theorem nesting_of_foldlM (h : cs.foldlM feed r = .ok t) :
    cs.foldlM Nesting.next? r.nesting = some t.nesting := by
  induction cs generalizing r with
  | nil =>
    cases h
    rfl
  | cons c cs ih =>
    rw [List.foldlM_cons] at h
    obtain ⟨next, hfeed, hrest⟩ := bind_eq_ok_iff.mp h
    obtain ⟨stepped, hstep, rfl⟩ := feed_eq_ok_iff.mp hfeed
    rw [List.foldlM_cons, next?_of_step hstep]
    exact ih (r := stepped.moveTo (stepped.pos + 1)) hrest

/-! Readers in the wrapped text. -/

def Level.shift (l : Level) : Level := { l with quotes := l.quotes.map (· + 2) }

/-- A reader of a text, as it stands in the wrapped text: two characters further, with one more form
open around all others. -/
def wrapped (r : Reader) : Reader :=
  ⟨r.mode, r.level.shift, r.outer.map (fun o => (o.1, o.2.shift)) ++ [(.round, ⟨[], []⟩)],
    r.pos + 2⟩

def bottom (level : Level) : List (Bracket × Level) → Level
  | [] => level
  | (_, level) :: outer => bottom level outer

/-- A datum is complete on the outermost level. -/
def Escaped (r : Reader) : Prop := (bottom r.level r.outer).items ≠ []

/-- What a reader of the wrapped text comes to where a reader of the text alone comes to the first:
it stands in the same place, stops as well, or has left the form around the text. -/
inductive Follows : Except ReadError Reader → Except ReadError Reader → Prop
  | ok (r : Reader) : Follows (.ok r) (.ok r.wrapped)
  | error (e e' : ReadError) : Follows (.error e) (.error e')
  | escaped (e : ReadError) {r : Reader} (h : r.Escaped) : Follows (.error e) (.ok r)

theorem Level.push_shift (l : Level) (d : Datum) : l.shift.push d = (l.push d).shift := by
  simp [push, shift, List.foldl_map]

theorem Level.close_cases (l : Level) :
    (l.close = .ok l.items.reverse ∧ l.shift.close = .ok l.items.reverse) ∨
      ∃ e e', l.close = .error e ∧ l.shift.close = .error e' := by
  rcases l with ⟨items, _ | ⟨pos, quotes⟩⟩
  · exact .inl ⟨rfl, rfl⟩
  · exact .inr ⟨_, _, rfl, rfl⟩

theorem push_wrapped (r : Reader) (d : Datum) : r.wrapped.push d = (r.push d).wrapped := by
  simp [wrapped, push, Level.push_shift]

theorem endAtom_wrapped (r : Reader) (chars : List Char) :
    r.wrapped.endAtom chars = (r.endAtom chars).wrapped :=
  push_wrapped r _

theorem closeForm_follows (r : Reader) (b : Bracket) :
    Follows (r.closeForm b) (r.wrapped.closeForm b) := by
  rcases r with ⟨mode, level, outer, pos⟩
  obtain ⟨hclose, hshift⟩ | ⟨e, e', hclose, hshift⟩ := level.close_cases
  · cases outer with
    | nil =>
      -- Nothing is open but the form around the text.
      cases b with
      | square =>
        simp only [closeForm, wrapped, hclose, hshift]
        exact .error _ _
      | round =>
        simp only [closeForm, wrapped, hclose, hshift]
        exact .escaped _ (List.cons_ne_nil _ _)
    | cons o outer =>
      rcases o with ⟨expected, level'⟩
      by_cases hb : expected = b
      · simp only [closeForm, wrapped, hclose, hshift, List.map_cons, List.cons_append, hb, if_true,
          Level.push_shift]
        exact .ok ⟨mode, level'.push (.form b level.items.reverse), outer, pos⟩
      · simp only [closeForm, wrapped, hclose, hshift, List.map_cons, List.cons_append, hb,
          if_false]
        exact .error _ _
  · simp only [closeForm, wrapped, hclose, hshift]
    exact .error _ _

theorem start_follows (r : Reader) (c : Char) : Follows (r.start c) (r.wrapped.start c) := by
  have hmark : r.wrapped.mark = r.mark.wrapped := by simp [mark, wrapped, Level.shift]
  have hopen : ∀ b, r.wrapped.openForm b = (r.openForm b).wrapped := by
    simp [openForm, wrapped, Level.shift]
  unfold start
  split
  · rw [hopen]
    exact .ok _
  · exact closeForm_follows r _
  · rw [hmark]
    split_ifs <;> exact .ok _

theorem step_follows (r : Reader) (c : Char) : Follows (r.step c) (r.wrapped.step c) := by
  rcases hmode : r.mode with _ | _ | ⟨chars, _ | _⟩ | ⟨chars, _ | _⟩
  all_goals
    have hwrapped : r.wrapped.mode = r.mode := rfl
    simp only [step, hwrapped, hmode]
  · exact start_follows r c
  · split_ifs <;> exact .ok _
  · rw [push_wrapped]
    split_ifs <;> exact .ok _
  · exact .ok _
  · rw [endAtom_wrapped]
    split_ifs
    · exact start_follows _ c
    all_goals exact .ok _
  · exact .ok _

theorem feed_follows (r : Reader) (c : Char) : Follows (r.feed c) (r.wrapped.feed c) := by
  have hstep := step_follows r c
  unfold feed
  generalize r.step c = x, r.wrapped.step c = y at hstep
  cases hstep with
  | ok next =>
    have hpos : next.pos + 2 + 1 = next.pos + 1 + 2 := Nat.add_right_comm ..
    simp only [Except.map, wrapped, hpos]
    exact .ok { next with pos := next.pos + 1 }
  | error e e' => exact .error e e'
  | escaped e h => exact .escaped e h

/-! Outside of the form around the text. -/

namespace Escaped

theorem push (h : r.Escaped) (d : Datum) : (r.push d).Escaped := by
  rcases r with ⟨mode, level, _ | ⟨o, outer⟩, pos⟩
  · exact List.cons_ne_nil _ _
  · exact h

theorem closeForm (h : r.Escaped) {b : Bracket} (hclose : r.closeForm b = .ok t) : t.Escaped := by
  revert hclose
  fun_cases Reader.closeForm r b with
  | case1 | case2 | case4 => rintro ⟨⟩
  | case3 items level outer hlevel houter =>
    rintro ⟨⟩
    cases outer with
    | nil => exact List.cons_ne_nil _ _
    | cons o outer =>
      rw [Escaped, houter] at h
      exact h

theorem start (h : r.Escaped) (hstart : r.start c = .ok t) : t.Escaped := by
  revert hstart
  fun_cases Reader.start r c with
  | case2 b => exact h.closeForm
  | case4 =>
    rintro ⟨⟩
    rcases r with ⟨mode, level, _ | ⟨o, outer⟩, pos⟩ <;> exact h
  | _ =>
    rintro ⟨⟩
    exact h

theorem step (h : r.Escaped) (hstep : r.step c = .ok t) : t.Escaped := by
  revert hstep
  fun_cases Reader.step r c with
  | case1 => exact h.start
  | case2 =>
    rintro ⟨⟩
    split <;> exact h
  | case4 =>
    rintro ⟨⟩
    exact h.push _
  | case8 => exact (h.push _).start
  | _ =>
    rintro ⟨⟩
    exact h

theorem foldlM (h : r.Escaped) (hread : cs.foldlM feed r = .ok t) : t.Escaped :=
  foldlM_invariant (fun h hstep => h.step hstep) (fun _ h => h) h hread

end Escaped

theorem foldlM_follows (cs : List Char) (r : Reader) :
    Follows (cs.foldlM feed r) (cs.foldlM feed r.wrapped) := by
  induction cs generalizing r with
  | nil => exact .ok r
  | cons c cs ih =>
    have hfeed := feed_follows r c
    rw [List.foldlM_cons, List.foldlM_cons]
    generalize r.feed c = x, r.wrapped.feed c = y at hfeed
    cases hfeed with
    | ok next => exact ih next
    | error e e' => exact .error e e'
    | @escaped e next h =>
      change Follows (.error e) (cs.foldlM feed next)
      cases hrest : cs.foldlM feed next with
      | error e' => exact .error e e'
      | ok t => exact .escaped e (h.foldlM hrest)

/-! The end of a text. -/

def settle (r : Reader) : Reader :=
  match r.mode with
  | .atom chars _ => r.endAtom chars
  | _ => r

theorem settle_wrapped (r : Reader) : r.wrapped.settle = r.settle.wrapped := by
  rcases hmode : r.mode with _ | _ | ⟨chars, escaped⟩ | ⟨chars, escaped⟩
  all_goals
    have hwrapped : r.wrapped.mode = r.mode := rfl
    simp only [settle, hwrapped, hmode, endAtom_wrapped]

theorem Escaped.settle (h : r.Escaped) : r.settle.Escaped := by
  unfold Reader.settle
  split
  · exact h.push _
  · exact h

section
variable (code : r.mode.context = .code)
include code

theorem mode_settle : r.settle.mode = .between := by
  rcases r with ⟨_ | _ | ⟨chars, _ | _⟩ | _, level, outer, pos⟩
  · rfl
  · cases code
  · cases code
  · cases code
  · rfl

theorem step_of_code (hc : endsAtom c = true) : r.step c = r.settle.start c := by
  rcases r with ⟨_ | _ | ⟨chars, _ | _⟩ | ⟨chars, _ | _⟩, level, outer, pos⟩
  · rfl
  · cases code
  · cases code
  · cases code
  · exact if_pos hc
  · cases code

theorem finish_of_code : r.finish = r.settle.close := by
  rcases r with ⟨_ | _ | ⟨chars, _ | _⟩ | ⟨chars, _ | _⟩, level, outer, pos⟩
  · rfl
  · cases code
  · cases code
  · cases code
  · rfl
  · cases code

theorem finish_settle (pos : Nat) : (r.settle.moveTo pos).finish = r.settle.close := by
  rw [finish, moveTo]
  simp only [mode_settle code]
  rfl

theorem feed_line : r.feed '\n' = .ok (r.settle.moveTo (r.settle.pos + 1)) := by
  rw [feed, step_of_code code rfl]
  rfl

end

theorem foldlM_of_comment (comment : r.mode = .comment) (line : '\n' ∉ cs) :
    cs.foldlM feed r = .ok (r.moveTo (r.pos + cs.length)) := by
  induction cs generalizing r with
  | nil => rfl
  | cons c cs ih =>
    rw [List.mem_cons, not_or] at line
    have hfeed : r.feed c = .ok (r.moveTo (r.pos + 1)) := by
      simp [feed, step, comment, Ne.symm line.1, Except.map, moveTo]
    rw [List.foldlM_cons, hfeed]
    refine (ih (r := r.moveTo (r.pos + 1)) comment line.2).trans ?_
    rw [List.length_cons, Nat.add_comm cs.length, ← Nat.add_assoc]
    rfl

theorem foldlM_comment (code : r.mode.context = .code) (line : '\n' ∉ cs) :
    ∃ pos, (';' :: cs ++ ['\n']).foldlM feed r = .ok (r.settle.moveTo pos) := by
  let inside : Reader := { r.settle with mode := .comment, pos := r.settle.pos + 1 }
  have hstart : r.feed ';' = .ok inside := by
    rw [feed, step_of_code code rfl]
    rfl
  have hrest := foldlM_of_comment (r := inside) rfl line
  refine ⟨r.settle.pos + 1 + cs.length + 1, ?_⟩
  rw [List.cons_append, List.foldlM_cons, hstart]
  change (cs ++ ['\n']).foldlM feed inside = _
  rw [List.foldlM_append, hrest]
  simp only [moveTo, mode_settle code]
  rfl

def Mode.AtLine (m : Mode) : Prop := m.context = .code ∨ m.context = .text

theorem atLine_of_step (h : r.step '\n' = .ok t) : t.mode.AtLine := by
  rcases r with ⟨_ | _ | ⟨chars, _ | _⟩ | ⟨chars, _ | _⟩, level, outer, pos⟩ <;> cases h
  · exact .inl rfl
  · exact .inl rfl
  · exact .inr rfl
  · exact .inr rfl
  · exact .inl rfl
  · exact .inl rfl

theorem atLine_of_foldlM (h : (cs ++ ['\n']).foldlM feed r = .ok t) : t.mode.AtLine := by
  rw [List.foldlM_append] at h
  obtain ⟨last, -, hlast⟩ := bind_eq_ok_iff.mp h
  obtain ⟨next, hfeed, ⟨⟩⟩ := bind_eq_ok_iff.mp hlast
  obtain ⟨stepped, hstep, rfl⟩ := feed_eq_ok_iff.mp hfeed
  exact atLine_of_step (t := stepped) hstep

def finishClosed (r : Reader) : Except ReadError (List Datum) := (r.feed ')').bind finish

theorem finishClosed_of_code (code : r.mode.context = .code) :
    r.finishClosed = (r.settle.closeForm .round).bind close := by
  have hmode := mode_settle code
  rw [finishClosed, feed, step_of_code code rfl]
  change ((r.settle.closeForm .round).map _).bind finish = _
  revert hmode
  fun_cases closeForm r.settle .round with
  | case1 | case2 | case4 => exact fun _ => rfl
  | case3 =>
    intro hmode
    change finish { r.settle with level := _, outer := _, pos := _ } = _
    rw [finish]
    simp only [hmode]
    rfl

theorem finishClosed_of_text (text : r.mode.context = .text) :
    r.finishClosed = .error .openText := by
  rcases r with ⟨_ | _ | ⟨chars, _ | _⟩ | ⟨chars, _ | _⟩, level, outer, pos⟩ <;> cases text
  rfl

theorem finish_of_text (text : r.mode.context = .text) : r.finish = .error .openText := by
  rcases r with ⟨_ | _ | ⟨chars, _ | _⟩ | ⟨chars, _ | _⟩, level, outer, pos⟩ <;> cases text
  rfl

theorem close_of_open (h : r.outer ≠ []) : ∃ e, r.close = .error e := by
  fun_cases close r with
  | case1 e => exact ⟨e, rfl⟩
  | case2 items houter => exact absurd houter h
  | case3 => exact ⟨_, rfl⟩

theorem closeForm_wrapped (r : Reader) (data : List Datum) :
    (r.wrapped.closeForm .round).bind close = .ok [.list data] ↔ r.close = .ok data := by
  rcases r with ⟨mode, ⟨items, _ | ⟨mark, quotes⟩⟩, outer, pos⟩
  · cases outer with
    | nil =>
      change Except.ok [Datum.list items.reverse] = _ ↔ Except.ok items.reverse = _
      simp
    | cons o outer =>
      -- The bracket closes a form of the text, if any, and the one around it stays open.
      refine iff_of_false ?_ (by rintro ⟨⟩)
      simp only [closeForm, wrapped, Level.shift, Level.close, List.map_cons, List.map_nil,
        List.cons_append]
      split
      · obtain ⟨e, he⟩ := close_of_open
          (r := ⟨mode, _, outer.map (fun o => (o.1, o.2.shift)) ++ [(.round, ⟨[], []⟩)], pos + 2⟩)
          (by simp)
        exact ne_of_eq_of_ne he (by rintro ⟨⟩)
      · rintro ⟨⟩
  · exact iff_of_false (by rintro ⟨⟩) (by rintro ⟨⟩)

theorem finishClosed_wrapped (line : r.mode.AtLine) (data : List Datum) :
    r.wrapped.finishClosed = .ok [.list data] ↔ r.finish = .ok data := by
  obtain code | text := line
  · rw [finishClosed_of_code (r := r.wrapped) code, finish_of_code code, settle_wrapped,
      closeForm_wrapped]
  · rw [finishClosed_of_text (r := r.wrapped) text, finish_of_text text]
    exact iff_of_false (by rintro ⟨⟩) (by rintro ⟨⟩)

/-- Outside of it, the last bracket completes a second datum, or is one too many. -/
theorem Escaped.finishClosed_ne (h : r.Escaped) (line : r.mode.AtLine) (d : Datum) :
    r.finishClosed ≠ .ok [d] := by
  obtain code | text := line
  · rw [finishClosed_of_code code]
    have hsettle := h.settle
    generalize r.settle = r at hsettle
    fun_cases Reader.closeForm r .round with
    | case1 | case2 | case4 => rintro ⟨⟩
    | case3 items level outer hlevel houter =>
      rw [Escaped, houter] at hsettle
      cases outer with
      | cons o outer =>
        obtain ⟨e, he⟩ := close_of_open
          (r := { r with level := level.push (.form .round items), outer := o :: outer })
          (List.cons_ne_nil _ _)
        exact ne_of_eq_of_ne he (by rintro ⟨⟩)
      | nil =>
        intro hd
        have hlength := congrArg List.length (Except.ok.inj hd)
        simp only [List.length_reverse, List.length_cons, List.length_nil] at hlength
        exact hsettle (List.eq_nil_of_length_eq_zero (Nat.succ.inj hlength))
  · rw [finishClosed_of_text text]
    rintro ⟨⟩

end Reader

namespace Datum
open Reader

theorem readAll_wrap (text : List Char) :
    readAll (wrap text) = ((text ++ ['\n']).foldlM feed (wrapped {})).bind finishClosed := by
  have hshape : wrap text = '(' :: '\n' :: ((text ++ ['\n']) ++ [')']) := by simp [wrap]
  rw [hshape, readAll]
  change (((text ++ ['\n']) ++ [')']).foldlM feed (wrapped {})).bind finish = _
  rw [List.foldlM_append]
  cases (text ++ ['\n']).foldlM feed (wrapped {}) with
  | error e => rfl
  | ok r =>
    change ((r.feed ')').bind _).bind finish = (r.feed ')').bind finish
    cases r.feed ')' <;> rfl

theorem readForms_eq_ok_iff_wrap (text : List Char) (data : List Datum) :
    readForms text = .ok data ↔ readAll (wrap text) = .ok [.list data] := by
  fun_cases readForms text with
  | case1 items hread => simp [hread]
  | case2 all other hread => simpa [hread] using other data
  | case3 e hread => simp [hread]

theorem readForms_eq_ok_iff (text : List Char) (data : List Datum) :
    readForms text = .ok data ↔ readAll (text ++ ['\n']) = .ok data := by
  rw [readForms_eq_ok_iff_wrap, readAll_wrap, readAll]
  have hfollows := foldlM_follows (text ++ ['\n']) {}
  cases hplain : (text ++ ['\n']).foldlM feed {} with
  | ok t =>
    rw [hplain] at hfollows
    generalize (text ++ ['\n']).foldlM feed (wrapped {}) = y at hfollows
    cases hfollows
    exact finishClosed_wrapped (atLine_of_foldlM hplain) data
  | error e =>
    cases hwrapped : (text ++ ['\n']).foldlM feed (wrapped {}) with
    | error e' => exact iff_of_false (by rintro ⟨⟩) (by rintro ⟨⟩)
    | ok t =>
      rw [hplain, hwrapped] at hfollows
      cases hfollows with
      | escaped _ h =>
        exact iff_of_false (h.finishClosed_ne (atLine_of_foldlM hwrapped) _) (by rintro ⟨⟩)

theorem readAll_of_unmatched {text : List Char} (unmatched : nesting? text = none)
    (rest : List Char) (data : List Datum) : readAll (text ++ rest) ≠ .ok data := by
  intro hread
  rw [readAll, List.foldlM_append] at hread
  obtain ⟨last, hlast, -⟩ := bind_eq_ok_iff.mp hread
  obtain ⟨r, hr, -⟩ := bind_eq_ok_iff.mp hlast
  have hnesting := nesting_of_foldlM hr
  rw [nesting?] at unmatched
  cases unmatched.symm.trans hnesting

theorem readAll_comment {text comment : List Char} {n : Nesting} (hn : nesting? text = some n)
    (code : n.context = .code) (line : '\n' ∉ comment) :
    readAll (text ++ ';' :: comment ++ ['\n']) = readAll (text ++ ['\n']) := by
  rw [List.append_assoc, readAll, readAll, List.foldlM_append, List.foldlM_append]
  cases hread : text.foldlM feed {} with
  | error e => rfl
  | ok r =>
    have hcode : r.mode.context = .code := by
      cases hn.symm.trans (nesting_of_foldlM hread)
      exact code
    obtain ⟨pos, hcomment⟩ := foldlM_comment hcode line
    change ((';' :: comment ++ ['\n']).foldlM feed r).bind finish =
      ((r.feed '\n').bind .ok).bind finish
    rw [hcomment, feed_line hcode]
    exact (finish_settle hcode _).trans (finish_settle hcode _).symm

end Datum

theorem Node.readForms_eq_ok_iff {text : String} {data : List Datum} :
    Node.readForms text = .ok data ↔ Datum.readAll (text.toList ++ ['\n']) = .ok data := by
  rw [Node.readForms, mapError_eq_ok_iff, Datum.readForms_eq_ok_iff]

theorem Node.readForms_error {text : String} (h : ∀ data, Node.readForms text ≠ .ok data) :
    ∃ e, Node.readForms text = .error e ∧ e.code = .malformedForm := by
  rw [Node.readForms] at h ⊢
  cases hread : Datum.readForms text.toList with
  | error e => exact ⟨_, rfl, rfl⟩
  | ok data => exact absurd (congrArg (Except.mapError _) hread) (h data)

/-- The form around a text cannot be left from within. The text is read as it is read alone, with a
line end behind it, and refused as malformed where it is refused then. So it is refused if some
closing bracket in it is unmatched, and a comment behind it hides nothing. -/
theorem wrapper_inescapable (text : String) :
    (∀ data, Node.readForms text = .ok data ↔ Datum.readAll (text.toList ++ ['\n']) = .ok data) ∧
    ((∀ data, Datum.readAll (text.toList ++ ['\n']) ≠ .ok data) →
      ∃ e, Node.readForms text = .error e ∧ e.code = .malformedForm) ∧
    (nesting? text.toList = none →
      ∃ e, Node.readForms text = .error e ∧ e.code = .malformedForm) ∧
    ∀ n, nesting? text.toList = some n → n.context = .code →
      ∀ comment : String, '\n' ∉ comment.toList → ∀ data,
        Node.readForms (text ++ ";" ++ comment) = .ok data ↔ Node.readForms text = .ok data := by
  refine ⟨fun data => Node.readForms_eq_ok_iff, fun refused => ?_, fun unmatched => ?_, ?_⟩
  · exact Node.readForms_error fun data => mt Node.readForms_eq_ok_iff.mp (refused data)
  · exact Node.readForms_error fun data =>
      mt Node.readForms_eq_ok_iff.mp (Datum.readAll_of_unmatched unmatched _ data)
  · intro n hn code comment line data
    have hcomment := Datum.readAll_comment hn code line
    rw [Node.readForms_eq_ok_iff, Node.readForms_eq_ok_iff, ← hcomment]
    simp

theorem reopened_refused_commented_read :
    (nesting? ") (".toList = none ∧
      ∃ e, Node.readForms ") (" = .error e ∧ e.code = .malformedForm) ∧
    nesting? "(free a)".toList = some ⟨.code, []⟩ ∧ '\n' ∉ " )".toList ∧
    ∀ data, Node.readForms ("(free a)" ++ ";" ++ " )") = .ok data ↔
      Node.readForms "(free a)" = .ok data :=
  ⟨⟨by decide, (wrapper_inescapable ") (").2.2.1 (by decide)⟩, by decide, by decide,
    (wrapper_inescapable "(free a)").2.2.2 ⟨.code, []⟩ (by decide) rfl " )" (by decide)⟩

end NandLang
