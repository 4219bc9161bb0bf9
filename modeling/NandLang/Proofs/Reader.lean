import NandLang.Proofs.Name

/-! What the reader makes of a text. `Reader.Reads` says which data a text adds to the innermost
open form, so that texts are read piece by piece; `Datum.Spelled` says what any text can be read
as. -/
namespace NandLang
namespace Reader

/-- A reader between two data, with no apostrophe waiting. -/
def ready (items : List Datum) (outer : List (Bracket × Level)) (pos : Nat) : Reader :=
  ⟨.between, ⟨items, []⟩, outer, pos⟩

/-- A text, followed by a character that ends an atom, is read as these data. -/
def Reads (cs : List Char) (data : List Datum) : Prop :=
  ∀ (items : List Datum) (outer : List (Bracket × Level)) (pos : Nat) (c : Char) (rest : List Char),
    endsAtom c = true → (cs ++ c :: rest).foldlM feed (ready items outer pos) =
      (c :: rest).foldlM feed (ready (data.reverse ++ items) outer (pos + cs.length))

theorem reads_nil : Reads [] [] := fun _ _ _ _ _ _ => rfl

theorem Reads.append {cs ds : List Char} {data data' : List Datum} {c : Char} (h : Reads cs data)
    (hc : endsAtom c = true) (h' : Reads (c :: ds) data') :
    Reads (cs ++ c :: ds) (data ++ data') := by
  intro items outer pos b rest hb
  rw [List.append_assoc, List.cons_append, h _ _ _ c _ hc, ← List.cons_append, h' _ _ _ b rest hb,
    List.reverse_append, List.append_assoc, List.length_append, Nat.add_assoc]

/-! Single characters, read between two data. -/

theorem start_of_blank {c : Char} (hc : isBlank c = true) (r : Reader) : r.start c = .ok r := by
  simp only [isBlank, Bool.or_eq_true, decide_eq_true_eq] at hc
  rcases hc with ((((rfl | rfl) | rfl) | rfl) | rfl) | rfl <;> rfl

section
variable (items : List Datum) (outer : List (Bracket × Level)) (pos : Nat)

theorem feed_blank {c : Char} (hc : isBlank c = true) :
    feed (ready items outer pos) c = .ok (ready items outer (pos + 1)) := by
  rw [feed, step]
  change ((ready items outer pos).start c).map _ = _
  rw [start_of_blank hc]
  rfl

theorem feed_opening : feed (ready items outer pos) '(' =
    .ok (ready [] ((.round, ⟨items, []⟩) :: outer) (pos + 1)) := rfl

theorem feed_closing (inner : List Datum) :
    feed (ready inner ((.round, ⟨items, []⟩) :: outer) pos) ')' =
      .ok (ready (.list inner.reverse :: items) outer (pos + 1)) := rfl

end

theorem Reads.blank {cs : List Char} {data : List Datum} {c : Char} (hc : isBlank c = true)
    (h : Reads cs data) : Reads (c :: cs) data := by
  intro items outer pos b rest hb
  rw [List.cons_append, List.foldlM_cons, feed_blank _ _ _ hc, List.length_cons,
    Nat.add_comm cs.length, ← Nat.add_assoc]
  exact h items outer (pos + 1) b rest hb

theorem Reads.foldlM_form {cs : List Char} {data : List Datum} (h : Reads cs data)
    (items : List Datum) (outer : List (Bracket × Level)) (pos : Nat) (rest : List Char) :
    ('(' :: cs ++ ')' :: rest).foldlM feed (ready items outer pos) =
      rest.foldlM feed (ready (.list data :: items) outer (pos + (cs.length + 2))) := by
  have hinner := h [] ((.round, ⟨items, []⟩) :: outer) (pos + 1) ')' rest rfl
  rw [List.foldlM_cons, feed_closing, List.append_nil, List.reverse_reverse] at hinner
  rw [List.cons_append, List.foldlM_cons, feed_opening]
  refine hinner.trans ?_
  rw [show pos + 1 + cs.length + 1 = pos + (cs.length + 2) by omega]
  rfl

theorem Reads.form {cs : List Char} {data : List Datum} (h : Reads cs data) :
    Reads ('(' :: cs ++ [')']) [.list data] := by
  intro items outer pos c rest _
  rw [List.append_assoc]
  refine (h.foldlM_form items outer pos (c :: rest)).trans ?_
  simp

/-! Names as atoms. -/

section
variable {c : Char} (h : NameChar c)
include h

theorem opens?_of_name : opens? c = none := by
  rw [opens?, if_neg (h.ne (by decide)), if_neg (h.ne (by decide))]

theorem closes?_of_name : closes? c = none := by
  rw [closes?, if_neg (h.ne (by decide)), if_neg (h.ne (by decide))]

theorem isBlank_of_name : isBlank c = false := by
  rw [← Bool.not_eq_true]
  intro hblank
  simp only [isBlank, Bool.or_eq_true, decide_eq_true_eq] at hblank
  rcases hblank with ((((rfl | rfl) | rfl) | rfl) | rfl) | rfl <;> exact absurd h (by decide)

theorem endsAtom_of_name : endsAtom c = false := by
  have hquote : c ≠ '\x22' := h.ne (by decide)
  have hcomment : c ≠ ';' := h.ne (by decide)
  simp [endsAtom, opens?_of_name h, closes?_of_name h, isBlank_of_name h, hquote, hcomment]

theorem start_of_name (r : Reader) : r.start c = .ok { r with mode := .atom [c] false } := by
  rw [start, opens?_of_name h, closes?_of_name h]
  dsimp only
  rw [isBlank_of_name h, if_neg Bool.false_ne_true, if_neg (h.ne (by decide)),
    if_neg (h.ne (by decide)), if_neg (h.ne (by decide)), if_neg (h.ne (by decide))]

theorem feed_name_first (items : List Datum) (outer : List (Bracket × Level)) (pos : Nat) :
    feed (ready items outer pos) c = .ok ⟨.atom [c] false, ⟨items, []⟩, outer, pos + 1⟩ := by
  rw [feed, ready, step, start_of_name h]
  rfl

theorem feed_name_next (chars : List Char) (level : Level) (outer : List (Bracket × Level))
    (pos : Nat) :
    feed ⟨.atom chars false, level, outer, pos⟩ c =
      .ok ⟨.atom (c :: chars) false, level, outer, pos + 1⟩ := by
  rw [feed, step]
  dsimp only
  rw [endsAtom_of_name h, if_neg Bool.false_ne_true, if_neg (h.ne (by decide))]
  rfl

end

theorem foldlM_name {cs : List Char} (h : ∀ c ∈ cs, NameChar c) (chars : List Char) (level : Level)
    (outer : List (Bracket × Level)) (pos : Nat) (rest : List Char) :
    (cs ++ rest).foldlM feed ⟨.atom chars false, level, outer, pos⟩ =
      rest.foldlM feed ⟨.atom (cs.reverse ++ chars) false, level, outer, pos + cs.length⟩ := by
  induction cs generalizing chars pos with
  | nil => rfl
  | cons c cs ih =>
    obtain ⟨hc, hcs⟩ := List.forall_mem_cons.mp h
    rw [List.cons_append, List.foldlM_cons, feed_name_next hc, List.reverse_cons,
      List.append_assoc, List.length_cons, Nat.add_comm cs.length, ← Nat.add_assoc]
    exact ih hcs (c :: chars) (pos + 1)

theorem feed_end_atom {c : Char} (hc : endsAtom c = true) (chars : List Char) (items : List Datum)
    (outer : List (Bracket × Level)) (pos : Nat) :
    feed ⟨.atom chars false, ⟨items, []⟩, outer, pos⟩ c =
      feed (ready (.ofAtom chars.reverse :: items) outer pos) c := by
  rw [feed, step]
  dsimp only
  rw [if_pos hc]
  rfl

theorem reads_atom {cs : List Char} (legal : legalName cs = true) : Reads cs [.ofAtom cs] := by
  intro items outer pos b rest hb
  cases cs with
  | nil => cases legal
  | cons c cs =>
    obtain ⟨hc, hcs⟩ := List.forall_mem_cons.mp (nameChar_of_legal legal)
    rw [List.cons_append, List.foldlM_cons, feed_name_first hc]
    refine (foldlM_name hcs [c] ⟨items, []⟩ outer (pos + 1) (b :: rest)).trans ?_
    rw [List.foldlM_cons, List.foldlM_cons, feed_end_atom hb, List.reverse_append,
      List.reverse_reverse, List.length_cons, Nat.add_comm cs.length, ← Nat.add_assoc]
    rfl

theorem reads_name {cs : List Char} (legal : legalName cs = true)
    (wordless : cs.map Char.toLower ∉ numberWords) : Reads cs [.symbol (String.ofList cs)] := by
  rw [← (Datum.ofAtom_of_legal legal).mpr wordless]
  exact reads_atom legal

end Reader

theorem Datum.readForms_of_reads {cs : List Char} {data : List Datum} (h : Reader.Reads cs data) :
    readForms cs = .ok data := by
  have hblank : Reader.isBlank '\n' = true := rfl
  have hwrapped : Reader.Reads ('\n' :: cs ++ ['\n']) data := by
    have hlines := (h.blank hblank).append rfl (Reader.reads_nil.blank hblank)
    rwa [List.append_nil] at hlines
  have hread : readAll (wrap cs) = .ok [.list data] := by
    have hwrap : wrap cs = '(' :: ('\n' :: cs ++ ['\n']) ++ [')'] := by simp [wrap]
    rw [readAll, hwrap]
    exact congrArg (Except.bind · Reader.finish) (hwrapped.foldlM_form [] [] 0 [])
  rw [readForms, hread]

namespace Reader

def moveTo (r : Reader) (pos : Nat) : Reader := { r with pos := pos }

theorem feed_eq_ok_iff {r t : Reader} {c : Char} :
    r.feed c = .ok t ↔ ∃ next, r.step c = .ok next ∧ next.moveTo (next.pos + 1) = t := by
  rw [feed]
  cases r.step c <;> simp [Except.map, moveTo]

theorem foldlM_invariant {I : Reader → Prop}
    (step : ∀ {r t c}, I r → r.step c = .ok t → I t) (move : ∀ {r} pos, I r → I (r.moveTo pos))
    {cs : List Char} {r t : Reader} (h : I r) (hread : cs.foldlM feed r = .ok t) : I t := by
  induction cs generalizing r with
  | nil =>
    cases hread
    exact h
  | cons c cs ih =>
    rw [List.foldlM_cons] at hread
    cases hfeed : r.feed c with
    | error e =>
      rw [hfeed] at hread
      cases hread
    | ok next =>
      obtain ⟨stepped, hstep, rfl⟩ := feed_eq_ok_iff.mp hfeed
      rw [hfeed] at hread
      exact ih (move _ (step h hstep)) hread

end Reader

/-! What any text can be read as. -/

/-- A word that some atom is read as. A line end belongs to an atom only behind a backslash, and
that backslash stays. -/
structure AtomWord (w : String) : Prop where
  symbol : Datum.ofAtom w.toList = .symbol w
  lines : '\n' ∈ w.toList → '\x5c' ∈ w.toList

inductive Datum.Spelled : Datum → Prop
  | symbol {w : String} (word : AtomWord w) : Spelled (.symbol w)
  | int (value : Int) : Spelled (.int value)
  | float (value : Number.Binary64) : Spelled (.float value)
  | text (value : String) : Spelled (.text value)
  | list {items : List Datum} (each : ∀ d ∈ items, Spelled d) : Spelled (.list items)
  | brackets {items : List Datum} (each : ∀ d ∈ items, Spelled d) : Spelled (.brackets items)
  | quoted {d : Datum} (inner : Spelled d) : Spelled (.quoted d)

theorem Datum.Spelled.word {w : String} : (Datum.symbol w).Spelled → AtomWord w
  | .symbol word => word

theorem Datum.Spelled.each {items : List Datum} :
    (Datum.list items).Spelled → ∀ d ∈ items, d.Spelled
  | .list each => each

theorem Datum.spelled_ofAtom {cs : List Char} (lines : '\n' ∈ cs → '\x5c' ∈ cs) :
    (ofAtom cs).Spelled := by
  fun_cases ofAtom cs with
  | case1 n => exact .int n
  | case2 _ x => exact .float x
  | case3 hint hfloat =>
    refine .symbol ⟨?_, by rwa [String.toList_ofList]⟩
    rw [String.toList_ofList, ofAtom, hint, hfloat]

theorem Datum.backslash_of_atomEscape {c : Char} (hline : '\n' ∈ atomEscape c) :
    '\x5c' ∈ atomEscape c := by
  revert hline
  fun_cases atomEscape c with
  | case1 special =>
    rw [List.mem_singleton]
    rintro rfl
    cases special
  | case2 => exact fun _ => List.mem_cons_self

theorem Datum.spelled_form (b : Bracket) {items : List Datum} (each : ∀ d ∈ items, d.Spelled) :
    (form b items).Spelled := by
  cases b with
  | round => exact .list each
  | square => exact .brackets each

namespace Reader

def Level.Spelled (l : Level) : Prop := ∀ d ∈ l.items, d.Spelled

theorem Level.Spelled.push {l : Level} (h : l.Spelled) {d : Datum} (hd : d.Spelled) :
    (l.push d).Spelled := by
  have hquoted : ∀ (marks : List Nat) (d : Datum), d.Spelled →
      (marks.foldl (fun d _ => Datum.quoted d) d).Spelled := by
    intro marks
    induction marks with
    | nil => exact fun _ hd => hd
    | cons _ marks ih => exact fun d hd => ih (.quoted d) (.quoted hd)
  exact List.forall_mem_cons.mpr ⟨hquoted l.quotes d hd, h⟩

theorem Level.Spelled.close {l : Level} (h : l.Spelled) {data : List Datum}
    (hclose : l.close = .ok data) : ∀ d ∈ data, d.Spelled := by
  revert hclose
  fun_cases Level.close l with
  | case1 =>
    rintro ⟨⟩ d hd
    exact h d (List.mem_reverse.mp hd)
  | case2 => nofun

def Mode.Spelled : Mode → Prop
  | .atom chars _ => '\n' ∈ chars → '\x5c' ∈ chars
  | _ => True

/-- Everything read so far is spelled, and the atom in the middle of being read will be. -/
structure Spelled (r : Reader) : Prop where
  level : r.level.Spelled
  outer : ∀ l ∈ r.outer, l.2.Spelled
  mode : r.mode.Spelled

namespace Spelled

variable {r r' : Reader} {data : List Datum} (h : r.Spelled)
include h

theorem enter {mode : Mode} (hmode : mode.Spelled) : Spelled { r with mode := mode } :=
  ⟨h.level, h.outer, hmode⟩

theorem push {d : Datum} (hd : d.Spelled) : (r.push d).Spelled :=
  ⟨h.level.push hd, h.outer, trivial⟩

theorem endAtom {chars : List Char} (lines : '\n' ∈ chars → '\x5c' ∈ chars) :
    (r.endAtom chars).Spelled :=
  h.push (Datum.spelled_ofAtom (by simpa using lines))

theorem closeForm {b : Bracket} (hclose : r.closeForm b = .ok r') : r'.Spelled := by
  revert hclose
  fun_cases Reader.closeForm r b with
  | case1 | case2 | case4 => nofun
  | case3 items level outer hlevel houter =>
    rintro ⟨⟩
    have hall := h.outer
    rw [houter] at hall
    obtain ⟨hinner, hrest⟩ := List.forall_mem_cons.mp hall
    exact ⟨hinner.push (Datum.spelled_form b (h.level.close hlevel)), hrest, h.mode⟩

theorem start {c : Char} (hstart : r.start c = .ok r') : r'.Spelled := by
  revert hstart
  fun_cases Reader.start r c with
  | case1 b =>
    rintro ⟨⟩
    exact ⟨nofun, List.forall_mem_cons.mpr ⟨h.level, h.outer⟩, h.mode⟩
  | case2 b => exact h.closeForm
  | case3 =>
    rintro ⟨⟩
    exact h
  | case4 =>
    rintro ⟨⟩
    exact ⟨h.level, h.outer, h.mode⟩
  | case5 | case6 =>
    rintro ⟨⟩
    exact h.enter trivial
  | case7 =>
    rintro ⟨⟩
    exact h.enter nofun
  | case8 _ _ visible =>
    rintro ⟨⟩
    refine h.enter fun hline => ?_
    rw [List.mem_singleton] at hline
    exact absurd (hline ▸ rfl) visible

theorem step {c : Char} (hstep : r.step c = .ok r') : r'.Spelled := by
  have hmode := h.mode
  revert hstep
  fun_cases Reader.step r c with
  | case1 => exact h.start
  | case2 =>
    rintro ⟨⟩
    split
    · exact h.enter trivial
    · exact h
  | case3 | case5 | case6 =>
    rintro ⟨⟩
    exact h.enter trivial
  | case4 chars =>
    rintro ⟨⟩
    exact h.push (.text _)
  | case7 chars hatom =>
    rintro ⟨⟩
    rw [hatom] at hmode
    refine h.enter fun hline => ?_
    rw [List.mem_append, List.mem_reverse] at hline ⊢
    exact hline.imp Datum.backslash_of_atomEscape hmode
  | case8 chars hatom =>
    rw [hatom] at hmode
    exact (h.endAtom hmode).start
  | case9 chars hatom =>
    rintro ⟨⟩
    rw [hatom] at hmode
    exact h.enter hmode
  | case10 chars hatom inside =>
    rintro ⟨⟩
    rw [hatom] at hmode
    refine h.enter fun hline => ?_
    rcases List.mem_cons.mp hline with rfl | hline
    · exact absurd rfl inside
    · exact List.mem_cons_of_mem c (hmode hline)

theorem foldlM {cs : List Char} (hread : cs.foldlM feed r = .ok r') : r'.Spelled :=
  foldlM_invariant (fun h hstep => h.step hstep) (fun _ h => ⟨h.level, h.outer, h.mode⟩) h hread

theorem close (hclose : r.close = .ok data) : ∀ d ∈ data, d.Spelled := by
  revert hclose
  fun_cases Reader.close r with
  | case1 | case3 => nofun
  | case2 items _ hlevel =>
    rintro ⟨⟩
    exact h.level.close hlevel

theorem finish (hfinish : r.finish = .ok data) : ∀ d ∈ data, d.Spelled := by
  have hmode := h.mode
  revert hfinish
  fun_cases Reader.finish r with
  | case1 => nofun
  | case2 | case3 => exact h.close
  | case4 chars hatom =>
    rw [hatom] at hmode
    exact (h.endAtom hmode).close
  | case5 => exact (h.endAtom fun _ => List.mem_cons_self).close

end Spelled

end Reader

theorem Datum.spelled_readForms {cs : List Char} {data : List Datum} (h : readForms cs = .ok data) :
    ∀ d ∈ data, d.Spelled := by
  revert h
  fun_cases readForms cs with
  | case1 items hread =>
    rintro ⟨⟩
    rw [readAll] at hread
    cases hfold : (wrap cs).foldlM Reader.feed {} with
    | error e =>
      rw [hfold] at hread
      cases hread
    | ok r =>
      rw [hfold] at hread
      have hinitial : Reader.Spelled {} := ⟨nofun, nofun, trivial⟩
      exact ((hinitial.foldlM hfold).finish hread (.list data) List.mem_cons_self).each
  | case2 | case3 => nofun

end NandLang
