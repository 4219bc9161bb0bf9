import Mathlib.Data.List.Basic
import NandLang.Grammar

/-! Names as atoms. A legal name starts with no digit, sign or point, so the only numbers that it
can be taken for are those written as words. -/
namespace NandLang

def numberWords : List (List Char) := ["inf".toList, "infinity".toList, "nan".toList]

/-- A name that is read back as itself where it is written. -/
structure Readable (x : Name) : Prop where
  legal : legalName x.toList = true
  unreserved : ∀ k : Keyword, x ≠ k.word
  wordless : x.toList.map Char.toLower ∉ numberWords

def NameChar (c : Char) : Prop := c.isAlphanum = true ∨ c = '_' ∨ c = '-'

instance : DecidablePred NameChar := fun _ => instDecidableOr

theorem isDigit_iff {c : Char} : c.isDigit = true ↔ 48 ≤ c.toNat ∧ c.toNat ≤ 57 := by
  simp only [Char.isDigit, Bool.and_eq_true, decide_eq_true_eq, UInt32.le_iff_toNat_le, ge_iff_le]
  rfl

theorem isAlpha_iff {c : Char} : c.isAlpha = true ↔
    65 ≤ c.toNat ∧ c.toNat ≤ 90 ∨ 97 ≤ c.toNat ∧ c.toNat ≤ 122 := by
  have hcases : c.isAlpha = (decide (c.val ≥ 65 ∧ c.val ≤ 90) || c.val ≥ 97 && c.val ≤ 122) := rfl
  simp only [hcases, Bool.or_eq_true, Bool.and_eq_true, decide_eq_true_eq,
    UInt32.le_iff_toNat_le, ge_iff_le]
  rfl

namespace NameChar

variable {c d : Char}

theorem ne (h : NameChar c) (hd : ¬NameChar d) : c ≠ d := by
  rintro rfl
  exact hd h

theorem range (h : NameChar c) : 45 ≤ c.toNat ∧ c.toNat < 127 := by
  rcases h with h | rfl | rfl
  · rw [Char.isAlphanum, Bool.or_eq_true, isAlpha_iff, isDigit_iff] at h
    omega
  all_goals decide

theorem not_blank (h : NameChar c) : Number.isBlank c = false := by
  have := h.range
  have hspace : c ≠ ' ' := h.ne (by decide)
  simp only [Number.isBlank, hspace, decide_false, Bool.false_or, Bool.and_eq_false_iff,
    decide_eq_false_iff_not]
  omega

end NameChar

theorem nameChar_of_legal {cs : List Char} (h : legalName cs = true) : ∀ c ∈ cs, NameChar c := by
  cases cs with
  | nil => cases h
  | cons c rest =>
    simp only [legalName, Bool.and_eq_true, Bool.or_eq_true, decide_eq_true_eq,
      List.all_eq_true] at h
    obtain ⟨hc, hrest⟩ := h
    refine List.forall_mem_cons.mpr ⟨?_, fun d hd => ?_⟩
    · rcases hc with hc | rfl
      · exact .inl (by simp [Char.isAlphanum, hc])
      · exact .inr (.inl rfl)
    · exact (or_assoc.mp (hrest d hd))

namespace Number

theorem ascii?_of_name {cs : List Char} (h : ∀ c ∈ cs, NameChar c) : ascii? cs = some cs := by
  refine if_pos (List.all_eq_true.mpr fun c hc => decide_eq_true ?_)
  have := (h c hc).range
  omega

theorem strip_of_name {cs : List Char} (h : ∀ c ∈ cs, NameChar c) : strip cs = cs := by
  have hdrop : ∀ ds : List Char, (∀ c ∈ ds, NameChar c) → ds.dropWhile isBlank = ds := by
    intro ds hds
    cases ds with
    | nil => rfl
    | cons c rest =>
      have hc := (hds c List.mem_cons_self).not_blank
      exact List.dropWhile_cons_of_neg (by simp [hc])
  rw [strip, hdrop cs h, hdrop cs.reverse (by simpa using h), List.reverse_reverse]

theorem plain?_of_name {cs : List Char} (h : ∀ c ∈ cs, NameChar c) : plain? cs = ungroup cs := by
  rw [plain?, ascii?_of_name h, Option.bind_some, strip_of_name h]

theorem head?_of_ungroup {cs body : List Char} (h : ungroup cs = some body) :
    body.head? = cs.head? := by
  revert h
  fun_cases ungroup cs with
  | case1 =>
    rintro ⟨⟩
    rfl
  | case2 | case5 =>
    intro h
    obtain ⟨tail, -, rfl⟩ := Option.map_eq_some_iff.mp h
    rfl
  | case3 | case4 => nofun

theorem eq_of_ungroup {cs body : List Char} (h : ungroup cs = some body)
    (digitless : ∀ c ∈ body, c.isDigit = false) : cs = body := by
  fun_induction ungroup cs generalizing body with
  | case1 => exact Option.some.inj h
  | case2 d e rest digits =>
    obtain ⟨tail, -, rfl⟩ := Option.map_eq_some_iff.mp h
    rw [digitless d List.mem_cons_self, Bool.false_and] at digits
    cases digits
  | case3 | case4 => cases h
  | case5 c rest _ hc ih =>
    obtain ⟨tail, htail, rfl⟩ := Option.map_eq_some_iff.mp h
    rw [ih htail (List.forall_mem_cons.mp digitless).2]

theorem ungroup_of_notMem {cs : List Char} (h : '_' ∉ cs) : ungroup cs = some cs := by
  fun_induction ungroup cs with
  | case1 => rfl
  | case2 | case3 | case4 => simp at h
  | case5 c rest _ hc ih =>
    rw [ih (fun hmem => h (List.mem_cons_of_mem _ hmem))]
    rfl

theorem isSome_ofWord? (negative : Bool) (cs : List Char) :
    (Binary64.ofWord? negative cs).isSome = true ↔ cs.map Char.toLower ∈ numberWords := by
  have hword : ∀ w : String, String.ofList (cs.map Char.toLower) = w ↔
      cs.map Char.toLower = w.toList := by
    intro w
    rw [← String.toList_inj, String.toList_ofList]
  unfold Binary64.ofWord? numberWords
  simp only [List.mem_cons, List.not_mem_nil, or_false, ← hword]
  split <;> simp_all

theorem splitSign_of_ne {c : Char} (minus : c ≠ '-') (plus : c ≠ '+') (rest : List Char) :
    splitSign (c :: rest) = (false, c :: rest) := by
  rw [splitSign]
  · simpa using minus
  · simpa using plus

theorem decimal?_of_letter {c : Char} (letter : c.isDigit = false) (point : c ≠ '.')
    (rest : List Char) : decimal? (c :: rest) = none := by
  simp [decimal?, spanDigits, letter, point]

theorem toLower_of_digit {c : Char} (h : c.isDigit = true) : c.toLower = c := by
  rw [isDigit_iff] at h
  refine dif_neg fun upper => ?_
  have : 65 ≤ c.toNat := UInt32.le_iff_toNat_le.mp upper.1
  omega

theorem letters_of_numberWord {cs : List Char} (h : cs.map Char.toLower ∈ numberWords) :
    ∀ c ∈ cs, c.isDigit = false ∧ c ≠ '_' := by
  have hletters : ∀ w ∈ numberWords, ∀ d ∈ w, d.isDigit = false ∧ d ≠ '_' := by
    simp [numberWords]
  intro c hc
  have hlower := hletters _ h c.toLower (List.mem_map_of_mem hc)
  constructor
  · by_contra hdigit
    rw [Bool.not_eq_false] at hdigit
    rw [toLower_of_digit hdigit, hdigit] at hlower
    cases hlower.1
  · rintro rfl
    exact hlower.2 (by decide)

variable {cs body : List Char}

theorem start_of_plain? (legal : legalName cs = true) (h : plain? cs = some body) :
    ∃ c rest, body = c :: rest ∧ c.isDigit = false ∧ c ≠ '.' ∧ splitSign body = (false, body) := by
  rw [plain?_of_name (nameChar_of_legal legal)] at h
  have hhead := head?_of_ungroup h
  cases cs with
  | nil => cases legal
  | cons c rest =>
    obtain ⟨tail, rfl⟩ := List.head?_eq_some_iff.mp hhead
    have hstart : c.isAlpha = true ∨ c = '_' := by
      simp only [legalName, Bool.and_eq_true, Bool.or_eq_true, decide_eq_true_eq] at legal
      exact legal.1
    have hne : ∀ d : Char, (d.isAlpha || d = '_') = false → c ≠ d := by
      rintro d hd rfl
      rcases hstart with hc | rfl
      · simp [hc] at hd
      · cases hd
    have hdigit : c.isDigit = false := by
      rw [← Bool.not_eq_true, isDigit_iff]
      rcases hstart with hc | rfl
      · rw [isAlpha_iff] at hc
        omega
      · decide
    exact ⟨c, tail, rfl, hdigit, hne '.' (by decide),
      splitSign_of_ne (hne '-' (by decide)) (hne '+' (by decide)) tail⟩

theorem int?_of_legal (legal : legalName cs = true) : int? cs = none := by
  rw [int?]
  cases hplain : plain? cs with
  | none => rfl
  | some body =>
    obtain ⟨c, rest, rfl, letter, -, hsign⟩ := start_of_plain? legal hplain
    simp [hsign, letter]

theorem isSome_ofNumeral?_of_legal (legal : legalName cs = true) :
    (Binary64.ofNumeral? cs).isSome = true ↔ cs.map Char.toLower ∈ numberWords := by
  constructor
  · intro h
    rw [Binary64.ofNumeral?] at h
    cases hplain : plain? cs with
    | none => simp [hplain] at h
    | some body =>
      obtain ⟨c, rest, rfl, letter, point, hsign⟩ := start_of_plain? legal hplain
      rw [hplain, Option.bind_some, hsign] at h
      dsimp only at h
      rw [decimal?_of_letter letter point] at h
      have hword : (Binary64.ofWord? false (c :: rest)).isSome = true := by
        cases hw : Binary64.ofWord? false (c :: rest) with
        | none => simp [hw] at h
        | some number => rfl
      rw [isSome_ofWord?] at hword
      rw [plain?_of_name (nameChar_of_legal legal)] at hplain
      rwa [eq_of_ungroup hplain fun d hd => (letters_of_numberWord hword d hd).1]
  · intro hword
    have hplain : plain? cs = some cs := by
      rw [plain?_of_name (nameChar_of_legal legal)]
      exact ungroup_of_notMem fun hmem => (letters_of_numberWord hword _ hmem).2 rfl
    obtain ⟨c, rest, rfl, -, -, hsign⟩ := start_of_plain? legal hplain
    obtain ⟨number, hnumber⟩ := Option.isSome_iff_exists.mp ((isSome_ofWord? false _).mpr hword)
    rw [Binary64.ofNumeral?, hplain, Option.bind_some, hsign]
    simp [hnumber]

end Number

theorem Datum.ofAtom_of_legal {cs : List Char} (legal : legalName cs = true) :
    Datum.ofAtom cs = .symbol (String.ofList cs) ↔ cs.map Char.toLower ∉ numberWords := by
  rw [ofAtom, Number.int?_of_legal legal, ← Number.isSome_ofNumeral?_of_legal legal]
  cases Number.Binary64.ofNumeral? cs <;> simp

theorem Datum.ofAtom_of_numberWord {cs : List Char} (legal : legalName cs = true)
    (word : cs.map Char.toLower ∈ numberWords) :
    ∃ x, Number.Binary64.ofNumeral? cs = some x ∧ Datum.ofAtom cs = .float x := by
  obtain ⟨x, hx⟩ := Option.isSome_iff_exists.mp ((Number.isSome_ofNumeral?_of_legal legal).mpr word)
  refine ⟨x, hx, ?_⟩
  rw [ofAtom, Number.int?_of_legal legal]
  dsimp only
  rw [hx]

end NandLang
