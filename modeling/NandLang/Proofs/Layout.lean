import NandLang.Proofs.Blanks
import NandLang.Proofs.Subcommands

/-! The two ways to print a tree agree. A layout is the one-line form with some blanks replaced by
line ends and indents, so it is refused where that form is and read as the same tree; only an indent
that is too wide gets in its way on its own. -/
namespace NandLang
namespace Node

variable {n : Node} {indent : Int} {inRow : Bool} {depth : Nat} {rest : List Char}

/-! What is in the way of a layout. -/

def lineDepths (inRow : Bool) (depth : Nat) : Node → List Nat
  | .seq a b _ =>
    if inRow then a.lineDepths false depth ++ b.lineDepths true depth
    else depth :: (a.lineDepths false (depth + 1) ++ b.lineDepths true (depth + 1))
  | .ifThen _ b _ | .whileDo _ b _ => depth :: b.lineDepths false (depth + 1)
  | _ => [depth]

theorem misplaced?_of_parts {a b : Node} (h : n.foreign? = (a.foreign? <|> b.foreign?)) :
    n.misplaced? = (a.misplaced?).or b.misplaced? := by
  rw [misplaced?, h, misplaced?, misplaced?]
  cases a.foreign? <;> rfl

theorem misplaced?_seq (a b : Node) (loc : Option Loc) :
    (seq a b loc).misplaced? = (a.misplaced?).or b.misplaced? :=
  misplaced?_of_parts rfl

theorem misplaced?_ifThen (c b : Node) (loc : Option Loc) :
    (ifThen c b loc).misplaced? = (c.misplaced?).or b.misplaced? :=
  misplaced?_of_parts rfl

theorem misplaced?_whileDo (c b : Node) (loc : Option Loc) :
    (whileDo c b loc).misplaced? = (c.misplaced?).or b.misplaced? :=
  misplaced?_of_parts rfl

theorem layoutError?_eq_none_iff :
    n.layoutError? indent inRow depth = none ↔
      (∀ d ∈ n.lineDepths inRow depth, widthError? indent d = none) ∧ n.misplaced? = none := by
  induction n generalizing inRow depth with
  | seq a b _ iha ihb =>
    cases inRow <;>
    · simp only [layoutError?, lineDepths, misplaced?_seq, iha, ihb, Option.orElse_eq_orElse,
        Option.orElse_eq_or, Option.or_eq_none_iff, List.forall_mem_cons, List.forall_mem_append,
        Bool.false_eq_true, if_true, if_false]
      tauto
  | ifThen c b _ _ ih | whileDo c b _ _ ih =>
    simp only [layoutError?, lineDepths, misplaced?_ifThen, misplaced?_whileDo, ih,
      Option.orElse_eq_orElse, Option.orElse_eq_or, Option.or_eq_none_iff, List.forall_mem_cons,
      Option.map_eq_none_iff]
    tauto
  | _ => simp [layoutError?, lineDepths]

theorem layoutError?_eq_some {e : LayoutError} (h : n.layoutError? indent inRow depth = some e) :
    (∃ d ∈ n.lineDepths inRow depth, widthError? indent d = some e) ∨
      ∃ m, n.misplaced? = some m ∧ e = .misplaced m := by
  -- A part that is in order has nothing misplaced, so the first misplaced value of the whole tree
  -- is that of the part that is not.
  induction n generalizing inRow depth with
  | seq a b _ iha ihb =>
    cases inRow <;>
    · simp only [layoutError?, lineDepths, misplaced?_seq, Option.orElse_eq_orElse,
        Option.orElse_eq_or, Option.or_eq_some_iff, layoutError?_eq_none_iff, Bool.false_eq_true,
        if_true, if_false] at h ⊢
      grind
  | ifThen c b _ _ ih | whileDo c b _ _ ih =>
    simp only [layoutError?, lineDepths, misplaced?_ifThen, misplaced?_whileDo,
      Option.orElse_eq_orElse, Option.orElse_eq_or, Option.or_eq_some_iff, Option.map_eq_some_iff,
      Option.map_eq_none_iff] at h ⊢
    grind
  | _ =>
    simp only [layoutError?, lineDepths, Option.orElse_eq_orElse, Option.orElse_eq_or,
      Option.or_eq_some_iff, Option.map_eq_some_iff] at h ⊢
    grind

/-! Lines joined. -/

/-- No name of the tree has a blank or a line end in it. -/
def Spaceless (n : Node) : Prop := ∀ x ∈ n.names, ' ' ∉ x.toList ∧ '\n' ∉ x.toList

instance : DecidablePred Spaceless := fun n =>
  inferInstanceAs (Decidable (∀ x ∈ n.names, ' ' ∉ x.toList ∧ '\n' ∉ x.toList))

theorem native_parts {a b : Node} (h : (a.foreign? <|> b.foreign?) = none) :
    a.foreign? = none ∧ b.foreign? = none := by
  rwa [Option.orElse_eq_orElse, Option.orElse_eq_or, Option.or_eq_none_iff] at h

theorem forall_mem_flatOnto {P : Char → Prop} (shape : P '(' ∧ P ')' ∧ P ' ')
    (word : ∀ c, NameChar c → P c) (native : n.foreign? = none)
    (names : ∀ x ∈ n.names, ∀ c ∈ x.toList, P c) (hrest : ∀ c ∈ rest, P c) :
    ∀ c ∈ n.flatOnto inRow rest, P c := by
  obtain ⟨opened, closed, blank⟩ := shape
  have hword : ∀ k : Keyword, ∀ c ∈ k.word.toList, P c := fun k c hc =>
    word c (nameChar_of_legal k.legal c hc)
  have hopening : ∀ k, ∀ c ∈ opening k, P c := fun k =>
    List.forall_mem_cons.mpr ⟨opened, hword k⟩
  induction n generalizing inRow rest with
  | lit b => exact List.forall_mem_append.mpr ⟨hword _, hrest⟩
  | var x => exact List.forall_mem_append.mpr ⟨names x List.mem_cons_self, hrest⟩
  | free x =>
    simp only [flatOnto, List.forall_mem_append, List.forall_mem_cons]
    exact ⟨⟨hopening _, blank, names x List.mem_cons_self⟩, closed, hrest⟩
  | decl x e _ ih | assign x e _ ih =>
    obtain ⟨hx, he⟩ := List.forall_mem_cons.mp names
    simp only [flatOnto, List.forall_mem_append, List.forall_mem_cons]
    exact ⟨⟨hopening _, blank, hx⟩, blank, ih native he (List.forall_mem_cons.mpr ⟨closed, hrest⟩)⟩
  | nand l r _ ihl ihr | ifThen l r _ ihl ihr | whileDo l r _ ihl ihr =>
    obtain ⟨nativel, nativer⟩ := native_parts native
    obtain ⟨hl, hr⟩ := List.forall_mem_append.mp names
    simp only [flatOnto, List.forall_mem_append, List.forall_mem_cons]
    have hclosed := List.forall_mem_cons.mpr ⟨closed, hrest⟩
    exact ⟨hopening _, blank,
      ihl nativel hl (List.forall_mem_cons.mpr ⟨blank, ihr nativer hr hclosed⟩)⟩
  | seq a b _ iha ihb =>
    obtain ⟨nativea, nativeb⟩ := native_parts native
    obtain ⟨ha, hb⟩ := List.forall_mem_append.mp names
    have hclosed := List.forall_mem_cons.mpr ⟨closed, hrest⟩
    cases inRow with
    | true => exact iha nativea ha (List.forall_mem_cons.mpr ⟨blank, ihb nativeb hb hrest⟩)
    | false =>
      simp only [flatOnto, Bool.false_eq_true, if_false, List.forall_mem_append,
        List.forall_mem_cons]
      exact ⟨hopening _, blank,
        iha nativea ha (List.forall_mem_cons.mpr ⟨blank, ihb nativeb hb hclosed⟩)⟩
  | foreign => cases native

theorem line_notMem_flatOnto (native : n.foreign? = none) (spaceless : n.Spaceless) (inRow : Bool) :
    '\n' ∉ n.flatOnto inRow [] := by
  have hnames : ∀ x ∈ n.names, ∀ c ∈ x.toList, c ≠ '\n' := by
    rintro x hx c hc rfl
    exact (spaceless x hx).2 hc
  have hline : ∀ c ∈ n.flatOnto inRow [], c ≠ '\n' :=
    forall_mem_flatOnto (by decide) (fun c name => name.ne (by decide)) native hnames
      (List.forall_mem_nil _)
  exact fun h => hline _ h rfl

theorem joinLines_pad {fresh : Bool} (h : fresh = true ∨ depth = 0) (rest : List Char) :
    joinLines fresh (pad indent depth ++ rest) = joinLines fresh rest := by
  rw [pad]
  rcases h with rfl | rfl
  · induction (depth * indent).toNat with
    | zero => rfl
    | succ k ih => simpa [List.replicate_succ, joinLines] using ih
  · simp

section
variable {fresh : Bool} (start : fresh = true ∨ depth = 0)
include start

theorem joinLines_block {cs : List Char} (k : Keyword) (line : '\n' ∉ cs) (body : List Char) :
    joinLines fresh (pad indent depth ++ opening k ++ cs ++ '\n' :: body) =
      opening k ++ cs ++ ' ' :: joinLines true body := by
  have hopening : '\n' ∉ opening k := by
    rw [opening, List.mem_cons, not_or]
    exact ⟨by decide, fun h => (nameChar_of_legal k.legal _ h).ne (by decide) rfl⟩
  have hline : '\n' ∉ opening k ++ cs := by
    rw [List.mem_append, not_or]
    exact ⟨hopening, line⟩
  rw [List.append_assoc, List.append_assoc, joinLines_pad start, ← List.append_assoc,
    joinLines_append hline (by simp [opening]) rfl]
  rfl

theorem joinLines_line (native : n.foreign? = none) (spaceless : n.Spaceless)
    (head : (n.flatOnto false []).head? ≠ some ' ')
    (hrest : joinLines true rest = joinLines false rest) :
    joinLines fresh (pad indent depth ++ n.flatOnto false rest) =
      n.flatOnto false (joinLines false rest) := by
  have happend : ∀ cs, n.flatOnto false cs = n.flatOnto false [] ++ cs := n.flatOnto_append false []
  rw [joinLines_pad start, happend rest, happend (joinLines false rest),
    joinLines_append (line_notMem_flatOnto native spaceless false) head hrest]

end

theorem joinLines_layoutOnto (native : n.foreign? = none) (spaceless : n.Spaceless) {fresh : Bool}
    (start : fresh = true ∨ depth = 0) (hrest : joinLines true rest = joinLines false rest) :
    joinLines fresh (n.layoutOnto indent inRow depth rest) =
      n.flatOnto inRow (joinLines false rest) := by
  induction n generalizing inRow depth rest fresh with
  | seq a b _ iha ihb =>
    obtain ⟨nativea, nativeb⟩ := native_parts native
    obtain ⟨ha, hb⟩ := List.forall_mem_append.mp spaceless
    cases inRow with
    | true =>
      rw [layoutOnto, if_pos rfl, iha nativea ha start rfl, flatOnto, if_pos rfl]
      simp only [joinLines, if_true]
      rw [ihb nativeb hb (.inl rfl) hrest]
    | false =>
      have hclose := (joinLines_closing true rest).trans (joinLines_closing false rest).symm
      rw [layoutOnto, if_neg Bool.false_ne_true, ← List.append_nil (pad indent depth ++ _),
        joinLines_block start .seq List.not_mem_nil, iha nativea ha (.inl rfl) rfl]
      simp only [joinLines, if_true]
      rw [ihb nativeb hb (.inl rfl) hclose, joinLines_closing, flatOnto,
        if_neg Bool.false_ne_true, List.append_nil]
  | ifThen c b _ _ ih | whileDo c b _ _ ih =>
    obtain ⟨nativec, nativeb⟩ := native_parts native
    obtain ⟨hc, hb⟩ := List.forall_mem_append.mp spaceless
    have hline : '\n' ∉ ' ' :: c.flatOnto false [] := by
      rw [List.mem_cons, not_or]
      exact ⟨by decide, line_notMem_flatOnto nativec hc false⟩
    have hclose := (joinLines_closing true rest).trans (joinLines_closing false rest).symm
    rw [layoutOnto, flatOnto_cons, ← List.cons_append, ← List.append_assoc,
      joinLines_block start _ hline, ih nativeb hb (.inl rfl) hclose, joinLines_closing, flatOnto,
      flatOnto_cons c]
    simp
  | lit b =>
    refine joinLines_line start native spaceless ?_ hrest
    rw [flatOnto, List.append_nil]
    cases b <;> decide
  | var x =>
    refine joinLines_line start native spaceless ?_ hrest
    intro h
    rw [flatOnto, List.append_nil] at h
    exact (spaceless x List.mem_cons_self).1 (List.mem_of_head? h)
  | foreign => cases native
  | _ => exact joinLines_line start native spaceless (by simp [flatOnto, opening]) hrest

/-! Layouts that there are. -/

/-- Every line can be indented: its width is a signed number of 64 bits. -/
def Fits (indent : Int) (n : Node) : Prop :=
  ∀ depth ∈ n.lineDepths false 0, -Int.pow 2 63 ≤ depth * indent ∧ depth * indent < Int.pow 2 63

instance (indent : Int) : DecidablePred (Fits indent) := fun n =>
  inferInstanceAs (Decidable (∀ depth ∈ n.lineDepths false 0,
    -Int.pow 2 63 ≤ depth * indent ∧ depth * indent < Int.pow 2 63))

theorem widthError?_eq_none_iff :
    widthError? indent depth = none ↔
      -Int.pow 2 63 ≤ depth * indent ∧ depth * indent < Int.pow 2 63 := by
  unfold widthError?
  generalize Int.pow 2 63 = range
  simp only [Bool.or_eq_true, decide_eq_true_eq]
  split_ifs
  · exact iff_of_false (by rintro ⟨⟩) (by omega)
  · exact iff_of_true rfl (by omega)

theorem eq_widthRange_of_widthError? {e : LayoutError} (h : widthError? indent depth = some e) :
    e = .widthRange := by
  simp only [widthError?, Option.ite_none_right_eq_some] at h
  exact (Option.some.inj h.2).symm

theorem fits_iff : n.Fits indent ↔ ∀ d ∈ n.lineDepths false 0, widthError? indent d = none := by
  simp only [Fits, widthError?_eq_none_iff]

theorem layout_of_fits (fits : n.Fits indent) (native : n.foreign? = none) :
    n.layout indent = .ok (String.ofList (n.layoutOnto indent false 0 [])) := by
  have hmisplaced : n.misplaced? = none := by rw [misplaced?, native, Option.map_none]
  have hnone := layoutError?_eq_none_iff.mpr ⟨fits_iff.mp fits, hmisplaced⟩
  rw [layout, hnone]

theorem eq_of_layout_eq_ok {form : String} (h : n.layout indent = .ok form) :
    form = String.ofList (n.layoutOnto indent false 0 []) := by
  rw [layout] at h
  split at h
  · cases h
  · exact (Except.ok.inj h).symm

theorem flat_of_misplaced {m : Misplaced} (h : n.misplaced? = some m) : n.flat = .error m := by
  rw [flat, h]

theorem layout_of_blocked (blocked : ¬(n.Fits indent ∧ n.misplaced? = none)) :
    (¬n.Fits indent ∧ n.layout indent = .error .widthRange) ∨
      ∃ m, n.misplaced? = some m ∧ n.layout indent = .error (.misplaced m) := by
  rw [fits_iff, ← layoutError?_eq_none_iff] at blocked
  obtain ⟨e, he⟩ := Option.ne_none_iff_exists'.mp blocked
  have failed : n.layout indent = .error e := by rw [layout, he]
  obtain ⟨d, hd, hwidth⟩ | ⟨m, hm, rfl⟩ := layoutError?_eq_some he
  · rw [eq_widthRange_of_widthError? hwidth] at failed
    refine .inl ⟨fun fits => ?_, failed⟩
    rw [fits_iff.mp fits d hd] at hwidth
    cases hwidth
  · exact .inr ⟨m, hm, failed⟩

theorem layout_of_misplaced (fits : n.Fits indent) {m : Misplaced} (h : n.misplaced? = some m) :
    n.layout indent = .error (.misplaced m) := by
  have blocked : ¬(n.Fits indent ∧ n.misplaced? = none) := by simp [h]
  obtain ⟨wide, -⟩ | ⟨m', hm', failed⟩ := layout_of_blocked blocked
  · exact absurd fits wide
  · cases h.symm.trans hm'
    exact failed

theorem layout_of_not_fits (wide : ¬n.Fits indent) :
    n.layout indent = .error .widthRange ∨
      ∃ m, n.flat = .error m ∧ n.layout indent = .error (.misplaced m) := by
  obtain ⟨-, failed⟩ | ⟨m, hm, failed⟩ := layout_of_blocked fun h => wide h.1
  · exact .inl failed
  · exact .inr ⟨m, flat_of_misplaced hm, failed⟩

theorem joinLines_flat (native : n.foreign? = none) (spaceless : n.Spaceless) :
    joinLines false (n.flatOnto false []) = n.flatOnto false [] := by
  have hline := joinLines_false_append (line_notMem_flatOnto native spaceless false) []
  rwa [joinLines, List.append_nil] at hline

theorem joinLines_layout (native : n.foreign? = none) (spaceless : n.Spaceless) :
    joinLines false (n.layoutOnto indent false 0 []) = n.flatOnto false [] :=
  joinLines_layoutOnto native spaceless (.inr rfl) rfl

/-! Reading a layout. -/

theorem Legible.spaceless (legible : n.Legible) : n.Spaceless := by
  intro x hx
  have hchars := nameChar_of_legal (legible x hx).legal
  exact ⟨fun h => (hchars _ h).ne (by decide) rfl, fun h => (hchars _ h).ne (by decide) rfl⟩

theorem Legible.plain (legible : n.Legible) (native : n.foreign? = none) :
    ∀ c ∈ n.flatOnto false [], Plain c := by
  refine forall_mem_flatOnto ⟨?_, ?_, ?_⟩ (fun _ => plain_of_name) native ?_ (List.forall_mem_nil _)
  · constructor <;> decide
  · constructor <;> decide
  · constructor <;> decide
  · exact fun x hx c hc => plain_of_name (nameChar_of_legal (legible x hx).legal c hc)

theorem Statement.parse_of_joinLines (h : n.Statement) (legible : n.Legible) {cs : List Char}
    (joined : joinLines false cs = n.flatOnto false []) (file : String) :
    parse (String.ofList cs) file = .ok (n.relocate (some { file := file })) ∧
    parse (String.ofList (cs ++ ['\n'])) file = .ok (n.relocate (some { file := file })) := by
  have plain : ∀ c ∈ cs, Plain c := by
    intro c hc
    obtain hc | rfl | rfl := mem_joinLines_of_mem hc false
    · rw [joined] at hc
      exact legible.plain h.foreign?_eq_none c hc
    · exact plain_line
    · constructor <;> decide
  obtain ⟨d, form, reads⟩ := (h.reads_back legible (some { file := file })).alone
  rw [← joined] at reads
  have hparse : ∀ rest, (∀ c ∈ rest, Plain c) → Reader.Reads (joinLines false cs ++ rest) [d] →
      parse (String.ofList (cs ++ rest)) file = .ok (n.relocate (some { file := file })) := by
    intro rest hrest hreads
    refine parse_eq_ok_iff.mpr ⟨[d], ?_, .one form⟩
    rw [String.toList_ofList]
    exact (Datum.readForms_joinLines plain hrest [d]).mp (Datum.readForms_of_reads hreads)
  constructor
  · have := hparse [] (List.forall_mem_nil _) (by rwa [List.append_nil])
    rwa [List.append_nil] at this
  · exact hparse ['\n'] (List.forall_mem_singleton.mpr plain_line)
      (reads.append rfl (Reader.reads_nil.blank rfl))

/-! Locations are not printed. -/

section
variable (loc : Option Loc)

theorem foreign?_relocate (n : Node) : (n.relocate loc).foreign? = n.foreign? := by
  induction n <;> simp_all [relocate, foreign?]

theorem misplaced?_relocate (n : Node) : (n.relocate loc).misplaced? = n.misplaced? := by
  rw [misplaced?, foreign?_relocate, misplaced?]

theorem flatOnto_relocate (n : Node) :
    (n.relocate loc).flatOnto inRow rest = n.flatOnto inRow rest := by
  induction n generalizing inRow rest <;> simp_all [relocate, flatOnto]

theorem layoutOnto_relocate (n : Node) :
    (n.relocate loc).layoutOnto indent inRow depth rest = n.layoutOnto indent inRow depth rest := by
  induction n generalizing inRow depth rest <;>
    simp_all [relocate, layoutOnto, flatOnto_relocate, flatOnto]

theorem layoutError?_relocate (n : Node) :
    (n.relocate loc).layoutError? indent inRow depth = n.layoutError? indent inRow depth := by
  induction n generalizing inRow depth <;>
    simp_all [relocate, layoutError?, misplaced?, foreign?, foreign?_relocate]

theorem flat_relocate (n : Node) : (n.relocate loc).flat = n.flat := by
  rw [flat, misplaced?_relocate, flatOnto_relocate, flat]

theorem layout_relocate (n : Node) (indent : Int) :
    (n.relocate loc).layout indent = n.layout indent := by
  rw [layout, layoutError?_relocate, layoutOnto_relocate, layout]

end

theorem legible_of_parse {text file : String} (h : parse text file = .ok n) : n.Legible := by
  obtain ⟨data, hread, row⟩ := parse_eq_ok_iff.mp h
  exact row.legible (Datum.spelled_readForms hread)

end Node

/-! Dumps. -/

namespace Command

variable {i j : Invocation} {input input' : Input} {program : Node} {o o' : Options} {r : Response}

theorem joined_of_respondDump (tree : program.Statement) (legible : program.Legible)
    (h : respondDump o program = .ok r) :
    ∃ cs, r.out = String.ofList (cs ++ ['\n']) ∧
      joinLines false cs = program.flatOnto false [] := by
  have native := tree.foreign?_eq_none
  have hout : ∀ cs, lines [String.ofList cs] = String.ofList (cs ++ ['\n']) := by
    simp [lines]
  unfold respondDump at h
  cases hflat : o.flat with
  | true =>
    simp only [hflat, if_true, Node.flat_of_native native] at h
    cases h
    exact ⟨_, hout _, Node.joinLines_flat native legible.spaceless⟩
  | false =>
    cases hindent : o.indent with
    | void =>
      simp only [hflat, hindent] at h
      cases h
    | value indent =>
      simp only [hflat, hindent] at h
      cases hlayout : program.layout indent with
      | error e =>
        rw [hlayout] at h
        cases h
      | ok form =>
        rw [hlayout] at h
        cases h
        rw [Node.eq_of_layout_eq_ok hlayout]
        exact ⟨_, hout _, Node.joinLines_layout native legible.spaceless⟩

theorem respondDump_congr (flat : o'.flat = o.flat) (indent : o'.indent = o.indent)
    (loc : Option Loc) : respondDump o' (program.relocate loc) = respondDump o program := by
  unfold respondDump
  simp only [flat, indent, Node.flat_relocate, Node.layout_relocate]

theorem exit_of_text_responded (h : i.text input = .error (.responded r)) : r.exit = .unusable := by
  cases input with
  | stdin bytes =>
    rw [Invocation.text] at h
    cases hdecode : decodeText bytes <;> rw [hdecode] at h <;> cases h
  | file path found =>
    cases found with
    | content bytes =>
      simp only [Invocation.text] at h
      cases hdecode : decodeText bytes <;> rw [hdecode] at h <;> cases h
      rfl
    | tooLong => cases h
    | _ =>
      cases h
      rfl

theorem load_of_success {fuel : Nat} (h : i.respond fuel input = .ok r)
    (success : r.exit = .success) :
    ∃ source program, Node.parse source (i.sourceName input) = .ok program ∧
      i.load input = .ok program := by
  unfold Invocation.respond Invocation.load at h
  unfold Invocation.load
  cases htext : i.text input with
  | error early =>
    rw [htext] at h
    cases early with
    | responded response =>
      cases h
      rw [exit_of_text_responded htext] at success
      cases success
    | aborted abort => cases h
  | ok source =>
    rw [htext] at h
    cases hparse : Node.parse source (i.sourceName input) with
    | error e =>
      simp only [bind, Except.bind, hparse] at h
      cases h
      cases success
    | ok program => exact ⟨source, program, hparse, by simp only [bind, Except.bind, hparse]⟩

theorem respond_of_dumped {fuel fuel' : Nat} (dump : i.subcommand = .dumpAst)
    (dump' : j.subcommand = .dumpAst) (flat : j.options.flat = i.options.flat)
    (indent : j.options.indent = i.options.indent) (h : i.respond fuel input = .ok r)
    (success : r.exit = .success) (dumped : input'.text? = some r.out) :
    j.respond fuel' input' = .ok r := by
  obtain ⟨source, program, hparse, hload⟩ := load_of_success h success
  have tree := Node.statement_of_parse hparse
  have legible := Node.legible_of_parse hparse
  rw [Invocation.respond, hload] at h
  simp only [dump] at h
  obtain ⟨cs, hout, joined⟩ := joined_of_respondDump tree legible h
  rw [hout] at dumped
  have hparse' := (tree.parse_of_joinLines legible joined (j.sourceName input')).2
  rw [Invocation.respond, j.load_of_parse dumped hparse']
  simp only [dump']
  rw [respondDump_congr flat indent, h]

end Command

/-- The two ways to print a tree agree. If every line can be indented, a layout fails for the
foreign value that the one-line form fails for, or there are both and the lines joined are that
form. If some line cannot, there is no layout: its width or the foreign value is in the way.
Well-formed trees of readable names are read back from their layout, and a dump is dumped as
it is. -/
theorem layouts_agree_with_forms (n : Node) (indent : Int) :
    (n.Spaceless → n.Fits indent →
      (∃ m, n.flat = .error m ∧ n.layout indent = .error (.misplaced m)) ∨
      ∃ text form, n.flat = .ok text ∧ n.layout indent = .ok form ∧
        joinLines false form.toList = text.toList) ∧
    (¬n.Fits indent → n.layout indent = .error .widthRange ∨
      ∃ m, n.flat = .error m ∧ n.layout indent = .error (.misplaced m)) ∧
    (n.Statement → n.Legible → n.Fits indent → ∀ file, ∃ form u,
      n.layout indent = .ok form ∧ Node.parse form file = .ok u ∧ u.same n = true) ∧
    ∀ (i j : Command.Invocation) (fuel fuel' : Nat) (input input' : Command.Input)
      (r : Command.Response), i.subcommand = .dumpAst → j.subcommand = .dumpAst →
      j.options.flat = i.options.flat → j.options.indent = i.options.indent →
      i.respond fuel input = .ok r → r.exit = .success → input'.text? = some r.out →
      j.respond fuel' input' = .ok r := by
  refine ⟨fun spaceless fits => ?_, Node.layout_of_not_fits, fun tree legible fits file => ?_, ?_⟩
  · cases hmisplaced : n.misplaced? with
    | some m =>
      exact .inl
        ⟨m, Node.flat_of_misplaced hmisplaced, Node.layout_of_misplaced fits hmisplaced⟩
    | none =>
      have native : n.foreign? = none := Option.map_eq_none_iff.mp hmisplaced
      refine .inr ⟨_, _, Node.flat_of_native native, Node.layout_of_fits fits native, ?_⟩
      rw [String.toList_ofList, String.toList_ofList, Node.joinLines_layout native spaceless]
  · have native := tree.foreign?_eq_none
    have joined : joinLines false (n.layoutOnto indent false 0 []) = _ :=
      Node.joinLines_layout native legible.spaceless
    exact ⟨_, _, Node.layout_of_fits fits native, (tree.parse_of_joinLines legible joined file).1,
      n.same_relocate _⟩
  · intro i j fuel fuel' input input' r dump dump' flat indent h success dumped
    exact Command.respond_of_dumped dump dump' flat indent h success dumped

def Node.blocksDeep : Node :=
  .seq (.decl "a" (.lit true none) none) (.seq (.whileDo (.var "a" none)
    (.ifThen (.nand (.var "a" none) (.lit false none) none)
      (.seq (.assign "a" (.lit false none) none) (.free "a" none) none) none) none)
    (.free "a" none) none) none

theorem blocksDeep_laid_out :
    let n := Node.blocksDeep
    let i : Command.Invocation := ⟨.dumpAst, "-", {}⟩
    let r : Command.Response := { exit := .success, out := "(seq\n  (free a)\n  (free b))\n" }
    (n.Spaceless ∧ n.Fits (-3) ∧ ((∃ m, n.flat = .error m ∧ n.layout (-3) = .error (.misplaced m)) ∨
      ∃ text form, n.flat = .ok text ∧ n.layout (-3) = .ok form ∧
        joinLines false form.toList = text.toList)) ∧
    (¬n.Fits 100000000000000000000 ∧ (n.layout 100000000000000000000 = .error .widthRange ∨
      ∃ m, n.flat = .error m ∧ n.layout 100000000000000000000 = .error (.misplaced m))) ∧
    (n.Statement ∧ n.Legible ∧ n.Fits 4 ∧ ∃ form u,
      n.layout 4 = .ok form ∧ Node.parse form "noted" = .ok u ∧ u.same n = true) ∧
    i.respond 0 (.stdin "(free a)(free b)".toUTF8.toList) = .ok r ∧
    i.respond 0 (.stdin r.out.toUTF8.toList) = .ok r := by
  intro n i r
  have tree : n.Statement :=
    .seq (.decl _ (.lit _ _) _) (.seq (.whileDo (.var _ _) (.ifThen (.nand (.var _ _) (.lit _ _) _)
      (.seq (.assign _ (.lit _ _) _) (.free _ _) _) _) _) (.free _ _) _) _
  have legible : n.Legible := by decide
  have spaceless : n.Spaceless := by decide
  have narrow : n.Fits (-3) := by decide
  have fits : n.Fits 4 := by decide
  have wide : ¬n.Fits 100000000000000000000 := by decide
  have hdump : i.respond 0 (.stdin "(free a)(free b)".toUTF8.toList) = .ok r := by decide +kernel
  have hdumped : (Command.Input.stdin r.out.toUTF8.toList).text? = some r.out := by decide +kernel
  obtain ⟨agree, -, -, dumps⟩ := layouts_agree_with_forms n (-3)
  have blocked := (layouts_agree_with_forms n 100000000000000000000).2.1 wide
  exact ⟨⟨spaceless, narrow, agree spaceless narrow⟩, ⟨wide, blocked⟩,
    ⟨tree, legible, fits, (layouts_agree_with_forms n 4).2.2.1 tree legible fits "noted"⟩, hdump,
    dumps i i 0 0 _ _ r rfl rfl rfl rfl hdump rfl hdumped⟩

/-- An indent without blanks that still is too wide. -/
theorem negative_indent_too_wide :
    let n := Node.seq (.free "a" none) (.free "b" none) none
    n.Spaceless ∧ n.flat = .ok "(seq (free a) (free b))" ∧
      n.layout (-1000000000000000000000000000000) = .error .widthRange := by
  exact ⟨by decide, rfl, rfl⟩

end NandLang
