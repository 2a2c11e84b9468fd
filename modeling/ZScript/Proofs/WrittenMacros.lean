import ZScript.Proofs.Segments
import ZScript.Proofs.Texts

/-!
# Macros written back as definition blocks

A line is read as a signature if and only if it is spelled as one (`Signature.parse?_eq_some_iff`).
The parameters that are read are trimmed, not empty, and hold no comma and no parenthesis
(`Signature.isParameter_of_mem`), and such parameters are read back from the text in which commas
separate them (`Signature.parametersOf_join`).

A macro that extraction files is therefore `Macro.Writable` : its signature can be read back
(`Macro.Writable.parse?_render`), no template ends a definition block, and the first is no brace,
which would be dropped. The blocks that such macros are written as are the segments of the stream
that they make up (`exists_divides_written`), and extraction finds the same macros in it
(`written_macros_read_back`).
-/

namespace ZScript

/-! ## Signatures spelled out -/

namespace Signature

/-- How a line is written that is the signature. -/
def Spelled (line : String) (s : Signature) : Prop :=
  IsIdentifier s.name ∧ ∃ gap inner gap' brace, IsGap gap ∧ '(' ∉ inner.toList ∧
    ')' ∉ inner.toList ∧ IsGap gap' ∧ brace ∈ ["", "\x7b"] ∧
      line = s.name ++ gap ++ "(" ++ inner ++ ")" ++ gap' ++ brace ∧
        s.parameters = parametersOf inner.toList

/-- A line is a signature if and only if it is spelled so. -/
theorem parse?_eq_some_iff {line : String} {s : Signature} :
    parse? line = some s ↔ s.Spelled line := by
  simp only [parse?, Option.bind_eq_bind, Option.bind_eq_some_iff, Option.pure_def,
    Option.ite_none_right_eq_some, Option.some.injEq, Prod.exists, Chars.after?_eq_some_iff,
    Bool.or_eq_true, beq_iff_eq]
  constructor
  · rintro ⟨name, rest, hname, t, hopen, u, hclose, hend, rfl⟩
    obtain ⟨hident, gap, hgap, hline⟩ :=
      (Chars.identifier?_gap_iff (c := '(') (by decide) (by decide)).1 ⟨rest, hname, hopen⟩
    obtain ⟨hrun, hsplit, -⟩ := Chars.span_eq_iff.1 ⟨rfl, hclose⟩
    obtain ⟨hrun', hsplit', -⟩ := (Chars.span_eq_iff (p := isGap) (s := u)).1 ⟨rfl, rfl⟩
    generalize t.takeWhile _ = inner at *
    generalize u.takeWhile isGap = gap' at *
    generalize u.dropWhile isGap = brace at *
    simp only [Bool.and_eq_true, bne_iff_ne, forall₂_and, List.forall_mem_ne'] at hrun
    refine ⟨hident, gap, String.ofList inner, String.ofList gap', String.ofList brace, hgap,
      by simpa using hrun.1, by simpa using hrun.2, Chars.isGap_iff.2 (by simpa using hrun'), ?_,
      ?_, by simp⟩
    · rcases hend with rfl | rfl <;> decide
    · rw [← String.toList_inj, hline, hsplit, hsplit']
      simp
  · rintro ⟨hident, gap, inner, gap', brace, hgap, hopen, hclose, hgap', hbrace, rfl, hparameters⟩
    obtain ⟨rest, hname, hdrop⟩ :=
      (Chars.identifier?_gap_iff (c := '(') (r := inner.toList ++ (")" ++ gap' ++ brace).toList)
        (by decide) (by decide)).2 ⟨hident, gap, hgap, rfl⟩
    obtain ⟨htake, hdrop'⟩ := (Chars.span_eq_iff (p := fun c => c != '(' && c != ')')).2
      ⟨by simpa [forall₂_and, List.forall_mem_ne'] using ⟨hopen, hclose⟩, rfl,
        show ∀ c ∈ (")" ++ gap' ++ brace).toList.head?, _ by simp⟩
    have hend : (gap' ++ brace).toList.dropWhile isGap = brace.toList := by
      rw [String.toList_append, List.dropWhile_append_of_pos (Chars.isGap_iff.1 hgap')]
      simp only [List.mem_cons, List.not_mem_nil, or_false] at hbrace
      rcases hbrace with rfl | rfl <;> decide
    refine ⟨s.name, rest, by simpa using hname, inner.toList ++ (")" ++ gap' ++ brace).toList,
      hdrop, (gap' ++ brace).toList, ?_, ?_, ?_⟩
    · rw [hdrop']
      simp
    · simp only [List.mem_cons, List.not_mem_nil, or_false] at hbrace
      rw [hend]
      exact hbrace.imp (by rintro rfl; rfl) (by rintro rfl; rfl)
    · rw [htake, ← hparameters]

end Signature

/-! ## Parameters -/

namespace Chars

theorem mem_intercalate {sep l : List Char} {ls : List (List Char)} (hl : l ∈ ls) {c : Char}
    (hc : c ∈ l) : c ∈ sep.intercalate ls := by
  induction ls with
  | nil => simp at hl
  | cons first ls ih =>
    cases ls with
    | nil =>
      obtain rfl := List.mem_singleton.1 hl
      rwa [List.intercalate_singleton]
    | cons next ls =>
      rw [List.intercalate_cons_cons, List.mem_append]
      rcases List.mem_cons.1 hl with rfl | hl
      · exact Or.inl (List.mem_append_left _ hc)
      · exact Or.inr (ih hl)

theorem mem_of_mem_intercalate {sep : List Char} {ls : List (List Char)} {c : Char}
    (h : c ∈ sep.intercalate ls) : c ∈ sep ∨ ∃ l ∈ ls, c ∈ l := by
  induction ls with
  | nil => simp at h
  | cons first ls ih =>
    cases ls with
    | nil => exact Or.inr ⟨first, by simp, by simpa using h⟩
    | cons next ls =>
      rw [List.intercalate_cons_cons, List.mem_append, List.mem_append] at h
      rcases h with (h | h) | h
      · exact Or.inr ⟨first, by simp, h⟩
      · exact Or.inl h
      · exact (ih h).imp_right fun ⟨l, hl, hc⟩ => ⟨l, List.mem_cons_of_mem _ hl, hc⟩

/-- Texts without commas are cut out of the text in which a comma and a space stand between them,
all but the first with the space. -/
theorem splitOn_intercalate_space {first : List Char} {ls : List (List Char)}
    (h : ∀ l ∈ first :: ls, ',' ∉ l) :
    ([',', ' '].intercalate (first :: ls)).splitOn ',' = first :: ls.map (' ' :: ·) := by
  induction ls generalizing first with
  | nil => rw [List.intercalate_singleton, List.splitOn_eq_singleton (h first (by simp))]; rfl
  | cons next ls ih =>
    obtain ⟨hfirst, hnext, hls⟩ : ',' ∉ first ∧ ',' ∉ next ∧ ∀ l ∈ ls, ',' ∉ l := by
      simpa [List.forall_mem_cons] using h
    have hspace : ∀ l ∈ (' ' :: next) :: ls, ',' ∉ l :=
      List.forall_mem_cons.2 ⟨by simpa using hnext, hls⟩
    have hrest := ih hspace
    rw [List.intercalate_cons_cons_left] at hrest
    rw [List.intercalate_cons_cons, List.append_assoc, List.cons_append,
      List.splitOn_append_cons_self_of_not_mem hfirst, List.singleton_append, hrest, List.map_cons]

end Chars

/-- A parameter is trimmed, not empty, and holds no comma and no parenthesis. -/
structure IsParameter (p : String) : Prop where
  nonempty : p ≠ ""
  trimmed : Chars.Trimmed p.toList
  plain : ∀ c ∈ [',', '(', ')'], c ∉ p.toList

namespace Signature

theorem isParameter_of_mem {inner : List Char} (hopen : '(' ∉ inner) (hclose : ')' ∉ inner)
    {p : String} (hp : p ∈ parametersOf inner) : IsParameter p := by
  simp only [parametersOf, List.mem_map, List.mem_filter] at hp
  obtain ⟨_, ⟨⟨piece, hpiece, rfl⟩, hne⟩, rfl⟩ := hp
  have hinner : ∀ c ∈ Chars.trim piece, c ∈ inner := by
    intro c hc
    have hjoin : [','].intercalate (inner.splitOn ',') = inner := List.intercalate_splitOn ','
    rw [← hjoin]
    exact Chars.mem_intercalate hpiece (Chars.mem_of_mem_trim hc)
  refine ⟨by simpa using hne, by simpa using Chars.trimmed_trim piece, ?_⟩
  simp only [List.forall_mem_cons, List.not_mem_nil, false_implies, implies_true, and_true,
    String.toList_ofList]
  exact ⟨fun h => Chars.notMem_of_mem_splitOn hpiece (Chars.mem_of_mem_trim h),
    fun h => hopen (hinner _ h), fun h => hclose (hinner _ h)⟩

/-- Parameters are read back from the text in which commas separate them. -/
theorem parametersOf_join {ps : List String} (h : ∀ p ∈ ps, IsParameter p) :
    parametersOf (", ".intercalate ps).toList = ps := by
  cases ps with
  | nil => rfl
  | cons first ps =>
    have hcomma : ∀ l ∈ first.toList :: ps.map String.toList, ',' ∉ l := by
      rw [← List.map_cons, List.forall_mem_map]
      exact fun p hp => (h p hp).plain ',' (by simp)
    have htrim : ∀ l ∈ first.toList :: ps.map String.toList, Chars.trim l = l := by
      rw [← List.map_cons, List.forall_mem_map]
      exact fun p hp => (h p hp).trimmed.trim_eq
    have hpieces : ((", ".intercalate (first :: ps)).toList.splitOn ',').map Chars.trim =
        (first :: ps).map String.toList := by
      have hsep : ", ".toList = [',', ' '] := rfl
      rw [String.toList_intercalate, hsep, List.map_cons, Chars.splitOn_intercalate_space hcomma,
        Chars.map_trim_spaced htrim]
    have hne : ∀ s ∈ (first :: ps).map String.toList, (!s.isEmpty) = true := by
      rw [List.forall_mem_map]
      intro p hp
      simpa using (h p hp).nonempty
    rw [parametersOf, hpieces, List.filter_eq_self.2 hne, List.map_map]
    simp [Function.comp_def]

end Signature

/-! ## Macros that can be written -/

namespace Macro

/-- The macro can be written as a definition block : its signature can be read back, and no template
ends the block or is dropped. -/
structure Writable (m : Macro) : Prop where
  name : IsIdentifier m.name
  parameters : ∀ p ∈ m.parameters, IsParameter p
  body : "<cmd^add>" ∉ m.body
  start : m.body.head? ≠ some "\x7d"

/-- The lines of a definition block for the macro. -/
def written (m : Macro) : List String :=
  "<command^crt>" :: m.render :: (m.body ++ ["<cmd^add>"])

/-- The macro without the place of its signature. -/
def unplaced (m : Macro) : String × List String × List String :=
  (m.name, m.parameters, m.body)

/-- The written signature is read as the name and the parameters. -/
theorem Writable.parse?_render {m : Macro} (h : m.Writable) :
    Signature.parse? m.render = some ⟨m.name, m.parameters⟩ := by
  have hplain : ∀ c ∈ ['(', ')'], c ∉ (", ".intercalate m.parameters).toList := by
    intro c hc hmem
    rw [String.toList_intercalate] at hmem
    rcases Chars.mem_of_mem_intercalate hmem with hsep | ⟨l, hl, hcl⟩
    · have hout : ∀ c ∈ ['(', ')'], c ∉ ", ".toList := by simp
      exact hout c hc hsep
    · obtain ⟨p, hp, rfl⟩ := List.mem_map.1 hl
      exact (h.parameters p hp).plain c (List.mem_cons_of_mem _ hc) hcl
  refine Signature.parse?_eq_some_iff.2 ⟨h.name, "", ", ".intercalate m.parameters, "", "",
    by simp [IsGap], hplain _ (by simp), hplain _ (by simp), by simp [IsGap], by simp, ?_,
    (Signature.parametersOf_join h.parameters).symm⟩
  simp [render]

theorem writable_of_block {inside : List Line} {m : Macro} (h : ofBlock? inside = some m)
    (hinside : ∀ l ∈ inside, l.text ≠ "<cmd^add>") : m.Writable := by
  cases inside with
  | nil => cases h
  | cons signature body =>
    obtain ⟨s, hs, rfl⟩ := Option.map_eq_some_iff.1 h
    obtain ⟨hname, -, inner, -, -, -, hopen, hclose, -, -, -, hparameters⟩ :=
      Signature.parse?_eq_some_iff.1 hs
    refine ⟨hname, fun p hp => ?_, fun hend => ?_, head?_templates body⟩
    · exact Signature.isParameter_of_mem hopen hclose (hparameters ▸ hp)
    · obtain ⟨l, hl, htext⟩ := List.mem_map.1 (List.dropWhile_subset _ hend)
      exact hinside l (List.mem_cons_of_mem _ hl) htext

end Macro

/-- Every macro that extraction files can be written. -/
theorem Extraction.writable_of_mem {lines : List Line} {m : Macro}
    (h : m ∈ (ofLines lines).table.entries) : m.Writable := by
  have hdivides := divides_segments lines
  rw [(Prod.mk.inj hdivides.content_eq).1] at h
  rcases Catalog.mem_insertAll h with h | h
  · cases h
  · obtain ⟨s, hs, hm⟩ := List.mem_filterMap.1 h
    have hformed := hdivides.wellFormed s hs
    cases s with
    | line l | comment l => cases hm
    | block sort first inside last =>
      cases sort with
      | addon a => cases hm
      | definition => exact Macro.writable_of_block hm hformed.2.1

/-! ## Reading what is written -/

/-- The lines that a macro is written as are a definition block that defines it. -/
theorem Macro.Writable.exists_segment {m : Macro} (h : m.Writable) {block : List Line}
    (hblock : block.map Line.text = m.written) : ∃ s : Segment, s.lines = block ∧ s.WellFormed ∧
      ¬s.Unclosed ∧ s.left = [] ∧ ∃ m', s.defined? = some m' ∧ m'.unplaced = m.unplaced := by
  obtain ⟨first, _, rfl, hfirst, htail⟩ := List.map_eq_cons_iff.1 hblock
  obtain ⟨signature, _, rfl, hsignature, htail⟩ := List.map_eq_cons_iff.1 htail
  obtain ⟨body, _, rfl, hbody, htail⟩ := List.map_eq_append_iff.1 htail
  obtain ⟨stop, rfl, hstop⟩ := List.map_eq_singleton_iff.1 htail
  have hsigned : Signature.parse? signature.text = some ⟨m.name, m.parameters⟩ := by
    rw [hsignature, h.parse?_render]
  have hinside : ∀ l ∈ signature :: body, ¬BlockSort.definition.Closes l := by
    refine List.forall_mem_cons.2 ⟨?_, fun l hl hcloses => h.body ?_⟩
    · rw [BlockSort.closes_definition_iff, Line.endsDefinition_of_signature hsigned]
      exact Bool.false_ne_true
    · rw [← hbody, ← show l.text = "<cmd^add>" from hcloses]
      exact List.mem_map_of_mem hl
  have htemplates : templates body = m.body := by
    rw [templates, hbody]
    cases hm : m.body with
    | nil => rfl
    | cons text texts =>
      have htext : text ≠ "\x7d" := by simpa [hm] using h.start
      exact List.dropWhile_cons_of_neg (by simpa using htext)
  refine ⟨.block .definition first (signature :: body) (some stop), by simp [Segment.lines],
    ⟨hfirst, hinside, by rintro l ⟨⟩; exact hstop⟩, id, rfl,
    ⟨m.name, m.parameters, templates body, signature.origin⟩, ?_, ?_⟩
  · simp [Segment.defined?, ofBlock?, hsigned]
  · simp [unplaced, htemplates]

/-- Definition blocks that are written one after the other are the segments of their stream. -/
theorem exists_divides_written {ms : List Macro} (h : ∀ m ∈ ms, m.Writable) {lines : List Line}
    (hlines : lines.map Line.text = ms.flatMap Macro.written) :
    ∃ ss, Divides ss lines ∧ ss.flatMap Segment.left = [] ∧
      (ss.filterMap Segment.defined?).map Macro.unplaced = ms.map Macro.unplaced := by
  induction ms generalizing lines with
  | nil => exact ⟨[], divides_nil_iff.2 (List.map_eq_nil_iff.1 hlines), rfl, rfl⟩
  | cons m ms ih =>
    obtain ⟨hm, hms⟩ := List.forall_mem_cons.1 h
    obtain ⟨block, rest, rfl, hblock, hrest⟩ := List.map_eq_append_iff.1 hlines
    obtain ⟨s, rfl, hs, hclosed, hleft, m', hdefined, hm'⟩ := hm.exists_segment hblock
    obtain ⟨ss, hss, hnone, hdefines⟩ := ih hms hrest
    have hdivides : Divides (s :: ss) (s.lines ++ rest) :=
      divides_cons_iff.2 ⟨hs, rest, rfl, fun hs' => absurd hs' hclosed, hss⟩
    refine ⟨s :: ss, hdivides, ?_, ?_⟩
    · rw [List.flatMap_cons, hleft, hnone, List.append_nil]
    · rw [List.filterMap_cons_some hdefined, List.map_cons, hm', hdefines, List.map_cons]

/-- The macros of a table that extraction built can be written as definition blocks, one after the
other. Whatever the places of the lines, extraction leaves none of them and finds the same names,
parameters and bodies in the same order. -/
theorem written_macros_read_back (lines : List Line) :
    (∀ m ∈ (Extraction.ofLines lines).table.entries,
      Signature.parse? m.render = some ⟨m.name, m.parameters⟩) ∧
      ∀ written : List Line,
        written.map Line.text = (Extraction.ofLines lines).table.entries.flatMap Macro.written →
          (Extraction.ofLines written).residual = #[] ∧
            (Extraction.ofLines written).table.entries.map Macro.unplaced =
              (Extraction.ofLines lines).table.entries.map Macro.unplaced := by
  have hwritable : ∀ m ∈ (Extraction.ofLines lines).table.entries, m.Writable := fun m hm =>
    Extraction.writable_of_mem hm
  refine ⟨fun m hm => (hwritable m hm).parse?_render, fun written htexts => ?_⟩
  obtain ⟨ss, hss, hnone, hdefines⟩ := exists_divides_written hwritable htexts
  obtain ⟨htable, hresidual⟩ := Prod.mk.inj hss.content_eq
  have hnodup : ((ss.filterMap Segment.defined?).map Macro.name).Nodup := by
    have hnames : (ss.filterMap Segment.defined?).map Macro.name =
        (Extraction.ofLines lines).table.names := by
      have hfirst := congrArg (List.map Prod.fst) hdefines
      rw [List.map_map, List.map_map] at hfirst
      exact hfirst
    rw [hnames, Extraction.table_ofLines]
    exact Catalog.nodup_names_ofList _
  rw [htable, Catalog.entries_ofList_of_nodup hnodup]
  exact ⟨by simpa [hnone] using hresidual, hdefines⟩

/-- Two macros, one of them defined twice, and the second time in a block that nothing closes. The
body of the other holds marks of blocks, a comment and a brace. -/
def blocksOfFG : List Line :=
  Line.ofUnit "m" ("<command^crt>\ng()\n<cmd^add>\n<command^crt>\nf( a b,, ç ) \x7b\n\x7d\n" ++
    "<command^crt>\n# a b\n<addon^index/set^js>\n\x7d\n<cmd^add>\nf(1)\n<command^crt>\ng(n)\nf(n)")

/-- The macros of the stream written back, all lines at one place. -/
def writtenFG : List Line :=
  ((Extraction.ofLines blocksOfFG).table.entries.flatMap Macro.written).map
    fun text => ⟨text, ⟨"w", 1, 1⟩, none⟩

theorem written_macros_read_back_blocksOfFG :
    writtenFG.map Line.text = ["<command^crt>", "g(n)", "f(n)", "<cmd^add>", "<command^crt>",
        "f(a b, ç)", "<command^crt>", "# a b", "<addon^index/set^js>", "\x7d", "<cmd^add>"] ∧
      (Extraction.ofLines writtenFG).residual = #[] ∧
        (Extraction.ofLines writtenFG).table.entries.map Macro.unplaced =
          (Extraction.ofLines blocksOfFG).table.entries.map Macro.unplaced := by
  refine ⟨by decide +kernel, (written_macros_read_back blocksOfFG).2 writtenFG ?_⟩
  simp [writtenFG, Function.comp_def]

end ZScript
