import Mathlib.Data.List.Basic
import ZScript.Proofs.DefinitionBlocks

/-!
# Streams divided into segments

A stream is a row of segments : lines outside all blocks, comments among them, and blocks, each of
which goes from the line that opens it to the first line that closes it or else to the end of the
stream. `Divides` says so of a list of segments, and `segments` is the only list of which it is true
(`Divides.eq_segments`, `divides_segments`).

Extraction reads a stream in the same segments (`Divides.pieces_eq`). It leaves the ordinary lines
and the addon blocks as they are, and files a macro for each definition block whose signature can be
read (`extraction_by_segments`). Comments and definition blocks stand outside addon blocks and leave
none open, so that what is left is read in the same addon blocks without them (`pieces_left`), and a
second extraction finds nothing more to take out (`extraction_of_residual`).

The body of a macro lacks all the braces that stand before its first other line, though one brace is
all that should be passed over there (`leading_braces_dropped`, `second_brace_dropped`).
-/

namespace ZScript

/-! ## Segments -/

/-- The line starts with a comment mark. -/
def Line.IsComment (l : Line) : Prop :=
  "//".toList <+: l.text.toList ∨ "#".toList <+: l.text.toList

instance (l : Line) : Decidable l.IsComment :=
  inferInstanceAs (Decidable (_ ∨ _))

/-- The sorts of blocks in a stream. -/
inductive BlockSort
  | addon (a : Addon)
  | definition
deriving DecidableEq, Repr

namespace BlockSort

/-- The line opens a block of the sort, if it stands outside all blocks. -/
def Opens : BlockSort → Line → Prop
  | addon a, l => a.enterMark.toList <+: l.text.toList
  | definition, l => l.text = "<command^crt>"

/-- The line closes a block of the sort that it stands in. -/
def Closes : BlockSort → Line → Prop
  | addon a, l => a.exitMark.toList <+: l.text.toList
  | definition, l => l.text = "<cmd^add>"

instance (sort : BlockSort) (l : Line) : Decidable (sort.Opens l) :=
  match sort with
  | addon _ => inferInstanceAs (Decidable (_ <+: _))
  | definition => inferInstanceAs (Decidable (_ = _))

instance (sort : BlockSort) (l : Line) : Decidable (sort.Closes l) :=
  match sort with
  | addon _ => inferInstanceAs (Decidable (_ <+: _))
  | definition => inferInstanceAs (Decidable (_ = _))

/-- The sort of block that a line opens outside all blocks. -/
def opening? (l : Line) : Option BlockSort :=
  match Directive.ofText l.text with
  | .addonEnter a => some (addon a)
  | .definitionStart => some definition
  | _ => none

theorem opens_addon_iff {a : Addon} {l : Line} :
    (addon a).Opens l ↔ Directive.ofText l.text = .addonEnter a :=
  Directive.ofText_eq_addonEnter_iff.symm

theorem opens_definition_iff {l : Line} :
    definition.Opens l ↔ Directive.ofText l.text = .definitionStart :=
  (Directive.ofText_eq_iff (d := .definitionStart) (by simp)).symm

theorem closes_definition_iff {l : Line} : definition.Closes l ↔ l.endsDefinition = true := by
  rw [Line.endsDefinition, decide_eq_true_eq, Directive.ofText_eq_iff (by simp)]
  rfl

theorem opening?_eq_some_iff {sort : BlockSort} {l : Line} :
    opening? l = some sort ↔ sort.Opens l := by
  cases sort with
  | addon a =>
    rw [opens_addon_iff, opening?]
    split <;> simp_all
  | definition =>
    rw [opens_definition_iff, opening?]
    split <;> simp_all

theorem opening?_eq_none_iff {l : Line} :
    opening? l = none ↔ ∀ sort : BlockSort, ¬sort.Opens l := by
  simp only [Option.eq_none_iff_forall_ne_some, ne_eq, opening?_eq_some_iff]

end BlockSort

theorem Line.isComment_iff {l : Line} :
    l.IsComment ↔ (Directive.ofText l.text).kind = .comment := by
  simp only [IsComment, Chars.prefix_toList_iff, ← exists_or]
  constructor
  · intro h
    have hspelled : Directive.Spelled l.text (.comment l.text) := ⟨rfl, h⟩
    rw [hspelled.ofText_eq]
    rfl
  · intro h
    cases hd : Directive.ofText l.text <;> rw [hd] at h <;> cases h
    exact ((Directive.ofText_eq_iff (by simp)).1 hd).2

/-- A comment opens no block. -/
theorem Line.IsComment.opening?_eq {l : Line} (h : l.IsComment) : BlockSort.opening? l = none := by
  rw [isComment_iff] at h
  unfold BlockSort.opening?
  split
  · simp_all [Directive.kind]
  · simp_all [Directive.kind]
  · rfl

/-- A part of a stream that is read as a whole. -/
inductive Segment
  /-- A line outside all blocks that is no comment. -/
  | line (l : Line)
  /-- A comment outside all blocks. -/
  | comment (l : Line)
  /-- A block : the line that opens it, the lines inside, and the line that closes it. A block that
  goes to the end of the stream can lack the last. -/
  | block (sort : BlockSort) (first : Line) (inside : List Line) (last : Option Line)
deriving DecidableEq, Repr

namespace Segment

/-- The lines of a segment. -/
def lines : Segment → List Line
  | line l | comment l => [l]
  | block _ first inside last => first :: (inside ++ last.toList)

/-- The segment has the lines that it should have. -/
def WellFormed : Segment → Prop
  | line l => ¬l.IsComment ∧ ∀ sort : BlockSort, ¬sort.Opens l
  | comment l => l.IsComment
  | block sort first inside last =>
    sort.Opens first ∧ (∀ l ∈ inside, ¬sort.Closes l) ∧ ∀ l ∈ last, sort.Closes l

/-- The segment is a block that no line closes. -/
def Unclosed : Segment → Prop
  | block _ _ _ none => True
  | _ => False

/-- What extraction leaves of a segment : all of it, or nothing of a comment or a definition
block. -/
def left : Segment → List Line
  | line l => [l]
  | comment _ => []
  | block (.addon _) first inside last => first :: (inside ++ last.toList)
  | block .definition _ _ _ => []

/-- The macro that a segment defines, if it is a definition block with a readable signature. -/
def defined? : Segment → Option Macro
  | block .definition _ inside _ => Macro.ofBlock? inside
  | _ => none

theorem lines_ne_nil (s : Segment) : s.lines ≠ [] := by
  cases s <;> simp [lines]

end Segment

/-- The segments make up the stream, from left to right. Only the last can be a block that no line
closes. -/
structure Divides (ss : List Segment) (lines : List Line) : Prop where
  whole : ss.flatMap Segment.lines = lines
  wellFormed : ∀ s ∈ ss, s.WellFormed
  closed : ∀ s ∈ ss.dropLast, ¬s.Unclosed

theorem divides_nil_iff {lines : List Line} : Divides [] lines ↔ lines = [] :=
  ⟨fun h => h.whole.symm, fun h => ⟨h.symm, by simp, by simp⟩⟩

theorem divides_cons_iff {s : Segment} {ss : List Segment} {lines : List Line} :
    Divides (s :: ss) lines ↔ s.WellFormed ∧
      ∃ rest, lines = s.lines ++ rest ∧ (s.Unclosed → rest = []) ∧ Divides ss rest := by
  constructor
  · rintro ⟨rfl, hformed, hclosed⟩
    obtain ⟨hs, hss⟩ := List.forall_mem_cons.1 hformed
    refine ⟨hs, ss.flatMap Segment.lines, rfl, fun hopen => ?_, rfl, hss, fun t ht => ?_⟩
    · cases ss with
      | nil => rfl
      | cons t ts => exact absurd hopen (hclosed s (by simp))
    · cases ss with
      | nil => simp at ht
      | cons u us => exact hclosed t (by simp [ht])
  · rintro ⟨hs, rest, rfl, hopen, rfl, hss, hclosed⟩
    refine ⟨rfl, List.forall_mem_cons.2 ⟨hs, hss⟩, fun t ht hunclosed => ?_⟩
    cases ss with
    | nil => simp at ht
    | cons u us =>
      rcases List.mem_cons.1 ht with rfl | ht
      · exact u.lines_ne_nil (List.append_eq_nil_iff.1 (hopen hunclosed)).1
      · exact hclosed t ht hunclosed

/-! ## The segments of a stream -/

/-- The segments of a stream. -/
def segments : List Line → List Segment
  | [] => []
  | l :: rest =>
    match BlockSort.opening? l with
    | none => (if l.IsComment then .comment l else .line l) :: segments rest
    | some sort =>
      let behind := rest.dropWhile (¬sort.Closes ·)
      .block sort l (rest.takeWhile (¬sort.Closes ·)) behind.head? :: segments behind.tail
termination_by lines => lines.length
decreasing_by
  · simp
  · have hle := (List.dropWhile_suffix (l := rest) (¬sort.Closes ·)).length_le
    simp only [List.length_tail, List.length_cons]
    omega

@[simp] theorem segments_nil : segments [] = [] := by
  rw [segments]

theorem segments_of_opening?_eq_none {l : Line} (h : BlockSort.opening? l = none)
    (rest : List Line) :
    segments (l :: rest) = (if l.IsComment then .comment l else .line l) :: segments rest := by
  rw [segments, h]

/-- A segment at the start of a stream is its first. -/
theorem segments_append {s : Segment} (hs : s.WellFormed) {rest : List Line}
    (hrest : s.Unclosed → rest = []) : segments (s.lines ++ rest) = s :: segments rest := by
  cases s with
  | line l =>
    have hopening := BlockSort.opening?_eq_none_iff.2 hs.2
    simp [Segment.lines, segments_of_opening?_eq_none hopening, hs.1]
  | comment l =>
    have hl : l.IsComment := hs
    simp [Segment.lines, segments_of_opening?_eq_none hl.opening?_eq, hl]
  | block sort first inside last =>
    obtain ⟨hfirst, hinside, hlast⟩ := hs
    have hrun : ∀ l ∈ inside, decide (¬sort.Closes l) = true := by simpa using hinside
    rw [Segment.lines, List.cons_append, List.append_assoc, segments,
      BlockSort.opening?_eq_some_iff.2 hfirst]
    simp only [List.takeWhile_append_of_pos hrun, List.dropWhile_append_of_pos hrun]
    cases last with
    | none => simp [hrest trivial]
    | some stop =>
      have hstop : sort.Closes stop := hlast stop rfl
      simp [hstop]

/-- A stream can be divided in one way only. -/
theorem Divides.eq_segments {ss : List Segment} {lines : List Line} (h : Divides ss lines) :
    ss = segments lines := by
  induction ss generalizing lines with
  | nil => rw [divides_nil_iff.1 h, segments_nil]
  | cons s ss ih =>
    obtain ⟨hs, rest, rfl, hopen, hrest⟩ := divides_cons_iff.1 h
    rw [segments_append hs hopen, ← ih hrest]

/-- A line is the first of a segment, together with the lines up to the one that closes the block
if it opens one. -/
theorem exists_first_segment (l : Line) (lines : List Line) : ∃ s : Segment, ∃ rest,
    l :: lines = s.lines ++ rest ∧ s.WellFormed ∧ (s.Unclosed → rest = []) := by
  cases hopening : BlockSort.opening? l with
  | none =>
    by_cases hl : l.IsComment
    · exact ⟨.comment l, lines, rfl, hl, False.elim⟩
    · exact ⟨.line l, lines, rfl, ⟨hl, BlockSort.opening?_eq_none_iff.1 hopening⟩, False.elim⟩
  | some sort =>
    have hopens := BlockSort.opening?_eq_some_iff.1 hopening
    cases hstop : lines.find? (sort.Closes ·) with
    | none =>
      have hinside : ∀ l ∈ lines, ¬sort.Closes l := by
        simpa using List.find?_eq_none.1 hstop
      exact ⟨.block sort l lines none, [], by simp [Segment.lines], ⟨hopens, hinside, by simp⟩,
        fun _ => rfl⟩
    | some stop =>
      obtain ⟨hcloses, inside, rest, rfl, hinside⟩ := List.find?_eq_some_iff_append.1 hstop
      exact ⟨.block sort l inside (some stop), rest, by simp [Segment.lines],
        ⟨hopens, by simpa using hinside, by simpa using hcloses⟩, False.elim⟩

/-- Every stream can be divided. -/
theorem divides_segments (lines : List Line) : Divides (segments lines) lines := by
  induction hn : lines.length using Nat.strong_induction_on generalizing lines with
  | _ n ih =>
    cases lines with
    | nil => rw [segments_nil, divides_nil_iff]
    | cons l lines =>
      obtain ⟨s, rest, hlines, hs, hopen⟩ := exists_first_segment l lines
      have hshort : rest.length < n := by
        rw [← hn, hlines, List.length_append]
        have hpos := List.length_pos_iff.2 s.lines_ne_nil
        omega
      rw [hlines, segments_append hs hopen]
      exact divides_cons_iff.2 ⟨hs, rest, rfl, hopen, ih _ hshort rest rfl⟩

/-! ## Extraction by segments -/

/-- The pieces in which extraction reads a segment. -/
def Segment.pieces : Segment → List Piece
  | line l | comment l => [.line none l]
  | block (.addon a) first inside last =>
    .line none first :: (inside ++ last.toList).map (.line (some a))
  | block .definition first inside last => [.definition first inside last]

/-- A line that opens no block is a piece of its own, outside all blocks. -/
theorem pieces_of_opening?_eq_none {l : Line} (h : BlockSort.opening? l = none) (rest : List Line) :
    pieces none (l :: rest) = .line none l :: pieces none rest := by
  rw [BlockSort.opening?_eq_none_iff] at h
  have hstart : Directive.within none l.text ≠ .definitionStart := fun hd =>
    h .definition (BlockSort.opens_definition_iff.2 hd)
  have hafter : Addon.after none l.text = none := by
    rw [Addon.after, Directive.within]
    cases hd : Directive.ofText l.text with
    | addonEnter a => exact absurd (BlockSort.opens_addon_iff.2 hd) (h (.addon a))
    | _ => rfl
  rw [pieces_of_line hstart, hafter]

/-- In an addon block all lines are pieces of their own. -/
theorem pieces_of_some (a : Addon) (l : Line) (rest : List Line) :
    pieces (some a) (l :: rest) =
      .line (some a) l :: pieces (Addon.after (some a) l.text) rest := by
  refine pieces_of_line ?_
  rcases Directive.within_some_cases a l.text with ⟨-, hd⟩ | ⟨-, hd⟩ | ⟨-, hd⟩ <;> simp [hd]

theorem pieces_of_inside {a : Addon} {inside : List Line}
    (h : ∀ l ∈ inside, ¬(BlockSort.addon a).Closes l) (rest : List Line) :
    pieces (some a) (inside ++ rest) =
      inside.map (.line (some a)) ++ pieces (some a) rest := by
  induction inside with
  | nil => rfl
  | cons l inside ih =>
    obtain ⟨hl, hinside⟩ := List.forall_mem_cons.1 h
    rw [List.cons_append, pieces_of_some, Addon.after_of_not_exit hl, ih hinside, List.map_cons,
      List.cons_append]

/-- Extraction reads a segment at the start of a stream, and then what is behind it. -/
theorem pieces_append {s : Segment} (hs : s.WellFormed) {rest : List Line}
    (hrest : s.Unclosed → rest = []) :
    pieces none (s.lines ++ rest) = s.pieces ++ pieces none rest := by
  cases s with
  | line l => exact pieces_of_opening?_eq_none (BlockSort.opening?_eq_none_iff.2 hs.2) rest
  | comment l => exact pieces_of_opening?_eq_none (Line.IsComment.opening?_eq hs) rest
  | block sort first inside last =>
    obtain ⟨hfirst, hinside, hlast⟩ := hs
    cases sort with
    | addon a =>
      have henter := BlockSort.opens_addon_iff.1 hfirst
      have hopen : pieces none (first :: (inside ++ (last.toList ++ rest))) =
          .line none first :: pieces (some a) (inside ++ (last.toList ++ rest)) := by
        rw [pieces_of_line (by simp [Directive.within, henter]), Addon.after, Directive.within,
          henter]
        rfl
      rw [Segment.lines, List.cons_append, List.append_assoc, hopen, pieces_of_inside hinside]
      cases last with
      | none => simp [hrest trivial, Segment.pieces]
      | some stop =>
        have hstop := Directive.ofText_eq_addonExit_iff.2 (hlast stop rfl)
        have hafter : Addon.after (some a) stop.text = none := by
          simp [Addon.after, Directive.within, hstop, Directive.blockAfter]
        simp [Segment.pieces, pieces_of_some, hafter]
    | definition =>
      have hstart : Directive.within none first.text = .definitionStart :=
        BlockSort.opens_definition_iff.1 hfirst
      have hinside' : ∀ l ∈ inside, l.endsDefinition = false := by
        simpa [BlockSort.closes_definition_iff] using hinside
      rw [Segment.lines, List.cons_append, List.append_assoc]
      cases last with
      | none =>
        simpa [hrest trivial, Segment.pieces] using pieces_of_open_block hstart hinside'
      | some stop =>
        have hstop := BlockSort.closes_definition_iff.1 (hlast stop rfl)
        exact pieces_of_block hstart hinside' hstop

/-- Extraction reads a stream in its segments. -/
theorem Divides.pieces_eq {ss : List Segment} {lines : List Line} (h : Divides ss lines) :
    pieces none lines = ss.flatMap Segment.pieces := by
  induction ss generalizing lines with
  | nil => rw [divides_nil_iff.1 h, pieces_nil, List.flatMap_nil]
  | cons s ss ih =>
    obtain ⟨hs, rest, rfl, hopen, hrest⟩ := divides_cons_iff.1 h
    rw [pieces_append hs hopen, ih hrest, List.flatMap_cons]

namespace Segment

theorem filterMap_defined? (s : Segment) :
    s.pieces.filterMap Piece.defined? = s.defined?.toList := by
  cases s with
  | line l | comment l => rfl
  | block sort first inside last =>
    cases sort with
    | addon a =>
      rw [pieces, List.filterMap_cons_none rfl, List.filterMap_map]
      exact List.filterMap_eq_nil_iff.2 fun l _ => rfl
    | definition => simp [pieces, Piece.filterMap_definition, defined?]

/-- In an addon block there are no comments. -/
theorem left?_of_some (a : Addon) (l : Line) : Piece.left? (.line (some a) l) = some l := by
  rw [Piece.left?]
  rcases Directive.within_some_cases a l.text with ⟨-, hd⟩ | ⟨-, hd⟩ | ⟨-, hd⟩ <;>
    simp [hd, Directive.kind]

theorem filterMap_left? {s : Segment} (hs : s.WellFormed) :
    s.pieces.filterMap Piece.left? = s.left := by
  cases s with
  | line l =>
    have hl := hs.1
    rw [Line.isComment_iff] at hl
    simp [pieces, Piece.left?, Directive.within, hl, left]
  | comment l =>
    have hl : l.IsComment := hs
    rw [Line.isComment_iff] at hl
    simp [pieces, Piece.left?, Directive.within, hl, left]
  | block sort first inside last =>
    cases sort with
    | addon a =>
      have henter := BlockSort.opens_addon_iff.1 hs.1
      have hfirst : Piece.left? (.line none first) = some first := by
        simp [Piece.left?, Directive.within, henter, Directive.kind]
      have hinside : ∀ ls : List Line,
          (ls.map (Piece.line (some a))).filterMap Piece.left? = ls := by
        intro ls
        simp [List.filterMap_map, left?_of_some]
      rw [pieces, List.filterMap_cons_some hfirst, hinside, left]
    | definition => rfl

end Segment

/-- Extraction files what the segments of a stream define, in order, and leaves what they leave. -/
theorem Divides.content_eq {ss : List Segment} {lines : List Line} (h : Divides ss lines) :
    (Extraction.ofLines lines).content =
      (.ofList (ss.filterMap Segment.defined?), ss.flatMap Segment.left) := by
  rw [Extraction.content_ofLines, definitions, leftLines, h.pieces_eq, List.filterMap_flatMap,
    List.filterMap_flatMap, List.filterMap_eq_flatMap_toList Segment.defined?]
  simp only [Segment.filterMap_defined?]
  exact congrArg _ (List.flatMap_congr fun s hs => Segment.filterMap_left? (h.wellFormed s hs))

/-- A stream is divided in one way into ordinary lines, comments, addon blocks and definition
blocks. Extraction leaves the ordinary lines and the lines of addon blocks, unchanged and in order,
and files one after the other the macros of the definition blocks whose signatures can be read. -/
theorem extraction_by_segments (lines : List Line) :
    (∀ ss, Divides ss lines ↔ ss = segments lines) ∧
      (Extraction.ofLines lines).residual.toList = (segments lines).flatMap Segment.left ∧
        (Extraction.ofLines lines).table =
          ((segments lines).filterMap Segment.defined?).foldl Catalog.insert .empty := by
  have hdivides := divides_segments lines
  obtain ⟨htable, hresidual⟩ := Prod.mk.inj hdivides.content_eq
  exact ⟨fun ss => ⟨Divides.eq_segments, fun h => h ▸ hdivides⟩, hresidual, htable⟩

/-! ## What is left when nothing is to be taken out -/

/-- A comment opens and closes no addon block. -/
theorem Addon.after_of_comment {block : Option Addon} {text : String}
    (h : (Directive.within block text).kind = .comment) : Addon.after block text = block := by
  cases hd : Directive.within block text <;> rw [hd] at h <;> cases h
  rw [Addon.after, hd]
  rfl

/-- A definition block starts outside addon blocks. -/
theorem eq_none_of_definitionStart {block : Option Addon} {text : String}
    (h : Directive.within block text = .definitionStart) : block = none := by
  cases block with
  | none => rfl
  | some a =>
    rcases Directive.within_some_cases a text with ⟨-, hd⟩ | ⟨-, hd⟩ | ⟨-, hd⟩ <;> simp [hd] at h

/-- The lines that are left of a stream are read in the same addon blocks as before. -/
theorem pieces_left (block : Option Addon) (lines : List Line) :
    pieces block ((pieces block lines).filterMap Piece.left?) =
      (pieces block lines).filter (·.left?.isSome) := by
  induction block, lines using pieces_induction with
  | nil block => simp
  | line block line rest h ih =>
    rw [pieces_of_line h]
    by_cases hcomment : (Directive.within block line.text).kind = .comment
    · have hleft : Piece.left? (.line block line) = none := if_pos hcomment
      rw [Addon.after_of_comment hcomment] at ih ⊢
      rw [List.filterMap_cons_none hleft, ih, List.filter_cons_of_neg (by simp [hleft])]
    · have hleft : Piece.left? (.line block line) = some line := if_neg hcomment
      rw [List.filterMap_cons_some hleft, pieces_of_line h, ih,
        List.filter_cons_of_pos (by simp [hleft])]
  | openBlock block start inside hstart hinside =>
    have hnone : [Piece.definition start inside none].filterMap Piece.left? = [] := rfl
    rw [pieces_of_open_block hstart hinside, hnone]
    simp [Piece.left?]
  | wholeBlock block start inside stop rest hstart hinside hstop ih =>
    obtain rfl := eq_none_of_definitionStart hstart
    rw [pieces_of_block hstart hinside hstop, List.filterMap_cons_none rfl, ih,
      List.filter_cons_of_neg (by simp [Piece.left?])]

/-- A stream of which every piece is left is left as it is. -/
theorem Extraction.foldl_of_left {block : Option Addon} {lines : List Line}
    (h : ∀ p ∈ pieces block lines, p.left?.isSome = true) (x : Extraction) :
    lines.foldl step (.outside block, x) = (.outside (Addon.afterAll block lines),
      { x with residual := x.residual ++ lines.toArray }) := by
  induction block, lines using pieces_induction generalizing x with
  | nil block => simp
  | line block line rest hstart ih =>
    rw [pieces_of_line hstart] at h
    obtain ⟨hline, hrest⟩ := List.forall_mem_cons.1 h
    have hcomment : (Directive.within block line.text).kind ≠ .comment := by
      intro hcomment
      simp [Piece.left?, hcomment] at hline
    rw [List.foldl_cons, step_of_line x hstart, if_neg hcomment, ih hrest]
    simp [keep]
  | openBlock block start inside hstart hinside =>
    rw [pieces_of_open_block hstart hinside] at h
    simp [Piece.left?] at h
  | wholeBlock block start inside stop rest hstart hinside hstop ih =>
    rw [pieces_of_block hstart hinside hstop] at h
    simp [Piece.left?] at h

/-- Extraction of what it left finds no definition, drops no line and notes nothing. -/
theorem extraction_of_residual (lines : List Line) :
    Extraction.ofLines (Extraction.ofLines lines).residual.toList =
      { residual := (Extraction.ofLines lines).residual } := by
  have hresidual : (Extraction.ofLines lines).residual.toList = leftLines lines :=
    (Prod.mk.inj (Extraction.content_ofLines lines)).2
  have hleft : ∀ p ∈ pieces none (Extraction.ofLines lines).residual.toList,
      p.left?.isSome = true := by
    rw [hresidual, leftLines, pieces_left]
    intro p hp
    exact (List.mem_filter.1 hp).2
  rw [Extraction.ofLines, Extraction.foldl_of_left hleft]
  simp [Extraction.finish]

/-! ## Braces before a body -/

namespace Macro

/-- The texts without the first, if that is a brace. -/
def afterBrace : List String → List String
  | [] => []
  | text :: texts => if text = "\x7d" then texts else text :: texts

theorem head?_templates (body : List Line) : (templates body).head? ≠ some "\x7d" := by
  intro hbrace
  have hnot := List.head?_dropWhile_not (· == "\x7d") (body.map Line.text)
  rw [← templates, hbrace] at hnot
  simp at hnot

/-- A body is its templates with some braces before them. -/
theorem exists_braces (body : List Line) :
    ∃ n, body.map Line.text = List.replicate n "\x7d" ++ templates body := by
  have hbraces : ∀ text ∈ (body.map Line.text).takeWhile (· == "\x7d"), text = "\x7d" := by
    intro text htext
    simpa using List.mem_takeWhile_imp htext
  refine ⟨((body.map Line.text).takeWhile (· == "\x7d")).length, ?_⟩
  rw [← List.eq_replicate_of_mem hbraces, templates, List.takeWhile_append_dropWhile]

/-- Taking one brace off leaves what is behind all of them if there are not more. -/
theorem eq_afterBrace_iff {n : Nat} {texts : List String} (h : texts.head? ≠ some "\x7d") :
    texts = afterBrace (List.replicate n "\x7d" ++ texts) ↔ n ≤ 1 := by
  cases n with
  | zero =>
    cases texts with
    | nil => simp [afterBrace]
    | cons text texts =>
      have htext : text ≠ "\x7d" := by simpa using h
      simp [afterBrace, htext]
  | succ n =>
    rw [List.replicate_succ, List.cons_append, afterBrace, if_pos rfl, List.self_eq_append_left,
      List.replicate_eq_nil_iff]
    omega

end Macro

/-- A block whose signature can be read files its macro, unless a later block files another one of
the name. All braces before the first other line of the body are dropped, and not only one : the
macro has the body without a brace at its start if and only if there is at most one. -/
theorem leading_braces_dropped {before after : List Segment} {first signature : Line}
    {body : List Line} {last : Option Line} {lines : List Line} {s : Signature}
    (hlines : Divides (before ++ .block .definition first (signature :: body) last :: after) lines)
    (hsigned : Signature.parse? signature.text = some s)
    (hlater : ∀ segment ∈ after, ∀ m ∈ segment.defined?, m.name ≠ s.name) :
    ∃ n templates,
      (Extraction.ofLines lines).table.find? s.name =
          some ⟨s.name, s.parameters, templates, signature.origin⟩ ∧
        body.map Line.text = List.replicate n "\x7d" ++ templates ∧
          templates.head? ≠ some "\x7d" ∧
            (templates = Macro.afterBrace (body.map Line.text) ↔ n ≤ 1) := by
  obtain ⟨n, hn⟩ := Macro.exists_braces body
  have hhead := Macro.head?_templates body
  refine ⟨n, Macro.templates body, ?_, hn, hhead, by rw [hn, Macro.eq_afterBrace_iff hhead]⟩
  have hdefined : (Segment.block .definition first (signature :: body) last).defined? =
      some ⟨s.name, s.parameters, Macro.templates body, signature.origin⟩ := by
    simp [Segment.defined?, Macro.ofBlock?, hsigned]
  have hafter : ∀ m ∈ after.filterMap Segment.defined?, m.name ≠ s.name := by
    intro m hm
    obtain ⟨segment, hsegment, hm⟩ := List.mem_filterMap.1 hm
    exact hlater segment hsegment m hm
  rw [(Prod.mk.inj hlines.content_eq).1, List.filterMap_append, List.filterMap_cons_some hdefined]
  exact Catalog.find?_ofList_append_cons hafter

/-- The body of a block that nothing closes, with two braces at its start. -/
def bracedBody : List Line :=
  [⟨"\x7d", ⟨"m", 3, 1⟩, none⟩, ⟨"\x7d", ⟨"m", 4, 1⟩, none⟩, ⟨"<set^x=v>", ⟨"m", 5, 1⟩, none⟩,
    ⟨"\x7d", ⟨"m", 6, 1⟩, none⟩]

/-- The first two lines of the block. -/
def bracedHead : Line × Line :=
  (⟨"<command^crt>", ⟨"m", 1, 1⟩, none⟩, ⟨"f(v) \x7b", ⟨"m", 2, 1⟩, none⟩)

theorem divides_bracedBody : Divides
    [.block .definition bracedHead.1 (bracedHead.2 :: bracedBody) none]
    (bracedHead.1 :: bracedHead.2 :: bracedBody) := by
  have hopens : BlockSort.definition.Opens bracedHead.1 := by decide
  have hinside : ∀ l ∈ bracedHead.2 :: bracedBody, ¬BlockSort.definition.Closes l := by decide
  exact divides_cons_iff.2 ⟨⟨hopens, hinside, by simp⟩, [], by simp [Segment.lines], fun _ => rfl,
    divides_nil_iff.2 rfl⟩

theorem parse?_bracedHead : Signature.parse? bracedHead.2.text = some ⟨"f", ["v"]⟩ := by
  decide

/-- The macro of the block has none of the braces at the start. -/
theorem find?_bracedBody :
    (Extraction.ofLines (bracedHead.1 :: bracedHead.2 :: bracedBody)).table.find? "f" =
      some ⟨"f", ["v"], ["<set^x=v>", "\x7d"], ⟨"m", 2, 1⟩⟩ := by
  have hdefined : Segment.defined?
      (.block .definition bracedHead.1 (bracedHead.2 :: bracedBody) none) =
        some ⟨"f", ["v"], ["<set^x=v>", "\x7d"], ⟨"m", 2, 1⟩⟩ := by
    simp only [Segment.defined?, Macro.ofBlock?, parse?_bracedHead]
    simp [Macro.templates, bracedBody, bracedHead]
  rw [(Prod.mk.inj divides_bracedBody.content_eq).1, List.filterMap_cons_some hdefined]
  rfl

theorem leading_braces_dropped_bracedBody :
    Signature.parse? bracedHead.2.text = some ⟨"f", ["v"]⟩ ∧ ∃ n templates,
      (Extraction.ofLines (bracedHead.1 :: bracedHead.2 :: bracedBody)).table.find? "f" =
          some ⟨"f", ["v"], templates, ⟨"m", 2, 1⟩⟩ ∧
        bracedBody.map Line.text = List.replicate n "\x7d" ++ templates ∧
          templates = ["<set^x=v>", "\x7d"] ∧
            templates ≠ Macro.afterBrace (bracedBody.map Line.text) := by
  obtain ⟨n, templates, hfind, hbody, hhead, hbrace⟩ :=
    @leading_braces_dropped [] [] _ _ _ _ _ _ divides_bracedBody parse?_bracedHead (by simp)
  obtain ⟨rfl, -⟩ : templates = ["<set^x=v>", "\x7d"] ∧ bracedHead.2.origin = ⟨"m", 2, 1⟩ := by
    simpa [hfind] using find?_bracedBody
  have hn : n = 2 := by simpa [bracedBody] using congrArg List.length hbody
  exact ⟨parse?_bracedHead, n, _, hfind, hbody, rfl, fun h => by have := hbrace.1 h; omega⟩

/-- Of two braces at the start of a body the second is dropped too. -/
theorem second_brace_dropped :
    ¬∀ (before after : List Segment) (first signature : Line) (body : List Line)
      (last : Option Line) (lines : List Line) (s : Signature),
      Divides (before ++ .block .definition first (signature :: body) last :: after) lines →
        Signature.parse? signature.text = some s →
          (∀ segment ∈ after, ∀ m ∈ segment.defined?, m.name ≠ s.name) →
            ((Extraction.ofLines lines).table.find? s.name).map Macro.body =
              some (Macro.afterBrace (body.map Line.text)) := by
  intro h
  have hbody := h [] [] _ _ _ none _ ⟨"f", ["v"]⟩ divides_bracedBody parse?_bracedHead
    (by simp)
  rw [find?_bracedBody] at hbody
  simp [bracedBody, Macro.afterBrace] at hbody

end ZScript
