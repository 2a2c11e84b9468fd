import ZScript.Proofs.Expansion
import ZScript.Proofs.Extraction

/-!
# Streams and their definition blocks

Extraction reads a stream line by line. `pieces` says what it reads : lines in and outside addon
blocks, and definition blocks, each of which goes from a start mark outside addon blocks to the next
end mark, whatever stands between. A table is what the definition blocks of a stream define, filed
in order, and the lines outside them that are no comments are left (`Extraction.content_ofLines`).
The induction is `pieces_induction`, with one case for a line and one for a block, closed or not.

A whole block brings extraction back to where it was, outside all blocks, and leaves no line
(`DefinitionBlock.foldl_lines`). What is behind the block is then read as it would be without it, so
the block adds the one name that it defines wherever it stands
(`DefinitionBlock.content_ofLines_insert`). The order of the table depends on the place, but
expansion only looks names up, and gives the same lines or the same overflow
(`definition_placement_irrelevant`).
-/

namespace ZScript

/-! ## Pieces of a stream -/

/-- The line ends a definition block. -/
def Line.endsDefinition (l : Line) : Bool :=
  Directive.ofText l.text = .definitionEnd

/-- The templates in the body of a definition block. Braces before the first other line are left
out. -/
def Macro.templates (body : List Line) : List String :=
  (body.map Line.text).dropWhile (· == "\x7d")

/-- The macro that a definition block defines, from the lines between its marks : a signature and a
body. A block without a readable signature defines none. -/
def Macro.ofBlock? : List Line → Option Macro
  | [] => none
  | signature :: body =>
    (Signature.parse? signature.text).map fun s =>
      ⟨s.name, s.parameters, Macro.templates body, signature.origin⟩

/-- A part of a stream. -/
inductive Piece
  /-- A line outside definition blocks, in the addon block that is open before it. -/
  | line (block : Option Addon) (line : Line)
  /-- A definition block : its start mark, the lines inside, and its end mark if it has one. -/
  | definition (start : Line) (inside : List Line) (stop : Option Line)
deriving DecidableEq, Repr

namespace Piece

/-- What a piece defines. -/
def defined? : Piece → Option Macro
  | line _ _ => none
  | definition _ inside _ => Macro.ofBlock? inside

/-- What a piece leaves in the stream : a line that is no comment. -/
def left? : Piece → Option Line
  | line block l => if (Directive.within block l.text).kind = .comment then none else some l
  | definition _ _ _ => none

theorem filterMap_definition (start : Line) (inside : List Line) (stop : Option Line)
    (rest : List Piece) : (definition start inside stop :: rest).filterMap defined? =
      (Macro.ofBlock? inside).toList ++ rest.filterMap defined? := by
  rw [List.filterMap_cons, defined?]
  cases Macro.ofBlock? inside <;> rfl

end Piece

/-- The pieces of a stream that starts in an addon block or in none. A definition block starts
outside addon blocks, and goes to the next end mark or to the end of the stream. -/
def pieces : Option Addon → List Line → List Piece
  | _, [] => []
  | block, line :: rest =>
    if Directive.within block line.text = .definitionStart then
      let behind := rest.dropWhile (!·.endsDefinition)
      .definition line (rest.takeWhile (!·.endsDefinition)) behind.head? :: pieces none behind.tail
    else .line block line :: pieces (Addon.after block line.text) rest
termination_by _ lines => lines.length
decreasing_by
  · have hle := (List.dropWhile_suffix (l := rest) (!·.endsDefinition)).length_le
    simp only [List.length_tail, List.length_cons]
    omega
  · simp

/-- The macros that the definition blocks of a stream define, in order. -/
def definitions (lines : List Line) : List Macro :=
  (pieces none lines).filterMap Piece.defined?

/-- The lines of a stream outside its definition blocks, without comments. -/
def leftLines (lines : List Line) : List Line :=
  (pieces none lines).filterMap Piece.left?

@[simp] theorem pieces_nil (block : Option Addon) : pieces block [] = [] := by
  rw [pieces]

theorem pieces_of_line {block : Option Addon} {line : Line} {rest : List Line}
    (h : Directive.within block line.text ≠ .definitionStart) : pieces block (line :: rest) =
      .line block line :: pieces (Addon.after block line.text) rest := by
  rw [pieces, if_neg h]

theorem pieces_of_block {block : Option Addon} {start stop : Line} {inside rest : List Line}
    (hstart : Directive.within block start.text = .definitionStart)
    (hinside : ∀ line ∈ inside, line.endsDefinition = false) (hstop : stop.endsDefinition = true) :
    pieces block (start :: (inside ++ stop :: rest)) =
      .definition start inside (some stop) :: pieces none rest := by
  have hopen : ∀ line ∈ inside, (!line.endsDefinition) = true := by simpa using hinside
  rw [pieces, if_pos hstart, List.takeWhile_append_of_pos hopen,
    List.dropWhile_append_of_pos hopen]
  simp [hstop]

theorem pieces_of_open_block {block : Option Addon} {start : Line} {inside : List Line}
    (hstart : Directive.within block start.text = .definitionStart)
    (hinside : ∀ line ∈ inside, line.endsDefinition = false) :
    pieces block (start :: inside) = [.definition start inside none] := by
  have htake : inside.takeWhile (!·.endsDefinition) = inside := by
    simpa [List.takeWhile_eq_self_iff] using hinside
  have hdrop : inside.dropWhile (!·.endsDefinition) = [] := by
    simpa [List.dropWhile_eq_nil_iff] using hinside
  rw [pieces, if_pos hstart, htake, hdrop]
  simp

/-- What holds of a stream if it holds of what is behind its first piece holds of every stream. -/
theorem pieces_induction {motive : Option Addon → List Line → Prop}
    (nil : ∀ block, motive block [])
    (line : ∀ block line rest, Directive.within block line.text ≠ .definitionStart →
      motive (Addon.after block line.text) rest → motive block (line :: rest))
    (openBlock : ∀ block start inside, Directive.within block start.text = .definitionStart →
      (∀ l ∈ inside, l.endsDefinition = false) → motive block (start :: inside))
    (wholeBlock : ∀ block start inside stop rest,
      Directive.within block start.text = .definitionStart →
      (∀ l ∈ inside, l.endsDefinition = false) → stop.endsDefinition = true →
      motive none rest → motive block (start :: (inside ++ stop :: rest)))
    (block : Option Addon) (lines : List Line) : motive block lines := by
  induction block, lines using pieces.induct with
  | case1 block => exact nil block
  | case2 block start rest hstart behind ih =>
    have hinside : ∀ l ∈ rest.takeWhile (!·.endsDefinition), l.endsDefinition = false := by
      intro l hl
      simpa using List.all_eq_true.1 List.all_takeWhile l hl
    have hrest : rest.takeWhile (!·.endsDefinition) ++ behind = rest :=
      List.takeWhile_append_dropWhile
    have hstop : ∀ stop ∈ behind.head?, stop.endsDefinition = true := by
      intro stop hmem
      have hnot := List.head?_dropWhile_not (!·.endsDefinition) rest
      rw [Option.mem_def.1 hmem] at hnot
      simpa using hnot
    rw [← hrest]
    clear_value behind
    cases behind with
    | nil =>
      rw [List.append_nil]
      exact openBlock block start _ hstart hinside
    | cons stop after =>
      exact wholeBlock block start _ stop after hstart hinside (hstop stop rfl) ih
  | case3 block start rest hstart ih => exact line block start rest hstart ih

/-! ## Extraction by pieces -/

/-- The macro of the definition block that is being read, as far as it has been read. -/
def ExtractionState.pending? : ExtractionState → Option Macro
  | outside _ | started _ => none
  | inside signature body =>
    signature.map fun s => ⟨s.1.name, s.1.parameters, body.toList, s.2⟩

namespace Extraction

/-- What an extraction has found and left, without its notes. -/
def content (x : Extraction) : MacroTable × List Line :=
  (x.table, x.residual.toList)

/-- The content of an extraction once the block that is being read is closed. -/
def closed (state : ExtractionState) (x : Extraction) : MacroTable × List Line :=
  (x.table.insertAll state.pending?.toList, x.residual.toList)

theorem content_register (x : Extraction) (signature : Option (Signature × Origin))
    (body : Array String) :
    (x.register signature body).content = closed (.inside signature body) x := by
  cases signature with
  | none => rfl
  | some s => exact Prod.ext rfl (congrArg Array.toList (residual_register x (some s) body))

/-- The end of a stream closes the block that is being read. -/
theorem content_finish (state : ExtractionState) (x : Extraction) :
    (finish (state, x)).content = closed state x := by
  cases state with
  | outside block => rfl
  | started start => rfl
  | inside signature body =>
    cases signature with
    | none => rfl
    | some s => exact content_register _ (some s) body

/-- A line outside definition blocks is followed as a part of addon blocks, and left if it is no
comment. -/
theorem step_of_line {block : Option Addon} {line : Line} (x : Extraction)
    (h : Directive.within block line.text ≠ .definitionStart) :
    step (.outside block, x) line = (.outside (Addon.after block line.text),
      if (Directive.within block line.text).kind = .comment then x else x.keep line) := by
  cases hd : Directive.within block line.text with
  | definitionStart => exact absurd hd h
  | _ => simp [step, hd, Addon.after, Directive.blockAfter, Directive.kind]

theorem step_of_start {block : Option Addon} {line : Line} (x : Extraction)
    (h : Directive.within block line.text = .definitionStart) :
    step (.outside block, x) line = (.started line.origin, x) := by
  simp [step, h]

theorem step_of_open {line : Line} (hline : line.endsDefinition = false)
    (signature : Option (Signature × Origin)) (body : Array String) (x : Extraction) :
    step (.inside signature body, x) line = (.inside signature
      (if body.isEmpty && line.text == "\x7d" then body else body.push line.text), x) := by
  have hend : Directive.ofText line.text ≠ .definitionEnd := by
    simpa [Line.endsDefinition] using hline
  simp only [step, if_neg hend]
  split <;> rfl

/-- Behind a first template all lines of a body are templates. -/
theorem foldl_templates {body : List Line} (hbody : ∀ line ∈ body, line.endsDefinition = false)
    (signature : Option (Signature × Origin)) (templates : Array String)
    (htemplates : templates.isEmpty = false) (x : Extraction) :
    body.foldl step (.inside signature templates, x) =
      (.inside signature (templates ++ (body.map Line.text).toArray), x) := by
  induction body generalizing templates with
  | nil => simp
  | cons line rest ih =>
    rw [List.foldl_cons, step_of_open (hbody line (by simp)), htemplates, Bool.false_and,
      if_neg Bool.false_ne_true, ih (fun l hl => hbody l (by simp [hl])) _ (by simp)]
    simp

/-- The lines of a body are collected, without the braces before the first other line. -/
theorem foldl_body {body : List Line} (hbody : ∀ line ∈ body, line.endsDefinition = false)
    (signature : Option (Signature × Origin)) (x : Extraction) :
    body.foldl step (.inside signature #[], x) =
      (.inside signature (Macro.templates body).toArray, x) := by
  induction body with
  | nil => rfl
  | cons line rest ih =>
    have hrest : ∀ l ∈ rest, l.endsDefinition = false := fun l hl => hbody l (by simp [hl])
    rw [List.foldl_cons, step_of_open (hbody line (by simp))]
    by_cases hbrace : line.text = "\x7d"
    · simpa [hbrace, Macro.templates] using ih hrest
    · rw [if_neg (by simpa using hbrace), foldl_templates hrest _ _ (by simp)]
      simp [Macro.templates, hbrace]

/-- Where the reading of a definition block stands, behind its start mark and some lines inside. -/
def openState (start : Line) : List Line → ExtractionState
  | [] => .started start.origin
  | signature :: body =>
    .inside ((Signature.parse? signature.text).map fun s => (s, signature.origin))
      (Macro.templates body).toArray

theorem foldl_inside {inside : List Line}
    (hinside : ∀ line ∈ inside, line.endsDefinition = false) (start : Line) (x : Extraction) :
    ∃ y, inside.foldl step (.started start.origin, x) = (openState start inside, y) ∧
      y.content = x.content := by
  cases inside with
  | nil => exact ⟨x, rfl, rfl⟩
  | cons signature body =>
    have hend : Directive.ofText signature.text ≠ .definitionEnd := by
      simpa [Line.endsDefinition] using hinside signature (by simp)
    have hbody : ∀ l ∈ body, l.endsDefinition = false := fun l hl => hinside l (by simp [hl])
    rw [List.foldl_cons, openState]
    simp only [step, if_neg hend]
    cases Signature.parse? signature.text with
    | none => exact ⟨_, foldl_body hbody none _, rfl⟩
    | some s => exact ⟨_, foldl_body hbody _ x, rfl⟩

theorem pending?_openState (start : Line) (inside : List Line) :
    (openState start inside).pending? = Macro.ofBlock? inside := by
  cases inside with
  | nil => rfl
  | cons signature body =>
    simp [openState, ExtractionState.pending?, Macro.ofBlock?, Function.comp_def]

/-- An end mark closes the block that is being read. -/
theorem step_of_stop {stop : Line} (hstop : stop.endsDefinition = true) (start : Line)
    (inside : List Line) (x : Extraction) :
    ∃ y, step (openState start inside, x) stop = (.outside none, y) ∧
      y.content = closed (openState start inside) x := by
  have hend : Directive.ofText stop.text = .definitionEnd := by
    simpa [Line.endsDefinition] using hstop
  cases inside with
  | nil => exact ⟨x.note (.unsignedBlock start.origin), by simp only [openState, step, if_pos hend],
      rfl⟩
  | cons signature body =>
    exact ⟨_, by simp only [openState, step, if_pos hend], content_register x _ _⟩

theorem closed_openState (start : Line) (inside : List Line) {x y : Extraction}
    (h : y.content = x.content) : closed (openState start inside) y =
      (x.table.insertAll (Macro.ofBlock? inside).toList, x.residual.toList) := by
  obtain ⟨htable, hresidual⟩ := Prod.mk.inj h
  rw [closed, pending?_openState, htable, hresidual]

/-- A whole definition block is taken out, and what it defines is filed. -/
theorem foldl_block {block : Option Addon} {start stop : Line} {inside : List Line}
    (hstart : Directive.within block start.text = .definitionStart)
    (hinside : ∀ line ∈ inside, line.endsDefinition = false) (hstop : stop.endsDefinition = true)
    (x : Extraction) :
    ∃ y, (start :: (inside ++ [stop])).foldl step (.outside block, x) = (.outside none, y) ∧
      y.content = (x.table.insertAll (Macro.ofBlock? inside).toList, x.residual.toList) := by
  obtain ⟨y, hy, hcontent⟩ := foldl_inside hinside start x
  obtain ⟨z, hz, hclosed⟩ := step_of_stop hstop start inside y
  refine ⟨z, ?_, hclosed.trans (closed_openState start inside hcontent)⟩
  rw [List.foldl_cons, step_of_start x hstart, List.foldl_append, hy]
  exact hz

/-- Extraction files what the pieces of a stream define, in order, and leaves what they leave. -/
theorem content_finish_foldl (block : Option Addon) (lines : List Line) (x : Extraction) :
    (finish (lines.foldl step (.outside block, x))).content =
      (x.table.insertAll ((pieces block lines).filterMap Piece.defined?),
        x.residual.toList ++ (pieces block lines).filterMap Piece.left?) := by
  induction block, lines using pieces_induction generalizing x with
  | nil block => simp [content_finish, closed, ExtractionState.pending?]
  | line block line rest h ih =>
    rw [pieces_of_line h, List.foldl_cons, step_of_line x h, ih,
      List.filterMap_cons_none (f := Piece.defined?) rfl, List.filterMap_cons, Piece.left?]
    split
    · rfl
    · simp [keep]
  | openBlock block start inside hstart hinside =>
    obtain ⟨y, hy, hcontent⟩ := foldl_inside hinside start x
    rw [pieces_of_open_block hstart hinside, Piece.filterMap_definition, List.foldl_cons,
      step_of_start x hstart, hy, content_finish, closed_openState start inside hcontent]
    simp [Piece.left?]
  | wholeBlock block start inside stop rest hstart hinside hstop ih =>
    obtain ⟨y, hy, hcontent⟩ := foldl_block hstart hinside hstop x
    obtain ⟨htable, hresidual⟩ := Prod.mk.inj hcontent
    rw [pieces_of_block hstart hinside hstop, Piece.filterMap_definition, List.append_cons,
      ← List.cons_append, List.foldl_append, hy, ih, htable, hresidual, Catalog.insertAll_append,
      List.filterMap_cons_none (f := Piece.left?) rfl]

/-- What is behind a place outside all blocks is read as a stream of its own. -/
theorem content_ofLines_append {before : List Line} {x : Extraction}
    (h : before.foldl step (.outside none, {}) = (.outside none, x)) (after : List Line) :
    (ofLines (before ++ after)).content =
      (x.table.insertAll (definitions after), x.residual.toList ++ leftLines after) := by
  rw [ofLines, List.foldl_append, h, content_finish_foldl, definitions, leftLines]

/-- A stream gives the table of what its definition blocks define, and is left with the lines
outside them that are no comments. -/
theorem content_ofLines (lines : List Line) :
    (ofLines lines).content = (.ofList (definitions lines), leftLines lines) := by
  have hstart : ([] : List Line).foldl step (.outside none, {}) = (.outside none, {}) := rfl
  simpa [Catalog.ofList] using content_ofLines_append hstart lines

theorem table_ofLines (lines : List Line) : (ofLines lines).table = .ofList (definitions lines) :=
  (Prod.mk.inj (content_ofLines lines)).1

end Extraction

/-! ## The place of a definition -/

/-- A definition block with a readable signature and an end mark. -/
structure DefinitionBlock where
  start : Line
  signature : Line
  body : List Line
  stop : Line
  /-- What the signature says. -/
  head : Signature
  starts : Directive.ofText start.text = .definitionStart
  signed : Signature.parse? signature.text = some head
  unbroken : ∀ line ∈ body, line.endsDefinition = false
  stops : stop.endsDefinition = true

/-- A signature is no end mark. -/
theorem Line.endsDefinition_of_signature {line : Line} {s : Signature}
    (h : Signature.parse? line.text = some s) : line.endsDefinition = false := by
  refine decide_eq_false fun hend => ?_
  have htext : line.text = "<cmd^add>" := (Directive.ofText_eq_iff (by simp)).1 hend
  have hnone : Signature.parse? "<cmd^add>" = none := by decide +kernel
  simp [htext, hnone] at h

namespace DefinitionBlock

/-- The lines of the block. -/
def lines (b : DefinitionBlock) : List Line :=
  b.start :: (b.signature :: b.body ++ [b.stop])

/-- The macro that the block defines. -/
def defined (b : DefinitionBlock) : Macro :=
  ⟨b.head.name, b.head.parameters, Macro.templates b.body, b.signature.origin⟩

/-- Outside definition blocks and addon blocks the block is taken out, and its macro is filed. -/
theorem foldl_lines (b : DefinitionBlock) (x : Extraction) :
    ∃ y, b.lines.foldl Extraction.step (.outside none, x) = (.outside none, y) ∧
      y.content = (x.table.insert b.defined, x.residual.toList) := by
  have hinside : ∀ line ∈ b.signature :: b.body, line.endsDefinition = false :=
    List.forall_mem_cons.2 ⟨Line.endsDefinition_of_signature b.signed, b.unbroken⟩
  have hstart : Directive.within none b.start.text = .definitionStart := b.starts
  obtain ⟨y, hy, hcontent⟩ := Extraction.foldl_block hstart hinside b.stops x
  refine ⟨y, hy, hcontent.trans ?_⟩
  simp [Macro.ofBlock?, b.signed, defined]

end DefinitionBlock

/-- Extraction of these lines ends outside definition blocks and outside addon blocks. -/
def Extraction.EndsOutside (lines : List Line) : Prop :=
  (lines.foldl step (.outside none, {})).1 = .outside none

instance (lines : List Line) : Decidable (Extraction.EndsOutside lines) :=
  inferInstanceAs (Decidable (_ = _))

/-- A block that is put into a stream where extraction is outside all blocks leaves the same lines,
and adds its macro to what is found, if no block of the stream defines the name. -/
theorem DefinitionBlock.content_ofLines_insert (b : DefinitionBlock) {before after : List Line}
    (houtside : Extraction.EndsOutside before)
    (hname : ∀ m ∈ definitions (before ++ after), m.name ≠ b.head.name) :
    (Extraction.ofLines (before ++ b.lines ++ after)).residual =
        (Extraction.ofLines (before ++ after)).residual ∧
      ∀ name, (Extraction.ofLines (before ++ b.lines ++ after)).table.find? name =
        if b.head.name = name then some b.defined
        else (Extraction.ofLines (before ++ after)).table.find? name := by
  rcases hbefore : before.foldl Extraction.step (.outside none, {}) with ⟨state, x⟩
  obtain rfl : state = .outside none := by simpa [Extraction.EndsOutside, hbefore] using houtside
  obtain ⟨y, hy, hcontent⟩ := b.foldl_lines x
  obtain ⟨htable, hresidual⟩ := Prod.mk.inj hcontent
  have hthrough : (before ++ b.lines).foldl Extraction.step (.outside none, {}) =
      (.outside none, y) := by
    rw [List.foldl_append, hbefore, hy]
  obtain ⟨htable₁, hresidual₁⟩ := Prod.mk.inj (Extraction.content_ofLines_append hbefore after)
  obtain ⟨htable₂, hresidual₂⟩ := Prod.mk.inj (Extraction.content_ofLines_append hthrough after)
  rw [hresidual, ← hresidual₁] at hresidual₂
  refine ⟨Array.toList_inj.1 hresidual₂, fun name => ?_⟩
  have hfresh : (Extraction.ofLines (before ++ after)).table.find? b.head.name = none := by
    rw [Extraction.table_ofLines, Catalog.find?_ofList, List.find?_eq_none]
    intro m hm heq
    exact hname m (List.mem_reverse.1 hm) (eq_of_beq heq)
  rw [htable₁] at hfresh ⊢
  rw [htable₂, htable]
  exact Catalog.find?_insertAll_insert_of_fresh hfresh name

/-- It does not matter where in a stream a macro is defined that the stream does not define
otherwise : what is left, what is found under each name and what the calls expand to are the same
for any two places outside all blocks, also behind the calls. -/
theorem definition_placement_irrelevant (b : DefinitionBlock)
    {before after before' after' : List Line} (hstream : before ++ after = before' ++ after')
    (houtside : Extraction.EndsOutside before)
    (houtside' : Extraction.EndsOutside before')
    (hname : ∀ m ∈ definitions (before ++ after), m.name ≠ b.head.name) :
    (Extraction.ofLines (before ++ b.lines ++ after)).residual =
        (Extraction.ofLines (before' ++ b.lines ++ after')).residual ∧
      (∀ name, (Extraction.ofLines (before ++ b.lines ++ after)).table.find? name =
        (Extraction.ofLines (before' ++ b.lines ++ after')).table.find? name) ∧
      ∀ limits, expand (Extraction.ofLines (before ++ b.lines ++ after)).table limits
          (Extraction.ofLines (before ++ b.lines ++ after)).residual.toList =
        expand (Extraction.ofLines (before' ++ b.lines ++ after')).table limits
          (Extraction.ofLines (before' ++ b.lines ++ after')).residual.toList := by
  obtain ⟨hresidual, hfind⟩ := b.content_ofLines_insert houtside hname
  obtain ⟨hresidual', hfind'⟩ := b.content_ofLines_insert houtside' (hstream ▸ hname)
  rw [← hstream] at hresidual' hfind'
  have hlines := hresidual.trans hresidual'.symm
  have hlookup : ∀ name, (Extraction.ofLines (before ++ b.lines ++ after)).table.find? name =
      (Extraction.ofLines (before' ++ b.lines ++ after')).table.find? name :=
    fun name => (hfind name).trans (hfind' name).symm
  refine ⟨hlines, hlookup, fun limits => ?_⟩
  rw [hlines]
  exact expand_congr hlookup limits _

/-- A definition of `f(q)` whose body holds the marks of other blocks. -/
def blockOfF : DefinitionBlock where
  start := ⟨"<command^crt>", ⟨"m", 1, 1⟩, none⟩
  signature := ⟨"f(q)", ⟨"m", 2, 1⟩, none⟩
  body := [⟨"<command^crt>", ⟨"m", 3, 1⟩, none⟩, ⟨"<addon^index/set^js>", ⟨"m", 4, 1⟩, none⟩,
    ⟨"q", ⟨"m", 5, 1⟩, none⟩, ⟨"<addon^js>", ⟨"m", 6, 1⟩, none⟩]
  stop := ⟨"<cmd^add>", ⟨"m", 7, 1⟩, none⟩
  head := ⟨"f", ["q"]⟩
  starts := by decide +kernel
  signed := by decide +kernel
  unbroken := by decide +kernel
  stops := by decide +kernel

/-- Calls of `f` before an addon block and inside it. -/
def callsOfF : List Line :=
  [⟨"f(1)", ⟨"m", 8, 1⟩, none⟩, ⟨"<addon^index/set^html>", ⟨"m", 9, 1⟩, none⟩,
    ⟨"f(2)", ⟨"m", 10, 1⟩, none⟩, ⟨"<addon^html>", ⟨"m", 11, 1⟩, none⟩]

theorem definition_placement_irrelevant_blockOfF :
    Extraction.EndsOutside [] ∧ Extraction.EndsOutside callsOfF ∧
      (∀ m ∈ definitions callsOfF, m.name ≠ "f") ∧
        ((expand (Extraction.ofLines (callsOfF ++ blockOfF.lines)).table {}
          (Extraction.ofLines (callsOfF ++ blockOfF.lines)).residual.toList).toOption.map
            (·.map Line.text)) = some ["<command^crt>", "<addon^index/set^js>", "1", "<addon^js>",
              "<addon^index/set^html>", "f(2)", "<addon^html>"] ∧
          expand (Extraction.ofLines (blockOfF.lines ++ callsOfF)).table {}
              (Extraction.ofLines (blockOfF.lines ++ callsOfF)).residual.toList =
            expand (Extraction.ofLines (callsOfF ++ blockOfF.lines)).table {}
              (Extraction.ofLines (callsOfF ++ blockOfF.lines)).residual.toList := by
  have hstart : Extraction.EndsOutside [] := rfl
  have hend : Extraction.EndsOutside callsOfF := by decide +kernel
  have hname : ∀ m ∈ definitions callsOfF, m.name ≠ "f" := by decide +kernel
  refine ⟨hstart, hend, hname, by decide +kernel, ?_⟩
  obtain ⟨-, -, hexpand⟩ := @definition_placement_irrelevant blockOfF [] callsOfF callsOfF []
    (List.append_nil _).symm hstart hend hname
  simpa using hexpand {}

end ZScript
