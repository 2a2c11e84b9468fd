import ZScript.Cli.Terminal

/-!
# Carets under a text

The place of a line is shown on three lines : an empty one, the source line, and carets under the text.
All three stand behind a gutter, the margin of which is made as wide as the decimal logarithm of the
line number tells. That is the number of digits of the line number (`Report.length_toDigits`), so the
gutters have one width, and the carets stand under the characters of the text (`Report.Pointed`).

Colours change nothing of this. The codes for them are control sequences, and behind each of them plain
output stands where it stood before (`PlainOutput.alike_sequence`). So plain output makes no difference
between a text with colours and one without (`PlainOutput.Alike.append_text`).
-/

namespace ZScript

theorem Chars.le_iff_toNat_le {c d : Char} : c ≤ d ↔ c.toNat ≤ d.toNat := by
  rw [Char.le_def, UInt32.le_iff_toNat_le]
  rfl

/-! ## Plain output of coloured texts -/

namespace PlainOutput

/-- A text read to its end. -/
def ofText (s : String) : PlainOutput :=
  s.toList.foldl step {}

/-- One reading stands where another stands, but has put out `pre` before it. Outside control sequences
it makes no difference whether the last character was put out. -/
structure Follows (pre : String) (o o' : PlainOutput) : Prop where
  state_eq : o.state = o'.state
  text_eq : o.text = pre ++ o'.text
  interrupted_eq : o.state = .ground ∨ o.interrupted = o'.interrupted

/-- Two texts are put out alike, and leave no control sequence open. -/
structure Alike (s s' : String) : Prop where
  left : (ofText s).state = .ground
  right : (ofText s').state = .ground
  text_eq : withoutControls s = withoutControls s'

variable {pre s s' t t' : String} {o o' : PlainOutput}

theorem Follows.step (h : Follows pre o o') (c : Char) : Follows pre (o.step c) (o'.step c) := by
  have hshown : (o.state.shows c || (o.interrupted && ControlState.isShown c)) =
      (o'.state.shows c || (o'.interrupted && ControlState.isShown c)) := by
    rcases h.interrupted_eq with hground | hsame
    · rw [← h.state_eq, hground, ControlState.shows]
      cases ControlState.isShown c <;> simp
    · rw [h.state_eq, hsame]
  unfold PlainOutput.step
  rw [hshown]
  split
  · exact ⟨by simp [h.state_eq], by simp [← String.toList_inj, h.text_eq], Or.inr rfl⟩
  · exact ⟨by simp [h.state_eq], h.text_eq, Or.inr rfl⟩

theorem Follows.foldl (h : Follows pre o o') (cs : List Char) :
    Follows pre (cs.foldl PlainOutput.step o) (cs.foldl PlainOutput.step o') := by
  induction cs generalizing o o' with
  | nil => exact h
  | cons c cs ih => exact ih (h.step c)

/-- Behind a text that leaves no control sequence open, another is read as from the start. -/
theorem follows_ofText_append (h : (ofText s).state = .ground) (t : String) :
    Follows (withoutControls s) (ofText (s ++ t)) (ofText t) := by
  have hstart : Follows (withoutControls s) (ofText s) {} :=
    ⟨h, by simp [withoutControls, ofText], Or.inl h⟩
  rw [ofText, String.toList_append, List.foldl_append]
  exact hstart.foldl t.toList

theorem Alike.append_text (h : Alike s s') (t : String) :
    withoutControls (s ++ t) = withoutControls (s' ++ t) := by
  have hleft := (follows_ofText_append h.left t).text_eq
  have hright := (follows_ofText_append h.right t).text_eq
  rw [← h.text_eq] at hright
  exact hleft.trans hright.symm

theorem Alike.append (h : Alike s s') (h' : Alike t t') : Alike (s ++ t) (s' ++ t') where
  left := (follows_ofText_append h.left t).state_eq.trans h'.left
  right := (follows_ofText_append h.right t').state_eq.trans h'.right
  text_eq := by
    have hleft := (follows_ofText_append h.left t).text_eq
    have hright := (follows_ofText_append h.right t').text_eq
    calc withoutControls (s ++ t) = withoutControls s ++ withoutControls t := hleft
      _ = withoutControls s' ++ withoutControls t' := by rw [h.text_eq, h'.text_eq]
      _ = withoutControls (s' ++ t') := hright.symm

/-- Every character of the text is put out where no control sequence is open. -/
def Shown (s : String) : Prop :=
  ∀ c ∈ s.toList, ControlState.isShown c = true

theorem state_foldl_of_shown {cs : List Char} (h : ∀ c ∈ cs, ControlState.isShown c = true)
    (ho : o.state = .ground) : (cs.foldl step o).state = .ground := by
  induction cs generalizing o with
  | nil => exact ho
  | cons c cs ih =>
    obtain ⟨hc, hcs⟩ := List.forall_mem_cons.1 h
    exact ih hcs (by simp [step, ho, ControlState.shows, hc])

theorem Shown.alike (h : Shown s) : Alike s s :=
  have hstate := state_foldl_of_shown h rfl
  ⟨hstate, hstate, rfl⟩

/-- The digits, and up to the semicolon that stands between the numbers of a code. -/
def isCodeSign (c : Char) : Bool :=
  '0' ≤ c && c ≤ ';'

theorem step_of_isCodeSign {c : Char} (h : isCodeSign c = true) (ho : o.state = .parameters)
    (hi : o.interrupted = false) : o.step c = o := by
  simp only [isCodeSign, Bool.and_eq_true, decide_eq_true_eq, Chars.le_iff_toNat_le] at h
  change 48 ≤ c.toNat ∧ c.toNat ≤ 59 at h
  have hne : ∀ d : Char, d.toNat < 48 → c ≠ d := by
    rintro d hd rfl
    omega
  have hat : ¬('@' ≤ c) := by
    rw [Chars.le_iff_toNat_le]
    change ¬64 ≤ c.toNat
    omega
  have hhidden : ControlState.isSpacing c = false := by
    simp [ControlState.isSpacing, hne '\t' (by decide), hne '\n' (by decide), hne '\x0c' (by decide),
      hne '\r' (by decide)]
  have hnext : ControlState.next .parameters c = .parameters := by
    simp [ControlState.next, hne '\x1b' (by decide), hne '\x18' (by decide), hne '\x1a' (by decide),
      hat]
  obtain ⟨state, interrupted, text⟩ := o
  obtain rfl : state = .parameters := ho
  obtain rfl : interrupted = false := hi
  simp [step, ControlState.shows, hhidden, hnext]

theorem foldl_step_of_isCodeSign {cs : List Char} (h : cs.all isCodeSign = true)
    (ho : o.state = .parameters) (hi : o.interrupted = false) : cs.foldl step o = o := by
  induction cs with
  | nil => rfl
  | cons c cs ih =>
    rw [List.all_cons, Bool.and_eq_true] at h
    rw [List.foldl_cons, step_of_isCodeSign h.1 ho hi, ih h.2]

/-- Nothing of a control sequence with a code is put out, and it is closed at its end. -/
theorem alike_sequence (codes : String) (h : codes.toList.all isCodeSign = true) :
    Alike ("\x1b[" ++ codes ++ "m") "" := by
  have hread : ofText ("\x1b[" ++ codes ++ "m") = {} := by
    rw [ofText, String.toList_append, String.toList_append, List.foldl_append, List.foldl_append]
    have hopen : "\x1b[".toList.foldl step {} = { state := .parameters } := by rfl
    rw [hopen, foldl_step_of_isCodeSign h rfl rfl]
    rfl
  exact ⟨by rw [hread], rfl, congrArg text hread⟩

/-- A text is put out alike with and without a style. -/
theorem Shown.alike_apply (h : Shown s) (codes : String)
    (hcodes : codes.toList.all isCodeSign = true) :
    Alike (Paint.ansi.apply codes s) (Paint.plain.apply codes s) := by
  have hreset : Alike "\x1b[0m" "" := alike_sequence "0" (by decide)
  simpa [Paint.apply] using ((alike_sequence codes hcodes).append h.alike).append hreset

end PlainOutput

/-! ## Gutters -/

namespace Report

/-- As many characters are written for a number as its decimal logarithm tells. -/
theorem length_toDigits (n : Nat) : (Nat.toDigits 10 n).length = log10 (max n 1) + 1 := by
  by_cases hn : n < 10
  · have hlog : log10 (max n 1) = 0 := by
      rw [log10, if_pos (by omega)]
    rw [Nat.toDigits_of_lt_base hn, hlog, List.length_singleton]
  · have hlog : log10 (max n 1) = log10 (max (n / 10) 1) + 1 := by
      rw [log10, if_neg (by omega), Nat.max_eq_left (by omega), Nat.max_eq_left (by omega)]
    rw [Nat.toDigits_eq_if (by decide), if_neg hn, List.length_append, length_toDigits (n / 10), hlog,
      List.length_singleton]

theorem toList_margin (line : Nat) :
    (margin line).toList = List.replicate (Nat.toDigits 10 line).length ' ' := by
  rw [margin, repeated, String.toList_ofList, length_toDigits]

/-- What stands before the contents of a line : its label, and a bar between two spaces. -/
def gutter (label : List Char) : List Char :=
  label ++ " | ".toList

/-- Three lines show where the text of a line stands. Their gutters are as wide as the line number is
written. The text ends the source line, and the carets stand under its characters, or one under the
place of a text that has none. -/
structure Pointed (l : Line) (above source pointer : List Char) : Prop where
  above_eq : above = gutter (List.replicate (Nat.toDigits 10 l.origin.line).length ' ')
  source_gutter : gutter (Nat.toDigits 10 l.origin.line) <+: source
  pointer_gutter : gutter (List.replicate (Nat.toDigits 10 l.origin.line).length ' ') <+: pointer
  carets : ∃ front, source = front ++ l.text.toList ∧
    front.length = (gutter (Nat.toDigits 10 l.origin.line)).length + (l.origin.column - 1) ∧
    ∀ i, pointer[i]? = some '^' ↔ front.length ≤ i ∧ i < front.length + max l.text.length 1

theorem getElem?_append_replicate_iff {front : List Char} {c : Char} (h : c ∉ front) (m i : Nat) :
    (front ++ List.replicate m c)[i]? = some c ↔ front.length ≤ i ∧ i < front.length + m := by
  by_cases hi : i < front.length
  · rw [List.getElem?_append_left hi]
    exact ⟨fun hc => absurd (List.mem_of_getElem? hc) h, fun hle => absurd hi (by omega)⟩
  · rw [List.getElem?_append_right (by omega), List.getElem?_replicate,
      Option.ite_none_right_eq_some, and_iff_left rfl]
    omega

/-- The three lines of a place, as they are without colours. -/
theorem sourceLines_plain (l : Line) :
    (sourceLines .plain (Location.ofLine l)).map String.toList =
      [gutter (List.replicate (Nat.toDigits 10 l.origin.line).length ' '),
        gutter (Nat.toDigits 10 l.origin.line) ++ List.replicate (l.origin.column - 1) ' ' ++
          l.text.toList,
        gutter (List.replicate (Nat.toDigits 10 l.origin.line).length ' ') ++
          List.replicate (l.origin.column - 1) ' ' ++ List.replicate (max l.text.length 1) '^'] := by
  have hcolumn : max l.origin.column 1 - 1 = l.origin.column - 1 := by omega
  simp [sourceLines, Paint.apply, Location.ofLine, repeated, toList_margin, gutter, hcolumn]

theorem pointed_sourceLines (l : Line) : ∃ above source pointer,
    sourceLines .plain (Location.ofLine l) = [above, source, pointer] ∧
      Pointed l above.toList source.toList pointer.toList := by
  obtain ⟨above, source, pointer, hlines⟩ : ∃ above source pointer,
      sourceLines .plain (Location.ofLine l) = [above, source, pointer] := ⟨_, _, _, rfl⟩
  have hplain := sourceLines_plain l
  simp only [hlines, List.map_cons, List.map_nil, List.cons.injEq, and_true] at hplain
  obtain ⟨habove, hsource, hpointer⟩ := hplain
  refine ⟨above, source, pointer, hlines, habove, ?_, ?_, _, hsource, by simp, fun i => ?_⟩
  · simp [hsource]
  · simp [hpointer]
  · rw [hpointer, getElem?_append_replicate_iff (by simp [gutter])]
    simp [gutter]

theorem shown_repeated {c : Char} (h : ControlState.isShown c = true) (n : Nat) :
    PlainOutput.Shown (repeated c n) := by
  intro d hd
  rw [repeated, String.toList_ofList] at hd
  rw [List.eq_of_mem_replicate hd, h]

theorem shown_toString (n : Nat) : PlainOutput.Shown (toString n) := by
  intro c hc
  rw [Nat.toString_eq_repr, Nat.toList_repr] at hc
  have hdigit := Char.isDigit_iff_toNat.1 (Nat.isDigit_of_mem_toDigits (by decide) (by decide) hc)
  change 48 ≤ c.toNat ∧ c.toNat ≤ 57 at hdigit
  have hspace : ' ' ≤ c := by
    rw [Chars.le_iff_toNat_le]
    change 32 ≤ c.toNat
    omega
  have hne : c ≠ '\x7f' := by
    rintro rfl
    exact absurd hdigit (by decide)
  simp [ControlState.isShown, hspace, hne]

/-- The three lines of a place are put out plainly as if there were no colours. -/
theorem withoutControls_sourceLines (place : Location) :
    (sourceLines .ansi place).map withoutControls =
      (sourceLines .plain place).map withoutControls := by
  have hspaces : ∀ n, PlainOutput.Shown (repeated ' ' n) := shown_repeated (by decide)
  have hspace : PlainOutput.Alike " " " " := (hspaces 1).alike
  have hstroke : PlainOutput.Shown "|" := shown_repeated (by decide) 1
  have hcarets : PlainOutput.Shown (repeated '^' place.length) := shown_repeated (by decide) _
  have hbar := (hspace.append (hstroke.alike_apply "34;1" (by decide))).append hspace
  have hmargin : PlainOutput.Alike (margin place.line) (margin place.line) := (hspaces _).alike
  have habove := hmargin.append hbar
  have hlabel := ((shown_toString place.line).alike_apply "34;1" (by decide)).append hbar
  have hpointer := (habove.append (hspaces (place.column - 1)).alike).append
    (hcarets.alike_apply "31;1" (by decide))
  simp only [sourceLines, List.map_cons, List.map_nil, List.cons.injEq, and_true]
  exact ⟨habove.text_eq, hlabel.append_text _, hpointer.text_eq⟩

theorem lineFeed_notMem_sourceLines {l : Line} (h : '\n' ∉ l.text.toList) :
    ∀ shown ∈ sourceLines .plain (Location.ofLine l), '\n' ∉ shown.toList := by
  have hdigits : '\n' ∉ Nat.toDigits 10 l.origin.line := fun hmem =>
    absurd (Nat.isDigit_of_mem_toDigits (by decide) (by decide) hmem) (by decide)
  intro shown hshown
  have hmem := List.mem_map_of_mem (f := String.toList) hshown
  rw [sourceLines_plain] at hmem
  generalize shown.toList = cs at hmem
  simp only [List.mem_cons, List.not_mem_nil, or_false] at hmem
  rcases hmem with rfl | rfl | rfl <;> simp [gutter, h, hdigits]

end Report

/-- The column of a place is at least 1, so that the carets are indented by one column less. The three
lines that show the place have gutters of one width, and the carets point at the text. A text without
line feeds leaves them three lines, and plain output shows them as if there were no colours. -/
theorem carets_point_at_text (l : Line) :
    0 < (Location.ofLine l).column ∧
    (∃ above source pointer,
      Report.sourceLines .plain (Location.ofLine l) = [above, source, pointer] ∧
        Report.Pointed l above.toList source.toList pointer.toList) ∧
    ('\n' ∉ l.text.toList →
      ∀ shown ∈ Report.sourceLines .plain (Location.ofLine l), '\n' ∉ shown.toList) ∧
    (Report.sourceLines .ansi (Location.ofLine l)).map withoutControls =
      (Report.sourceLines .plain (Location.ofLine l)).map withoutControls :=
  ⟨Nat.lt_of_lt_of_le Nat.one_pos (Nat.le_max_right _ _), Report.pointed_sourceLines l,
    Report.lineFeed_notMem_sourceLines, Report.withoutControls_sourceLines _⟩

/-- A line with no text and no column, of a number with three digits. -/
def unplacedLine : Line :=
  ⟨"", ⟨"m", 100, 0⟩, none⟩

/-- One caret stands where the text would start. -/
theorem carets_point_at_text_unplacedLine :
    (∀ shown ∈ Report.sourceLines .plain (Location.ofLine unplacedLine), '\n' ∉ shown.toList) ∧
      ∃ above source pointer,
        Report.sourceLines .plain (Location.ofLine unplacedLine) = [above, source, pointer] ∧
          ∀ i, pointer.toList[i]? = some '^' ↔ i = 6 := by
  obtain ⟨-, ⟨above, source, pointer, hlines, hpointed⟩, hfeed, -⟩ := carets_point_at_text unplacedLine
  obtain ⟨front, -, hlength, hcarets⟩ := hpointed.carets
  have hsix : front.length = 6 := hlength
  refine ⟨hfeed (by decide), above, source, pointer, hlines, fun i => ?_⟩
  rw [hcarets, hsix]
  change 6 ≤ i ∧ i < 6 + 1 ↔ i = 6
  omega

end ZScript
