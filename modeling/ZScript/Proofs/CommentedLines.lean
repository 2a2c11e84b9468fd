import ZScript.Proofs.CodeLines

/-!
# What a comment of the code holds

Under the lenient policy a line that has no translation is written as a comment, and so is a comment of
the script. A comment of the code goes on to the next line terminator, of which there are four : the
line feed, the carriage return and the two separators U+2028 and U+2029 (`Chars.lineTerminators`). A
unit is cut into lines at line feeds only. Trimming takes the other three off the ends of a line, but
leaves those inside it. The comment is the line behind a few printable characters
(`Script.exists_mark_of_comment`). So it ends early if and only if the line has a terminator inside, and
all from that one on is read as code (`Chars.exposed`).
-/

namespace ZScript

namespace Chars

/-- The characters that end a line of the code, and with it a comment. -/
def lineTerminators : List Char :=
  ['\n', '\r', '\u2028', '\u2029']

/-- What of a text in a comment is read as code : all from its first line terminator on. -/
def exposed (s : List Char) : List Char :=
  s.dropWhile (· ∉ lineTerminators)

/-- The part of a line that is put into a comment of the code. A comment of the script that starts with
`#` loses that sign and the blanks behind it. -/
def commented : List Char → List Char
  | '#' :: s => trimStart s
  | s => s

variable {s : List Char}

theorem notMem_lineTerminators_of_isPrintable {c : Char} (h : IsPrintable c) :
    c ∉ lineTerminators := by
  intro hc
  simp only [lineTerminators, List.mem_cons, List.not_mem_nil, or_false] at hc
  rcases hc with rfl | rfl | rfl | rfl <;> exact absurd h (by decide)

theorem exposed_append {mark : List Char} (h : ∀ c ∈ mark, IsPrintable c) (s : List Char) :
    exposed (mark ++ s) = exposed s :=
  List.dropWhile_append_of_pos fun c hc => by
    simpa using notMem_lineTerminators_of_isPrintable (h c hc)

theorem commented_of_ne (h : ∀ rest, s ≠ '#' :: rest) : commented s = s := by
  unfold commented
  split
  · exact absurd rfl (h _)
  · rfl

theorem mem_of_mem_commented {c : Char} (h : c ∈ commented s) : c ∈ s := by
  unfold commented at h
  split at h
  · exact List.mem_cons_of_mem _ (List.dropWhile_subset isBlank h)
  · exact h

end Chars

/-! ## Lines that become comments -/

namespace Directive

variable {block : Option Addon} {line : String}

theorem comment_of_kind (h : (within block line).kind = .comment) :
    within block line = .comment line ∧ ∃ rest, line = "//" ++ rest ∨ line = "#" ++ rest := by
  cases block with
  | some a =>
    rcases within_some_cases a line with ⟨-, hd⟩ | ⟨-, hd⟩ | ⟨-, hd⟩ <;> simp [hd, kind] at h
  | none =>
    rw [within] at h ⊢
    have hspelled : (ofText line).Spelled line :=
      spelled_of_ofText fun hd => by simp [hd, kind] at h
    cases hd : ofText line with
    | comment text =>
      rw [hd] at hspelled
      exact ⟨congrArg comment hspelled.1, hspelled.2⟩
    | _ => simp [hd, kind] at h

/-- A line that starts with `#` outside addon blocks is a comment, and has a translation. -/
theorem ne_hash_of_untranslatable (h : (within block line).kind ∈ Kind.untranslatable)
    (rest : List Char) : line.toList ≠ '#' :: rest := by
  intro hline
  have hspelled : (comment line).Spelled line :=
    ⟨rfl, String.ofList rest, Or.inr (by simp [← String.toList_inj, hline])⟩
  rw [block_of_untranslatable h, within, hspelled.ofText_eq] at h
  simp [kind, Kind.untranslatable] at h

/-- Whether a line is written as a comment under the lenient policy. -/
def Commented (d : Directive) : Prop :=
  d.kind = .comment ∨ d.kind ∈ Kind.untranslatable

end Directive

theorem commentText_slashes {text rest : String} (h : text = "//" ++ rest) :
    commentText text = text := by
  simp [h, commentText]

theorem commentText_hash {text rest : String} (h : text = "#" ++ rest) :
    (commentText text).toList = "// ".toList ++ Chars.trimStart rest.toList := by
  simp [h, commentText]

namespace Script

variable {lines : List Line} {p : Line × Directive}

/-- A line that is written as a comment stands there behind printable characters. -/
theorem exists_mark_of_comment (hp : p ∈ unmarked lines) (h : p.2.Commented) :
    "//".toList <+: (translation p).toList ∧ ∃ mark, (∀ c ∈ mark, IsPrintable c) ∧
      (translation p).toList = mark ++ Chars.commented p.1.text.toList := by
  obtain ⟨-, block, hd⟩ := exists_placed_of_mem_unmarked hp
  rcases h with h | h
  · rw [hd] at h
    obtain ⟨hcomment, rest, hrest⟩ := Directive.comment_of_kind h
    have htranslation : translation p = commentText p.1.text := by
      simp [translation, hd, hcomment, Directive.toJavaScript?]
    rw [htranslation]
    rcases hrest with hrest | hrest
    · rw [commentText_slashes hrest, hrest, Chars.commented_of_ne (by simp)]
      exact ⟨by simp, [], by simp, rfl⟩
    · rw [commentText_hash hrest]
      exact ⟨by simp, "// ".toList, (by decide : Printable "// "), by simp [hrest, Chars.commented]⟩
  · have hjs := (Directive.toJavaScript?_of_untranslatable h).2
    rw [hd] at h
    rw [translation, hjs, Chars.commented_of_ne (Directive.ne_hash_of_untranslatable h)]
    exact ⟨by simp, "// error: ".toList, (by decide : Printable "// error: "), by simp⟩

end Script

/-- Behind printable characters, a text without line feeds has no line terminator if and only if it
has none of the other three. -/
theorem Chars.unterminated_iff {s mark : List Char} (hfeed : '\n' ∉ s)
    (hmark : ∀ c ∈ mark, IsPrintable c) : (∀ c ∈ mark ++ s, c ∉ lineTerminators) ↔
      '\r' ∉ s ∧ '\u2028' ∉ s ∧ '\u2029' ∉ s := by
  have hmarks : ∀ c ∈ mark, c ∉ lineTerminators := fun c hc =>
    notMem_lineTerminators_of_isPrintable (hmark c hc)
  rw [List.forall_mem_append, and_iff_right hmarks]
  constructor
  · intro h
    exact ⟨fun hs => h _ hs (by decide), fun hs => h _ hs (by decide), fun hs => h _ hs (by decide)⟩
  · rintro ⟨hreturn, hline, hparagraph⟩ c hs hc
    simp only [lineTerminators, List.mem_cons, List.not_mem_nil, or_false] at hc
    rcases hc with rfl | rfl | rfl | rfl
    · exact hfeed hs
    · exact hreturn hs
    · exact hline hs
    · exact hparagraph hs

/-- Every unit is compiled under the lenient policy. Of each line that is written as a comment, the
comment holds all up to the first line terminator in it, and the rest is read as code. So the comment
has no line terminator if and only if the line has none of the three that do not cut a unit. -/
theorem comments_contained_iff (unit text : String) :
    ∃ code, compile .lenient (Line.ofUnit unit text) = .ok code ∧
      ∀ (k : Nat) (line : Line) (d : Directive),
          (Script.unmarked (Line.ofUnit unit text))[k]? = some (line, d) → d.Commented →
        ∃ written, (code.toList.splitOn '\n')[k]? = some written ∧ "//".toList <+: written ∧
          Chars.exposed written = Chars.exposed (Chars.commented line.text.toList) ∧
          ((∀ c ∈ written, c ∉ Chars.lineTerminators) ↔
            '\r' ∉ Chars.commented line.text.toList ∧ '\u2028' ∉ Chars.commented line.text.toList ∧
              '\u2029' ∉ Chars.commented line.text.toList) := by
  have hclean : ∀ line ∈ Line.ofUnit unit text, line.text ≠ "" ∧ '\n' ∉ line.text.toList :=
    fun line hline => by
      have h := Line.clean_of_mem_ofUnit hline
      exact ⟨fun he => h.nonempty (by simp [he]), h.unbroken⟩
  refine ⟨_, compile_eq_ok_iff.2 ⟨by simp, rfl⟩, fun k line d hk hcommented => ?_⟩
  have hp : (line, d) ∈ Script.unmarked (Line.ofUnit unit text) := List.mem_of_getElem? hk
  obtain ⟨hslashes, mark, hmark, hwritten⟩ := Script.exists_mark_of_comment hp hcommented
  have hfeed : '\n' ∉ Chars.commented line.text.toList := fun hc =>
    (hclean line (Script.exists_placed_of_mem_unmarked hp).1).2 (Chars.mem_of_mem_commented hc)
  refine ⟨_, ?_, hslashes, ?_, hwritten ▸ Chars.unterminated_iff hfeed hmark⟩
  · obtain ⟨hlt, -⟩ := List.getElem?_eq_some_iff.1 hk
    rw [Script.splitOn_code hclean, List.getElem?_append_left (by simpa using hlt)]
    simp [hk]
  · rw [hwritten, Chars.exposed_append hmark]

/-- The separator behind the sign of a comment is a blank, and is not written. -/
theorem comments_contained_iff_blankSeparator :
    ∃ code, compile .lenient (Line.ofUnit "m" "f(1)\r\n#\u2028note") = .ok code ∧
      ∃ written, (code.toList.splitOn '\n')[1]? = some written ∧
        ∀ c ∈ written, c ∉ Chars.lineTerminators := by
  obtain ⟨code, hcode, hlines⟩ := comments_contained_iff "m" "f(1)\r\n#\u2028note"
  have hline : (Script.unmarked (Line.ofUnit "m" "f(1)\r\n#\u2028note"))[1]? =
      some (⟨"#\u2028note", ⟨"m", 2, 1⟩, none⟩, .comment "#\u2028note") := by rfl
  obtain ⟨written, hwritten, -, -, hiff⟩ := hlines 1 _ _ hline (Or.inl rfl)
  exact ⟨code, hcode, written, hwritten, hiff.2 (by decide)⟩

/-- A carriage return or a separator inside a line ends the comment that the line is written as, and
the call behind it is code. -/
theorem terminators_expose_code :
    compile .lenient (Line.ofUnit "main.z" "bogus\ralert(1)\n# note\u2028alert(2)") =
        .ok "// error: bogus\ralert(1)\n// note\u2028alert(2)\n" ∧
      Chars.exposed "// error: bogus\ralert(1)".toList = "\ralert(1)".toList ∧
      Chars.exposed "// note\u2028alert(2)".toList = "\u2028alert(2)".toList := by
  exact ⟨by rfl, by decide, by decide⟩

end ZScript
