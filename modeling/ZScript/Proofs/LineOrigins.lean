import Mathlib.Data.List.DropRight
import Mathlib.Data.List.Nodup
import ZScript.Proofs.Texts

/-!
# Where the lines of a unit stand

A physical line of a text is a stretch between two line breaks, or between one and an end of the text,
and its number is one more than the number of line feeds before it (`Chars.LineAt`). The lines that a
text is cut into are just these, in the order of their numbers (`Chars.getElem?_physicalLines`) : both
are determined by what stands before the first line feed and by the lines of what follows it.

A line of a unit is then a physical line that is not blank throughout. Trimming takes off blanks on the
left, the number of which gives the column, and blanks on the right (`Line.Located`). The numbers of
the lines are those of the text, so they increase, and no line is left out or comes twice.
-/

namespace ZScript

namespace Chars

/-! ## Physical lines by their numbers -/

/-- A physical line may end before the rest of its text : at the end of the text, unless it is empty,
or before a line break. A carriage return directly before a line feed belongs to the break. -/
def EndsBefore (raw after : List Char) : Prop :=
  (after = [] ∧ raw ≠ []) ∨ (∃ rest, after = '\r' :: '\n' :: rest) ∨
    (raw.getLast? ≠ some '\r' ∧ ∃ rest, after = '\n' :: rest)

/-- `raw` is the physical line of number `n` of a text, with `n - 1` line feeds before it. It starts
the text or stands directly behind a line feed. -/
def LineAt (s : List Char) (n : Nat) (raw : List Char) : Prop :=
  ∃ before after, s = before ++ raw ++ after ∧ (before = [] ∨ ∃ b, before = b ++ ['\n']) ∧
    before.count '\n' + 1 = n ∧ '\n' ∉ raw ∧ EndsBefore raw after

variable {s p rest raw : List Char} {n : Nat}

theorem physicalLines_of_notMem (h : '\n' ∉ s) (hne : s ≠ []) : physicalLines s = [s] := by
  have hsplit : s.splitOn '\n' = [s] := List.splitOn_eq_singleton h
  simp [physicalLines, hsplit, hne]

theorem physicalLines_append (h : '\n' ∉ p) (rest : List Char) :
    physicalLines (p ++ '\n' :: rest) = dropReturn p :: physicalLines rest := by
  have hne : rest.splitOn '\n' ≠ [] := List.splitOn_ne_nil _ _
  rw [physicalLines, List.splitOn_append_cons_self_of_not_mem h, List.dropLast_cons_of_ne_nil hne,
    List.getLast?_cons_of_ne_nil hne]
  rfl

/-- Of two line feeds in a text, either both are the first one or the other stands behind it. -/
theorem append_feed_cases {b u : List Char} (hp : '\n' ∉ p)
    (h : b ++ '\n' :: u = p ++ '\n' :: rest) :
    (b = p ∧ u = rest) ∨ ∃ b', b = p ++ '\n' :: b' ∧ rest = b' ++ '\n' :: u := by
  rcases List.append_eq_append_iff.1 h with ⟨as, rfl, has⟩ | ⟨bs, rfl, hbs⟩
  · cases as with
    | nil => exact Or.inl ⟨by simp, List.tail_eq_of_cons_eq has⟩
    | cons a as =>
      obtain rfl : '\n' = a := List.head_eq_of_cons_eq has
      simp at hp
  · cases bs with
    | nil => exact Or.inl ⟨by simp, (List.tail_eq_of_cons_eq hbs).symm⟩
    | cons a bs =>
      obtain ⟨rfl, htail⟩ := List.cons.inj hbs
      exact Or.inr ⟨bs, rfl, htail⟩

theorem dropReturn_concat (s : List Char) : dropReturn (s ++ ['\r']) = s := by
  have hs : before? "\r" (s ++ ['\r']) = some s := before?_eq_some_iff.2 rfl
  simp [dropReturn, hs]

/-- The stretch before a line feed, less a carriage return at its end, is the physical line there. -/
theorem endsBefore_iff (hp : '\n' ∉ p) (rest : List Char) :
    (∃ after, p ++ '\n' :: rest = raw ++ after ∧ '\n' ∉ raw ∧ EndsBefore raw after) ↔
      raw = dropReturn p := by
  constructor
  · rintro ⟨after, heq, hraw, ⟨rfl, -⟩ | ⟨rest', rfl⟩ | ⟨hlast, rest', rfl⟩⟩
    · rw [List.append_nil] at heq
      simp [← heq] at hraw
    · have heq' : (raw ++ ['\r']) ++ '\n' :: rest' = p ++ '\n' :: rest := by simp [heq]
      rcases append_feed_cases hp heq' with ⟨rfl, -⟩ | ⟨b, hb, -⟩
      · rw [dropReturn_concat]
      · have hmem : '\n' ∈ raw ++ ['\r'] := by simp [hb]
        simp [hraw] at hmem
    · rcases append_feed_cases hp heq.symm with ⟨rfl, -⟩ | ⟨b, rfl, -⟩
      · rw [dropReturn_eq hlast]
      · simp at hraw
  · rintro rfl
    by_cases hlast : p.getLast? = some '\r'
    · obtain ⟨q, rfl⟩ := List.getLast?_eq_some_iff.1 hlast
      rw [dropReturn_concat]
      have hq : '\n' ∉ q := fun hmem => hp (by simp [hmem])
      exact ⟨'\r' :: '\n' :: rest, by simp, hq, Or.inr (Or.inl ⟨rest, rfl⟩)⟩
    · rw [dropReturn_eq hlast]
      exact ⟨'\n' :: rest, rfl, hp, Or.inr (Or.inr ⟨hlast, rest, rfl⟩)⟩

theorem LineAt.pos (h : LineAt s n raw) : 0 < n := by
  obtain ⟨before, after, -, -, hn, -⟩ := h
  omega

theorem lineAt_iff_of_notMem (h : '\n' ∉ s) : LineAt s n raw ↔ n = 1 ∧ raw = s ∧ s ≠ [] := by
  constructor
  · rintro ⟨before, after, rfl, hbefore, rfl, -, hend⟩
    rcases hbefore with rfl | ⟨b, rfl⟩
    · rcases hend with ⟨rfl, hne⟩ | ⟨rest, rfl⟩ | ⟨-, rest, rfl⟩
      · simpa using hne
      · simp at h
      · simp at h
    · simp at h
  · rintro ⟨rfl, rfl, hne⟩
    exact ⟨[], [], by simp, Or.inl rfl, rfl, h, Or.inl ⟨rfl, hne⟩⟩

/-- The lines of a text are the one before its first line feed and those of what follows. -/
theorem lineAt_append_iff (hp : '\n' ∉ p) : LineAt (p ++ '\n' :: rest) n raw ↔
    (n = 1 ∧ raw = dropReturn p) ∨ ∃ m, n = m + 1 ∧ LineAt rest m raw := by
  rw [← endsBefore_iff hp rest]
  constructor
  · rintro ⟨before, after, hs, rfl | ⟨b, rfl⟩, rfl, hraw, hend⟩
    · exact Or.inl ⟨rfl, after, by simpa using hs, hraw, hend⟩
    · have heq : b ++ '\n' :: (raw ++ after) = p ++ '\n' :: rest := by simp [hs]
      rcases append_feed_cases hp heq with ⟨rfl, rfl⟩ | ⟨b', rfl, rfl⟩
      · exact Or.inr ⟨1, by simp [List.count_eq_zero.2 hp],
          [], after, by simp, Or.inl rfl, rfl, hraw, hend⟩
      · exact Or.inr ⟨b'.count '\n' + 1 + 1, by simp [List.count_eq_zero.2 hp],
          b' ++ ['\n'], after, by simp, Or.inr ⟨b', rfl⟩, by simp, hraw, hend⟩
  · rintro (⟨rfl, after, hs, hraw, hend⟩ | ⟨m, rfl, before, after, rfl, hbefore, rfl, hraw, hend⟩)
    · exact ⟨[], after, by simpa using hs, Or.inl rfl, rfl, hraw, hend⟩
    · refine ⟨p ++ '\n' :: before, after, by simp, Or.inr ?_, ?_, hraw, hend⟩
      · rcases hbefore with rfl | ⟨b, rfl⟩
        · exact ⟨p, rfl⟩
        · exact ⟨p ++ '\n' :: b, by simp⟩
      · simp [List.count_eq_zero.2 hp]

/-- A text is cut into its physical lines, in the order of their numbers. -/
theorem getElem?_physicalLines (s : List Char) (n : Nat) (raw : List Char) :
    (physicalLines s)[n]? = some raw ↔ LineAt s (n + 1) raw := by
  by_cases hfeed : '\n' ∈ s
  · obtain ⟨p, rest, hs, hp⟩ := List.eq_append_cons_of_mem hfeed
    rw [hs, physicalLines_append hp, lineAt_append_iff hp]
    cases n with
    | zero =>
      have hnone : ¬LineAt rest 0 raw := fun h => Nat.lt_irrefl 0 h.pos
      simp [hnone, eq_comm]
    | succ n => simp [getElem?_physicalLines rest n raw]
  · rw [lineAt_iff_of_notMem hfeed]
    by_cases hne : s = []
    · simp [hne, physicalLines]
    · rw [physicalLines_of_notMem hfeed hne]
      cases n <;> simp [hne, eq_comm]
termination_by s.length
decreasing_by
  rw [hs, List.length_append, List.length_cons]
  omega

theorem LineAt.unique {raw' : List Char} (h : LineAt s n raw) (h' : LineAt s n raw') :
    raw = raw' := by
  obtain ⟨m, rfl⟩ : ∃ m, n = m + 1 := ⟨n - 1, (Nat.sub_add_cancel h.pos).symm⟩
  rw [← getElem?_physicalLines] at h h'
  exact Option.some.inj (h.symm.trans h')

/-! ## Blanks around a text -/

/-- A text is what trimming leaves of it, with blanks on both sides. -/
theorem exists_blanks_around (s : List Char) : ∃ lead trail, s = lead ++ trim s ++ trail ∧
    lead.length = depth s ∧ ∀ c ∈ lead ++ trail, isBlank c = true := by
  refine ⟨s.takeWhile isBlank, (trimStart s).rtakeWhile isBlank, ?_, rfl, ?_⟩
  · calc s = s.takeWhile isBlank ++ trimStart s := List.takeWhile_append_dropWhile.symm
      _ = s.takeWhile isBlank ++ (trim s ++ (trimStart s).rtakeWhile isBlank) :=
        congrArg _ List.rdropWhile_append_rtakeWhile.symm
      _ = _ := (List.append_assoc ..).symm
  · intro c hc
    rcases List.mem_append.1 hc with hc | hc
    · exact List.mem_takeWhile_imp hc
    · exact List.mem_rtakeWhile_imp hc

end Chars

/-! ## The lines of a unit -/

namespace Line

/-- A line stands where its origin says : the physical line of its number has as many blanks before
the text as the column tells, and only blanks behind it. -/
structure Located (unit : String) (source : List Char) (l : Line) : Prop where
  unit_eq : l.origin.unit = unit
  column_pos : 0 < l.origin.column
  nonempty : l.text.toList ≠ []
  trimmed : Chars.Trimmed l.text.toList
  around : ∃ lead trail,
    (∀ raw, Chars.LineAt source l.origin.line raw ↔ raw = lead ++ l.text.toList ++ trail) ∧
      lead.length = l.origin.column - 1 ∧ ∀ c ∈ lead ++ trail, isBlank c = true

variable {unit text : String} {l : Line} {n : Nat} {raw : List Char}

theorem mem_ofUnit_iff : l ∈ ofUnit unit text ↔
    ∃ n raw, Chars.LineAt text.toList n raw ∧ ofPhysical? unit n raw = some l := by
  simp only [ofUnit, List.mem_filterMap, Prod.exists, List.mk_mem_zipIdx_iff_le_and_getElem?_sub]
  constructor
  · rintro ⟨raw, n, ⟨hn, hraw⟩, hl⟩
    rw [Chars.getElem?_physicalLines, Nat.sub_add_cancel hn] at hraw
    exact ⟨n, raw, hraw, hl⟩
  · rintro ⟨n, raw, hraw, hl⟩
    refine ⟨raw, n, ⟨hraw.pos, ?_⟩, hl⟩
    rwa [Chars.getElem?_physicalLines, Nat.sub_add_cancel hraw.pos]

theorem located_of_mem_ofUnit (h : l ∈ ofUnit unit text) : l.Located unit text.toList := by
  obtain ⟨n, raw, hraw, hl⟩ := mem_ofUnit_iff.1 h
  obtain ⟨hne, rfl⟩ := ofPhysical?_eq_some hl
  obtain ⟨lead, trail, heq, hlead, hblank⟩ := Chars.exists_blanks_around raw
  have hclean := clean_of_mem_ofUnit h
  refine ⟨rfl, Nat.succ_pos _, hclean.nonempty, hclean.trimmed, lead, trail, fun raw' => ?_,
    by simp [hlead], hblank⟩
  rw [String.toList_ofList, ← heq]
  exact ⟨fun h' => h'.unique hraw, fun h' => h' ▸ hraw⟩

theorem ofPhysical?_line (h : ofPhysical? unit n raw = some l) : l.origin.line = n := by
  obtain ⟨-, rfl⟩ := ofPhysical?_eq_some h
  rfl

theorem pairwise_line_ofUnit (unit text : String) :
    ((ofUnit unit text).map (·.origin.line)).Pairwise (· < ·) := by
  rw [List.pairwise_map, ofUnit, List.pairwise_filterMap]
  have hnumbers : ((Chars.physicalLines text.toList).zipIdx 1).Pairwise fun p q => p.2 < q.2 := by
    rw [← List.pairwise_map, List.zipIdx_map_snd]
    exact List.pairwise_lt_range' ..
  refine hnumbers.imp fun hlt l hl l' hl' => ?_
  rwa [ofPhysical?_line hl, ofPhysical?_line hl']

/-- A physical line that is not blank throughout is read, and only once. -/
theorem count_line_ofUnit (hraw : Chars.LineAt text.toList n raw)
    (hshown : ∃ c ∈ raw, isBlank c = false) :
    ((ofUnit unit text).map (·.origin.line)).count n = 1 := by
  obtain ⟨c, hc, hblank⟩ := hshown
  have hne : Chars.trim raw ≠ [] := Chars.trim_ne_nil hc hblank
  have hl : ofPhysical? unit n raw =
      some { text := String.ofList (Chars.trim raw), origin := ⟨unit, n, Chars.depth raw + 1⟩ } := by
    simp [ofPhysical?, hne]
  refine List.count_eq_one_of_mem ((pairwise_line_ofUnit unit text).imp Nat.ne_of_lt) ?_
  exact List.mem_map.2 ⟨_, mem_ofUnit_iff.2 ⟨n, raw, hraw, hl⟩, rfl⟩

end Line

/-- The lines of a unit have increasing numbers. Every physical line that is not blank throughout is
read just once, and each line read stands where its origin says. Clean lines are read back from their
joined text, in their order, with the numbers from 1 on and in the first column. -/
theorem lines_located_and_read_back (unit text : String) :
    ((Line.ofUnit unit text).map (·.origin.line)).Pairwise (· < ·) ∧
    (∀ n raw, Chars.LineAt text.toList n raw → (∃ c ∈ raw, isBlank c = false) →
      ((Line.ofUnit unit text).map (·.origin.line)).count n = 1) ∧
    (∀ l ∈ Line.ofUnit unit text, l.Located unit text.toList) ∧
    ∀ lines : List Line, (∀ l ∈ lines, l.Clean) → Line.ofUnit unit (Line.join lines) =
      (lines.zipIdx 1).map fun p => { text := p.1.text, origin := ⟨unit, p.2, 1⟩ } :=
  ⟨Line.pairwise_line_ofUnit unit text, fun _ _ => Line.count_line_ofUnit,
    fun _ => Line.located_of_mem_ofUnit, fun _ => Line.ofUnit_join unit⟩

/-- A unit with indented and blank lines, and a carriage return. -/
def indentedUnit : String :=
  "  <end^if>\n\n\t<else^set>  \r\n   \n"

theorem lines_located_and_read_back_indentedUnit :
    Chars.LineAt indentedUnit.toList 3 "\t<else^set>  ".toList ∧
    ((Line.ofUnit "m" indentedUnit).map (·.origin.line)).count 3 = 1 ∧
    Line.Located "m" indentedUnit.toList ⟨"<else^set>", ⟨"m", 3, 2⟩, none⟩ ∧
    Line.ofUnit "n" (Line.join (Line.ofUnit "m" indentedUnit)) =
      [⟨"<end^if>", ⟨"n", 1, 1⟩, none⟩, ⟨"<else^set>", ⟨"n", 2, 1⟩, none⟩] := by
  obtain ⟨-, hcount, hlocated, -⟩ := lines_located_and_read_back "m" indentedUnit
  obtain ⟨-, -, -, hback⟩ := lines_located_and_read_back "n" indentedUnit
  have hlines : Line.ofUnit "m" indentedUnit =
      [⟨"<end^if>", ⟨"m", 1, 3⟩, none⟩, ⟨"<else^set>", ⟨"m", 3, 2⟩, none⟩] := by decide
  have hline : Chars.LineAt indentedUnit.toList 3 "\t<else^set>  ".toList :=
    (Chars.getElem?_physicalLines _ 2 _).1 (by decide)
  refine ⟨hline, hcount 3 _ hline ⟨'<', by decide, by decide⟩, hlocated _ (by simp [hlines]), ?_⟩
  rw [hback _ fun l => Line.clean_of_mem_ofUnit, hlines]
  rfl

end ZScript
