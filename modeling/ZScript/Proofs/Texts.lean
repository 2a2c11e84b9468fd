import Mathlib.Data.List.DropRight
import ZScript.Line
import ZScript.Proofs.Grammar

/-!
# Reading, trimming and joining texts

`Chars.trim` leaves a text with no blank character at either end (`Chars.trimmed_trim`), and leaves
such a text as it is (`Chars.Trimmed.trim_eq`). Physical lines hold no line feed, and lines that end
in no carriage return are read back from the text in which each is ended by a line feed
(`Chars.physicalLines_flatMap`). With both, the lines of a unit are clean
(`Line.clean_of_mem_ofUnit`), and clean lines are read back from their joined text with the numbers
1, 2, 3 and so on (`Line.ofUnit_join`).

The last section follows the characters of a call : its arguments hold no others
(`Call.mem_of_mem_arguments`).
-/

namespace ZScript

/-! ## Trimming -/

theorem isUpper_iff {c : Char} : c.isUpper = true ↔ 65 ≤ c.toNat ∧ c.toNat ≤ 90 :=
  ⟨of_decide_eq_true, decide_eq_true⟩

theorem isLower_iff {c : Char} : c.isLower = true ↔ 97 ≤ c.toNat ∧ c.toNat ≤ 122 :=
  Bool.and_eq_true_iff.trans
    (and_congr ⟨of_decide_eq_true, decide_eq_true⟩ ⟨of_decide_eq_true, decide_eq_true⟩)

theorem isBlank_of_isIdentStart {c : Char} (h : isIdentStart c = true) : isBlank c = false := by
  have hrange : 65 ≤ c.toNat ∧ c.toNat ≤ 90 ∨ 97 ≤ c.toNat ∧ c.toNat ≤ 122 ∨ c.toNat = 95 ∨
      c.toNat = 36 := by
    simp only [isIdentStart, Bool.or_eq_true, beq_iff_eq] at h
    rcases h with (hletter | rfl) | rfl
    · rcases (Bool.or_eq_true c.isUpper c.isLower).mp hletter with hupper | hlower
      · exact Or.inl (isUpper_iff.1 hupper)
      · exact Or.inr (Or.inl (isLower_iff.1 hlower))
    · exact Or.inr (Or.inr (Or.inl rfl))
    · exact Or.inr (Or.inr (Or.inr rfl))
  simp only [isBlank, Bool.or_eq_false_iff, Bool.and_eq_false_iff, decide_eq_false_iff_not,
    beq_eq_false_iff_ne]
  omega

namespace Chars

/-- No blank character stands at either end. -/
def Trimmed (s : List Char) : Prop :=
  (∀ c ∈ s.head?, isBlank c = false) ∧ ∀ c ∈ s.getLast?, isBlank c = false

theorem trimStart_eq {s : List Char} (h : ∀ c ∈ s.head?, isBlank c = false) : trimStart s = s := by
  cases s with
  | nil => rfl
  | cons c s => exact List.dropWhile_cons_of_neg (by simpa using h)

theorem trimEnd_eq {s : List Char} (h : ∀ c ∈ s.getLast?, isBlank c = false) : trimEnd s = s := by
  have hrev : trimStart s.reverse = s.reverse := trimStart_eq (by simpa using h)
  rw [trimEnd, ← trimStart, hrev, List.reverse_reverse]

theorem Trimmed.trim_eq {s : List Char} (h : Trimmed s) : trim s = s := by
  rw [trim, trimStart_eq h.1, trimEnd_eq h.2]

theorem Trimmed.depth_eq {s : List Char} (h : Trimmed s) : depth s = 0 := by
  cases s with
  | nil => rfl
  | cons c s => simp [depth, List.takeWhile, h.1 c (by simp)]

theorem isBlank_head?_trimStart (s : List Char) : ∀ c ∈ (trimStart s).head?, isBlank c = false := by
  intro c hc
  have h := List.head?_dropWhile_not isBlank s
  rw [← trimStart, Option.mem_def.1 hc] at h
  simpa using h

theorem isBlank_getLast?_trimEnd (s : List Char) :
    ∀ c ∈ (trimEnd s).getLast?, isBlank c = false := by
  intro c hc
  rw [trimEnd, List.getLast?_reverse] at hc
  exact isBlank_head?_trimStart s.reverse c hc

theorem trimEnd_prefix_self (s : List Char) : trimEnd s <+: s :=
  List.rdropWhile_prefix isBlank s

theorem trimmed_trim (s : List Char) : Trimmed (trim s) := by
  refine ⟨fun c hc => ?_, isBlank_getLast?_trimEnd (trimStart s)⟩
  obtain ⟨rest, hrest⟩ := trimEnd_prefix_self (trimStart s)
  refine isBlank_head?_trimStart s c ?_
  rw [← hrest, List.head?_append, ← trim, Option.mem_def.1 hc]
  rfl

theorem trim_cons_of_isBlank {c : Char} (h : isBlank c = true) (s : List Char) :
    trim (c :: s) = trim s := by
  rw [trim, trimStart, List.dropWhile_cons_of_pos h]
  rfl

/-- Trimmed texts are got back from the texts of which all but the first have a space before them. -/
theorem map_trim_spaced {first : List Char} {ls : List (List Char)}
    (h : ∀ l ∈ first :: ls, trim l = l) :
    (first :: ls.map (' ' :: ·)).map trim = first :: ls := by
  obtain ⟨hfirst, hls⟩ := List.forall_mem_cons.1 h
  have hspaced : ∀ l ∈ ls, (trim ∘ (' ' :: ·)) l = id l := fun l hl => by
    rw [Function.comp_apply, trim_cons_of_isBlank (by decide), hls l hl, id]
  rw [List.map_cons, hfirst, List.map_map, List.map_congr_left hspaced, List.map_id]

theorem trim_ne_nil {s : List Char} {c : Char} (hc : c ∈ s) (h : isBlank c = false) :
    trim s ≠ [] := by
  intro hnil
  have hblank : ∀ d ∈ trimStart s, isBlank d = true := by
    simpa [trim, trimEnd, List.dropWhile_eq_nil_iff] using hnil
  cases hs : trimStart s with
  | nil => simp [List.dropWhile_eq_nil_iff.1 hs c hc] at h
  | cons d rest =>
    have hd : isBlank d = false := isBlank_head?_trimStart s d (by simp [hs])
    simp [hblank d (by simp [hs])] at hd

theorem mem_of_mem_trim {s : List Char} {c : Char} (h : c ∈ trim s) : c ∈ s :=
  List.dropWhile_subset isBlank ((trimEnd_prefix_self _).subset h)

/-! ## Physical lines -/

theorem notMem_of_mem_splitOn {s piece : List Char} {c : Char} (h : piece ∈ s.splitOn c) :
    c ∉ piece := by
  induction s generalizing piece with
  | nil => simp_all
  | cons a s ih =>
    rw [List.splitOn_cons_eq_if_modifyHead] at h
    split at h
    · rcases List.mem_cons.1 h with rfl | h
      · simp
      · exact ih h
    · rename_i hac
      cases hs : s.splitOn c with
      | nil => simp [hs] at h
      | cons first others =>
        rw [hs, List.modifyHead_cons] at h
        rcases List.mem_cons.1 h with rfl | h
        · have hfirst : c ∉ first := ih (by simp [hs])
          simp only [List.mem_cons, not_or]
          exact ⟨fun e => hac (by simp [e]), hfirst⟩
        · exact ih (by simp [hs, h])

theorem mem_of_mem_dropReturn {s : List Char} {c : Char} (h : c ∈ dropReturn s) : c ∈ s := by
  unfold dropReturn at h
  cases hs : before? "\r" s with
  | none => simpa [hs] using h
  | some r =>
    rw [before?_eq_some_iff.1 hs]
    exact List.mem_append_left _ (by simpa [hs] using h)

theorem dropReturn_eq {s : List Char} (h : s.getLast? ≠ some '\r') : dropReturn s = s := by
  unfold dropReturn
  cases hs : before? "\r" s with
  | none => rfl
  | some r =>
    rw [before?_eq_some_iff.1 hs] at h
    simp at h

theorem lineFeed_notMem_physicalLines {s raw : List Char} (h : raw ∈ physicalLines s) :
    '\n' ∉ raw := by
  unfold physicalLines at h
  rcases List.mem_append.1 h with h | h
  · obtain ⟨piece, hpiece, rfl⟩ := List.mem_map.1 h
    exact fun hmem => notMem_of_mem_splitOn (List.dropLast_subset _ hpiece)
      (mem_of_mem_dropReturn hmem)
  · have hlast : (s.splitOn '\n').getLast? = some raw := by simpa using (List.mem_filter.1 h).1
    exact notMem_of_mem_splitOn (List.mem_of_getLast? hlast)

theorem splitOn_flatMap {c : Char} {pieces : List (List Char)} (h : ∀ p ∈ pieces, c ∉ p) :
    (pieces.flatMap (· ++ [c])).splitOn c = pieces ++ [[]] := by
  induction pieces with
  | nil => simp
  | cons p pieces ih =>
    rw [List.flatMap_cons, List.append_assoc, List.singleton_append,
      List.splitOn_append_cons_self_of_not_mem (h p (by simp)), ih fun q hq => h q (by simp [hq])]
    rfl

/-- Lines are read back from the text in which each is ended by a line feed. -/
theorem physicalLines_flatMap {pieces : List (List Char)} (hfeed : ∀ p ∈ pieces, '\n' ∉ p)
    (hreturn : ∀ p ∈ pieces, p.getLast? ≠ some '\r') :
    physicalLines (pieces.flatMap (· ++ ['\n'])) = pieces := by
  have hmap : pieces.map dropReturn = pieces := by
    conv_rhs => rw [← List.map_id pieces]
    exact List.map_congr_left fun p hp => dropReturn_eq (hreturn p hp)
  simp [physicalLines, splitOn_flatMap hfeed, hmap]

end Chars

/-! ## Clean lines -/

namespace Line

/-- A line as it is read from a unit : some text, with no blank character at either end and no line
feed in it. -/
structure Clean (l : Line) : Prop where
  nonempty : l.text.toList ≠ []
  trimmed : Chars.Trimmed l.text.toList
  unbroken : '\n' ∉ l.text.toList

theorem clean_of_trim {l : Line} {s : List Char} (hl : l.text = String.ofList (Chars.trim s))
    (hne : Chars.trim s ≠ []) (hs : '\n' ∉ s) : l.Clean where
  nonempty := by simpa [hl] using hne
  trimmed := by simpa [hl] using Chars.trimmed_trim s
  unbroken := by simpa [hl] using fun hmem => hs (Chars.mem_of_mem_trim hmem)

theorem ofPhysical?_eq_some {unit : String} {n : Nat} {raw : List Char} {l : Line}
    (h : ofPhysical? unit n raw = some l) : Chars.trim raw ≠ [] ∧
      l = { text := String.ofList (Chars.trim raw), origin := ⟨unit, n, Chars.depth raw + 1⟩ } := by
  by_cases hne : Chars.trim raw = []
  · simp [ofPhysical?, hne] at h
  · simp only [ofPhysical?, List.isEmpty_iff, hne, if_false] at h
    exact ⟨hne, (Option.some.inj h).symm⟩

theorem clean_of_mem_ofUnit {unit text : String} {l : Line} (h : l ∈ ofUnit unit text) :
    l.Clean := by
  obtain ⟨⟨raw, n⟩, hraw, hl⟩ := List.mem_filterMap.1 h
  obtain ⟨hne, rfl⟩ := ofPhysical?_eq_some hl
  exact clean_of_trim rfl hne
    (Chars.lineFeed_notMem_physicalLines (List.fst_mem_of_mem_zipIdx hraw))

theorem Clean.ofPhysical?_eq {l : Line} (h : l.Clean) (unit : String) (n : Nat) :
    ofPhysical? unit n l.text.toList = some { text := l.text, origin := ⟨unit, n, 1⟩ } := by
  simp [ofPhysical?, h.trimmed.trim_eq, h.trimmed.depth_eq, h.nonempty]

/-- Clean lines are read back from their joined text, each on the line of its number. -/
theorem ofUnit_join (unit : String) {lines : List Line} (h : ∀ l ∈ lines, l.Clean) :
    ofUnit unit (join lines) =
      (lines.zipIdx 1).map fun p => { text := p.1.text, origin := ⟨unit, p.2, 1⟩ } := by
  have hjoin : (join lines).toList = (lines.map (·.text.toList)).flatMap (· ++ ['\n']) := by
    simp [join, String.toList_join, List.flatMap_map]
  have hphysical : Chars.physicalLines (join lines).toList = lines.map (·.text.toList) := by
    rw [hjoin]
    refine Chars.physicalLines_flatMap ?_ ?_
    · simpa using fun l hl => (h l hl).unbroken
    · simp only [List.mem_map, forall_exists_index, and_imp, forall_apply_eq_imp_iff₂]
      intro l hl hlast
      have hblank := (h l hl).trimmed.2 '\r' hlast
      exact absurd hblank (by decide)
  rw [ofUnit, hphysical, List.zipIdx_map, List.filterMap_map, ← List.filterMap_eq_map]
  refine List.filterMap_congr fun p hp => ?_
  exact (h p.1 (List.fst_mem_of_mem_zipIdx hp)).ofPhysical?_eq unit p.2

end Line

/-! ## The characters of a call -/

namespace Chars

theorem mem_of_mem_cutBefore {a c : Char} {cut : Bool × List (List Char)} {piece : List Char}
    (hp : piece ∈ (cutBefore a cut).2) (hc : c ∈ piece) :
    c = a ∨ ∃ piece' ∈ cut.2, c ∈ piece' := by
  obtain ⟨even, pieces⟩ := cut
  simp only [cutBefore] at hp
  split at hp
  · rcases List.mem_cons.1 hp with rfl | hp
    · simp at hc
    · exact Or.inr ⟨piece, hp, hc⟩
  · cases pieces with
    | nil => simp at hp
    | cons first others =>
      rcases List.mem_cons.1 hp with rfl | hp
      · rcases List.mem_cons.1 hc with rfl | hc
        · exact Or.inl rfl
        · exact Or.inr ⟨first, by simp, hc⟩
      · exact Or.inr ⟨piece, by simp [hp], hc⟩

theorem mem_of_mem_cutArguments {s piece : List Char} {c : Char} (hp : piece ∈ cutArguments s)
    (hc : c ∈ piece) : c ∈ s := by
  unfold cutArguments at hp
  induction s generalizing piece with
  | nil => simp_all
  | cons a s ih =>
    rw [List.foldr_cons] at hp
    rcases mem_of_mem_cutBefore hp hc with rfl | ⟨piece', hp', hc'⟩
    · simp
    · exact List.mem_cons_of_mem _ (ih hp' hc')

end Chars

theorem splitArguments_mem {text argument : String} {c : Char}
    (ha : argument ∈ splitArguments text) (hc : c ∈ argument.toList) : c ∈ text.toList := by
  unfold splitArguments at ha
  split at ha
  · simp at ha
  · obtain ⟨piece, hpiece, rfl⟩ := List.mem_map.1 ha
    exact Chars.mem_of_mem_cutArguments hpiece (Chars.mem_of_mem_trim (by simpa using hc))

/-- The arguments of a call hold only characters of its line. -/
theorem Call.mem_of_mem_arguments {line : String} {call : Call} {argument : String} {c : Char}
    (h : Call.parse? line = some call) (ha : argument ∈ call.arguments)
    (hc : c ∈ argument.toList) : c ∈ line.toList := by
  obtain ⟨⟨name, arguments⟩, hparts, rfl⟩ := Option.map_eq_some_iff.1 h
  obtain ⟨-, gap, -, hline⟩ := Chars.callParts?_eq_some_iff.1 hparts
  have hmem : c ∈ arguments := by simpa using splitArguments_mem ha hc
  simp [hline, hmem]

end ZScript
