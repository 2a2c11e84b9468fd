import ZScript.Script

/-!
# Streams of lines and the blocks they leave open

`Addon.afterAll` follows the addon blocks through a stream, `Addon.placed` is the stream with the
block that the lines before each line leave open, and `Script.read` is the stream with what each
line says in that block. A script is that reading of its stream (`Script.lines_ofLines`,
`Script.block_ofLines`), and the lines that give no code are known from it by their place
(`Script.mem_unrecognized_iff`).

What a line says depends on texts only, so streams of the same texts have the same code
(`compile_eq_ok_of_texts_eq`).
-/

namespace ZScript

/-! ## Open blocks -/

/-- The addon block that is open after a stream, given the one open before it. -/
def Addon.afterAll (block : Option Addon) (lines : List Line) : Option Addon :=
  lines.foldl (fun block line => Addon.after block line.text) block

@[simp] theorem Addon.afterAll_nil (block : Option Addon) : Addon.afterAll block [] = block :=
  rfl

@[simp] theorem Addon.afterAll_cons (block : Option Addon) (line : Line) (rest : List Line) :
    Addon.afterAll block (line :: rest) = Addon.afterAll (Addon.after block line.text) rest :=
  rfl

theorem Addon.afterAll_append (block : Option Addon) (xs ys : List Line) :
    Addon.afterAll block (xs ++ ys) = Addon.afterAll (Addon.afterAll block xs) ys :=
  List.foldl_append

/-- The lines of a stream, each with the addon block that is open before it. -/
def Addon.placed : Option Addon → List Line → List (Option Addon × Line)
  | _, [] => []
  | block, line :: rest => (block, line) :: placed (Addon.after block line.text) rest

theorem Addon.placed_append (block : Option Addon) (xs ys : List Line) :
    Addon.placed block (xs ++ ys) =
      Addon.placed block xs ++ Addon.placed (Addon.afterAll block xs) ys := by
  induction xs generalizing block with
  | nil => rfl
  | cons line rest ih => simp [placed, ih]

@[simp] theorem Addon.map_snd_placed (block : Option Addon) (lines : List Line) :
    (Addon.placed block lines).map Prod.snd = lines := by
  induction lines generalizing block with
  | nil => rfl
  | cons line rest ih => simp [placed, ih]

namespace Script

/-! ## Reading a stream -/

/-- The lines of a stream, each with what it says in the block that is open before it. -/
def read : Option Addon → List Line → List (Line × Directive)
  | _, [] => []
  | block, line :: rest =>
    (line, Directive.within block line.text) :: read (Addon.after block line.text) rest

theorem read_eq_map_placed (block : Option Addon) (lines : List Line) : read block lines =
    (Addon.placed block lines).map fun p => (p.2, Directive.within p.1 p.2.text) := by
  induction lines generalizing block with
  | nil => rfl
  | cons line rest ih => simp [read, Addon.placed, ih]

@[simp] theorem length_read (block : Option Addon) (lines : List Line) :
    (read block lines).length = lines.length := by
  induction lines generalizing block with
  | nil => rfl
  | cons line rest ih => simp [read, ih]

theorem getElem_read (block : Option Addon) (lines : List Line) (i : Nat) (hi : i < lines.length)
    (hi' : i < (read block lines).length) : (read block lines)[i] =
      (lines[i], Directive.within (Addon.afterAll block (lines.take i)) lines[i].text) := by
  induction lines generalizing block i with
  | nil => simp at hi
  | cons line rest ih =>
    cases i with
    | zero => rfl
    | succ i =>
      simp only [read, List.getElem_cons_succ, List.take_succ_cons, Addon.afterAll_cons]
      exact ih _ i (by simpa using hi) (by simpa using hi)

theorem foldl_push (lines : List Line) (s : Script) :
    (lines.foldl push s).lines.toList = s.lines.toList ++ read s.block lines ∧
      (lines.foldl push s).block = Addon.afterAll s.block lines := by
  induction lines generalizing s with
  | nil => simp [read]
  | cons line rest ih =>
    obtain ⟨hlines, hblock⟩ := ih (s.push line)
    rw [List.foldl_cons, hlines, hblock]
    exact ⟨by simp [push, read, Addon.after], rfl⟩

theorem lines_ofLines (lines : List Line) : (ofLines lines).lines.toList = read none lines :=
  (foldl_push lines {}).1

theorem block_ofLines (lines : List Line) : (ofLines lines).block = Addon.afterAll none lines :=
  (foldl_push lines {}).2

/-- A script has each line of its stream in its place, with what it says in the block that the lines
before it leave open. -/
theorem getElem?_lines_ofLines {lines : List Line} {i : Nat} {line : Line} {d : Directive} :
    (ofLines lines).lines[i]? = some (line, d) ↔ lines[i]? = some line ∧
      d = Directive.within (Addon.afterAll none (lines.take i)) line.text := by
  rw [← Array.getElem?_toList, lines_ofLines]
  by_cases hi : i < lines.length
  · have hi' : i < (read none lines).length := by simpa using hi
    rw [List.getElem?_eq_getElem hi', List.getElem?_eq_getElem hi, getElem_read none lines i hi]
    grind
  · simp [hi]

/-- A line is unrecognized if what it says at its place ought to give code and does not. -/
theorem mem_unrecognized_iff {lines : List Line} {u : Unrecognized} :
    u ∈ (ofLines lines).unrecognized ↔ ∃ i, ∃ hi : i < lines.length,
      (Directive.within (Addon.afterAll none (lines.take i)) lines[i].text).lacksCode = true ∧
        u = ⟨lines[i], i + 1,
          (Directive.within (Addon.afterAll none (lines.take i)) lines[i].text).kind⟩ := by
  simp only [unrecognized, lines_ofLines, List.mem_filterMap, Prod.exists,
    Option.ite_none_right_eq_some, Option.some.injEq,
    List.mk_mem_zipIdx_iff_le_and_getElem?_sub]
  constructor
  · rintro ⟨line, d, n, ⟨hn, hget⟩, hcode, rfl⟩
    obtain ⟨hi', hp⟩ := List.getElem?_eq_some_iff.1 hget
    have hi : n - 1 < lines.length := by simpa using hi'
    rw [getElem_read none lines (n - 1) hi] at hp
    obtain ⟨rfl, rfl⟩ := Prod.mk.inj hp
    exact ⟨n - 1, hi, hcode, by rw [Nat.sub_add_cancel hn]⟩
  · rintro ⟨i, hi, hcode, rfl⟩
    have hi' : i < (read none lines).length := by simpa using hi
    refine ⟨_, _, i + 1, ⟨by omega, ?_⟩, hcode, rfl⟩
    rw [Nat.add_sub_cancel, List.getElem?_eq_getElem hi', getElem_read none lines i hi]

/-! ## Streams of the same texts -/

/-- What the lines of a stream say depends on their texts only. -/
theorem read_eq_of_texts_eq {lines lines' : List Line}
    (h : lines.map Line.text = lines'.map Line.text) (block : Option Addon) :
    (read block lines).map (fun p => (p.1.text, p.2)) =
      (read block lines').map fun p => (p.1.text, p.2) := by
  induction lines generalizing lines' block with
  | nil =>
    obtain rfl : lines' = [] := by simpa using h.symm
    rfl
  | cons line rest ih =>
    cases lines' with
    | nil => simp at h
    | cons line' rest' =>
      obtain ⟨htext, hrest⟩ := List.cons.inj h
      simp only [read, List.map_cons, htext, ih hrest]

theorem codeLines_ofLines (lines : List Line) : (ofLines lines).codeLines =
    ((read none lines).map fun p => (p.1.text, p.2)).filterMap fun p =>
      if p.2.isMark then none else some (p.2.toJavaScript?.getD ("// error: " ++ p.1)) := by
  rw [codeLines, lines_ofLines, List.filterMap_map]
  rfl

theorem unrecognized_eq_nil_iff (lines : List Line) : (ofLines lines).unrecognized = [] ↔
    ∀ p ∈ (read none lines).map fun p => (p.1.text, p.2), p.2.lacksCode = false := by
  constructor
  · intro h p hp
    obtain ⟨q, hq, rfl⟩ := List.mem_map.1 hp
    obtain ⟨i, hi', rfl⟩ := List.getElem_of_mem hq
    have hi : i < lines.length := by simpa using hi'
    rw [getElem_read none lines i hi]
    cases hcode :
      (Directive.within (Addon.afterAll none (lines.take i)) lines[i].text).lacksCode with
    | false => rfl
    | true =>
      have hmem := mem_unrecognized_iff.2 ⟨i, hi, hcode, rfl⟩
      simp [h] at hmem
  · intro h
    refine List.eq_nil_iff_forall_not_mem.2 fun u hu => ?_
    obtain ⟨i, hi, hcode, -⟩ := mem_unrecognized_iff.1 hu
    have hi' : i < (read none lines).length := by simpa using hi
    have hcode' := h _ (List.mem_map_of_mem (List.getElem_mem hi'))
    rw [getElem_read none lines i hi] at hcode'
    simp [hcode] at hcode'

end Script

/-- Compiling gives the code of the script, unless the policy is strict and a line gives none. -/
theorem compile_eq_ok_iff {policy : Policy} {lines : List Line} {code : String} :
    compile policy lines = .ok code ↔
      (policy = .strict → (Script.ofLines lines).unrecognized = []) ∧
        (Script.ofLines lines).code = code := by
  unfold compile Script.compile
  cases policy <;> cases (Script.ofLines lines).unrecognized <;> simp

theorem mem_unrecognized_of_compile_eq_error {policy : Policy} {lines : List Line}
    {u : Unrecognized} (h : compile policy lines = .error u) :
    u ∈ (Script.ofLines lines).unrecognized := by
  unfold compile Script.compile at h
  split at h
  · rename_i hu
    obtain rfl := Except.error.inj h
    simp [hu]
  · cases h

/-- Streams of the same texts have the same code. -/
theorem compile_eq_ok_of_texts_eq {policy : Policy} {lines lines' : List Line} {code : String}
    (h : lines.map Line.text = lines'.map Line.text) (hc : compile policy lines = .ok code) :
    compile policy lines' = .ok code := by
  obtain ⟨hstrict, rfl⟩ := compile_eq_ok_iff.1 hc
  have hread := Script.read_eq_of_texts_eq h none
  refine compile_eq_ok_iff.2 ⟨fun hp => ?_, ?_⟩
  · rw [Script.unrecognized_eq_nil_iff, ← hread, ← Script.unrecognized_eq_nil_iff]
    exact hstrict hp
  · rw [Script.code, Script.code, Script.codeLines_ofLines, Script.codeLines_ofLines, hread]

end ZScript
