import ZScript.Proofs.Expansion
import ZScript.Proofs.Substitution
import ZScript.Proofs.Texts

/-!
# What an addon block that a macro opens shields

A pass follows the addon blocks of the lines that it puts out. Behind the first lines of a stream it
therefore goes on in the block that it leaves open there itself, and not in one that a later pass
will open : the passes over a stream are the passes over its first lines, and behind them passes in
the blocks that those leave open one after the other (`MacroTable.afterPasses_append`,
`MacroTable.openBlocks`).

Passes that start in a block let the lines be up to its exit mark (`MacroTable.passesIn_of_open`).
So a block that only pass `k + 1` opens shields the lines behind it from then on, in the form that
`k` passes gave them : a block that the first pass opens shields them as they are, and a call that
never leaves a block open can be put into a macro of its own (`opened_block_shields`). Of a block
that is opened two calls deep neither is true (`nested_opening_exposes_calls`).
-/

namespace ZScript

namespace MacroTable

variable {table : MacroTable}

/-! ## Passes over two parts of a stream -/

/-- The blocks that passes over a stream leave open behind it, one for each pass. -/
def openBlocks (table : MacroTable) : Nat → List Line → List (Option Addon)
  | 0, _ => []
  | n + 1, lines =>
    Addon.afterAll none (table.onePass none lines) :: openBlocks table n (table.onePass none lines)

/-- A stream after passes that start in the given blocks. -/
def passesIn (table : MacroTable) : List (Option Addon) → List Line → List Line
  | [], lines => lines
  | block :: blocks, lines => passesIn table blocks (table.onePass block lines)

theorem onePass_append (block : Option Addon) (xs ys : List Line) :
    table.onePass block (xs ++ ys) = table.onePass block xs ++
      table.onePass (Addon.afterAll block (table.onePass block xs)) ys := by
  induction xs generalizing block with
  | nil => rfl
  | cons line rest ih =>
    cases hcall : table.called? block line with
    | none => simp [onePass, hcall, ih]
    | some c => simp [onePass, hcall, ih, Addon.afterAll_append]

/-- Passes over a stream in two parts : those over the second part start in the blocks that those
over the first leave open. -/
theorem afterPasses_append (n : Nat) (xs ys : List Line) : table.afterPasses n (xs ++ ys) =
    table.afterPasses n xs ++ table.passesIn (table.openBlocks n xs) ys := by
  induction n generalizing xs ys with
  | zero => rfl
  | succ n ih => rw [afterPasses, onePass_append, ih, afterPasses, openBlocks, passesIn]

theorem length_openBlocks (n : Nat) (lines : List Line) :
    (table.openBlocks n lines).length = n := by
  induction n generalizing lines with
  | zero => rfl
  | succ n ih => rw [openBlocks, List.length_cons, ih]

theorem mem_openBlocks_succ {n : Nat} {lines : List Line} {block : Option Addon}
    (h : block ∈ table.openBlocks n lines) : block ∈ table.openBlocks (n + 1) lines := by
  induction n generalizing lines with
  | zero => simp [openBlocks] at h
  | succ n ih =>
    rcases List.mem_cons.1 h with rfl | h
    · simp [openBlocks]
    · exact List.mem_cons_of_mem _ (ih h)

theorem passesIn_append (blocks blocks' : List (Option Addon)) (lines : List Line) :
    table.passesIn (blocks ++ blocks') lines =
      table.passesIn blocks' (table.passesIn blocks lines) := by
  induction blocks generalizing lines with
  | nil => rfl
  | cons block blocks ih => exact ih _

/-- Passes that start in no block are those over a stream of its own. -/
theorem passesIn_of_none {blocks : List (Option Addon)} (h : ∀ block ∈ blocks, block = none)
    (lines : List Line) : table.passesIn blocks lines = table.afterPasses blocks.length lines := by
  induction blocks generalizing lines with
  | nil => rfl
  | cons block blocks ih =>
    obtain ⟨rfl, hblocks⟩ := List.forall_mem_cons.1 h
    exact ih hblocks _

/-- Parts of a stream of which the first never leaves a block open are passed over each on its own.
-/
theorem afterPasses_append_of_closed {n : Nat} {xs : List Line}
    (h : ∀ block ∈ table.openBlocks n xs, block = none) (ys : List Line) :
    table.afterPasses n (xs ++ ys) = table.afterPasses n xs ++ table.afterPasses n ys := by
  rw [afterPasses_append, passesIn_of_none h, length_openBlocks]

theorem afterAll_afterPasses {n : Nat} {lines : List Line} {block : Option Addon}
    (hlines : Addon.afterAll none lines = block)
    (h : ∀ b ∈ table.openBlocks n lines, b = block) :
    Addon.afterAll none (table.afterPasses n lines) = block := by
  induction n generalizing lines with
  | zero => exact hlines
  | succ n ih =>
    obtain ⟨hfirst, hlater⟩ := List.forall_mem_cons.1 h
    exact ih hfirst hlater

/-! ## Lines behind an open block -/

theorem onePass_of_open {a : Addon} {lines : List Line}
    (h : ∀ line ∈ lines, ¬a.exitMark.toList <+: line.text.toList) (rest : List Line) :
    table.onePass (some a) (lines ++ rest) = lines ++ table.onePass (some a) rest := by
  induction lines with
  | nil => rfl
  | cons line lines ih =>
    obtain ⟨hline, hlines⟩ := List.forall_mem_cons.1 h
    simp only [List.cons_append, onePass, called?, Addon.after_of_not_exit hline, ih hlines]

/-- Passes that all start in blocks let the lines be up to an exit mark of one of these. -/
theorem passesIn_of_open {addons : List Addon} {lines : List Line}
    (h : ∀ a ∈ addons, ∀ line ∈ lines, ¬a.exitMark.toList <+: line.text.toList)
    (rest : List Line) :
    table.passesIn (addons.map some) (lines ++ rest) =
      lines ++ table.passesIn (addons.map some) rest := by
  induction addons generalizing rest with
  | nil => rfl
  | cons a addons ih =>
    obtain ⟨hfirst, hlater⟩ := List.forall_mem_cons.1 h
    rw [List.map_cons, passesIn, onePass_of_open hfirst, ih hlater, passesIn]

/-! ## Streams of the same texts -/

theorem afterAll_eq_foldl_texts (block : Option Addon) (lines : List Line) :
    Addon.afterAll block lines = (lines.map Line.text).foldl Addon.after block := by
  rw [Addon.afterAll, List.foldl_map]

theorem called?_eq_of_text_eq {line line' : Line} (h : line.text = line'.text)
    (block : Option Addon) : table.called? block line = table.called? block line' := by
  cases block with
  | some a => rfl
  | none => rw [called?, called?, h]

theorem texts_linesAt (m : Macro) (line : Line) (arguments : List String) :
    (m.linesAt line arguments).map Line.text =
      (m.body.map fun template => trim (instantiate template m.parameters arguments)).filter
        (!·.isEmpty) := by
  rw [Macro.linesAt]
  induction m.body with
  | nil => rfl
  | cons template body ih =>
    rw [List.filterMap_cons, List.map_cons, List.filter_cons, ← ih]
    generalize trim (instantiate template m.parameters arguments) = text
    by_cases htext : text.isEmpty = true <;> simp [htext]

/-- The texts that a pass puts out depend on the texts of the stream only. -/
theorem texts_onePass {lines lines' : List Line} (h : lines.map Line.text = lines'.map Line.text)
    (block : Option Addon) :
    (table.onePass block lines).map Line.text = (table.onePass block lines').map Line.text := by
  induction lines generalizing lines' block with
  | nil =>
    obtain rfl : lines' = [] := by simpa using h.symm
    rfl
  | cons line rest ih =>
    cases lines' with
    | nil => simp at h
    | cons line' rest' =>
      obtain ⟨htext, hrest⟩ := List.cons.inj h
      have hsame : table.called? block line = table.called? block line' :=
        called?_eq_of_text_eq htext block
      cases hcall : table.called? block line with
      | none => simp [onePass, hcall, ← hsame, htext, ih hrest]
      | some c =>
        obtain ⟨m, arguments⟩ := c
        have hlines : (m.linesAt line arguments).map Line.text =
            (m.linesAt line' arguments).map Line.text := by
          rw [texts_linesAt, texts_linesAt]
        simp only [onePass, hcall, ← hsame, List.map_append, hlines, afterAll_eq_foldl_texts,
          ih hrest]

theorem texts_afterPasses {lines lines' : List Line}
    (h : lines.map Line.text = lines'.map Line.text) (n : Nat) :
    (table.afterPasses n lines).map Line.text = (table.afterPasses n lines').map Line.text := by
  induction n generalizing lines lines' with
  | zero => exact h
  | succ n ih => exact ih (texts_onePass h none)

theorem openBlocks_eq_of_texts_eq {lines lines' : List Line}
    (h : lines.map Line.text = lines'.map Line.text) (n : Nat) :
    table.openBlocks n lines = table.openBlocks n lines' := by
  induction n generalizing lines lines' with
  | zero => rfl
  | succ n ih =>
    have hpass : (table.onePass none lines).map Line.text =
        (table.onePass none lines').map Line.text := texts_onePass h none
    rw [openBlocks, openBlocks, ih hpass, afterAll_eq_foldl_texts, afterAll_eq_foldl_texts, hpass]

end MacroTable

/-! ## Wrapped calls -/

/-- A call has no blank character at either end. -/
theorem Call.trimmed_of_parse? {line : String} {call : Call} (h : Call.parse? line = some call) :
    Chars.Trimmed line.toList := by
  obtain ⟨⟨name, arguments⟩, hparts, -⟩ := Option.map_eq_some_iff.1 h
  obtain ⟨⟨c, rest, hname, hc, -⟩, gap, -, hline⟩ := Chars.callParts?_eq_some_iff.1 hparts
  rw [hline, String.toList_append, hname]
  constructor
  · simpa using isBlank_of_isIdentStart hc
  · rw [← List.cons_append, ← List.append_assoc, List.getLast?_concat]
    simp only [Option.mem_def, Option.some.injEq, forall_eq']
    decide

theorem instantiate_nil (template : String) (arguments : List String) :
    instantiate template [] arguments = template := by
  have hsame : ∀ s : List Char, Chars.substitute [] 0 s = s := by
    intro s
    induction s with
    | nil => rfl
    | cons c s ih => simp [Chars.substitute, Chars.longest, ih]
  rw [instantiate, Chars.bindings, hsame, String.ofList_toList]

namespace MacroTable

variable {table : MacroTable} {call wrapper : Line}

/-- A line calls a macro without parameters whose body is just another line, which is a call. -/
def Wraps (table : MacroTable) (wrapper call : Line) : Prop :=
  (table.called? none call).isSome ∧ ∃ w arguments,
    table.called? none wrapper = some (w, arguments) ∧ w.parameters = [] ∧ w.body = [call.text]

/-- One pass takes the wrapper off a call. -/
theorem Wraps.texts_onePass (h : table.Wraps wrapper call) :
    (table.onePass none [wrapper]).map Line.text = [call].map Line.text := by
  obtain ⟨hcall, w, arguments, hw, hparameters, hbody⟩ := h
  obtain ⟨c, hc⟩ := Option.isSome_iff_exists.1 hcall
  obtain ⟨parsed, hparsed, -⟩ := called?_eq_some hc
  have htrim : trim call.text = call.text := by
    rw [trim, (Call.trimmed_of_parse? hparsed).trim_eq, String.ofList_toList]
  have hne : call.text ≠ "" := by
    intro hempty
    rw [hempty] at hparsed
    exact absurd hparsed (by simp [Call.parse?, Chars.callParts?, Chars.identifier?])
  simp only [onePass, hw, List.append_nil, texts_linesAt, hparameters, hbody, List.map_singleton,
    instantiate_nil, htrim]
  simp [hne]

/-- The call in a wrapper is expanded one pass later. -/
theorem Wraps.texts_afterPasses (h : table.Wraps wrapper call) (n : Nat) :
    (table.afterPasses (n + 1) [wrapper]).map Line.text =
      (table.afterPasses n [call]).map Line.text :=
  MacroTable.texts_afterPasses h.texts_onePass n

theorem Wraps.openBlocks (h : table.Wraps wrapper call) {n : Nat}
    (hcall : ∀ block ∈ table.openBlocks n [call], block = none) :
    ∀ block ∈ table.openBlocks n [wrapper], block = none := by
  cases n with
  | zero => simp [MacroTable.openBlocks]
  | succ n =>
    have hfirst : Addon.afterAll none (table.onePass none [wrapper]) = none := by
      obtain ⟨c, hc⟩ := Option.isSome_iff_exists.1 h.1
      obtain ⟨parsed, hparsed, -⟩ := called?_eq_some hc
      rw [afterAll_eq_foldl_texts, h.texts_onePass]
      exact Addon.after_of_not_isMark (Directive.not_isMark_of_call hparsed)
    refine List.forall_mem_cons.2 ⟨hfirst, fun block hblock => ?_⟩
    rw [openBlocks_eq_of_texts_eq h.texts_onePass] at hblock
    exact hcall block (mem_openBlocks_succ hblock)

end MacroTable

/-- If the first `k` passes over the beginning of a stream leave no addon block open and all later
ones do, then the lines behind it, up to an exit mark, go through `k` passes and are let be from
then on : a block that the first pass opens shields them as they are. A call that leaves no addon
block open after any pass can be put into a macro of its own. -/
theorem opened_block_shields (table : MacroTable) (limits : Limits) (before : List Line) :
    (∀ (later rest out : List Line) (k : Nat) (addons : List Addon),
      expand table limits (before ++ (later ++ rest)) = .ok out →
      table.openBlocks limits.passes before = List.replicate k none ++ addons.map some →
      (∀ a ∈ addons, ∀ line ∈ table.afterPasses k later,
        ¬a.exitMark.toList <+: line.text.toList) →
        ∃ tail, out =
          table.afterPasses limits.passes before ++ (table.afterPasses k later ++ tail)) ∧
    ∀ (call wrapper : Line) (after out out' : List Line), table.Wraps wrapper call →
      expand table limits (before ++ call :: after) = .ok out →
      expand table limits (before ++ wrapper :: after) = .ok out' →
      Addon.afterAll none before = none →
      (∀ block ∈ table.openBlocks limits.passes before, block = none) →
      (∀ block ∈ table.openBlocks limits.passes [call], block = none) →
        out.map Line.text = out'.map Line.text := by
  constructor
  · intro later rest out k addons hout hblocks hlater
    obtain ⟨-, rfl⟩ := expand_eq_ok hout
    have hclosed : ∀ block ∈ List.replicate k none, block = (none : Option Addon) :=
      fun _ => List.eq_of_mem_replicate
    rw [MacroTable.afterPasses_append, hblocks, MacroTable.passesIn_append,
      MacroTable.passesIn_of_none hclosed, List.length_replicate, MacroTable.afterPasses_append,
      MacroTable.passesIn_of_open hlater]
    exact ⟨_, rfl⟩
  · intro call wrapper after out out' hwraps hout hout' houtside hbefore hcall
    obtain ⟨-, rfl⟩ := expand_eq_ok hout
    obtain ⟨hexpanded, rfl⟩ := expand_eq_ok hout'
    have hsplit : ∀ line, (∀ block ∈ table.openBlocks limits.passes [line], block = none) →
        table.afterPasses limits.passes (before ++ line :: after) =
          table.afterPasses limits.passes before ++ (table.afterPasses limits.passes [line] ++
            table.afterPasses limits.passes after) := by
      intro line hline
      rw [MacroTable.afterPasses_append_of_closed hbefore, ← List.singleton_append,
        MacroTable.afterPasses_append_of_closed hline]
    rw [hsplit wrapper (hwraps.openBlocks hcall)] at hexpanded ⊢
    rw [hsplit call hcall]
    have hsettled : table.Expanded none (table.afterPasses limits.passes [wrapper]) := by
      obtain ⟨-, hbehind⟩ := MacroTable.expanded_append.1 hexpanded
      rw [MacroTable.afterAll_afterPasses houtside hbefore] at hbehind
      exact (MacroTable.expanded_append.1 hbehind).1
    have htexts : (table.afterPasses limits.passes [call]).map Line.text =
        (table.afterPasses limits.passes [wrapper]).map Line.text := by
      rw [← hwraps.texts_afterPasses, MacroTable.afterPasses_succ,
        MacroTable.onePass_of_expanded hsettled]
    simp only [List.map_append, htexts]

/-- A macro `raw` that opens an addon block and a macro `wrap` that calls it, a macro `show(v)` and
a macro `greet` that calls it. -/
def openingMacros : MacroTable :=
  ⟨[⟨"raw", [], ["<addon^index/set^js>"], ⟨"m", 2, 1⟩⟩, ⟨"wrap", [], ["raw()"], ⟨"m", 6, 1⟩⟩,
    ⟨"show", ["v"], ["<print^set.incode=\"v\">"], ⟨"m", 10, 1⟩⟩,
    ⟨"greet", [], ["show(2)"], ⟨"m", 14, 1⟩⟩]⟩

/-- The line with this text in place `n` of a stream. -/
def lineAt (n : Nat) (text : String) : Line :=
  ⟨text, ⟨"m", n, 1⟩, none⟩

/-- A call of `show`, then the exit mark of the block. -/
def callInBlock : List Line :=
  [lineAt 18 "show(1)", lineAt 19 "<addon^js>"]

/-- A call of `raw`, and the exit mark of the block right behind it. -/
def emptyBlock : List Line :=
  [lineAt 15 "raw()", lineAt 16 "<addon^js>"]

/-- The start mark of the block, as the call of a line puts it in. -/
def enteredAt (call : Line) : Line :=
  call.instantiated "raw" "<addon^index/set^js>"

/-- What a call of `show` at a line stands for. -/
def shownAt (call : Line) (v : String) : Line :=
  call.instantiated "show" s!"<print^set.incode=\"{v}\">"

theorem expand_raw : expand openingMacros {} (lineAt 17 "raw()" :: callInBlock) =
    .ok (enteredAt (lineAt 17 "raw()") :: callInBlock) := by
  decide +kernel

theorem expand_wrap : expand openingMacros {} (lineAt 17 "wrap()" :: callInBlock) =
    .ok [enteredAt (lineAt 17 "wrap()"), shownAt (lineAt 18 "show(1)") "1",
      lineAt 19 "<addon^js>"] := by
  decide +kernel

theorem opened_block_shields_openingMacros :
    (∃ tail, enteredAt (lineAt 17 "raw()") :: callInBlock =
      openingMacros.afterPasses 64 [lineAt 17 "raw()"] ++ ([lineAt 18 "show(1)"] ++ tail)) ∧
    ∃ out out', expand openingMacros {} (emptyBlock ++ [lineAt 17 "show(2)"]) = .ok out ∧
      expand openingMacros {} (emptyBlock ++ [lineAt 17 "greet()"]) = .ok out' ∧
      out.map Line.text = out'.map Line.text := by
  have hshow : expand openingMacros {} (emptyBlock ++ [lineAt 17 "show(2)"]) =
      .ok [enteredAt (lineAt 15 "raw()"), lineAt 16 "<addon^js>",
        shownAt (lineAt 17 "show(2)") "2"] := by
    decide +kernel
  have hgreet : expand openingMacros {} (emptyBlock ++ [lineAt 17 "greet()"]) =
      .ok [enteredAt (lineAt 15 "raw()"), lineAt 16 "<addon^js>",
        shownAt (lineAt 17 "greet()") "2"] := by
    decide +kernel
  refine ⟨?_, _, _, hshow, hgreet, ?_⟩
  · exact (opened_block_shields openingMacros {} [lineAt 17 "raw()"]).1 [lineAt 18 "show(1)"]
      [lineAt 19 "<addon^js>"] _ 0 (List.replicate 64 .js) expand_raw (by decide +kernel)
      (by decide +kernel)
  · exact (opened_block_shields openingMacros {} _).2 _ _ [] _ _
      ⟨by decide +kernel, _, _, rfl, rfl, rfl⟩ hshow hgreet (by decide +kernel)
      (by decide +kernel) (by decide +kernel)

/-- A call that opens a block two calls deep does not shield the lines behind it, although its
expansion leaves the block open, and differs from the call of the macro that it wraps. -/
theorem nested_opening_exposes_calls :
    (¬∀ (table : MacroTable) (limits : Limits) (call : Line) (later rest opened out : List Line)
        (a : Addon), expand table limits [call] = .ok opened →
        Addon.afterAll none opened = some a →
        (∀ line ∈ later, ¬a.exitMark.toList <+: line.text.toList) →
        expand table limits (call :: (later ++ rest)) = .ok out →
          ∃ tail, out = opened ++ (later ++ tail)) ∧
    ¬∀ (table : MacroTable) (limits : Limits) (after out out' : List Line) (call wrapper : Line),
        table.Wraps wrapper call → expand table limits (call :: after) = .ok out →
        expand table limits (wrapper :: after) = .ok out' →
          out.map Line.text = out'.map Line.text := by
  constructor
  · intro h
    have hopened : expand openingMacros {} [lineAt 17 "wrap()"] =
        .ok [enteredAt (lineAt 17 "wrap()")] := by
      decide +kernel
    obtain ⟨tail, htail⟩ := h openingMacros {} (lineAt 17 "wrap()") [lineAt 18 "show(1)"]
      [lineAt 19 "<addon^js>"] _ _ .js hopened (by decide +kernel) (by decide +kernel) expand_wrap
    simp [lineAt, shownAt, Line.instantiated] at htail
  · intro h
    have htexts := h openingMacros {} callInBlock _ _ (lineAt 17 "raw()") (lineAt 17 "wrap()")
      ⟨by decide +kernel, _, _, rfl, rfl, rfl⟩ expand_raw expand_wrap
    revert htexts
    decide +kernel

end ZScript
