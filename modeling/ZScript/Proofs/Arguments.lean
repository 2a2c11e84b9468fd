import Mathlib.Algebra.Ring.Parity
import Mathlib.Data.List.Infix
import ZScript.Proofs.Texts

/-!
# The arguments of a call

A comma separates two arguments if an even number of double quotes stands behind it, up to the end of
the text (`Chars.Separates`). `Chars.cutArguments` goes through the text from the right and keeps the
parity of the quotes that it has passed, and so it cuts at these commas and no others
(`Chars.cutArguments_eq`). Going from the left, one takes the quotes that were passed off the number
of all quotes. This is never more than there are, and the pieces are the same
(`Chars.countedPieces_eq`).

A text with closed quotes, whose commas stand between quotes, is not cut, as long as the quotes
behind it are closed too (`Chars.CommasQuoted.argumentPieces_append`). Arguments of this sort are
read back from the text in which commas separate them (`splitArguments_join`).
-/

namespace ZScript

namespace Chars

/-! ## Separating commas -/

/-- Each character of a text, with the text behind it. -/
def withBehind : List Char → List (Char × List Char)
  | [] => []
  | c :: s => (c, s) :: withBehind s

/-- A comma separates two arguments if an even number of double quotes stands behind it. -/
def Separates (p : Char × List Char) : Prop :=
  p.1 = ',' ∧ Even (p.2.count '"')

instance : DecidablePred Separates := fun p =>
  inferInstanceAs (Decidable (p.1 = ',' ∧ Even (p.2.count '"')))

/-- The pieces of a text between the commas that separate. -/
def argumentPieces (s : List Char) : List (List Char) :=
  ((withBehind s).splitOnP (Separates ·)).map (·.map Prod.fst)

theorem modifyHead_nil_append (ls : List (List Char)) : ls.modifyHead ([] ++ ·) = ls := by
  cases ls <;> rfl

theorem argumentPieces_cons (c : Char) (s : List Char) :
    argumentPieces (c :: s) = if Separates (c, s) then [] :: argumentPieces s
      else (argumentPieces s).modifyHead (c :: ·) := by
  rw [argumentPieces, withBehind, List.splitOnP_cons_eq_if_modifyHead]
  by_cases h : Separates (c, s)
  · simp [h, argumentPieces]
  · cases hs : (withBehind s).splitOnP (Separates ·) with
    | nil => exact absurd hs (List.splitOnP_ne_nil _ _)
    | cons first others => simp [h, argumentPieces, hs]

/-- Cutting from the right, with the parity of the quotes that were passed, cuts at the commas that
separate. -/
theorem foldr_cutBefore (s : List Char) :
    s.foldr cutBefore (true, [[]]) = (decide (Even (s.count '"')), argumentPieces s) := by
  induction s with
  | nil => rfl
  | cons c s ih =>
    rw [List.foldr_cons, ih, cutBefore, argumentPieces_cons]
    by_cases hc : c = '"'
    · by_cases heven : Even (s.count '"') <;> simp [Separates, hc, Nat.even_add_one, heven]
    · by_cases hcomma : c = ','
      · by_cases heven : Even (s.count '"') <;> simp [Separates, hcomma, heven]
      · simp [Separates, hc, hcomma]

theorem cutArguments_eq (s : List Char) : cutArguments s = argumentPieces s := by
  rw [cutArguments, foldr_cutBefore]

/-- Cutting from the left, with the number of quotes in the whole text, the number seen so far and
the piece that has begun. There is no result if more quotes were seen than there are. -/
def countedPieces (total : Nat) : (seen : Nat) → (piece : List Char) → List Char →
    Option (List (List Char))
  | _, piece, [] => some [piece]
  | seen, piece, c :: s =>
    if c = '"' then countedPieces total (seen + 1) (piece ++ [c]) s
    else if c ≠ ',' then countedPieces total seen (piece ++ [c]) s
    else if total < seen then none
    else if Even (total - seen) then (countedPieces total seen [] s).map (piece :: ·)
    else countedPieces total seen (piece ++ [c]) s

theorem countedPieces_eq {total seen : Nat} {s : List Char} (h : total = seen + s.count '"')
    (piece : List Char) :
    countedPieces total seen piece s = some ((argumentPieces s).modifyHead (piece ++ ·)) := by
  induction s generalizing seen piece with
  | nil => simp [countedPieces, argumentPieces, withBehind]
  | cons c s ih =>
    have hkeep : ∀ {seen}, total = seen + s.count '"' → ¬Separates (c, s) →
        countedPieces total seen (piece ++ [c]) s =
          some ((argumentPieces (c :: s)).modifyHead (piece ++ ·)) := by
      intro seen h hkept
      rw [ih h, argumentPieces_cons, if_neg hkept, List.modifyHead_modifyHead]
      simp [Function.comp_def]
    rw [countedPieces]
    by_cases hc : c = '"'
    · rw [if_pos hc]
      refine hkeep ?_ ?_
      · simp [hc] at h; omega
      · simp [Separates, hc]
    · rw [List.count_cons_of_ne hc] at h
      rw [if_neg hc]
      by_cases hcomma : c = ','
      · have hbehind : total - seen = s.count '"' := by omega
        rw [if_neg (not_not.2 hcomma), if_neg (by omega), hbehind]
        by_cases heven : Even (s.count '"')
        · rw [if_pos heven, ih h, argumentPieces_cons, if_pos ⟨hcomma, heven⟩,
            modifyHead_nil_append, List.modifyHead_cons, List.append_nil, Option.map_some]
        · rw [if_neg heven]
          exact hkeep h fun hsep => heven hsep.2
      · rw [if_pos hcomma]
        exact hkeep h fun hsep => hcomma hsep.1

/-! ## Arguments that are read back -/

/-- The quotes of a text are closed, and every comma stands between an opening and a closing one. -/
structure CommasQuoted (s : List Char) : Prop where
  closed : Even (s.count '"')
  quoted : ∀ before behind, s = before ++ ',' :: behind → Odd (before.count '"')

instance (s : List Char) : Decidable (CommasQuoted s) :=
  decidable_of_iff (Even (s.count '"') ∧
      ∀ before ∈ s.inits, before ++ [','] <+: s → Odd (before.count '"'))
    ⟨fun h => ⟨h.1, fun before behind hs => h.2 before ((List.mem_inits _ _).2 ⟨_, hs.symm⟩)
        ⟨behind, by simp [hs]⟩⟩,
      fun h => ⟨h.closed, fun before _ ⟨behind, hs⟩ => h.quoted before behind (by simp [← hs])⟩⟩

namespace CommasQuoted

variable {s : List Char}

theorem odd_behind (h : CommasQuoted s) {before behind : List Char}
    (hs : s = before ++ ',' :: behind) : Odd (behind.count '"') := by
  have hclosed := h.closed
  rw [hs, List.count_append, List.count_cons_of_ne (by decide)] at hclosed
  exact (Nat.even_add'.1 hclosed).1 (h.quoted before behind hs)

theorem cons_space (h : CommasQuoted s) : CommasQuoted (' ' :: s) where
  closed := by simpa using h.closed
  quoted before behind hs := by
    cases before with
    | nil => simp at hs
    | cons c before =>
      obtain ⟨rfl, htail⟩ : ' ' = c ∧ s = before ++ ',' :: behind := by simpa using hs
      simpa using h.quoted before behind htail

/-- No comma of such a text separates, if the quotes behind the text are closed too. -/
theorem argumentPieces_append (h : CommasQuoted s) {v : List Char} (hv : Even (v.count '"')) :
    argumentPieces (s ++ v) = (argumentPieces v).modifyHead (s ++ ·) := by
  have hodd : ∀ before behind, s = before ++ ',' :: behind → Odd (behind.count '"') :=
    fun before behind hs => h.odd_behind hs
  clear h
  induction s with
  | nil => rw [List.nil_append, modifyHead_nil_append]
  | cons c s ih =>
    have hkept : ¬Separates (c, s ++ v) := by
      rintro ⟨rfl, heven⟩
      rw [List.count_append, Nat.even_add] at heven
      exact Nat.not_even_iff_odd.2 (hodd [] s rfl) (heven.2 hv)
    have hrest := ih fun before behind hs => hodd (c :: before) behind (congrArg (c :: ·) hs)
    rw [List.cons_append, argumentPieces_cons, if_neg hkept, hrest, List.modifyHead_modifyHead]
    rfl

end CommasQuoted

theorem even_count_intercalate {ls : List (List Char)} (h : ∀ l ∈ ls, CommasQuoted l) :
    Even (([',', ' '].intercalate ls).count '"') := by
  induction ls with
  | nil => simp
  | cons first ls ih =>
    obtain ⟨hfirst, hls⟩ := List.forall_mem_cons.1 h
    cases ls with
    | nil => simpa using hfirst.closed
    | cons next ls =>
      rw [List.intercalate_cons_cons, List.count_append, List.count_append]
      exact (hfirst.closed.add (by decide)).add (ih hls)

/-- Texts whose commas are quoted are cut out of the text in which a comma and a space stand between
them, all but the first with the space. -/
theorem argumentPieces_intercalate {first : List Char} {ls : List (List Char)}
    (h : ∀ l ∈ first :: ls, CommasQuoted l) :
    argumentPieces ([',', ' '].intercalate (first :: ls)) = first :: ls.map (' ' :: ·) := by
  induction ls generalizing first with
  | nil =>
    have hfirst : CommasQuoted first := h first (by simp)
    simpa [argumentPieces, withBehind] using hfirst.argumentPieces_append (v := []) (by simp)
  | cons next ls ih =>
    obtain ⟨hfirst, hrest⟩ := List.forall_mem_cons.1 h
    obtain ⟨hnext, hls⟩ := List.forall_mem_cons.1 hrest
    have heven : Even ((' ' :: [',', ' '].intercalate (next :: ls)).count '"') := by
      simpa using even_count_intercalate hrest
    have hind := ih (List.forall_mem_cons.2 ⟨hnext.cons_space, hls⟩)
    rw [List.intercalate_cons_cons_left] at hind
    rw [List.intercalate_cons_cons, List.append_assoc, List.cons_append, List.singleton_append,
      hfirst.argumentPieces_append (by simpa using heven), argumentPieces_cons,
      if_pos ⟨rfl, heven⟩, hind, List.modifyHead_cons, List.append_nil, List.map_cons]

end Chars

/-- Arguments are read back from the text in which commas separate them. -/
theorem splitArguments_join {arguments : List String} (hne : arguments ≠ [""])
    (h : ∀ a ∈ arguments, trim a = a ∧ Chars.CommasQuoted a.toList) :
    splitArguments (", ".intercalate arguments) = arguments := by
  cases arguments with
  | nil => rfl
  | cons first rest =>
    have htrim : ∀ l ∈ first.toList :: rest.map String.toList, Chars.trim l = l := by
      rw [← List.map_cons, List.forall_mem_map]
      exact fun a ha => by simpa [trim] using congrArg String.toList (h a ha).1
    have hquoted : ∀ l ∈ first.toList :: rest.map String.toList, Chars.CommasQuoted l := by
      rw [← List.map_cons, List.forall_mem_map]
      exact fun a ha => (h a ha).2
    have hblank : Chars.trim (", ".intercalate (first :: rest)).toList ≠ [] := by
      cases rest with
      | nil =>
        rw [String.intercalate_singleton, htrim first.toList (by simp)]
        simpa using hne
      | cons next rest => exact Chars.trim_ne_nil (c := ',') (by simp) (by decide)
    have hpieces : (Chars.cutArguments (", ".intercalate (first :: rest)).toList).map Chars.trim =
        (first :: rest).map String.toList := by
      have hsep : ", ".toList = [',', ' '] := rfl
      rw [Chars.cutArguments_eq, String.toList_intercalate, hsep, List.map_cons,
        Chars.argumentPieces_intercalate hquoted, Chars.map_trim_spaced htrim]
    rw [splitArguments, if_neg (by simpa using hblank), ← Function.comp_def String.ofList Chars.trim,
      ← List.map_map, hpieces, List.map_map]
    simp [Function.comp_def]

/-- Arguments are split at the commas with an even number of double quotes behind them, and trimmed.
Counting the quotes from the left gives the same pieces, and never more quotes than there are. A
call is read back from its name and its arguments. -/
theorem arguments_split_and_read_back :
    (∀ text : String, (∃ c ∈ text.toList, isBlank c = false) →
      splitArguments text = (Chars.argumentPieces text.toList).map
          (fun piece => String.ofList (Chars.trim piece)) ∧
        Chars.countedPieces (text.toList.count '"') 0 [] text.toList =
          some (Chars.argumentPieces text.toList)) ∧
      ∀ (name : String) (arguments : List String), IsIdentifier name → arguments ≠ [""] →
        (∀ a ∈ arguments, trim a = a ∧ Chars.CommasQuoted a.toList) →
          Call.parse? (name ++ "(" ++ ", ".intercalate arguments ++ ")") = some ⟨name, arguments⟩ := by
  constructor
  · rintro text ⟨c, hc, hblank⟩
    refine ⟨?_, ?_⟩
    · rw [splitArguments, if_neg (by simpa using Chars.trim_ne_nil hc hblank), Chars.cutArguments_eq]
    · rw [Chars.countedPieces_eq (by simp), Chars.modifyHead_nil_append]
  · intro name arguments hname hne h
    have hparts : Chars.callParts? (name ++ "(" ++ ", ".intercalate arguments ++ ")").toList =
        some (name, (", ".intercalate arguments).toList) :=
      Chars.callParts?_eq_some_iff.2 ⟨hname, "", by simp [IsGap], by simp⟩
    rw [Call.parse?, hparts, Option.map_some, String.ofList_toList, splitArguments_join hne h]

/-- An empty argument, a quoted comma and a blank in the middle of an argument. -/
theorem arguments_split_and_read_back_quotedComma :
    splitArguments "\"a,b\", ,ç " = ["\"a,b\"", "", "ç"] ∧
      Chars.countedPieces 2 0 [] "\"a,b\", ,ç ".toList =
        some ["\"a,b\"".toList, " ".toList, "ç ".toList] ∧
      Call.parse? "f(\"a,b\", , x y)" = some ⟨"f", ["\"a,b\"", "", "x y"]⟩ := by
  obtain ⟨hsplit, hjoin⟩ := arguments_split_and_read_back
  have hpieces : Chars.argumentPieces "\"a,b\", ,ç ".toList =
      ["\"a,b\"".toList, " ".toList, "ç ".toList] := by
    decide
  obtain ⟨htrimmed, hcounted⟩ := hsplit "\"a,b\", ,ç " ⟨'ç', by simp, by decide⟩
  have hname : IsIdentifier "f" := ⟨'f', [], rfl, by decide, by simp⟩
  refine ⟨?_, ?_, ?_⟩
  · rw [htrimmed, hpieces]
    decide
  · rw [← hpieces]
    exact hcounted
  · exact hjoin "f" ["\"a,b\"", "", "x y"] hname (by decide) (by decide)

end ZScript
