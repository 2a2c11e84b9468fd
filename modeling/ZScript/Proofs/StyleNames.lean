import ZScript.Directive.JavaScript
import ZScript.Proofs.LineOrigins

/-!
# The script names of style properties

A text is hyphenated at a place where a hyphen stands directly before a lower-case letter
(`Chars.HyphenatedAt`). `Chars.joinedAtOnce` joins all these places at once : what becomes of a
character depends on the text as it was, on this character and its two neighbours. The recursion
`Chars.joinHyphens` takes one or two characters at a time, from the left. Two hyphenated places
never overlap, so it gives the same (`Chars.joinHyphens_eq_joinedAtOnce`).

Each end of a joined text is that of the text itself or a capital (`Chars.mem_head?_joinHyphens`,
`Chars.mem_getLast?_joinHyphens`). So a hyphen that is kept does not come to stand before a
lower-case letter, and nothing is left to join (`Chars.unhyphenated_joinHyphens`); and no blank
comes to stand at an end (`Chars.Trimmed.joinHyphens`). The trimmed texts without hyphenated places
are the properties that are their own script names (`camelCase_eq_self_iff`), and every script name
is one of them.
-/

namespace ZScript

namespace Chars

/-! ## Hyphenated places -/

/-- A hyphen stands at place `i`, and a lower-case letter directly behind it. -/
def HyphenatedAt (s : List Char) (i : Nat) : Prop :=
  s[i]? = some '-' ∧ s[i + 1]?.any Char.isLower = true

instance (s : List Char) (i : Nat) : Decidable (HyphenatedAt s i) :=
  inferInstanceAs (Decidable (_ ∧ _))

/-- No hyphen stands directly before a lower-case letter. -/
def Unhyphenated (s : List Char) : Prop :=
  ∀ i, ¬ HyphenatedAt s i

/-- What a character and its place become when all hyphenated places of a text are joined : nothing
for a hyphen before a lower-case letter, the capital for that letter, and else the character. -/
def joinedAt (s : List Char) (p : Char × Nat) : List Char :=
  if HyphenatedAt s p.2 then []
  else if 0 < p.2 ∧ HyphenatedAt s (p.2 - 1) then [p.1.toUpper]
  else [p.1]

/-- The text with all its hyphenated places joined at once. -/
def joinedAtOnce (s : List Char) : List Char :=
  s.zipIdx.flatMap (joinedAt s)

variable {s : List Char} {c d : Char} {i : Nat}

theorem hyphenatedAt_cons_zero :
    HyphenatedAt (c :: s) 0 ↔ c = '-' ∧ ∃ d ∈ s.head?, d.isLower = true := by
  simp [HyphenatedAt, List.head?_eq_getElem?, Option.any_eq_true]

theorem hyphenatedAt_cons_succ : HyphenatedAt (c :: s) (i + 1) ↔ HyphenatedAt s i :=
  Iff.rfl

theorem unhyphenated_cons :
    Unhyphenated (c :: s) ↔ ¬ HyphenatedAt (c :: s) 0 ∧ Unhyphenated s :=
  Nat.and_forall_add_one.symm

theorem hyphenatedAt_hyphen_cons : HyphenatedAt ('-' :: c :: s) 0 ↔ c.isLower = true := by
  simp [hyphenatedAt_cons_zero]

theorem not_hyphenatedAt_of_isLower (h : c.isLower = true) : ¬ HyphenatedAt (c :: s) 0 := by
  rw [hyphenatedAt_cons_zero]
  rintro ⟨rfl, -⟩
  exact absurd h (by decide)

/-- Induction along the joining of a text, which is empty, or starts with a hyphenated letter, or with
a character that is not joined with what follows. -/
@[elab_as_elim]
theorem hyphen_induction {motive : List Char → Prop} (s : List Char) (nil : motive [])
    (join : ∀ c s, c.isLower = true → motive s → motive ('-' :: c :: s))
    (keep : ∀ c s, ¬ HyphenatedAt (c :: s) 0 → motive s → motive (c :: s)) : motive s := by
  fun_induction joinHyphens s with
  | case1 c s hlower ih => exact join c s hlower ih
  | case2 c s hlower ih => exact keep '-' _ (mt hyphenatedAt_hyphen_cons.1 hlower) ih
  | case3 c s hlone ih =>
    refine keep c s ?_ ih
    rw [hyphenatedAt_cons_zero]
    rintro ⟨rfl, d, hd, -⟩
    obtain ⟨rest, rfl⟩ := List.head?_eq_some_iff.1 hd
    exact hlone d rest rfl rfl
  | case4 => exact nil

theorem joinHyphens_hyphen_cons (h : c.isLower = true) :
    joinHyphens ('-' :: c :: s) = c.toUpper :: joinHyphens s := by
  rw [joinHyphens, if_pos h]

theorem joinHyphens_cons_of_not (h : ¬ HyphenatedAt (c :: s) 0) :
    joinHyphens (c :: s) = c :: joinHyphens s := by
  by_cases hc : c = '-'
  · subst hc
    cases s with
    | nil => rfl
    | cons d s => rw [joinHyphens, if_neg (mt hyphenatedAt_hyphen_cons.2 h)]
  · rw [joinHyphens]
    exact fun _ _ hc' _ => hc hc'

/-! ## Joining at once and from the left -/

theorem flatMap_zipIdx_cons (f : Char × Nat → List Char) (c : Char) (s : List Char) :
    (c :: s).zipIdx.flatMap f = f (c, 0) ++ s.zipIdx.flatMap fun p => f (p.1, p.2 + 1) := by
  rw [List.zipIdx_cons', List.flatMap_cons, List.flatMap_map]
  rfl

theorem joinedAt_cons_succ_succ (c d : Char) (s : List Char) (i : Nat) :
    joinedAt (c :: s) (d, i + 2) = joinedAt s (d, i + 1) := by
  simp [joinedAt, hyphenatedAt_cons_succ]

/-- A character that is not joined with the next one changes nothing behind it. -/
theorem joinedAt_cons_succ (h : ¬ HyphenatedAt (c :: s) 0) (p : Char × Nat) :
    joinedAt (c :: s) (p.1, p.2 + 1) = joinedAt s p := by
  obtain ⟨d, i⟩ := p
  cases i with
  | zero => simp [joinedAt, hyphenatedAt_cons_succ, h]
  | succ i => exact joinedAt_cons_succ_succ c d s i

theorem joinedAtOnce_cons_of_not (h : ¬ HyphenatedAt (c :: s) 0) :
    joinedAtOnce (c :: s) = c :: joinedAtOnce s := by
  have hfirst : joinedAt (c :: s) (c, 0) = [c] := by simp [joinedAt, h]
  rw [joinedAtOnce, flatMap_zipIdx_cons, hfirst]
  simp only [joinedAt_cons_succ h]
  rfl

theorem joinedAtOnce_hyphen_cons (h : c.isLower = true) :
    joinedAtOnce ('-' :: c :: s) = c.toUpper :: joinedAtOnce s := by
  have hplace : HyphenatedAt ('-' :: c :: s) 0 := hyphenatedAt_hyphen_cons.2 h
  have hnext : ¬ HyphenatedAt (c :: s) 0 := not_hyphenatedAt_of_isLower h
  have hhyphen : joinedAt ('-' :: c :: s) ('-', 0) = [] := by simp [joinedAt, hplace]
  have hletter : joinedAt ('-' :: c :: s) (c, 1) = [c.toUpper] := by
    simp [joinedAt, hyphenatedAt_cons_succ, hplace, hnext]
  rw [joinedAtOnce, flatMap_zipIdx_cons, flatMap_zipIdx_cons, hhyphen, hletter]
  simp only [joinedAt_cons_succ_succ, joinedAt_cons_succ hnext]
  rfl

/-- Joining from the left, one hyphenated place after the other, joins them all at once. -/
theorem joinHyphens_eq_joinedAtOnce (s : List Char) : joinHyphens s = joinedAtOnce s := by
  induction s using hyphen_induction with
  | nil => rfl
  | join c s hlower ih => rw [joinHyphens_hyphen_cons hlower, ih, joinedAtOnce_hyphen_cons hlower]
  | keep c s hplace ih => rw [joinHyphens_cons_of_not hplace, ih, joinedAtOnce_cons_of_not hplace]

/-! ## The characters of a joined text -/

theorem isUpper_toUpper (h : c.isLower = true) : c.toUpper.isUpper = true := by
  obtain ⟨hlow, hhigh⟩ := isLower_iff.1 h
  have hletters : ∀ n < 26, (Char.ofNat (97 + n)).toUpper.isUpper = true := by decide
  have hletter := hletters (c.toNat - 97) (by omega)
  rwa [Nat.add_sub_cancel' hlow, Char.ofNat_toNat] at hletter

theorem mem_joinHyphens (h : d ∈ joinHyphens s) : d ∈ s ∨ d.isUpper = true := by
  induction s using hyphen_induction with
  | nil => exact Or.inl h
  | join c s hlower ih =>
    rw [joinHyphens_hyphen_cons hlower] at h
    rcases List.mem_cons.1 h with rfl | h
    · exact Or.inr (isUpper_toUpper hlower)
    · exact (ih h).imp_left fun h => by simp [h]
  | keep c s hplace ih =>
    rw [joinHyphens_cons_of_not hplace] at h
    rcases List.mem_cons.1 h with rfl | h
    · simp
    · exact (ih h).imp_left (List.mem_cons_of_mem _)

theorem mem_head?_joinHyphens (h : d ∈ (joinHyphens s).head?) :
    d ∈ s.head? ∨ d.isUpper = true := by
  cases s using hyphen_induction with
  | nil => exact Or.inl h
  | join c s hlower =>
    rw [joinHyphens_hyphen_cons hlower] at h
    obtain rfl : c.toUpper = d := by simpa using h
    exact Or.inr (isUpper_toUpper hlower)
  | keep c s hplace =>
    rw [joinHyphens_cons_of_not hplace] at h
    exact Or.inl h

theorem joinHyphens_ne_nil (h : s ≠ []) : joinHyphens s ≠ [] := by
  cases s using hyphen_induction with
  | nil => exact absurd rfl h
  | join c s hlower => simp [joinHyphens_hyphen_cons hlower]
  | keep c s hplace => simp [joinHyphens_cons_of_not hplace]

theorem mem_getLast?_joinHyphens (h : d ∈ (joinHyphens s).getLast?) :
    d ∈ s.getLast? ∨ d.isUpper = true := by
  induction s using hyphen_induction with
  | nil => exact Or.inl h
  | join c s hlower ih =>
    rw [joinHyphens_hyphen_cons hlower] at h
    by_cases hs : s = []
    · obtain rfl : c.toUpper = d := by simpa [hs, joinHyphens] using h
      exact Or.inr (isUpper_toUpper hlower)
    · rw [List.getLast?_cons_of_ne_nil (joinHyphens_ne_nil hs)] at h
      rw [List.getLast?_cons_cons, List.getLast?_cons_of_ne_nil hs]
      exact ih h
  | keep c s hplace ih =>
    rw [joinHyphens_cons_of_not hplace] at h
    by_cases hs : s = []
    · exact Or.inl (by simpa [hs, joinHyphens] using h)
    · rw [List.getLast?_cons_of_ne_nil (joinHyphens_ne_nil hs)] at h
      rw [List.getLast?_cons_of_ne_nil hs]
      exact ih h

theorem isBlank_of_isUpper (h : c.isUpper = true) : isBlank c = false := by
  have hletter : c.isAlpha = true := Bool.or_eq_true_iff.2 (Or.inl h)
  exact isBlank_of_isIdentStart (by simp [isIdentStart, hletter])

theorem Trimmed.joinHyphens (h : Trimmed s) : Trimmed (Chars.joinHyphens s) := by
  constructor
  · intro d hd
    exact (mem_head?_joinHyphens hd).elim (h.1 d) isBlank_of_isUpper
  · intro d hd
    exact (mem_getLast?_joinHyphens hd).elim (h.2 d) isBlank_of_isUpper

/-! ## Nothing is left to join -/

/-- No hyphen that is kept comes to stand before a lower-case letter. -/
theorem unhyphenated_joinHyphens (s : List Char) : Unhyphenated (joinHyphens s) := by
  induction s using hyphen_induction with
  | nil => exact fun i h => by simp [joinHyphens, HyphenatedAt] at h
  | join c s hlower ih =>
    rw [joinHyphens_hyphen_cons hlower, unhyphenated_cons, hyphenatedAt_cons_zero]
    refine ⟨?_, ih⟩
    rintro ⟨hhyphen, -⟩
    have hupper := isUpper_toUpper hlower
    rw [hhyphen] at hupper
    exact absurd hupper (by decide)
  | keep c s hplace ih =>
    rw [joinHyphens_cons_of_not hplace, unhyphenated_cons, hyphenatedAt_cons_zero]
    refine ⟨?_, ih⟩
    rintro ⟨rfl, d, hd, hlower⟩
    rcases mem_head?_joinHyphens hd with hd | hupper
    · exact hplace (hyphenatedAt_cons_zero.2 ⟨rfl, d, hd, hlower⟩)
    · have hhigh := (isUpper_iff.1 hupper).2
      have hlow := (isLower_iff.1 hlower).1
      omega

theorem Unhyphenated.joinHyphens_eq (h : Unhyphenated s) : joinHyphens s = s := by
  induction s using hyphen_induction with
  | nil => rfl
  | join c s hlower => exact absurd (hyphenatedAt_hyphen_cons.2 hlower) (h 0)
  | keep c s hplace ih => rw [joinHyphens_cons_of_not hplace, ih (unhyphenated_cons.1 h).2]

/-! ## Script names -/

/-- `t` is what is left of `s` without blank characters at its two ends. -/
def StripsTo (s t : List Char) : Prop :=
  Trimmed t ∧ ∃ lead trail, s = lead ++ t ++ trail ∧ ∀ c ∈ lead ++ trail, isBlank c = true

theorem stripsTo_trim (s : List Char) : StripsTo s (trim s) := by
  obtain ⟨lead, trail, hs, -, hblank⟩ := exists_blanks_around s
  exact ⟨trimmed_trim s, lead, trail, hs, hblank⟩

end Chars

theorem toList_camelCase (property : String) :
    (camelCase property).toList = Chars.joinHyphens (Chars.trim property.toList) :=
  String.toList_ofList

theorem mem_camelCase {property : String} {c : Char} (h : c ∈ (camelCase property).toList) :
    c ∈ property.toList ∨ c.isUpper = true := by
  rw [toList_camelCase] at h
  exact (Chars.mem_joinHyphens h).imp_left Chars.mem_of_mem_trim

theorem trimmed_camelCase (property : String) : Chars.Trimmed (camelCase property).toList := by
  rw [toList_camelCase]
  exact (Chars.trimmed_trim property.toList).joinHyphens

theorem unhyphenated_camelCase (property : String) :
    Chars.Unhyphenated (camelCase property).toList := by
  rw [toList_camelCase]
  exact Chars.unhyphenated_joinHyphens _

/-- The properties that are their own script names. -/
theorem camelCase_eq_self_iff {name : String} :
    camelCase name = name ↔ Chars.Trimmed name.toList ∧ Chars.Unhyphenated name.toList := by
  constructor
  · intro h
    exact h ▸ ⟨trimmed_camelCase name, unhyphenated_camelCase name⟩
  · rintro ⟨htrimmed, hjoined⟩
    rw [camelCase, htrimmed.trim_eq, hjoined.joinHyphens_eq, String.ofList_toList]

/-- The script name of a property is what is left without the blanks around it, with each hyphen
before a lower-case letter dropped and the letter raised, all at once. No hyphen in it stands before
a lower-case letter, and it is its own script name. -/
theorem script_name_joined_at_once (property : String) :
    Chars.StripsTo property.toList (trim property).toList ∧
    (camelCase property).toList = Chars.joinedAtOnce (trim property).toList ∧
    Chars.Unhyphenated (camelCase property).toList ∧
    camelCase (camelCase property) = camelCase property := by
  have htrim : (trim property).toList = Chars.trim property.toList := String.toList_ofList
  refine ⟨?_, ?_, unhyphenated_camelCase property, ?_⟩
  · rw [htrim]
    exact Chars.stripsTo_trim property.toList
  · rw [htrim, toList_camelCase, Chars.joinHyphens_eq_joinedAtOnce]
  · exact camelCase_eq_self_iff.2 ⟨trimmed_camelCase property, unhyphenated_camelCase property⟩

example : camelCase " --moz-box-2-Y-é- " = "-MozBox-2-Y-é-" := by decide

end ZScript
