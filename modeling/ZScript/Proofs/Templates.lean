import Mathlib.Data.Finset.Max
import Mathlib.Logic.Relation
import ZScript.Proofs.Substitution
import ZScript.Proofs.WrittenMacros

/-!
# Templates cut at their parameters

`Template.Cuts` says how a template falls into pieces, from left to right : a character at which no
parameter starts, or else an occurrence of the longest parameter that starts there. With parameters
that are not empty there is one such cut and no other (`Template.exists_cuts`,
`Template.Cuts.unique`), and instantiation puts an argument in the place of each occurrence
(`Template.Cuts.instantiate_eq`). The cut is that of the template, so nothing that was put in is cut
again.

A `Template.Scan` is instantiation as a loop. At each place it tries one parameter after the other,
those of more bytes first, and takes the first that fits. An empty parameter fits everywhere and
keeps the loop where it is if no other fits (`Template.Piece.Fits.not_ends`); without one, each
round takes off a piece, and the loop ends (`Template.ends_instantiate`). A loop that ends has put
out the instantiated template, whatever the parameters (`Template.Scan.Ends.eq_instantiate`). Both
the loop and `Chars.substitute` choose the binding that `Chars.Taken` describes
(`Chars.Taken.find?_tried`, `Chars.Taken.longest_eq`).

Neither the cut nor the argument for a parameter depends on the order in which distinct parameters
are declared (`Template.Cuts.of_mem_iff`, `Template.argumentFor_of_perm`).
-/

namespace ZScript

/-! ## The binding that is taken -/

namespace Chars

/-- Equally long texts that start a third are the same. -/
theorem eq_of_starts {u v s : List Char} (hu : u <+: s) (hv : v <+: s)
    (hlength : u.length = v.length) : u = v :=
  (List.prefix_of_prefix_length_le hu hv hlength.le).eq_of_length hlength

/-- The first binding of a parameter is the longest if the other parameters are shorter. -/
theorem longest_eq_some {bs : List Binding} {b : Binding}
    (hfirst : bs.find? (·.parameter == b.parameter) = some b)
    (hothers : ∀ b' ∈ bs, b'.parameter = b.parameter ∨
      b'.parameter.length < b.parameter.length) : longest bs = some b := by
  induction bs with
  | nil => simp at hfirst
  | cons a bs ih =>
    obtain ⟨ha, hrest⟩ := List.forall_mem_cons.1 hothers
    by_cases hab : a.parameter = b.parameter
    · obtain rfl : a = b := by simpa [hab] using hfirst
      unfold longest
      split
      · rfl
      · rename_i b' hb'
        have hle : b'.parameter.length ≤ a.parameter.length :=
          (hrest b' (mem_of_longest hb')).elim (fun h => (congrArg List.length h).le) le_of_lt
        exact if_neg hle.not_gt
    · have hlongest : longest bs = some b := ih (by simpa [hab] using hfirst) hrest
      rw [longest, hlongest]
      exact if_pos (ha.resolve_left hab)

/-- The parameter of the binding is the longest that starts the text, and the binding is the first
for this parameter. -/
structure Taken (bs : List Binding) (s : List Char) (b : Binding) : Prop where
  first : bs.find? (·.parameter == b.parameter) = some b
  starts : b.parameter <+: s
  longest : ∀ b' ∈ bs, b'.parameter <+: s → b'.parameter.length ≤ b.parameter.length

/-- The number of bytes of a parameter. -/
def Binding.bytes (b : Binding) : Nat :=
  (String.ofList b.parameter).utf8ByteSize

/-- The bindings in the order in which a scan tries them : the parameters of more bytes first, and
those of equally many as they are declared. -/
def tried (bs : List Binding) : List Binding :=
  bs.mergeSort fun a b => b.bytes ≤ a.bytes

theorem Binding.bytes_lt {a b : Binding} (h : a.parameter <+: b.parameter)
    (hlt : a.parameter.length < b.parameter.length) : a.bytes < b.bytes := by
  obtain ⟨rest, hrest⟩ := h
  have hne : String.ofList rest ≠ "" := by
    rintro hnil
    obtain rfl : rest = [] := by simpa using hnil
    simp [← hrest] at hlt
  have hpos := Nat.pos_of_ne_zero (mt String.utf8ByteSize_eq_zero_iff.1 hne)
  rw [bytes, bytes, ← hrest, String.ofList_append, String.utf8ByteSize_append]
  omega

theorem bytes_trans (a b c : Binding) (hab : decide (b.bytes ≤ a.bytes) = true)
    (hbc : decide (c.bytes ≤ b.bytes) = true) : decide (c.bytes ≤ a.bytes) = true := by
  rw [decide_eq_true_eq] at *
  exact hbc.trans hab

theorem bytes_total (a b : Binding) :
    (decide (b.bytes ≤ a.bytes) || decide (a.bytes ≤ b.bytes)) = true := by
  simpa using le_total b.bytes a.bytes

theorem pairwise_tried (bs : List Binding) : (tried bs).Pairwise fun a b => b.bytes ≤ a.bytes :=
  (List.pairwise_mergeSort bytes_trans bytes_total bs).imp fun h => by simpa using h

/-- The bindings of one parameter are tried in the order of their declaration. -/
theorem filter_tried (bs : List Binding) (p : List Char) :
    (tried bs).filter (·.parameter == p) = bs.filter (·.parameter == p) := by
  have hperm : (tried bs).Perm bs := List.mergeSort_perm _ _
  have hsorted : (bs.filter (·.parameter == p)).Pairwise fun a b => b.bytes ≤ a.bytes := by
    refine List.pairwise_of_forall_mem_list fun a ha b hb => ?_
    have hpa : a.parameter = p := by simpa using (List.mem_filter.1 ha).2
    have hpb : b.parameter = p := by simpa using (List.mem_filter.1 hb).2
    rw [Binding.bytes, Binding.bytes, hpa, hpb]
  have hsub : (bs.filter (·.parameter == p)).Sublist (tried bs) :=
    List.sublist_mergeSort bytes_trans bytes_total (hsorted.imp fun h => by simpa using h)
      List.filter_sublist
  have hfilter := hsub.filter (·.parameter == p)
  rw [List.filter_filter] at hfilter
  simp only [Bool.and_self] at hfilter
  exact (hfilter.eq_of_length (hperm.filter _).length_eq.symm).symm

namespace Taken

variable {bs : List Binding} {s : List Char} {b : Binding}

/-- Every other parameter that starts the text is shorter. -/
theorem eq_or_lt (h : Taken bs s b) {b' : Binding} (hmem : b' ∈ bs) (hstarts : b'.parameter <+: s) :
    b'.parameter = b.parameter ∨ b'.parameter.length < b.parameter.length := by
  have hle := h.longest b' hmem hstarts
  exact hle.eq_or_lt.imp_left fun hlength => eq_of_starts hstarts h.starts hlength

theorem longest_eq (h : Taken bs s b) : Chars.longest (bs.filter (·.starts s)) = some b := by
  refine longest_eq_some ?_ fun b' hb' => ?_
  · rw [List.find?_filter, ← h.first]
    congr 1
    funext b'
    by_cases hb' : b'.parameter = b.parameter
    · simp [Binding.starts, hb', h.starts]
    · simp [hb']
  · obtain ⟨hmem, hstarts⟩ := List.mem_filter.1 hb'
    exact h.eq_or_lt hmem (List.isPrefixOf_iff_prefix.1 hstarts)

/-- The binding is the first that fits of those that are tried. -/
theorem find?_tried (h : Taken bs s b) :
    (tried bs).find? (·.parameter.isPrefixOf s) = some b := by
  have hfirst : (tried bs).find? (·.parameter == b.parameter) = some b := by
    rw [← List.head?_filter, filter_tried, List.head?_filter, h.first]
  obtain ⟨-, before, behind, hsplit, hbefore⟩ := List.find?_eq_some_iff_append.1 hfirst
  refine List.find?_eq_some_iff_append.2 ⟨by simpa using h.starts, before, behind, hsplit, ?_⟩
  intro a ha
  have hmem : a ∈ bs := by
    refine List.mem_mergeSort.1 (hsplit ▸ ?_ : a ∈ tried bs)
    simp [ha]
  have hbytes : b.bytes ≤ a.bytes := by
    have hpairwise := hsplit ▸ pairwise_tried bs
    exact (List.pairwise_append.1 hpairwise).2.2 a ha b (by simp)
  by_contra hfits
  have hstarts : a.parameter <+: s := by simpa using hfits
  rcases h.eq_or_lt hmem hstarts with heq | hlt
  · simpa [heq] using hbefore a ha
  · have hprefix := List.prefix_of_prefix_length_le hstarts h.starts hlt.le
    exact absurd (Binding.bytes_lt hprefix hlt) hbytes.not_gt

end Taken

end Chars

/-! ## Cutting a template -/

namespace Template

/-- A piece of a template : a character, or an occurrence of a parameter. -/
inductive Piece
  | character (c : Char)
  | occurrence (parameter : String)
deriving DecidableEq, Repr

/-- The argument at the first position of a parameter, or else the parameter itself. -/
def argumentFor (parameters arguments : List String) (parameter : String) : String :=
  (arguments[parameters.idxOf parameter]?).getD parameter

theorem argumentFor_self (parameters : List String) (p : String) :
    argumentFor parameters parameters p = p := by
  by_cases hp : p ∈ parameters
  · rw [argumentFor, List.getElem?_idxOf hp, Option.getD_some]
  · rw [argumentFor, List.idxOf_eq_length hp, List.getElem?_length, Option.getD_none]

namespace Piece

/-- The piece as it stands in the template. -/
def text : Piece → List Char
  | character c => [c]
  | occurrence p => p.toList

/-- The piece with the argument put in. -/
def filled (parameters arguments : List String) : Piece → List Char
  | character c => [c]
  | occurrence p => (argumentFor parameters arguments p).toList

/-- The piece is what is to be cut off a text first : a character if no parameter starts the text,
and else the longest parameter that does. -/
def Fits (parameters : List String) (s : List Char) : Piece → Prop
  | character _ => ∀ p ∈ parameters, ¬p.toList <+: s
  | occurrence p => p ∈ parameters ∧ ∀ q ∈ parameters, q.toList <+: s → q.length ≤ p.length

variable {parameters : List String} {s : List Char} {piece piece' : Piece}

theorem Fits.text_ne_nil (h : piece.Fits parameters s) (hne : ∀ p ∈ parameters, p ≠ "") :
    piece.text ≠ [] := by
  cases piece with
  | character c => simp [text]
  | occurrence p => simpa [text] using hne p h.1

/-- Only one piece can be cut off a text. -/
theorem Fits.unique (h : piece.Fits parameters s) (hstart : piece.text <+: s)
    (h' : piece'.Fits parameters s) (hstart' : piece'.text <+: s) : piece = piece' := by
  cases piece with
  | character c =>
    cases piece' with
    | character d =>
      have hcd : [c] = [d] := Chars.eq_of_starts hstart hstart' rfl
      rw [List.singleton_inj.1 hcd]
    | occurrence q => exact absurd hstart' (h q h'.1)
  | occurrence p =>
    cases piece' with
    | character d => exact absurd hstart (h' p h.1)
    | occurrence q =>
      have hlength : p.length = q.length :=
        le_antisymm (h'.2 p h.1 hstart) (h.2 q h'.1 hstart')
      rw [String.toList_inj.1 (Chars.eq_of_starts hstart hstart' hlength)]

/-- Some piece can be cut off a text that is not empty. -/
theorem exists_fits (parameters : List String) (hs : s ≠ []) :
    ∃ piece : Piece, piece.Fits parameters s ∧ piece.text <+: s := by
  let starting := (parameters.filter fun p => p.toList.isPrefixOf s).toFinset
  have hstarting : ∀ p, p ∈ starting ↔ p ∈ parameters ∧ p.toList <+: s := by
    simp [starting]
  by_cases hany : starting.Nonempty
  · obtain ⟨p, hp, hlongest⟩ := starting.exists_max_image String.length hany
    obtain ⟨hmem, hstart⟩ := (hstarting p).1 hp
    exact ⟨.occurrence p, ⟨hmem, fun q hq hs => hlongest q ((hstarting q).2 ⟨hq, hs⟩)⟩, hstart⟩
  · obtain ⟨c, rest, rfl⟩ := List.exists_cons_of_ne_nil hs
    exact ⟨.character c, fun p hp hstart => hany ⟨p, (hstarting p).2 ⟨hp, hstart⟩⟩, rest, rfl⟩

end Piece

/-- The template falls into the pieces, from left to right. -/
def Cuts (parameters : List String) : List Piece → List Char → Prop
  | [], s => s = []
  | piece :: pieces, s =>
    piece.Fits parameters s ∧ ∃ rest, s = piece.text ++ rest ∧ Cuts parameters pieces rest

section

variable {parameters : List String} {s : List Char} {pieces pieces' : List Piece}

/-- Every template can be cut : a piece is never empty, so what is left gets shorter. -/
theorem exists_cuts (hne : ∀ p ∈ parameters, p ≠ "") (s : List Char) :
    ∃ pieces, Cuts parameters pieces s := by
  induction hn : s.length using Nat.strong_induction_on generalizing s with
  | h n ih =>
    by_cases hs : s = []
    · exact ⟨[], hs⟩
    · obtain ⟨piece, hfits, rest, rfl⟩ := Piece.exists_fits parameters hs
      have hpos : 0 < piece.text.length := List.length_pos_iff.2 (hfits.text_ne_nil hne)
      obtain ⟨pieces, hpieces⟩ := ih rest.length (by simp at hn; omega) rest rfl
      exact ⟨piece :: pieces, hfits, rest, rfl, hpieces⟩

theorem Cuts.unique (hne : ∀ p ∈ parameters, p ≠ "") (h : Cuts parameters pieces s)
    (h' : Cuts parameters pieces' s) : pieces = pieces' := by
  induction pieces generalizing s pieces' with
  | nil =>
    obtain rfl := h
    cases pieces' with
    | nil => rfl
    | cons piece' pieces' =>
      obtain ⟨hfits, rest, hrest, -⟩ := h'
      exact absurd (List.append_eq_nil_iff.1 hrest.symm).1 (hfits.text_ne_nil hne)
  | cons piece pieces ih =>
    obtain ⟨hfits, rest, rfl, hpieces⟩ := h
    cases pieces' with
    | nil => exact absurd (List.append_eq_nil_iff.1 h').1 (hfits.text_ne_nil hne)
    | cons piece' pieces' =>
      obtain ⟨hfits', rest', hrest, hpieces'⟩ := h'
      obtain rfl := hfits.unique ⟨rest, rfl⟩ hfits' ⟨rest', hrest.symm⟩
      obtain rfl := List.append_cancel_left hrest
      rw [ih hpieces hpieces']

theorem Cuts.flatMap_text (h : Cuts parameters pieces s) : pieces.flatMap Piece.text = s := by
  induction pieces generalizing s with
  | nil => exact h.symm
  | cons piece pieces ih =>
    obtain ⟨-, rest, rfl, hpieces⟩ := h
    rw [List.flatMap_cons, ih hpieces]

end

/-! ## Instantiation -/

section

variable {parameters arguments : List String} {p : String} {s rest : List Char} {piece : Piece}
  {pieces : List Piece}

theorem parameter_of_mem_bindings {b : Chars.Binding}
    (h : b ∈ Chars.bindings parameters arguments) : ∃ p ∈ parameters, b.parameter = p.toList := by
  induction parameters generalizing arguments with
  | nil => cases h
  | cons p ps ih =>
    cases arguments with
    | nil | cons a as =>
      rcases List.mem_cons.1 h with rfl | h
      · exact ⟨p, by simp, rfl⟩
      · obtain ⟨q, hq, hb⟩ := ih h
        exact ⟨q, List.mem_cons_of_mem _ hq, hb⟩

theorem find?_bindings (h : p ∈ parameters) (arguments : List String) :
    (Chars.bindings parameters arguments).find? (·.parameter == p.toList) =
      some ⟨p.toList, (argumentFor parameters arguments p).toList⟩ := by
  induction parameters generalizing arguments with
  | nil => cases h
  | cons q ps ih =>
    by_cases hq : q = p
    · subst hq
      cases arguments <;> simp [Chars.bindings, argumentFor]
    · have hp : p ∈ ps := List.mem_of_ne_of_mem (Ne.symm hq) h
      have hidx : (q :: ps).idxOf p = ps.idxOf p + 1 := List.idxOf_cons_ne ps hq
      cases arguments with
      | nil => simpa [Chars.bindings, argumentFor, String.toList_inj, hq] using ih hp []
      | cons a as => simpa [Chars.bindings, argumentFor, String.toList_inj, hq, hidx] using ih hp as

theorem Piece.Fits.taken (h : (Piece.occurrence p).Fits parameters s) (hstart : p.toList <+: s)
    (arguments : List String) : Chars.Taken (Chars.bindings parameters arguments) s
      ⟨p.toList, (argumentFor parameters arguments p).toList⟩ where
  first := find?_bindings h.1 arguments
  starts := hstart
  longest b hb hstarts := by
    obtain ⟨q, hq, hparameter⟩ := parameter_of_mem_bindings hb
    rw [hparameter] at hstarts ⊢
    exact h.2 q hq hstarts

theorem Piece.Fits.not_starts {c : Char} (h : (Piece.character c).Fits parameters s)
    {b : Chars.Binding} (hb : b ∈ Chars.bindings parameters arguments) : ¬b.parameter <+: s := by
  obtain ⟨q, hq, hparameter⟩ := parameter_of_mem_bindings hb
  exact hparameter ▸ h q hq

theorem substitute_skip (bs : List Chars.Binding) (u s : List Char) :
    Chars.substitute bs u.length (u ++ s) = Chars.substitute bs 0 s := by
  induction u with
  | nil => rfl
  | cons c u ih => exact ih

/-- Substitution takes one piece off a template, if the piece is not empty. -/
theorem Piece.Fits.substitute_eq (h : piece.Fits parameters (piece.text ++ rest))
    (hne : piece.text ≠ []) :
    Chars.substitute (Chars.bindings parameters arguments) 0 (piece.text ++ rest) =
      piece.filled parameters arguments ++
        Chars.substitute (Chars.bindings parameters arguments) 0 rest := by
  cases piece with
  | character c =>
    have hnone : (Chars.bindings parameters arguments).filter (·.starts (c :: rest)) = [] := by
      rw [List.filter_eq_nil_iff]
      intro b hb hstarts
      exact h.not_starts hb (List.isPrefixOf_iff_prefix.1 hstarts)
    simp [text, filled, Chars.substitute, hnone, Chars.longest]
  | occurrence p =>
    have hlongest := (h.taken ⟨rest, rfl⟩ arguments).longest_eq
    obtain ⟨c, u, hp⟩ := List.exists_cons_of_ne_nil hne
    rw [hp, List.cons_append] at hlongest ⊢
    rw [Chars.substitute, hlongest]
    simp only [text] at hp
    simp only [hp, filled, List.length_cons, Nat.add_one_sub_one, substitute_skip]

theorem Cuts.instantiate_eq {template : String} (h : Cuts parameters pieces template.toList)
    (hne : ∀ p ∈ parameters, p ≠ "") (arguments : List String) :
    (instantiate template parameters arguments).toList =
      pieces.flatMap (Piece.filled parameters arguments) := by
  rw [instantiate, String.toList_ofList]
  generalize template.toList = s at h
  induction pieces generalizing s with
  | nil =>
    obtain rfl := h
    rfl
  | cons piece pieces ih =>
    obtain ⟨hfits, rest, rfl, hpieces⟩ := h
    rw [hfits.substitute_eq (hfits.text_ne_nil hne), ih rest hpieces, List.flatMap_cons]

end

/-! ## The loop -/

/-- A template that is being read : what was put out for the part that is read, and the part that is
left. -/
structure Scan where
  output : List Char
  rest : List Char
deriving DecidableEq, Repr

namespace Scan

/-- One round of the loop, if something is left to read. An empty parameter is tried like the
others. -/
def step (bs : List Chars.Binding) : Scan → Option Scan
  | ⟨_, []⟩ => none
  | ⟨output, c :: s⟩ =>
    match (Chars.tried bs).find? (·.parameter.isPrefixOf (c :: s)) with
    | none => some ⟨output ++ [c], s⟩
    | some b => some ⟨output ++ b.value, (c :: s).drop b.parameter.length⟩

theorem rest_of_step_eq_none {bs : List Chars.Binding} {scan : Scan} (h : scan.step bs = none) :
    scan.rest = [] := by
  obtain ⟨output, _ | ⟨c, s⟩⟩ := scan
  · rfl
  · rw [step] at h
    split at h <;> cases h

/-- Some rounds of the loop lead from one scan to the other. -/
def Steps (bs : List Chars.Binding) : Scan → Scan → Prop :=
  Relation.ReflTransGen fun scan scan' => scan.step bs = some scan'

/-- The loop comes to an end, and has put out the text. -/
def Ends (bs : List Chars.Binding) (scan : Scan) (output : List Char) : Prop :=
  ∃ last, Steps bs scan last ∧ last.step bs = none ∧ last.output = output

end Scan

section

variable {parameters arguments : List String} {output rest : List Char} {piece : Piece}

/-- A round of the loop takes one piece off a template, be it an empty one. -/
theorem Piece.Fits.step_eq (h : piece.Fits parameters (piece.text ++ rest))
    (hne : piece.text ++ rest ≠ []) :
    Scan.step (Chars.bindings parameters arguments) ⟨output, piece.text ++ rest⟩ =
      some ⟨output ++ piece.filled parameters arguments, rest⟩ := by
  cases piece with
  | character c =>
    have hnone : (Chars.tried (Chars.bindings parameters arguments)).find?
        (·.parameter.isPrefixOf (c :: rest)) = none := by
      rw [List.find?_eq_none]
      intro b hb
      rw [List.isPrefixOf_iff_prefix]
      exact h.not_starts (List.mem_mergeSort.1 hb)
    simp [text, filled, Scan.step, hnone]
  | occurrence p =>
    have hfind := (h.taken ⟨rest, rfl⟩ arguments).find?_tried
    obtain ⟨c, u, hs⟩ := List.exists_cons_of_ne_nil hne
    rw [hs] at hfind ⊢
    rw [Scan.step, hfind, ← hs]
    simp [filled, text]

theorem Cuts.steps {pieces : List Piece} {s : List Char} (h : Cuts parameters pieces s)
    (hne : ∀ p ∈ parameters, p ≠ "") (arguments : List String) (output : List Char) :
    Scan.Steps (Chars.bindings parameters arguments) ⟨output, s⟩
      ⟨output ++ pieces.flatMap (Piece.filled parameters arguments), []⟩ := by
  induction pieces generalizing s output with
  | nil =>
    obtain rfl := h
    rw [List.flatMap_nil, List.append_nil]
    exact Relation.ReflTransGen.refl
  | cons piece pieces ih =>
    obtain ⟨hfits, rest, rfl, hpieces⟩ := h
    have hsteps := ih hpieces (output ++ piece.filled parameters arguments)
    rw [List.append_assoc, ← List.flatMap_cons] at hsteps
    have hpiece : piece.text ++ rest ≠ [] := by simp [hfits.text_ne_nil hne]
    exact Relation.ReflTransGen.head (hfits.step_eq hpiece) hsteps

/-- Without an empty parameter the loop ends with the instantiated template. -/
theorem ends_instantiate (hne : ∀ p ∈ parameters, p ≠ "") (template : String)
    (arguments : List String) : Scan.Ends (Chars.bindings parameters arguments)
      ⟨[], template.toList⟩ (instantiate template parameters arguments).toList := by
  obtain ⟨pieces, hcuts⟩ := exists_cuts hne template.toList
  exact ⟨_, hcuts.steps hne arguments [], rfl, (hcuts.instantiate_eq hne arguments).symm⟩

/-- Where nothing but an empty parameter fits, the loop goes on for ever. -/
theorem Piece.Fits.not_ends {s text : List Char} (h : piece.Fits parameters s)
    (hempty : piece.text = []) (hs : s ≠ []) :
    ¬Scan.Ends (Chars.bindings parameters arguments) ⟨output, s⟩ text := by
  have hstep : ∀ output, Scan.step (Chars.bindings parameters arguments) ⟨output, s⟩ =
      some ⟨output ++ piece.filled parameters arguments, s⟩ := by
    intro output
    have hround : Scan.step (Chars.bindings parameters arguments) ⟨output, piece.text ++ s⟩ =
        some ⟨output ++ piece.filled parameters arguments, s⟩ :=
      Piece.Fits.step_eq (by rwa [hempty]) (by simpa [hempty] using hs)
    rwa [hempty, List.nil_append] at hround
  have hrest : ∀ scan, Scan.Steps (Chars.bindings parameters arguments) ⟨output, s⟩ scan →
      scan.rest = s := by
    intro scan hsteps
    induction hsteps with
    | refl => rfl
    | @tail scan scan' _ hround ih =>
      obtain rfl : scan.rest = s := ih
      exact (congrArg Scan.rest (Option.some.inj ((hstep _).symm.trans hround))).symm
  rintro ⟨last, hsteps, hlast, -⟩
  exact hs ((hrest last hsteps).symm.trans (Scan.rest_of_step_eq_none hlast))

/-- A loop that ends has put out what substitution gives. -/
theorem Scan.Ends.output_eq {s text : List Char}
    (h : Scan.Ends (Chars.bindings parameters arguments) ⟨output, s⟩ text) :
    text = output ++ Chars.substitute (Chars.bindings parameters arguments) 0 s := by
  obtain ⟨last, hsteps, hlast, rfl⟩ := h
  suffices hfrom : ∀ scan, Scan.Steps (Chars.bindings parameters arguments) scan last →
      last.output = scan.output ++
        Chars.substitute (Chars.bindings parameters arguments) 0 scan.rest from
    hfrom _ hsteps
  intro scan hscan
  induction hscan using Relation.ReflTransGen.head_induction_on with
  | refl =>
    rw [Scan.rest_of_step_eq_none hlast, Chars.substitute, List.append_nil]
  | @head scan scan' hround hlater ih =>
    obtain ⟨out, s⟩ := scan
    have hs : s ≠ [] := by
      rintro rfl
      cases hround
    obtain ⟨piece, hfits, rest, rfl⟩ := Piece.exists_fits parameters hs
    by_cases hempty : piece.text = []
    · exact absurd ⟨last, .head hround hlater, hlast, rfl⟩ (hfits.not_ends hempty hs)
    · obtain rfl := Option.some.inj ((hfits.step_eq hs).symm.trans hround)
      rw [ih, hfits.substitute_eq hempty, List.append_assoc]

/-- A loop that ends has put out the instantiated template. -/
theorem Scan.Ends.eq_instantiate {template : String} {text : List Char}
    (h : Scan.Ends (Chars.bindings parameters arguments) ⟨[], template.toList⟩ text) :
    text = (instantiate template parameters arguments).toList := by
  rw [h.output_eq, instantiate, String.toList_ofList, List.nil_append]

end

end Template

/-- No macro of the table has an empty parameter. -/
def MacroTable.NoEmptyParameter (table : MacroTable) : Prop :=
  ∀ m ∈ table.entries, ∀ p ∈ m.parameters, p ≠ ""

instance (table : MacroTable) : Decidable table.NoEmptyParameter :=
  inferInstanceAs (Decidable (∀ m ∈ table.entries, ∀ p ∈ m.parameters, p ≠ ""))

theorem Extraction.noEmptyParameter_table (lines : List Line) :
    (ofLines lines).table.NoEmptyParameter :=
  fun _ hm p hp => ((writable_of_mem hm).parameters p hp).nonempty

namespace Template

/-- An instantiated template is the template cut, from left to right, into characters at which no
parameter starts and occurrences of the longest parameter that starts there, with the argument at
the first position of the parameter for each occurrence, or the parameter itself where there is no
such argument. The loop that does this ends, since no parameter is empty, and extraction files no
empty one. Without arguments, and with the parameters for arguments, the template stays as it is. -/
theorem instantiation_leftmost_longest :
    (∀ lines, ∀ m ∈ (Extraction.ofLines lines).table.entries, ∀ p ∈ m.parameters, p ≠ "") ∧
      ∀ (template : String) (parameters arguments : List String), (∀ p ∈ parameters, p ≠ "") →
        Scan.Ends (Chars.bindings parameters arguments) ⟨[], template.toList⟩
          (instantiate template parameters arguments).toList ∧
        (∃ pieces, (∀ pieces', Cuts parameters pieces' template.toList ↔ pieces' = pieces) ∧
          (instantiate template parameters arguments).toList =
            pieces.flatMap (Piece.filled parameters arguments)) ∧
        instantiate template parameters [] = template ∧
        instantiate template parameters parameters = template := by
  refine ⟨Extraction.noEmptyParameter_table, fun template parameters arguments hne => ?_⟩
  obtain ⟨pieces, hcuts⟩ := exists_cuts hne template.toList
  have hinstantiate := hcuts.instantiate_eq hne
  have hkept : ∀ arguments, Piece.filled parameters arguments = Piece.text →
      instantiate template parameters arguments = template := by
    intro arguments hfilled
    rw [← String.toList_inj, hinstantiate, hfilled, hcuts.flatMap_text]
  refine ⟨ends_instantiate hne template arguments,
    ⟨pieces, fun pieces' => ⟨fun h => h.unique hne hcuts, fun h => h ▸ hcuts⟩,
      hinstantiate arguments⟩, hkept [] ?_, hkept parameters ?_⟩
  · funext piece
    cases piece <;> rfl
  · funext piece
    cases piece with
    | character c => rfl
    | occurrence p => rw [Piece.filled, argumentFor_self]; rfl

/-- A macro with a parameter that starts another, one that is declared twice, one of two bytes, and
an empty place between commas. -/
def overlappingLines : List Line :=
  Line.ofUnit "m" "<command^crt>\nf(a, ab, , a, ç)\nab + aab - ça"

theorem instantiation_leftmost_longest_overlapping :
    (Extraction.ofLines overlappingLines).table.entries.map Macro.parameters =
        [["a", "ab", "a", "ç"]] ∧
      instantiate "ab + aab - ça" ["a", "ab", "a", "ç"] ["ab", "1"] = "1 + ab1 - çab" ∧
      Scan.Ends (Chars.bindings ["a", "ab", "a", "ç"] ["ab", "1"]) ⟨[], "ab + aab - ça".toList⟩
        "1 + ab1 - çab".toList ∧
      instantiate "ab + aab - ça" ["a", "ab", "a", "ç"] [] = "ab + aab - ça" := by
  have hentries : (Extraction.ofLines overlappingLines).table.entries.map Macro.parameters =
      [["a", "ab", "a", "ç"]] := by
    decide
  have hvalue : instantiate "ab + aab - ça" ["a", "ab", "a", "ç"] ["ab", "1"] =
      "1 + ab1 - çab" := by
    decide
  obtain ⟨hfiled, hinstantiate⟩ := instantiation_leftmost_longest
  obtain ⟨m, hm, hparameters⟩ := List.map_eq_singleton_iff.1 hentries
  have hne := hfiled overlappingLines m (by simp [hm])
  rw [hparameters] at hne
  obtain ⟨hends, -, hnone, -⟩ := hinstantiate "ab + aab - ça" _ ["ab", "1"] hne
  exact ⟨hentries, hvalue, hvalue ▸ hends, hnone⟩

/-! ## The order of declaration -/

section

variable {parameters arguments parameters' arguments' : List String}

theorem Cuts.of_mem_iff {pieces : List Piece} {s : List Char}
    (hmem : ∀ p, p ∈ parameters ↔ p ∈ parameters') (h : Cuts parameters pieces s) :
    Cuts parameters' pieces s := by
  induction pieces generalizing s with
  | nil => exact h
  | cons piece pieces ih =>
    obtain ⟨hfits, rest, rfl, hpieces⟩ := h
    refine ⟨?_, rest, rfl, ih hpieces⟩
    cases piece with
    | character c => exact fun p hp => hfits p ((hmem p).2 hp)
    | occurrence p => exact ⟨(hmem p).1 hfits.1, fun q hq => hfits.2 q ((hmem q).2 hq)⟩

theorem argumentFor_of_mem_zip (hnodup : parameters.Nodup) {p a : String}
    (h : (p, a) ∈ parameters.zip arguments) : argumentFor parameters arguments p = a := by
  obtain ⟨i, hi⟩ := List.mem_iff_getElem?.1 h
  obtain ⟨hp, ha⟩ := List.getElem?_zip_eq_some.1 hi
  obtain ⟨hlt, rfl⟩ := List.getElem?_eq_some_iff.1 hp
  rw [argumentFor, hnodup.idxOf_getElem, ha, Option.getD_some]

theorem argumentFor_of_notMem (hlength : arguments.length = parameters.length) {p : String}
    (h : p ∉ parameters) : argumentFor parameters arguments p = p := by
  rw [argumentFor, List.idxOf_eq_length h, ← hlength, List.getElem?_length, Option.getD_none]

theorem perm_of_perm_zip (hlength : arguments.length = parameters.length)
    (hlength' : arguments'.length = parameters'.length)
    (hperm : (parameters.zip arguments).Perm (parameters'.zip arguments')) :
    parameters.Perm parameters' := by
  have hmap := hperm.map Prod.fst
  rwa [List.map_fst_zip hlength.ge, List.map_fst_zip hlength'.ge] at hmap

/-- Distinct parameters keep their arguments in any order of declaration. -/
theorem argumentFor_of_perm (hnodup : parameters.Nodup)
    (hlength : arguments.length = parameters.length)
    (hlength' : arguments'.length = parameters'.length)
    (hperm : (parameters.zip arguments).Perm (parameters'.zip arguments')) (p : String) :
    argumentFor parameters arguments p = argumentFor parameters' arguments' p := by
  have hparameters := perm_of_perm_zip hlength hlength' hperm
  by_cases hp : p ∈ parameters
  · have hfst : p ∈ (parameters.zip arguments).map Prod.fst := by
      rwa [List.map_fst_zip hlength.ge]
    obtain ⟨⟨p, a⟩, hpair, rfl⟩ := List.mem_map.1 hfst
    rw [argumentFor_of_mem_zip hnodup hpair,
      argumentFor_of_mem_zip (hparameters.nodup_iff.1 hnodup) (hperm.mem_iff.1 hpair)]
  · rw [argumentFor_of_notMem hlength hp,
      argumentFor_of_notMem hlength' (mt hparameters.mem_iff.2 hp)]

/-- Instantiation does not depend on the order in which distinct parameters are declared, as long as
each keeps its argument. -/
theorem instantiate_declaration_order (hnodup : parameters.Nodup) (hne : ∀ p ∈ parameters, p ≠ "")
    (hlength : arguments.length = parameters.length)
    (hlength' : arguments'.length = parameters'.length)
    (hperm : (parameters.zip arguments).Perm (parameters'.zip arguments')) (template : String) :
    instantiate template parameters arguments = instantiate template parameters' arguments' := by
  have hmem : ∀ p, p ∈ parameters ↔ p ∈ parameters' := fun p =>
    (perm_of_perm_zip hlength hlength' hperm).mem_iff
  have hfilled : Piece.filled parameters arguments = Piece.filled parameters' arguments' := by
    funext piece
    cases piece with
    | character c => rfl
    | occurrence p =>
      rw [Piece.filled, Piece.filled, argumentFor_of_perm hnodup hlength hlength' hperm]
  obtain ⟨pieces, hcuts⟩ := exists_cuts hne template.toList
  have hne' : ∀ p ∈ parameters', p ≠ "" := fun p hp => hne p ((hmem p).2 hp)
  rw [← String.toList_inj, hcuts.instantiate_eq hne, (hcuts.of_mem_iff hmem).instantiate_eq hne',
    hfilled]

theorem instantiate_declaration_order_overlapping :
    (["ab", "ba", "a"].zip ["1", "2", "b"]).Perm (["a", "ba", "ab"].zip ["b", "2", "1"]) ∧
      instantiate "aba bab" ["ab", "ba", "a"] ["1", "2", "b"] = "1b 2b" ∧
      instantiate "aba bab" ["a", "ba", "ab"] ["b", "2", "1"] = "1b 2b" := by
  have hnodup : ["ab", "ba", "a"].Nodup := by decide
  have hne : ∀ p ∈ ["ab", "ba", "a"], p ≠ "" := by simp
  have hperm : (["ab", "ba", "a"].zip ["1", "2", "b"]).Perm
      (["a", "ba", "ab"].zip ["b", "2", "1"]) := by
    decide
  have hvalue : instantiate "aba bab" ["ab", "ba", "a"] ["1", "2", "b"] = "1b 2b" := by
    decide
  have horder := instantiate_declaration_order hnodup hne (by rfl) (by rfl) hperm "aba bab"
  exact ⟨hperm, hvalue, horder ▸ hvalue⟩

end

end Template

end ZScript
