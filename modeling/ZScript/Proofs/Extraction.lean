import ZScript.Macro.Extraction

/-!
# What extraction draws from a stream

Every line that extraction leaves in a stream is a line of the stream, and every template it files
is the text of one (`Extraction.drawn_ofLines`). `Drawn` is the invariant of a reading, `drawn_step`
is one step of it.
-/

namespace ZScript

namespace Catalog

variable {α : Type} [Named α]

theorem mem_insert {c : Catalog α} {a b : α} (h : b ∈ (c.insert a).entries) :
    b = a ∨ b ∈ c.entries := by
  unfold insert at h
  split at h
  · obtain ⟨b', hb', rfl⟩ := List.mem_map.1 h
    split
    · exact Or.inl rfl
    · exact Or.inr hb'
  · rcases List.mem_append.1 h with h | h
    · exact Or.inr h
    · exact Or.inl (List.mem_singleton.1 h)

theorem mem_insertAll {c : Catalog α} {as : List α} {b : α} (h : b ∈ (c.insertAll as).entries) :
    b ∈ c.entries ∨ b ∈ as := by
  unfold insertAll at h
  induction as generalizing c with
  | nil => exact Or.inl h
  | cons a as ih =>
    rcases ih h with h | h
    · rcases mem_insert h with rfl | h
      · exact Or.inr (by simp)
      · exact Or.inl h
    · exact Or.inr (by simp [h])

end Catalog

namespace Extraction

variable {p : Line → Prop}

/-- A text is that of a line with the property. -/
def TextOf (p : Line → Prop) (text : String) : Prop :=
  ∃ line, p line ∧ line.text = text

/-- All that was read so far comes from lines with the property : the lines left, the templates
filed and the templates of the block that is being read. -/
structure Drawn (p : Line → Prop) (r : ExtractionState × Extraction) : Prop where
  residual : ∀ line ∈ r.2.residual, p line
  filed : ∀ m ∈ r.2.table.entries, ∀ template ∈ m.body, TextOf p template
  pending : ∀ signature body, r.1 = .inside signature body →
    ∀ template ∈ body, TextOf p template

theorem residual_register (x : Extraction) (signature : Option (Signature × Origin))
    (body : Array String) : (x.register signature body).residual = x.residual := by
  unfold register
  split
  · rfl
  · dsimp only
    split <;> rfl

theorem drawn_register {x : Extraction} {signature : Option (Signature × Origin)}
    {body : Array String} (h : Drawn p (.inside signature body, x)) :
    Drawn p (.outside none, x.register signature body) := by
  cases signature with
  | none => exact ⟨h.residual, h.filed, fun s b hs => by cases hs⟩
  | some s =>
    obtain ⟨signature, origin⟩ := s
    have hbody := h.pending _ _ rfl
    refine ⟨?_, ?_, fun s b hs => by cases hs⟩
    · unfold register
      dsimp only
      split <;> exact h.residual
    · intro m hm
      rcases Catalog.mem_insert hm with rfl | hm
      · simpa using hbody
      · exact h.filed m hm

/-- Reading one more line with the property. -/
theorem drawn_step {r : ExtractionState × Extraction} {line : Line} (h : Drawn p r)
    (hline : p line) : Drawn p (step r line) := by
  obtain ⟨state, x⟩ := r
  cases state with
  | outside block =>
    have hkeep : ∀ block, Drawn p (.outside block, x.keep line) := by
      intro block
      refine ⟨fun l hl => ?_, h.filed, fun s b hs => by cases hs⟩
      rcases Array.mem_push.1 hl with hl | rfl
      · exact h.residual l hl
      · exact hline
    simp only [step]
    split
    · exact ⟨h.residual, h.filed, fun s b hs => by cases hs⟩
    · exact ⟨h.residual, h.filed, fun s b hs => by cases hs⟩
    · exact hkeep _
    · exact hkeep _
    · exact hkeep _
  | started start =>
    simp only [step]
    split
    · exact ⟨h.residual, h.filed, fun s b hs => by cases hs⟩
    · split
      · exact ⟨h.residual, h.filed, fun s b hs => by cases hs; simp⟩
      · exact ⟨h.residual, h.filed, fun s b hs => by cases hs; simp⟩
  | inside signature body =>
    simp only [step]
    split
    · exact drawn_register h
    · split
      · exact h
      · refine ⟨h.residual, h.filed, fun s b hs template ht => ?_⟩
        cases hs
        rcases Array.mem_push.1 ht with ht | rfl
        · exact h.pending _ _ rfl template ht
        · exact ⟨line, hline, rfl⟩

theorem drawn_foldl {r : ExtractionState × Extraction} {lines : List Line} (h : Drawn p r)
    (hlines : ∀ line ∈ lines, p line) : Drawn p (lines.foldl step r) := by
  induction lines generalizing r with
  | nil => exact h
  | cons line rest ih =>
    exact ih (drawn_step h (hlines line (by simp))) fun l hl => hlines l (by simp [hl])

theorem drawn_finish {r : ExtractionState × Extraction} (h : Drawn p r) :
    Drawn p (.outside none, finish r) := by
  obtain ⟨state, x⟩ := r
  cases state with
  | outside block => exact ⟨h.residual, h.filed, fun s b hs => by cases hs⟩
  | started start => exact ⟨h.residual, h.filed, fun s b hs => by cases hs⟩
  | inside signature body =>
    cases signature with
    | none => exact drawn_register h
    | some s =>
      have hnote : Drawn p (.inside (some s) body, x.note (.unclosedBlock s.1.name s.2)) :=
        ⟨h.residual, h.filed, h.pending⟩
      exact drawn_register hnote

/-- The lines left and the templates filed come from the lines of the stream. -/
theorem drawn_ofLines {lines : List Line} (h : ∀ line ∈ lines, p line) :
    (∀ line ∈ (ofLines lines).residual, p line) ∧
      ∀ m ∈ (ofLines lines).table.entries, ∀ template ∈ m.body, TextOf p template := by
  have hstart : Drawn p (.outside none, ({} : Extraction)) :=
    ⟨by simp, by simp [Catalog.empty], fun s b hs => by cases hs⟩
  have hend := drawn_finish (drawn_foldl hstart h)
  exact ⟨hend.residual, hend.filed⟩

end Extraction

end ZScript
