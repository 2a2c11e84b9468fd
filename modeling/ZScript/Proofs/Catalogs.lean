import Mathlib.Data.List.Induction
import ZScript.Catalog

/-!
# Things filed one after the other

Of things that are filed under one name the last is found (`Catalog.find?_insertAll`), and the names
stand in the order in which they first came, each once (`Catalog.names_ofList`,
`Catalog.nodup_names_ofList`).

A catalog can be filed into another one entry by entry. The second catalog then is what it would be
if all the things that went into the first had been filed into it as they came
(`Catalog.insertAll_entries_ofList`). A thing that took the place of an earlier one of its name is
filed there in that early place, and its own place, later, would have changed nothing more : what is
filed in between has other names, and a name that is there keeps its place
(`Catalog.insert_insert_comm`).
-/

namespace ZScript

namespace Catalog

variable {α : Type} [Named α]

@[simp] theorem insertAll_nil (c : Catalog α) : c.insertAll [] = c :=
  rfl

@[simp] theorem insertAll_cons (c : Catalog α) (a : α) (as : List α) :
    c.insertAll (a :: as) = (c.insert a).insertAll as :=
  rfl

theorem insertAll_append (c : Catalog α) (as bs : List α) :
    c.insertAll (as ++ bs) = (c.insertAll as).insertAll bs :=
  List.foldl_append

/-! ## What is found -/

/-- The last thing filed under a name is found. -/
theorem find?_insertAll (c : Catalog α) (as : List α) (name : String) :
    (c.insertAll as).find? name =
      (as.reverse.find? (Named.name · == name)).or (c.find? name) := by
  induction as generalizing c with
  | nil => simp
  | cons a as ih =>
    rw [insertAll_cons, ih, find?_insert, List.reverse_cons, List.find?_append, Option.or_assoc]
    congr 1
    by_cases ha : Named.name a = name <;> simp [ha]

theorem find?_ofList (as : List α) (name : String) :
    (ofList as).find? name = as.reverse.find? (Named.name · == name) := by
  rw [ofList, find?_insertAll]
  exact Option.or_none

theorem find?_ofList_append_cons {as bs : List α} {a : α}
    (h : ∀ b ∈ bs, Named.name b ≠ Named.name a) :
    (ofList (as ++ a :: bs)).find? (Named.name a) = some a := by
  have hnone : bs.reverse.find? (Named.name · == Named.name a) = none :=
    List.find?_eq_none.2 fun b hb => by simpa using h b (List.mem_reverse.1 hb)
  rw [find?_ofList, List.reverse_append, List.reverse_cons, List.append_assoc, List.find?_append,
    hnone, Option.none_or, List.singleton_append, List.find?_cons_of_pos (by simp)]

/-- A thing that is the only one of its name is found wherever it is filed. -/
theorem find?_insertAll_insert_of_fresh {c : Catalog α} {as : List α} {b : α}
    (h : (c.insertAll as).find? (Named.name b) = none) (name : String) :
    ((c.insert b).insertAll as).find? name =
      if Named.name b = name then some b else (c.insertAll as).find? name := by
  rw [find?_insertAll, find?_insertAll, find?_insert]
  by_cases hb : Named.name b = name
  · rw [find?_insertAll, hb, Option.or_eq_none_iff] at h
    rw [if_pos hb, if_pos hb, h.1, Option.none_or]
  · rw [if_neg hb, if_neg hb]

/-- Catalogs in which the same is found under every name are empty together. -/
theorem isEmpty_entries_congr {c d : Catalog α} (h : ∀ name, c.find? name = d.find? name) :
    c.entries.isEmpty = d.entries.isEmpty := by
  have hnames : ∀ name, name ∈ c.names ↔ name ∈ d.names := by
    intro name
    rw [← not_iff_not, ← find?_eq_none_iff, ← find?_eq_none_iff, h]
  have hempty : ∀ e : Catalog α, e.entries.isEmpty = true ↔ ∀ name, name ∉ e.names := by
    intro e
    rw [List.isEmpty_iff, ← List.eq_nil_iff_forall_not_mem, names, List.map_eq_nil_iff]
  rw [Bool.eq_iff_iff, hempty, hempty]
  exact forall_congr' fun name => not_congr (hnames name)

/-! ## Names -/

/-- The names of the things filed, each where it first came. -/
theorem names_ofList (as : List α) : (ofList as).names = (as.map Named.name).eraseDups := by
  induction as using List.reverseRecOn with
  | nil => rfl
  | append_singleton as a ih =>
    have hinsert : ofList (as ++ [a]) = (ofList as).insert a := insertAll_append empty as [a]
    rw [hinsert, names_insert, ih, List.map_append, List.eraseDups_append]
    by_cases ha : Named.name a ∈ as.map Named.name
    · have hnone : [Named.name a].removeAll (as.map Named.name) = [] := by
        simpa [List.removeAll] using ha
      rw [if_pos (List.mem_eraseDups.2 ha), List.map_singleton, hnone]
      simp
    · have hone : [Named.name a].removeAll (as.map Named.name) = [Named.name a] := by
        simpa [List.removeAll] using ha
      rw [if_neg (mt List.mem_eraseDups.1 ha), List.map_singleton, hone]
      rfl

theorem nodup_names_insert {c : Catalog α} (h : c.names.Nodup) (a : α) :
    (c.insert a).names.Nodup := by
  rw [names_insert]
  split
  · exact h
  · rename_i ha
    exact List.nodup_append.2 ⟨h, by simp, by grind⟩

theorem nodup_names_insertAll {c : Catalog α} (h : c.names.Nodup) (as : List α) :
    (c.insertAll as).names.Nodup := by
  induction as generalizing c with
  | nil => exact h
  | cons a as ih => exact ih (nodup_names_insert h a)

theorem nodup_names_ofList (as : List α) : (ofList as).names.Nodup :=
  nodup_names_insertAll (c := empty) List.nodup_nil as

/-- Where no name comes twice, each thing is found under its name. -/
theorem find?_eq_some_iff {c : Catalog α} (h : c.names.Nodup) {name : String} {a : α} :
    c.find? name = some a ↔ a ∈ c.entries ∧ Named.name a = name := by
  constructor
  · intro hfind
    exact ⟨List.mem_of_find?_eq_some hfind, name_of_find? hfind⟩
  · rintro ⟨hmem, rfl⟩
    obtain ⟨before, after, hsplit⟩ := List.append_of_mem hmem
    rw [names, hsplit, List.map_append, List.map_cons] at h
    have hbefore : ∀ b ∈ before, Named.name b ≠ Named.name a := by
      intro b hb
      exact (List.nodup_append.1 h).2.2 _ (List.mem_map_of_mem hb) _ (by simp)
    rw [find?, hsplit, List.find?_append, List.find?_eq_none.2 (by simpa using hbefore)]
    simp

/-! ## Catalogs filed into catalogs -/

omit [Named α] in
theorem eq_of_entries_eq {c d : Catalog α} (h : c.entries = d.entries) : c = d := by
  cases c
  cases d
  exact congrArg Catalog.mk h

theorem entries_insert_of_mem {c : Catalog α} {a : α} (h : Named.name a ∈ c.names) :
    (c.insert a).entries = c.entries.map fun b => if Named.name b = Named.name a then a else b := by
  rw [insert, if_pos (contains_iff.2 h)]

theorem entries_insert_of_notMem {c : Catalog α} {a : α} (h : Named.name a ∉ c.names) :
    (c.insert a).entries = c.entries ++ [a] := by
  rw [insert, if_neg (mt contains_iff.1 h)]

theorem replace_of_ne {as : List α} {b : α} (h : ∀ a ∈ as, Named.name a ≠ Named.name b) :
    (as.map fun a => if Named.name a = Named.name b then b else a) = as := by
  conv_rhs => rw [← List.map_id as]
  exact List.map_congr_left fun a ha => if_neg (h a ha)

theorem mem_names_insert {c : Catalog α} {a : α} {name : String} :
    name ∈ (c.insert a).names ↔ name ∈ c.names ∨ name = Named.name a := by
  rw [names_insert]
  split
  · rename_i ha
    exact ⟨Or.inl, fun h => h.elim id fun hname => hname ▸ ha⟩
  · simp

/-- Things of new names are filed behind each other. -/
theorem entries_insertAll_of_nodup {c : Catalog α} {as : List α}
    (h : (c.names ++ as.map Named.name).Nodup) : (c.insertAll as).entries = c.entries ++ as := by
  induction as generalizing c with
  | nil => simp
  | cons a as ih =>
    have hfresh : Named.name a ∉ c.names := fun ha =>
      (List.nodup_append.1 h).2.2 _ ha _ (by simp) rfl
    have hnames : (c.insert a).names = c.names ++ [Named.name a] := by
      rw [names_insert, if_neg hfresh]
    rw [insertAll_cons, ih (by simpa [hnames] using h), entries_insert_of_notMem hfresh]
    simp

theorem entries_ofList_of_nodup {as : List α} (h : (as.map Named.name).Nodup) :
    (ofList as).entries = as :=
  entries_insertAll_of_nodup (c := empty) h

/-- A thing takes the place of one filed right before it under its name. -/
theorem insert_insert_of_eq {c : Catalog α} {a b : α} (h : Named.name a = Named.name b) :
    (c.insert a).insert b = c.insert b := by
  have hthere : Named.name b ∈ (c.insert a).names := mem_names_insert.2 (.inr h.symm)
  refine eq_of_entries_eq ?_
  rw [entries_insert_of_mem hthere]
  by_cases hb : Named.name b ∈ c.names
  · rw [entries_insert_of_mem (h ▸ hb), entries_insert_of_mem hb, List.map_map]
    refine List.map_congr_left fun e _ => ?_
    by_cases he : Named.name e = Named.name b <;> simp [h, he]
  · rw [entries_insert_of_notMem (h ▸ hb), entries_insert_of_notMem hb, List.map_append,
      replace_of_ne fun e he hname => hb (hname ▸ List.mem_map_of_mem he)]
    simp [h]

/-- A name that is there keeps its place, so it does not matter whether a thing of another name is
filed before or after the thing that gets the place. -/
theorem insert_insert_comm {c : Catalog α} {a b : α} (h : Named.name a ≠ Named.name b)
    (hb : Named.name b ∈ c.names) : (c.insert a).insert b = (c.insert b).insert a := by
  have hthere : Named.name b ∈ (c.insert a).names := mem_names_insert.2 (.inl hb)
  have ha : Named.name a ∈ (c.insert b).names ↔ Named.name a ∈ c.names := by
    simp [mem_names_insert, h]
  refine eq_of_entries_eq ?_
  rw [entries_insert_of_mem hthere]
  by_cases hold : Named.name a ∈ c.names
  · rw [entries_insert_of_mem hold, entries_insert_of_mem (ha.2 hold), entries_insert_of_mem hb,
      List.map_map, List.map_map]
    refine List.map_congr_left fun e _ => ?_
    by_cases hea : Named.name e = Named.name a
    · simp [hea, h]
    · by_cases heb : Named.name e = Named.name b <;> simp [hea, heb, Ne.symm h]
  · rw [entries_insert_of_notMem hold, entries_insert_of_notMem (mt ha.1 hold),
      entries_insert_of_mem hb, List.map_append]
    simp [h]

theorem insertAll_insert_comm {c : Catalog α} {as : List α} {b : α}
    (h : ∀ a ∈ as, Named.name a ≠ Named.name b) (hb : Named.name b ∈ c.names) :
    (c.insertAll as).insert b = (c.insert b).insertAll as := by
  induction as generalizing c with
  | nil => rfl
  | cons a as ih =>
    have hmem : Named.name b ∈ (c.insert a).names := mem_names_insert.2 (.inl hb)
    rw [insertAll_cons, ih (fun a ha => h a (by simp [ha])) hmem,
      insert_insert_comm (h a (by simp)) hb, insertAll_cons]

/-- Filing a list in which a thing replaced the one of its name is filing the list as it was, and
then the thing. -/
theorem insertAll_map_replace {c : Catalog α} {as : List α} {b : α}
    (hnodup : (as.map Named.name).Nodup) (hb : Named.name b ∈ as.map Named.name) :
    c.insertAll (as.map fun a => if Named.name a = Named.name b then b else a) =
      (c.insertAll as).insert b := by
  induction as generalizing c with
  | nil => simp at hb
  | cons a as ih =>
    obtain ⟨hfresh, hnodup⟩ := List.nodup_cons.1 hnodup
    by_cases ha : Named.name a = Named.name b
    · have hothers : ∀ a' ∈ as, Named.name a' ≠ Named.name b := by
        intro a' ha' heq
        exact hfresh (List.mem_map.2 ⟨a', ha', heq.trans ha.symm⟩)
      calc c.insertAll ((a :: as).map fun a => if Named.name a = Named.name b then b else a)
          = (c.insert b).insertAll as := by
            rw [List.map_cons, if_pos ha, replace_of_ne hothers, insertAll_cons]
        _ = ((c.insert a).insert b).insertAll as := by rw [insert_insert_of_eq ha]
        _ = (c.insertAll (a :: as)).insert b := by
            rw [insertAll_cons, insertAll_insert_comm hothers (mem_names_insert.2 (.inr ha.symm))]
    · have hmem : Named.name b ∈ as.map Named.name := by
        simpa [Ne.symm ha] using hb
      rw [List.map_cons, if_neg ha, insertAll_cons, insertAll_cons, ih hnodup hmem]

theorem insertAll_entries_insert {c d : Catalog α} (hd : d.names.Nodup) (a : α) :
    c.insertAll (d.insert a).entries = (c.insertAll d.entries).insert a := by
  by_cases ha : Named.name a ∈ d.names
  · rw [entries_insert_of_mem ha, insertAll_map_replace hd ha]
  · rw [entries_insert_of_notMem ha, insertAll_append]
    rfl

/-- Filing the entries of a catalog is filing all that went into it, in order. -/
theorem insertAll_entries_ofList (c : Catalog α) (as : List α) :
    c.insertAll (ofList as).entries = c.insertAll as := by
  induction as using List.reverseRecOn with
  | nil => rfl
  | append_singleton as a ih =>
    have hinsert : ofList (as ++ [a]) = (ofList as).insert a := insertAll_append empty as [a]
    rw [hinsert, insertAll_entries_insert (nodup_names_ofList as), ih, insertAll_append]
    rfl

end Catalog

end ZScript
