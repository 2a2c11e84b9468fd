import Mathlib.Algebra.BigOperators.Group.Finset.Basic
import ZScript.Proofs.Noninterference

/-!
# The work of bundling

A bundler counts the names that it resolves and the texts that it asks for. `Bundler.Booked` says
what these counts are between two states of a walk that goes well : each unit that was finished in
between was read once, and the names of its import lines were resolved once. A unit that is finished
already is not looked into, so the number of ways on which it is imported does not matter.

`bundleUnit_booked` proves this for the walk from one unit. The units that it finishes are different
from each other, since a unit on the active path is not finished and one that is finished is not
read. Between calls the finished units are those that the entries reach (`Bundler.Accounts`), which
turns the counts into numbers of units and import lines (`bundling_work_counted`).
-/

namespace ZScript

open Library

/-- The number of import lines in the units of a list. -/
def Library.importLines (lib : Library) (units : List String) : Nat :=
  (units.flatMap lib.requests).length

theorem Library.importLines_append (lib : Library) (units units' : List String) :
    lib.importLines (units ++ units') = lib.importLines units + lib.importLines units' := by
  rw [importLines, List.flatMap_append, List.length_append, importLines, importLines]

theorem Library.importLines_cons (lib : Library) (unit : String) (units : List String) :
    lib.importLines (unit :: units) = (lib.requests unit).length + lib.importLines units := by
  rw [importLines, List.flatMap_cons, List.length_append, importLines]

theorem exists_lookup_iff {finished : List (String × List Line)} {unit : String} :
    (∃ lines, finished.lookup unit = some lines) ↔ unit ∈ finished.map Prod.fst := by
  rw [← not_iff_not, not_exists, ← Option.eq_none_iff_forall_ne_some, List.lookup_eq_none_iff]
  simp only [List.mem_map, not_exists, not_and, bne_iff_ne]
  exact ⟨fun h p hp heq => h p hp heq.symm, fun h p hp heq => h p hp heq.symm⟩

namespace Bundler

variable {lib : Library} {roots roots' : String → Prop} {asked asked' : Nat}
  {new new' : List String} {b b' b'' : Bundler}

/-- The units that a bundler has finished, the last first. -/
def units (b : Bundler) : List String :=
  b.finished.map Prod.fst

/-! ## Between two states -/

/-- From the first state to the second the units `new` were finished, which are reached from the
roots. Each was read, and nothing else was. The names of their import lines were resolved, and
`asked` more names. -/
structure Booked (lib : Library) (roots : String → Prop) (asked : Nat) (new : List String)
    (b b' : Bundler) : Prop where
  units_eq : b'.units = new ++ b.units
  reads_eq : b'.reads = b.reads + new.length
  resolves_eq : b'.resolves = b.resolves + (asked + lib.importLines new)
  reached : ∀ unit ∈ new, ∃ root, roots root ∧ lib.Reaches root unit
  nodup : b.units.Nodup → b'.units.Nodup

namespace Booked

theorem refl (lib : Library) (roots : String → Prop) (b : Bundler) :
    Booked lib roots 0 [] b b :=
  ⟨rfl, rfl, rfl, by simp, id⟩

theorem trans (h : Booked lib roots asked new b b') (h' : Booked lib roots asked' new' b' b'') :
    Booked lib roots (asked + asked') (new' ++ new) b b'' where
  units_eq := by rw [h'.units_eq, h.units_eq, List.append_assoc]
  reads_eq := by
    rw [h'.reads_eq, h.reads_eq, List.length_append]
    omega
  resolves_eq := by
    rw [h'.resolves_eq, h.resolves_eq, importLines_append]
    omega
  reached unit hunit := (List.mem_append.1 hunit).elim (h'.reached unit) (h.reached unit)
  nodup hb := h'.nodup (h.nodup hb)

theorem mono (h : Booked lib roots asked new b b') (hroots : ∀ root, roots root → roots' root) :
    Booked lib roots' asked new b b' where
  units_eq := h.units_eq
  reads_eq := h.reads_eq
  resolves_eq := h.resolves_eq
  reached unit hunit := by
    obtain ⟨root, hroot, hreaches⟩ := h.reached unit hunit
    exact ⟨root, hroots root hroot, hreaches⟩
  nodup := h.nodup

theorem note (h : Booked lib roots asked new b b') (e : Event) :
    Booked lib roots asked new b (b'.note e) :=
  ⟨h.units_eq, h.reads_eq, h.resolves_eq, h.reached, h.nodup⟩

/-- Resolving a name comes on top. -/
theorem of_countResolve (h : Booked lib roots asked new b.countResolve b') :
    Booked lib roots (1 + asked) new b b' where
  units_eq := h.units_eq
  reads_eq := h.reads_eq
  resolves_eq := by
    have hone : b.countResolve.resolves = b.resolves + 1 := rfl
    rw [h.resolves_eq, hone]
    omega
  reached := h.reached
  nodup := h.nodup

/-- A unit is read, what its import lines name is bundled, and the unit is kept. -/
theorem remember {unit : String} {path : List String} {lines : List Line}
    (h : Booked lib (lib.Imports unit) (lib.requests unit).length new
      (b.countRead.note (.bundlingUnit unit path)) b') (hfresh : unit ∉ b'.units) :
    Booked lib (· = unit) 0 (unit :: new) b (b'.remember unit lines) where
  units_eq := congrArg (unit :: ·) h.units_eq
  reads_eq := by
    have hread : b'.reads = b.reads + 1 + new.length := h.reads_eq
    have hsame : (b'.remember unit lines).reads = b'.reads := rfl
    rw [hsame, hread, List.length_cons]
    omega
  resolves_eq := by
    have hresolve : b'.resolves = b.resolves + ((lib.requests unit).length + lib.importLines new) :=
      h.resolves_eq
    have hsame : (b'.remember unit lines).resolves = b'.resolves := rfl
    rw [hsame, hresolve, importLines_cons, Nat.zero_add]
  reached u hu := by
    rcases List.mem_cons.1 hu with rfl | hu
    · exact ⟨u, rfl, .refl⟩
    · obtain ⟨imported, himported, hreaches⟩ := h.reached u hu
      exact ⟨unit, rfl, .head himported hreaches⟩
  nodup hb := List.nodup_cons.2 ⟨hfresh, h.nodup hb⟩

end Booked

/-! ## The walk from one unit -/

/-- If the walk from every imported unit is booked, so is the walk through the lines of a unit : it
resolves one name for each import line, and the rest is done below. -/
theorem inlineImports_booked {path : ImportPath}
    {visit : String → Line → Bundler → Outcome (List Line)}
    (hvisit : ∀ unit line b ls b', Settled lib path b.finished → visit unit line b = (.ok ls, b') →
      Settled lib path b'.finished ∧ ∃ new, Booked lib (· = unit) 0 new b b')
    (lines out : List Line) (output : Array Line) (b b' : Bundler)
    (hb : Settled lib path b.finished)
    (h : inlineImports lib visit lines output b = (.ok out, b')) :
    Settled lib path b'.finished ∧ ∃ new,
      Booked lib (lib.ImportedBy lines) (lines.filterMap Line.importRequest?).length new b b' := by
  induction lines generalizing output b with
  | nil =>
    obtain ⟨-, rfl⟩ := Prod.mk.inj h
    exact ⟨hb, [], .refl lib _ b⟩
  | cons line rest ih =>
    have hrest : ∀ root, lib.ImportedBy rest root → lib.ImportedBy (line :: rest) root :=
      fun root hroot => importedBy_cons.2 (.inr hroot)
    cases hline : line.importRequest? with
    | none =>
      simp only [inlineImports, hline] at h
      obtain ⟨hsettled, new, hnew⟩ := ih _ b hb h
      exact ⟨hsettled, new, by simpa [hline] using hnew.mono hrest⟩
    | some requested =>
      cases hmeans : lib.resolve? requested with
      | none => simp [inlineImports, hline, hmeans] at h
      | some unit =>
        simp only [inlineImports, hline, hmeans] at h
        rcases hstep : visit unit line b.countResolve with ⟨fault | ls, mid⟩
        · simp [hstep] at h
        · simp only [hstep] at h
          obtain ⟨hmid, below, hbelow⟩ := hvisit unit line b.countResolve ls mid hb hstep
          obtain ⟨hsettled, later, hlater⟩ := ih _ mid hmid h
          have hunit : ∀ root, root = unit → lib.ImportedBy (line :: rest) root := by
            rintro root rfl
            exact importedBy_cons.2 (.inl ⟨requested, hline, hmeans⟩)
          have hall := (hbelow.of_countResolve.mono hunit).trans (hlater.mono hrest)
          refine ⟨hsettled, later ++ below, ?_⟩
          rw [List.filterMap_cons_some hline, List.length_cons, Nat.add_comm]
          exact hall

/-- A walk that bundles a unit is booked : it reads the units that it finishes and resolves the
names of their import lines. -/
theorem bundleUnit_booked (path : ImportPath) (unit : String) (site : Option Line) (b : Bundler)
    (lines : List Line) (b' : Bundler) (hb : Settled lib path b.finished)
    (h : bundleUnit lib path unit site b = (.ok lines, b')) :
    ∃ new, Booked lib (· = unit) 0 new b b' := by
  cases hp : path.cycleTo? unit with
  | some cycle => simp [bundleUnit_of_cycle hp] at h
  | none =>
    cases hf : b.finished.lookup unit with
    | some kept =>
      rw [bundleUnit_of_finished hp hf] at h
      obtain ⟨-, rfl⟩ := Prod.mk.inj h
      exact ⟨[], (Booked.refl lib _ b).note _⟩
    | none =>
      cases hs : lib.source? unit with
      | none => simp [bundleUnit_of_missing hp hf hs] at h
      | some text =>
        have hvisit : ∀ imported line b ls b', Settled lib (path.push unit) b.finished →
            bundleUnit lib (path.push unit) imported (some line) b = (.ok ls, b') →
            Settled lib (path.push unit) b'.finished ∧
              ∃ new, Booked lib (· = imported) 0 new b b' := by
          intro imported line b ls b' hb hstep
          have hfaithful := bundleUnit_faithful (path.push unit) imported (some line) b hb
          rw [hstep] at hfaithful
          exact ⟨hfaithful.settled,
            bundleUnit_booked (path.push unit) imported (some line) b ls b' hb hstep⟩
        rw [bundleUnit_of_text hp hf hs] at h
        split at h
        · simp at h
        · rename_i ls mid hin
          obtain ⟨-, rfl⟩ := Prod.mk.inj h
          obtain ⟨hmid, new, hnew⟩ := inlineImports_booked hvisit (Line.ofUnit unit text) ls #[]
            (b.countRead.note (.bundlingUnit unit path.units)) mid (hb.push hf) hin
          have hfresh : unit ∉ mid.units := by
            rw [units, ← exists_lookup_iff, hmid.fresh unit (by simp [ImportPath.push])]
            simp
          have hnames : (Line.ofUnit unit text).filterMap Line.importRequest? =
              lib.requests unit := by
            rw [requests, hs]
          rw [hnames] at hnew
          exact ⟨unit :: new, (hnew.mono fun imported => (imports_iff hs).2).remember hfresh⟩
termination_by room lib path
decreasing_by exact room_push_lt (lib.mem_units hs) (ImportPath.cycleTo?_eq_none_iff.1 hp)

/-! ## Calls one after the other -/

/-- A bundler after it was asked for entries, one after the other. -/
def afterEach (lib : Library) (b : Bundler) (entries : List String) : Bundler :=
  entries.foldl (fun b entry => (b.bundle lib entry).2) b

/-- What a bundler has kept and counted after it has bundled the entries and nothing else. -/
structure Accounts (lib : Library) (entries : List String) (b : Bundler) : Prop where
  settled : Settled lib {} b.finished
  nodup : b.units.Nodup
  reads_eq : b.reads = b.units.length
  resolves_eq : b.resolves = entries.length + lib.importLines b.units
  mem_units_iff : ∀ unit, unit ∈ b.units ↔
    ∃ entry ∈ entries, ∃ root, lib.resolve? entry = some root ∧ lib.Reaches root unit

/-- A call that goes well resolves one name, finishes the unit of that name, and is booked. -/
theorem bundle_booked (hb : Settled lib {} b.finished) {entry : String} {bundle : Bundle}
    (h : (b.bundle lib entry).1 = .ok bundle) : ∃ root new, lib.resolve? entry = some root ∧
      root ∈ (b.bundle lib entry).2.units ∧
        Booked lib (· = root) 1 new b (b.bundle lib entry).2 := by
  unfold Bundler.bundle at h ⊢
  cases hroot : lib.resolve? entry with
  | none => simp [hroot] at h
  | some root =>
    simp only [hroot] at h ⊢
    have hfaithful := bundleUnit_faithful {} root none b.countResolve hb
    rcases hstep : bundleUnit lib {} root none b.countResolve with ⟨fault | lines, b'⟩
    · simp [hstep] at h
    · rw [hstep] at hfaithful
      obtain ⟨new, hnew⟩ := bundleUnit_booked {} root none b.countResolve lines b' hb hstep
      have hfinished : root ∈ b'.units := exists_lookup_iff.1 (hfaithful.finishes rfl rfl)
      exact ⟨root, new, rfl, hfinished, hnew.of_countResolve.note _⟩

namespace Accounts

theorem start (lib : Library) : Accounts lib [] {} where
  settled := .nil lib {}
  nodup := List.nodup_nil
  reads_eq := rfl
  resolves_eq := rfl
  mem_units_iff unit := by simp [units]

/-- A call that goes well keeps the accounts. -/
theorem bundle {entries : List String} {entry : String} {result : Bundle}
    (h : Accounts lib entries b) (hok : (b.bundle lib entry).1 = .ok result) :
    Accounts lib (entries ++ [entry]) (b.bundle lib entry).2 := by
  obtain ⟨root, new, hroot, hfinished, hbooked⟩ := bundle_booked h.settled hok
  have hsettled := (bundle_faithful h.settled entry).2
  refine ⟨hsettled, hbooked.nodup h.nodup, ?_, ?_, fun unit => ⟨fun hunit => ?_, ?_⟩⟩
  · rw [hbooked.reads_eq, h.reads_eq, hbooked.units_eq, List.length_append, Nat.add_comm]
  · rw [hbooked.resolves_eq, h.resolves_eq, hbooked.units_eq, List.length_append,
      List.length_singleton, importLines_append]
    omega
  · rw [hbooked.units_eq] at hunit
    rcases List.mem_append.1 hunit with hunit | hunit
    · obtain ⟨root', rfl, hreaches⟩ := hbooked.reached unit hunit
      exact ⟨entry, by simp, root', hroot, hreaches⟩
    · obtain ⟨earlier, hearlier, hreached⟩ := (h.mem_units_iff unit).1 hunit
      exact ⟨earlier, by simp [hearlier], hreached⟩
  · rintro ⟨entry', hentry', root', hroot', hreaches⟩
    rcases List.mem_append.1 hentry' with hentry' | hentry'
    · have hearlier : unit ∈ b.units :=
        (h.mem_units_iff unit).2 ⟨entry', hentry', root', hroot', hreaches⟩
      rw [hbooked.units_eq]
      exact List.mem_append_right _ hearlier
    · obtain rfl := List.mem_singleton.1 hentry'
      obtain rfl := Option.some.inj (hroot.symm.trans hroot')
      obtain ⟨lines, hlines⟩ := exists_lookup_iff.2 hfinished
      exact exists_lookup_iff.1 (hsettled.reaches hlines hreaches)

theorem afterEach {entries : List String} (entries' : List String) (h : Accounts lib entries b)
    (hok : ∀ result ∈ bundleEach lib b entries', ∃ bundle, result = .ok bundle) :
    Accounts lib (entries ++ entries') (b.afterEach lib entries') := by
  induction entries' generalizing entries b with
  | nil =>
    rw [List.append_nil]
    exact h
  | cons entry entries' ih =>
    obtain ⟨⟨bundle, hbundle⟩, hrest⟩ := List.forall_mem_cons.1 hok
    rw [List.append_cons]
    exact ih (h.bundle hbundle) hrest

end Accounts

end Bundler

/-- A new bundler that is asked for entries, one after the other, and bundles all of them has read
each unit that an entry reaches once, and has resolved one name for each entry and one for each
line of these units that is an import. On how many ways a unit is reached does not matter. -/
theorem bundling_work_counted {lib : Library} {entries : List String}
    (hok : ∀ result ∈ Bundler.bundleEach lib {} entries, ∃ b, result = .ok b) :
    ∃ units : Finset String,
      (∀ unit, unit ∈ units ↔
        ∃ entry ∈ entries, ∃ root, lib.resolve? entry = some root ∧ lib.Reaches root unit) ∧
      (Bundler.afterEach lib {} entries).reads = units.card ∧
      (Bundler.afterEach lib {} entries).resolves =
        entries.length + ∑ unit ∈ units, (lib.requests unit).length := by
  have haccounts := (Bundler.Accounts.start lib).afterEach entries hok
  rw [List.nil_append] at haccounts
  refine ⟨(Bundler.afterEach lib {} entries).units.toFinset, fun unit => ?_, ?_, ?_⟩
  · rw [List.mem_toFinset, haccounts.mem_units_iff]
  · rw [haccounts.reads_eq, List.toFinset_card_of_nodup haccounts.nodup]
  · rw [haccounts.resolves_eq, List.sum_toFinset _ haccounts.nodup, importLines,
      List.length_flatMap]

/-- A unit that imports two units, both of which import a third one, the second of them twice. -/
def diamondFiles : FileSet :=
  ⟨[⟨"a.z", "<import^z=\"b.z\">\n<import^z=\"c.z\">"⟩, ⟨"b.z", "<import^z=\"d.z\">\n<set^b=1>"⟩,
    ⟨"c.z", "<import^z=\"d.z\">\n<import^z=\"d.z\">"⟩, ⟨"d.z", "<set^d=1>"⟩, ⟨"e.z", "<end^if>"⟩]⟩

/-- Three calls over the diamond, two of them for the same unit, read its four units once each. -/
theorem bundling_work_counted_diamondFiles :
    (∀ result ∈ Bundler.bundleEach (.ofFiles diamondFiles) {} ["a.z", "d", "a"],
      ∃ b, result = .ok b) ∧
    (Bundler.afterEach (.ofFiles diamondFiles) {} ["a.z", "d", "a"]).reads = 4 ∧
    (Bundler.afterEach (.ofFiles diamondFiles) {} ["a.z", "d", "a"]).resolves = 3 + 5 ∧
    ∃ units : Finset String, (∀ unit, unit ∈ units ↔ ∃ entry ∈ ["a.z", "d", "a"], ∃ root,
        diamondFiles.resolve? entry = some root ∧ (ofFiles diamondFiles).Reaches root unit) ∧
      units.card = 4 ∧ ∑ unit ∈ units, ((ofFiles diamondFiles).requests unit).length = 5 := by
  have hall : (Bundler.bundleEach (.ofFiles diamondFiles) {} ["a.z", "d", "a"]).all
      (·.toOption.isSome) = true := by
    decide +kernel
  have hok : ∀ result ∈ Bundler.bundleEach (.ofFiles diamondFiles) {} ["a.z", "d", "a"],
      ∃ b, result = .ok b := by
    intro result hresult
    obtain ⟨b, hb⟩ := Option.isSome_iff_exists.1 (List.all_eq_true.1 hall result hresult)
    exact ⟨b, toOption_eq_some_iff.1 hb⟩
  have hreads : (Bundler.afterEach (.ofFiles diamondFiles) {} ["a.z", "d", "a"]).reads = 4 := by
    decide +kernel
  have hresolves :
      (Bundler.afterEach (.ofFiles diamondFiles) {} ["a.z", "d", "a"]).resolves = 3 + 5 := by
    decide +kernel
  obtain ⟨units, hunits, hcard, hsum⟩ := bundling_work_counted hok
  exact ⟨hok, hreads, hresolves, units, hunits, hcard.symm.trans hreads,
    Nat.add_left_cancel (hsum.symm.trans hresolves)⟩

end ZScript
