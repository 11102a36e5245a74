import Mathlib.Data.Finmap
import HookedAutomata.Proofs.Editing
import HookedAutomata.Trigger.Symbol

/-!
# Scans agree with lookups

A table is asked in two ways. A scan goes through all entries and takes those of a source
(`Transitions.startingAt`). A lookup goes by a key (`Transitions.find?`). The one compares names and
leaves triggers alone, the other compares both, and triggers that match may be spelled differently.
They agree as no two entries of a table have one key, whatever edits and assemblies it went through:
that is part of its type.

A lookup may go by hashes as well. `Transitions.hashed` keeps the entries in a hash map, under keys
that are hashed by name and trigger, and a lookup there finds the same targets. Here it is needed
that triggers that match have one hash (`LawfulHashable`).

The main statement is `Table.scans_agree_with_lookups`.
-/

namespace HookedAutomata

variable {κ : Type} [CustomTrigger κ]

/-! ## Kinds of triggers -/

namespace Trigger

/-- What a trigger is made of. -/
inductive Kind where
  | epsilon
  | text
  | custom
  deriving DecidableEq

def kind : Trigger κ → Kind
  | epsilon => .epsilon
  | text _ => .text
  | custom _ => .custom

theorem kind_eq_of_beq {g h : Trigger κ} (hgh : (g == h) = true) : g.kind = h.kind := by
  rcases beq_iff.1 hgh with ⟨rfl, rfl⟩ | ⟨s, rfl, rfl⟩ | ⟨k, l, rfl, rfl, -⟩
  · rfl
  · rfl
  · rfl

end Trigger

namespace Transitions

/-! ## The entries of one source -/

theorem mem_startingAt {m : Transitions κ} {n : String} {e : Entry κ} :
    e ∈ m.startingAt n ↔ e ∈ m.entries ∧ e.source.name = n := by
  unfold startingAt
  rw [List.mem_filter, beq_iff_eq]

/-- Entries of one source have different triggers, as they have different keys. -/
theorem pairwise_startingAt (m : Transitions κ) (n : String) :
    (m.startingAt n).Pairwise fun d e => (d.trigger == e.trigger) = false := by
  refine (m.distinct.filter _).imp_of_mem fun {d e} hd he hkeys => ?_
  have hd' : d.source.name = n := (mem_startingAt.1 hd).2
  have he' : e.source.name = n := (mem_startingAt.1 he).2
  simpa [Entry.isFor, hd', he'] using hkeys

theorem targets_of_unlisted {m : Transitions κ} {n : String} {g : Trigger κ}
    (h : ∀ e ∈ m.startingAt n, (e.trigger == g) = false) : m.targets n g = ∅ := by
  have hnone : m.find? n g = none := by
    refine List.find?_eq_none.2 fun e he hfor => ?_
    obtain ⟨hname, htrigger⟩ := Bool.and_eq_true_iff.1 hfor
    rw [h e (mem_startingAt.2 ⟨he, beq_iff_eq.1 hname⟩)] at htrigger
    cases htrigger
  rw [targets_eq, hnone]
  rfl

section Matching

variable [EquivBEq κ]

/-- The entries of a source that match a trigger are what is found for it. -/
theorem mem_startingAt_and_beq_iff {m : Transitions κ} {n : String} {g : Trigger κ} {e : Entry κ} :
    e ∈ m.startingAt n ∧ (e.trigger == g) = true ↔ m.find? n g = some e := by
  constructor
  · rintro ⟨he, hg⟩
    obtain ⟨hmem, rfl⟩ := mem_startingAt.1 he
    rw [← m.find?_congr hg]
    exact find?_of_mem hmem
  · intro hfind
    obtain ⟨hname, hg⟩ := Bool.and_eq_true_iff.1 (isFor_of_find? hfind)
    exact ⟨mem_startingAt.2 ⟨mem_of_find? hfind, beq_iff_eq.1 hname⟩, hg⟩

/-- A source is listed with a trigger and targets if the key is there and has these targets. -/
theorem exists_mem_startingAt_iff {m : Transitions κ} {n : String} {g : Trigger κ} {T : StateSet} :
    (∃ e ∈ m.startingAt n, (e.trigger == g) = true ∧ e.targets = T) ↔
      (m.find? n g).isSome = true ∧ m.targets n g = T := by
  rw [targets_eq]
  constructor
  · rintro ⟨e, he, hg, rfl⟩
    rw [mem_startingAt_and_beq_iff.1 ⟨he, hg⟩]
    exact ⟨rfl, rfl⟩
  · rintro ⟨hsome, htargets⟩
    obtain ⟨e, hfind⟩ := Option.isSome_iff_exists.1 hsome
    obtain ⟨he, hg⟩ := mem_startingAt_and_beq_iff.2 hfind
    rw [hfind] at htargets
    exact ⟨e, he, hg, htargets⟩

end Matching

/-! ## The entries of all sources -/

omit [CustomTrigger κ] in
/-- Entries that are taken apart by their sources are the entries again. Induction on the names: what
the first one leaves is taken apart by the others. -/
theorem flatMap_filter_perm {names : List String} {l : List (Entry κ)} (hnodup : names.Nodup)
    (hall : ∀ e ∈ l, e.source.name ∈ names) :
    (names.flatMap fun n => l.filter fun e => e.source.name == n).Perm l := by
  induction names generalizing l with
  | nil =>
    have hnil : l = [] := List.eq_nil_iff_forall_not_mem.2 fun e he => List.not_mem_nil (hall e he)
    rw [hnil]
    rfl
  | cons n names ih =>
    obtain ⟨hfresh, hnodup'⟩ := List.nodup_cons.1 hnodup
    have hrest := ih (l := l.filter fun e => !(e.source.name == n)) hnodup' fun e he => by
      obtain ⟨hmem, hother⟩ := List.mem_filter.1 he
      exact (List.mem_cons.1 (hall e hmem)).resolve_left (by simpa using hother)
    -- the others have none of the entries that the first one takes
    have hsame : ∀ m ∈ names, ((l.filter fun e => !(e.source.name == n)).filter
        fun e => e.source.name == m) = l.filter fun e => e.source.name == m := by
      intro m hm
      rw [List.filter_filter]
      refine List.filter_congr fun e _ => ?_
      have hne : n ≠ m := fun h => hfresh (h ▸ hm)
      by_cases hname : e.source.name = m
      · simp [hname, Ne.symm hne]
      · simp [hname]
    rw [List.flatMap_congr hsame] at hrest
    rw [List.flatMap_cons]
    exact (hrest.append_left _).trans (List.filter_append_perm _ l)

theorem has_sources_of_mem {m : Transitions κ} {e : Entry κ} (h : e ∈ m.entries) :
    m.sources.has e.source.name = true := by
  unfold sources
  rw [SortedSet.has_collect, List.any_map]
  exact List.any_eq_true.2 ⟨e, h, beq_self_eq_true _⟩

/-- The scans of all sources together give each entry once. -/
theorem startingAt_sources_perm (m : Transitions κ) :
    (m.sources.toList.flatMap fun s => m.startingAt s.name).Perm m.entries := by
  have hperm := flatMap_filter_perm m.sources.nodup_names fun e (he : e ∈ m.entries) =>
    SortedSet.mem_names.2 (has_sources_of_mem he)
  unfold SortedSet.names at hperm
  rw [List.flatMap_map] at hperm
  exact hperm

end Transitions

/-! ## Lookups by hash -/

/-- A key as it is given to a hash map: any instance of the source, and any spelling of the trigger.
-/
structure TransitionKey (κ : Type) where
  source : State
  trigger : Trigger κ

namespace TransitionKey

/-- Keys are one if the sources have one name and the triggers match. -/
instance : BEq (TransitionKey κ) where
  beq k l := k.source.name == l.source.name && k.trigger == l.trigger

instance : Hashable (TransitionKey κ) where
  hash k := mixHash (hash k.source.name) (hash k.trigger)

theorem beq_iff {k l : TransitionKey κ} :
    (k == l) = true ↔ k.source.name = l.source.name ∧ (k.trigger == l.trigger) = true := by
  show (_ && _) = true ↔ _
  rw [Bool.and_eq_true, beq_iff_eq]

instance [EquivBEq κ] : EquivBEq (TransitionKey κ) where
  rfl := beq_iff.2 ⟨rfl, BEq.rfl⟩
  symm h := beq_iff.2 ⟨(beq_iff.1 h).1.symm, BEq.symm (beq_iff.1 h).2⟩
  trans h h' := beq_iff.2
    ⟨(beq_iff.1 h).1.trans (beq_iff.1 h').1, BEq.trans (beq_iff.1 h).2 (beq_iff.1 h').2⟩

instance [LawfulHashable κ] : LawfulHashable (TransitionKey κ) where
  hash_eq k l h := by
    obtain ⟨hname, htrigger⟩ := beq_iff.1 h
    show mixHash (hash k.source.name) (hash k.trigger) = mixHash (hash l.source.name) (hash l.trigger)
    rw [hname, LawfulHashable.hash_eq k.trigger l.trigger htrigger]

end TransitionKey

/-- An entry as it stands in a hash map: a key, and the targets under it. -/
def Entry.binding (e : Entry κ) : TransitionKey κ × StateSet := (⟨e.source, e.trigger⟩, e.targets)

namespace Transitions

/-- The entries in a hash map. -/
def hashed (m : Transitions κ) : Std.HashMap (TransitionKey κ) StateSet :=
  .ofList (m.entries.map Entry.binding)

theorem pairwise_bindings (m : Transitions κ) :
    (m.entries.map Entry.binding).Pairwise fun a b => (a.1 == b.1) = false :=
  List.pairwise_map.2 m.distinct

variable [EquivBEq κ] [LawfulHashable κ]

theorem size_hashed (m : Transitions κ) : m.hashed.size = m.size := by
  unfold hashed size
  rw [Std.HashMap.size_ofList m.pairwise_bindings, List.length_map]

/-- A lookup by hash finds the targets of the entry that has the key. -/
theorem getElem?_hashed (m : Transitions κ) (k : TransitionKey κ) :
    m.hashed[k]? = (m.find? k.source.name k.trigger).map (·.targets) := by
  unfold hashed
  cases hfind : m.find? k.source.name k.trigger with
  | some e =>
    have hkey : (e.binding.1 == k) = true := isFor_of_find? hfind
    exact Std.HashMap.getElem?_ofList_of_mem hkey m.pairwise_bindings
      (List.mem_map_of_mem (mem_of_find? hfind))
  | none =>
    refine Std.HashMap.getElem?_ofList_of_contains_eq_false ?_
    rw [List.map_map, ← Bool.not_eq_true, List.contains_iff_exists_mem_beq]
    rintro ⟨l, hl, hkl⟩
    obtain ⟨e, he, rfl⟩ := List.mem_map.1 hl
    exact List.find?_eq_none.1 hfind e he (BEq.symm hkl)

/-- A hash map has the entries, in whatever order. -/
theorem toList_hashed_perm (m : Transitions κ) :
    m.hashed.toList.Perm (m.entries.map Entry.binding) := by
  have hnodup : ∀ {l : List (TransitionKey κ × StateSet)},
      (l.Pairwise fun a b => (a.1 == b.1) = false) → l.Nodup := by
    intro l hl
    refine hl.imp fun {a b} hab => ?_
    rintro rfl
    simp at hab
  refine (List.perm_ext_iff_of_nodup (hnodup Std.HashMap.distinct_keys_toList)
    (hnodup m.pairwise_bindings)).2 fun ⟨k, targets⟩ => ?_
  rw [Std.HashMap.mem_toList_iff_getKey?_eq_some_and_getElem?_eq_some, getElem?_hashed]
  have hkept : ∀ e ∈ m.entries, (e.binding.1 == k) = true →
      m.hashed.getKey? k = some e.binding.1 := fun e he hkey =>
    Std.HashMap.getKey?_ofList_of_mem hkey m.pairwise_bindings
      (List.mem_map_of_mem (List.mem_map_of_mem he))
  constructor
  · rintro ⟨hkey, hget⟩
    obtain ⟨e, hfind, rfl⟩ := Option.map_eq_some_iff.1 hget
    have he := hkept e (mem_of_find? hfind) (isFor_of_find? hfind)
    -- the key in the map is spelled as in the entry
    obtain rfl : e.binding.1 = k := Option.some.inj (he.symm.trans hkey)
    exact List.mem_map_of_mem (mem_of_find? hfind)
  · intro hmem
    obtain ⟨e, he, hbinding⟩ := List.mem_map.1 hmem
    obtain ⟨rfl, rfl⟩ := Prod.mk.inj hbinding
    exact ⟨hkept e he BEq.rfl, by rw [find?_of_mem he]; rfl⟩

/-- A scan of a hash map takes the entries of the source. -/
theorem filter_hashed_perm (m : Transitions κ) (n : String) :
    (m.hashed.toList.filter fun b => b.1.source.name == n).Perm
      ((m.startingAt n).map Entry.binding) := by
  have hfilter : (m.entries.map Entry.binding).filter (fun b => b.1.source.name == n) =
      (m.startingAt n).map Entry.binding := by
    rw [List.filter_map]
    rfl
  rw [← hfilter]
  exact m.toList_hashed_perm.filter _

end Transitions

/-- **Scans agree with lookups.** Triggers match as an equivalence does, and have one hash if they
match. A table may have come about in any way.

The entries that a scan lists for a source have triggers of which no two match. A trigger is listed
with a set of targets exactly if there is an entry for the key and a lookup finds these targets, and
a lookup finds none for a trigger that is not listed. The scans of all sources give the entries of the
table, each once, so the table has as many entries as these scans have together. What is listed for a
trigger, or found for it, is of the same kind.

A hash map of the entries has the size of the table. Lookups there, with any instance of the source,
and scans agree with those of the table. -/
theorem Table.scans_agree_with_lookups [EquivBEq κ] [LawfulHashable κ] (t : Table κ) :
    (∀ n, (t.transitions.startingAt n).Pairwise fun d e => (d.trigger == e.trigger) = false) ∧
    (∀ n g T, (∃ e ∈ t.transitions.startingAt n, (e.trigger == g) = true ∧ e.targets = T) ↔
      (t.transitions.find? n g).isSome = true ∧ t.direct n g = T) ∧
    (∀ n g, (∀ e ∈ t.transitions.startingAt n, (e.trigger == g) = false) → t.direct n g = ∅) ∧
    (t.transitions.sources.toList.flatMap fun s => t.transitions.startingAt s.name).Perm
      t.transitions.entries ∧
    (t.transitions.sources.toList.flatMap fun s => t.transitions.startingAt s.name).length = t.size ∧
    (∀ n g e, (e ∈ t.transitions.startingAt n ∧ (e.trigger == g) = true) ∨
      t.transitions.find? n g = some e → e.trigger.kind = g.kind) ∧
    t.transitions.hashed.size = t.size ∧
    ∀ s : State,
      (∀ g, t.transitions.hashed[(⟨s, g⟩ : TransitionKey κ)]? =
        (t.transitions.find? s.name g).map (·.targets)) ∧
      (∀ g, t.transitions.hashed.getD ⟨s, g⟩ ∅ = t.direct s.name g) ∧
      (t.transitions.hashed.toList.filter fun b => b.1.source.name == s.name).Perm
        ((t.transitions.startingAt s.name).map Entry.binding) := by
  have hperm := t.transitions.startingAt_sources_perm
  refine ⟨t.transitions.pairwise_startingAt, fun n g T => Transitions.exists_mem_startingAt_iff,
    fun n g => Transitions.targets_of_unlisted, hperm, hperm.length_eq, ?_,
    t.transitions.size_hashed, fun s => ⟨fun g => t.transitions.getElem?_hashed ⟨s, g⟩, fun g => ?_,
      t.transitions.filter_hashed_perm s.name⟩⟩
  · rintro n g e (⟨-, hg⟩ | hfind)
    · exact Trigger.kind_eq_of_beq hg
    · exact Trigger.kind_eq_of_beq (Transitions.mem_startingAt_and_beq_iff.2 hfind).2
  · rw [Std.HashMap.getD_eq_getD_getElem?, Transitions.getElem?_hashed]
    exact (Transitions.targets_eq ..).symm

/-- A text and a word without regard to case are spelled alike and are two keys. A removal takes one
of them out, and an automaton that is assembled brings another instance of the source. -/
theorem Table.scans_agree_with_lookups_word :
    let word (s : String) : Trigger Symbol := .custom (.word s)
    let t := (Automaton.assemble ⟨"left", 4⟩ ⟨"error", 5⟩ ∅ ((∅ : Table Symbol).edited
      [.add ⟨"left", 0⟩ (word "Go") (.singleton ⟨"right", 1⟩), .add ⟨"left", 2⟩ (.text "go") ∅,
        .add ⟨"right", 3⟩ .epsilon (.singleton ⟨"left", 0⟩), .remove "left" (.text "go")])).table
    EquivBEq Symbol ∧ LawfulHashable Symbol ∧ t.size = 2 ∧
      (t.transitions.sources.toList.map fun s => (t.transitions.startingAt s.name).length) = [1, 1] ∧
      (t.direct "left" (word "GO")).names = ["right"] ∧
      (∃ e ∈ t.transitions.startingAt "left", (e.trigger == word "gO") = true ∧
        e.targets = t.direct "left" (word "gO")) ∧
      t.direct "left" (.text "go") = ∅ ∧ t.transitions.hashed.size = 2 ∧
      t.transitions.hashed.getD ⟨⟨"left", 9⟩, word "gO"⟩ ∅ = t.direct "left" (word "gO") := by
  intro word t
  obtain ⟨-, hlisted, hunlisted, -, -, -, hsize, hhashed⟩ := Table.scans_agree_with_lookups t
  have hgo : (t.transitions.find? "left" (word "gO")).isSome = true := by decide +kernel
  have hnone : ∀ e ∈ t.transitions.startingAt "left", (e.trigger == .text "go") = false := by
    decide +kernel
  have htwo : t.size = 2 := by decide +kernel
  exact ⟨inferInstance, inferInstance, htwo, by decide +kernel, by decide +kernel,
    (hlisted "left" (word "gO") _).2 ⟨hgo, rfl⟩, hunlisted "left" (.text "go") hnone,
    hsize.trans htwo, (hhashed ⟨"left", 9⟩).2.1 (word "gO")⟩

end HookedAutomata
