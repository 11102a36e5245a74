import HookedAutomata.SortedSet.Lemmas
import HookedAutomata.Transitions.Basic

/-!
# Lookups in transitions

What each operation on transitions does to lookups by key. The main statements:

* `Transitions.find?_insert?` and `Transitions.insert?_eq_none_iff`: an entry is added exactly where
  its key is free;
* `Transitions.find?_modify`, `Transitions.find?_relabel`: entries are changed where they stand;
* `Transitions.isSome_find?_merge` and `Transitions.targets_merge`: merging adds targets to one key,
  which has an entry from then on;
* `Transitions.find?_erase`: erasing drops one key;
* `Transitions.merge_relabel`: replacing instances goes together with merging.

Where a statement says which keys are meant, triggers are taken to match as an equivalence does
(`EquivBEq`).
-/

namespace HookedAutomata

variable {κ : Type} [CustomTrigger κ]

namespace Entry

@[simp] theorem isFor_withTargets (e : Entry κ) (f : StateSet → StateSet) (n : String)
    (t : Trigger κ) : (e.withTargets f).isFor n t = e.isFor n t := rfl

@[simp] theorem isFor_relabel (e : Entry κ) (f : State → State) (h : ∀ s, (f s).name = s.name)
    (n : String) (t : Trigger κ) : (e.relabel f h).isFor n t = e.isFor n t := by
  simp [isFor, relabel, h]

theorem isFor_self [EquivBEq κ] (e : Entry κ) : e.isFor e.source.name e.trigger = true := by
  simp [isFor]

/-- An entry that has one key has exactly the keys that match it. -/
theorem isFor_congr [EquivBEq κ] {e : Entry κ} {n m : String} {t u : Trigger κ}
    (h : e.isFor n t = true) : e.isFor m u = (n == m && t == u) := by
  simp only [isFor, Bool.and_eq_true, beq_iff_eq] at h
  obtain ⟨rfl, ht⟩ := h
  simp only [isFor]
  rw [BEq.congr_left ht]

end Entry

namespace Transitions

@[simp] theorem find?_empty (n : String) (t : Trigger κ) : (∅ : Transitions κ).find? n t = none :=
  rfl

@[simp] theorem targets_empty (n : String) (t : Trigger κ) : (∅ : Transitions κ).targets n t = ∅ :=
  rfl

/-- The targets are those of the entry, or none. -/
theorem targets_eq (m : Transitions κ) (n : String) (t : Trigger κ) :
    m.targets n t = ((m.find? n t).map (·.targets)).getD ∅ := by
  unfold targets
  cases m.find? n t <;> rfl

/-- What is found for a key is an entry that has the key. -/
theorem isFor_of_find? {m : Transitions κ} {n : String} {t : Trigger κ} {e : Entry κ}
    (h : m.find? n t = some e) : e.isFor n t = true := by
  simpa using List.find?_some h

theorem mem_of_find? {m : Transitions κ} {n : String} {t : Trigger κ} {e : Entry κ}
    (h : m.find? n t = some e) : e ∈ m.entries :=
  List.mem_of_find?_eq_some h

/-- An entry that has its own key is what is found for it: no earlier entry has that key. -/
theorem find?_of_mem_of_isFor {m : Transitions κ} {e : Entry κ} (h : e ∈ m.entries)
    (hself : e.isFor e.source.name e.trigger = true) :
    m.find? e.source.name e.trigger = some e := by
  obtain ⟨l, hl⟩ := m
  simp only [find?]
  change e ∈ l at h
  induction l with
  | nil => cases h
  | cons a l ih =>
    have ha := List.pairwise_cons.1 hl
    rcases List.mem_cons.1 h with rfl | h
    · rw [List.find?_cons, hself]
    · rw [List.find?_cons, ha.1 e h]
      exact ih ha.2 h

theorem find?_of_mem [EquivBEq κ] {m : Transitions κ} {e : Entry κ} (h : e ∈ m.entries) :
    m.find? e.source.name e.trigger = some e :=
  find?_of_mem_of_isFor h e.isFor_self

/-! ## New entries -/

/-- An entry is refused exactly where there is one for its key. -/
theorem insert?_eq_none_iff {m : Transitions κ} {e : Entry κ} :
    m.insert? e = none ↔ m.find? e.source.name e.trigger ≠ none := by
  unfold insert?
  split <;> simp_all

theorem entries_insert? {m m' : Transitions κ} {e : Entry κ} (h : m.insert? e = some m') :
    m'.entries = m.entries ++ [e] := by
  unfold insert? at h
  split at h
  · exact Option.some.inj h ▸ rfl
  · cases h

/-- What is found once an entry is added: what was found before, or else that entry. -/
theorem find?_insert? {m m' : Transitions κ} {e : Entry κ} (h : m.insert? e = some m')
    (n : String) (t : Trigger κ) :
    m'.find? n t = (m.find? n t).or (if e.isFor n t then some e else none) := by
  rw [find?, entries_insert? h, List.find?_append, find?]
  cases he : e.isFor n t <;> simp [he]

/-! ## Changes in place -/

/-- What is found once targets are changed: the same entry, changed if it is the one meant. -/
theorem find?_modify (m : Transitions κ) (n : String) (t : Trigger κ) (f : StateSet → StateSet)
    (n' : String) (t' : Trigger κ) :
    (m.modify n t f).find? n' t' =
      (m.find? n' t').map fun e => if e.isFor n t then e.withTargets f else e := by
  simp only [find?, modify, List.find?_map]
  congr 2
  funext e
  simp only [Function.comp_apply]
  split <;> simp

/-- Changing targets changes those of the key that is meant. -/
theorem targets_modify [EquivBEq κ] (m : Transitions κ) (n : String) (t : Trigger κ)
    (f : StateSet → StateSet) (hf : f ∅ = ∅ ∨ m.find? n t ≠ none) (n' : String) (t' : Trigger κ) :
    (m.modify n t f).targets n' t' =
      if (n' == n && t' == t) = true then f (m.targets n' t') else m.targets n' t' := by
  rw [targets_eq, targets_eq, find?_modify]
  cases hfind : m.find? n' t' with
  | none =>
    split
    · rename_i hkey
      rcases hf with hf | hf
      · exact hf.symm
      · refine absurd (List.find?_eq_none.2 fun e he => ?_) hf
        have := List.find?_eq_none.1 hfind e he
        simp only [Bool.and_eq_true, beq_iff_eq] at hkey
        simp only [Entry.isFor, hkey.1, BEq.congr_right hkey.2] at this
        simpa [Entry.isFor] using this
    · rfl
  | some e =>
    rw [Option.map_some, Entry.isFor_congr (isFor_of_find? hfind)]
    split <;> rfl

/-- What is found once instances are replaced: the same entry with its instances replaced. -/
theorem find?_relabel (m : Transitions κ) (f : State → State) (h : ∀ s, (f s).name = s.name)
    (n : String) (t : Trigger κ) :
    (m.relabel f h).find? n t = (m.find? n t).map (Entry.relabel f h) := by
  simp only [find?, relabel, List.find?_map]
  congr 2
  funext e
  simp

/-- Replacing instances replaces those among the targets. -/
theorem targets_relabel (m : Transitions κ) (f : State → State) (h : ∀ s, (f s).name = s.name)
    (n : String) (t : Trigger κ) :
    (m.relabel f h).targets n t = (m.targets n t).relabel f h := by
  rw [targets_eq, targets_eq, find?_relabel]
  cases m.find? n t <;> rfl

/-! ## Merged entries -/

theorem find?_congr [EquivBEq κ] (m : Transitions κ) {n : String} {t u : Trigger κ}
    (h : (t == u) = true) : m.find? n t = m.find? n u := by
  unfold find?
  congr 1
  funext e
  simp only [Entry.isFor, BEq.congr_right h]

/-- Merging makes an entry for the key that is meant, if there is none. -/
theorem isSome_find?_merge [EquivBEq κ] (m : Transitions κ) (e : Entry κ) (n : String)
    (t : Trigger κ) : ((m.merge e).find? n t).isSome = ((m.find? n t).isSome || e.isFor n t) := by
  unfold merge
  cases hinsert : m.insert? e with
  | none =>
    rw [Option.getD_none, find?_modify, Option.isSome_map]
    cases hfor : e.isFor n t with
    | false => rw [Bool.or_false]
    | true =>
      -- the entry has no room because the key is taken
      obtain ⟨hn, ht⟩ := Bool.and_eq_true_iff.1 hfor
      have htaken : m.find? n t ≠ none := by
        rw [← beq_iff_eq.1 hn, ← m.find?_congr ht]
        exact insert?_eq_none_iff.1 hinsert
      rw [Bool.or_true, Option.isSome_iff_ne_none]
      exact htaken
  | some m' =>
    rw [Option.getD_some, find?_insert? hinsert, Option.isSome_or]
    cases e.isFor n t <;> rfl

/-- Merging adds targets to those of the key that is meant. -/
theorem targets_merge [EquivBEq κ] (m : Transitions κ) (e : Entry κ) (n : String) (t : Trigger κ) :
    (m.merge e).targets n t =
      if (n == e.source.name && t == e.trigger) = true then m.targets n t ∪ e.targets
      else m.targets n t := by
  unfold merge
  cases hinsert : m.insert? e with
  | none =>
    rw [Option.getD_none]
    exact m.targets_modify _ _ _ (.inr (insert?_eq_none_iff.1 hinsert)) n t
  | some m' =>
    rw [Option.getD_some, targets_eq, find?_insert? hinsert, targets_eq]
    have hfree : m.find? e.source.name e.trigger = none := by
      cases hfind : m.find? e.source.name e.trigger with
      | none => rfl
      | some a =>
        have hnone : m.insert? e = none := insert?_eq_none_iff.2 (by simp [hfind])
        rw [hinsert] at hnone
        cases hnone
    rw [Entry.isFor_congr e.isFor_self, BEq.comm (a := e.source.name), BEq.comm (a := e.trigger)]
    split
    · rename_i hkey
      simp only [Bool.and_eq_true, beq_iff_eq] at hkey
      rw [hkey.1, m.find?_congr hkey.2, hfree]
      simp
    · simp

/-! ## Dropped entries -/

/-- What is found once a key is dropped: nothing for that key, and what was found for others. -/
theorem find?_erase [EquivBEq κ] (m : Transitions κ) (n : String) (t : Trigger κ) (n' : String)
    (t' : Trigger κ) :
    (m.erase n t).find? n' t' = if (n' == n && t' == t) = true then none else m.find? n' t' := by
  have hkey : ∀ e : Entry κ, e.isFor n' t' = true → e.isFor n t = (n' == n && t' == t) :=
    fun e he => Entry.isFor_congr he
  simp only [find?, erase, List.find?_filter]
  split
  · rename_i hsame
    refine List.find?_eq_none.2 fun e _ => ?_
    cases he : e.isFor n' t' with
    | false => simp
    | true => simp [hkey e he, hsame]
  · rename_i hother
    congr 1
    funext e
    cases he : e.isFor n' t' with
    | false => simp
    | true => simp [hkey e he, hother]

/-! ## Replaced instances -/

theorem ext {m m' : Transitions κ} (h : m.entries = m'.entries) : m = m' := by
  cases m
  cases m'
  simpa using h

section Relabel

variable (m : Transitions κ) (f : State → State) (h : ∀ s, (f s).name = s.name)

theorem insert?_relabel (e : Entry κ) :
    (m.relabel f h).insert? (e.relabel f h) = (m.insert? e).map (·.relabel f h) := by
  have hfind : (m.relabel f h).find? (e.relabel f h).source.name (e.relabel f h).trigger =
      (m.find? e.source.name e.trigger).map (Entry.relabel f h) := by
    rw [← m.find?_relabel f h]
    exact congrArg ((m.relabel f h).find? · e.trigger) (h e.source)
  unfold insert?
  by_cases hfree : m.find? e.source.name e.trigger = none
  · rw [dif_pos hfree, dif_pos (by rw [hfind, hfree]; rfl)]
    have hentries : (m.entries ++ [e]).map (Entry.relabel f h) =
        m.entries.map (Entry.relabel f h) ++ [e.relabel f h] := List.map_append
    exact congrArg some (ext hentries.symm)
  · rw [dif_neg hfree, dif_neg (by rwa [hfind, Option.map_eq_none_iff])]
    rfl

theorem modify_relabel (n : String) (t : Trigger κ) (ts : StateSet) :
    (m.relabel f h).modify n t (· ∪ ts.relabel f h) = (m.modify n t (· ∪ ts)).relabel f h := by
  refine ext ?_
  show (m.entries.map _).map _ = (m.entries.map _).map _
  rw [List.map_map, List.map_map]
  refine List.map_congr_left fun e _ => ?_
  simp only [Function.comp_apply, Entry.isFor_relabel]
  split
  · exact congrArg (Entry.mk (f e.source) e.trigger) (SortedSet.relabel_union e.targets ts f h).symm
  · rfl

/-- Merging goes by names, so instances may be replaced before or after it. -/
theorem merge_relabel (e : Entry κ) :
    (m.relabel f h).merge (e.relabel f h) = (m.merge e).relabel f h := by
  unfold merge
  rw [insert?_relabel]
  cases m.insert? e with
  | some m' => rfl
  | none =>
    show (m.relabel f h).modify (f e.source).name e.trigger (· ∪ e.targets.relabel f h) = _
    rw [h]
    exact m.modify_relabel f h ..

theorem foldl_merge_relabel (es : List (Entry κ)) :
    (es.map (Entry.relabel f h)).foldl merge (m.relabel f h) = (es.foldl merge m).relabel f h := by
  induction es generalizing m with
  | nil => rfl
  | cons e es ih => rw [List.map_cons, List.foldl_cons, merge_relabel, ih, List.foldl_cons]

end Relabel

end Transitions

end HookedAutomata
