import HookedAutomata.Automaton
import HookedAutomata.Proofs.NameSets
import HookedAutomata.Transitions.Lemmas

/-!
# Editing keeps one instance for each name

States that are handed to a table are replaced by the instances it knows. So edits, with whatever
instances, never bring a second instance of a name into a table that has one (`OneInstance`): what
comes in is known already, or its name is new (`OneInstance.append_canonical`).

* `Table.Edit` is an edit with its arguments, and `Table.edited` a table after edits; those that are
  refused leave it alone.
* `Table.oneInstance_edited`: edits keep one instance for each name that had one.
* `Table.oneInstance_pin`: pinning makes an instance the only one of its name, whatever was there.
* `Table.eq_of_mem_pinned`: what is pinned stays the only instance of its name through all edits.
-/

namespace HookedAutomata

variable {κ : Type} [CustomTrigger κ]

/-! ## States of entries -/

namespace Transitions

theorem mem_states {m : Transitions κ} {s : State} :
    s ∈ m.states ↔ ∃ e ∈ m.entries, s ∈ e.states :=
  List.mem_flatMap

omit [CustomTrigger κ] in
theorem mem_entry_states {e : Entry κ} {s : State} : s ∈ e.states ↔ s = e.source ∨ s ∈ e.targets :=
  List.mem_cons

theorem states_insert? {m m' : Transitions κ} {e : Entry κ} (h : m.insert? e = some m') :
    m'.states = m.states ++ e.states := by
  unfold states
  rw [entries_insert? h, List.flatMap_append]
  simp

/-- Changing the targets of a key brings in nothing but these targets. -/
theorem mem_states_modify {m : Transitions κ} {n : String} {on : Trigger κ}
    {f : StateSet → StateSet} {s : State} (h : s ∈ (m.modify n on f).states) :
    s ∈ m.states ∨ ∃ e ∈ m.entries, s ∈ f e.targets := by
  obtain ⟨e', he', hs⟩ := mem_states.1 h
  obtain ⟨e, he, rfl⟩ := List.mem_map.1 he'
  by_cases hfor : e.isFor n on = true
  · rw [if_pos hfor] at hs
    rcases mem_entry_states.1 hs with hs | hs
    · exact .inl (mem_states.2 ⟨e, he, mem_entry_states.2 (.inl hs)⟩)
    · exact .inr ⟨e, he, hs⟩
  · rw [if_neg hfor] at hs
    exact .inl (mem_states.2 ⟨e, he, hs⟩)

theorem mem_states_erase {m : Transitions κ} {n : String} {on : Trigger κ} {s : State}
    (h : s ∈ (m.erase n on).states) : s ∈ m.states := by
  obtain ⟨e, he, hs⟩ := mem_states.1 h
  exact mem_states.2 ⟨e, (List.mem_filter.1 he).1, hs⟩

/-- Merging an entry brings in nothing but its states. -/
theorem mem_states_merge {m : Transitions κ} {e : Entry κ} {s : State}
    (h : s ∈ (m.merge e).states) : s ∈ m.states ∨ s ∈ e.states := by
  unfold merge at h
  -- a new key gets the entry as it is, a key that has one gets the targets only
  cases hinsert : m.insert? e with
  | some m' =>
    rw [hinsert, Option.getD_some, states_insert? hinsert] at h
    exact List.mem_append.1 h
  | none =>
    rw [hinsert, Option.getD_none] at h
    rcases mem_states_modify h with h | ⟨e', he', h⟩
    · exact .inl h
    · rcases SortedSet.mem_union h with h | h
      · exact .inl (mem_states.2 ⟨e', he', mem_entry_states.2 (.inr h)⟩)
      · exact .inr (mem_entry_states.2 (.inr h))

theorem mem_states_relabel {m : Transitions κ} {f : State → State}
    {hf : ∀ s, (f s).name = s.name} {s : State} (h : s ∈ (m.relabel f hf).states) :
    ∃ x ∈ m.states, f x = s := by
  obtain ⟨e', he', hs⟩ := mem_states.1 h
  obtain ⟨e, he, rfl⟩ := List.mem_map.1 he'
  rcases mem_entry_states.1 hs with hs | hs
  · exact ⟨e.source, mem_states.2 ⟨e, he, mem_entry_states.2 (.inl rfl)⟩, hs.symm⟩
  · obtain ⟨x, hx, hxs⟩ := List.mem_map.1 hs
    exact ⟨x, mem_states.2 ⟨e, he, mem_entry_states.2 (.inr hx)⟩, hxs⟩

end Transitions

/-! ## One instance of a name -/

/-- All states of a name in the list are one instance. -/
def OneInstance (l : List State) (n : String) : Prop :=
  ∀ x ∈ l, ∀ y ∈ l, x.name = n → y.name = n → x = y

theorem OneInstance.mono {l m : List State} {n : String} (h : OneInstance m n)
    (hsub : ∀ x ∈ l, x ∈ m) : OneInstance l n :=
  fun x hx y hy => h x (hsub x hx) y (hsub y hy)

namespace Table

theorem mem_instances {t : Table κ} {s : State} :
    s ∈ t.instances ↔ s ∈ t.pinned ∨ s ∈ t.transitions.states :=
  List.mem_append

/-- The canonical instance is one that the table knows, or the table knows none of the name. -/
theorem canonical_cases (t : Table κ) (s : State) :
    t.canonical s ∈ t.instances ∨
      (t.canonical s = s ∧ ∀ x ∈ t.instances, x.name ≠ s.name) := by
  unfold canonical
  cases hfind : t.instances.find? fun known => known.name == s.name with
  | some x => exact .inl (List.mem_of_find?_eq_some hfind)
  | none =>
    refine .inr ⟨rfl, fun x hx => ?_⟩
    simpa using List.find?_eq_none.1 hfind x hx

/-- States made canonical for an entry at `src` bring no second instance in, if `src` does not. -/
theorem oneInstance_append_canonical {t : Table κ} {n : String} (h : OneInstance t.instances n)
    {src : State} (hsrc : src ∈ t.instances ∨ ∀ x ∈ t.instances, x.name ≠ src.name)
    (ts : StateSet) :
    OneInstance (t.instances ++ src :: (t.canonicalSet src ts).toList) n := by
  -- a name that the table does not know comes in as `src` or else as the one target of that name
  have hnew : ∀ x ∈ src :: (t.canonicalSet src ts).toList, x ∈ t.instances ∨
      (∀ y ∈ t.instances, y.name ≠ x.name) ∧ (x = src ∨ x ∈ ts ∧ x.name ≠ src.name) := by
    intro x hx
    rcases List.mem_cons.1 hx with rfl | hx
    · exact hsrc.imp_right fun hfree => ⟨hfree, .inl rfl⟩
    · obtain ⟨s, hs, rfl⟩ := SortedSet.mem_relabel.1 hx
      unfold canonicalAt
      split
      · exact hsrc.imp_right fun hfree => ⟨hfree, .inl rfl⟩
      · rename_i hname
        rcases t.canonical_cases s with hknown | ⟨hself, hfree⟩
        · exact .inl hknown
        · rw [hself]
          exact .inr ⟨hfree, .inr ⟨hs, hname⟩⟩
  intro x hx y hy hxn hyn
  have hcases : ∀ z ∈ t.instances ++ src :: (t.canonicalSet src ts).toList, z ∈ t.instances ∨
      (∀ y ∈ t.instances, y.name ≠ z.name) ∧ (z = src ∨ z ∈ ts ∧ z.name ≠ src.name) := by
    intro z hz
    rcases List.mem_append.1 hz with hz | hz
    · exact .inl hz
    · exact hnew z hz
  -- two of one name are both known or both new, as a name comes in only if it is free
  rcases hcases x hx with hxt | ⟨hxfree, hxsrc⟩
  · rcases hcases y hy with hyt | ⟨hyfree, -⟩
    · exact h x hxt y hyt hxn hyn
    · exact absurd (hxn.trans hyn.symm) (hyfree x hxt)
  · rcases hcases y hy with hyt | ⟨-, hysrc⟩
    · exact absurd (hyn.trans hxn.symm) (hxfree y hyt)
    · rcases hxsrc with rfl | ⟨hxts, hxname⟩
      · rcases hysrc with rfl | ⟨-, hyname⟩
        · rfl
        · exact absurd (hyn.trans hxn.symm) hyname
      · rcases hysrc with rfl | ⟨hyts, -⟩
        · exact absurd (hxn.trans hyn.symm) hxname
        · exact SortedSet.eq_of_mem_of_name_eq hxts hyts (hxn.trans hyn.symm)

/-! ## Edits -/

/-- An edit of a table, with its arguments. -/
inductive Edit (κ : Type) where
  | add (source : State) (on : Trigger κ) (targets : StateSet)
  | update (source : State) (on : Trigger κ) (targets : StateSet)
  | remove (name : String) (on : Trigger κ)

/-- The table after an edit; an edit that is refused leaves it as it is. -/
def apply (t : Table κ) : Edit κ → Table κ
  | .add source on targets => (t.add source on targets).toOption.getD t
  | .update source on targets => (t.update source on targets).toOption.getD t
  | .remove name on => (t.remove name on).2

def edited (t : Table κ) (l : List (Edit κ)) : Table κ := l.foldl apply t

/-- An addition brings in the source and the targets, made canonical. -/
theorem add_eq_ok {t t' : Table κ} {source : State} {on : Trigger κ} {targets : StateSet}
    (h : t.add source on targets = .ok t') :
    t'.pinned = t.pinned ∧ ∀ s ∈ t'.transitions.states, s ∈ t.transitions.states ∨
      s ∈ t.canonical source :: (t.canonicalSet (t.canonical source) targets).toList := by
  unfold add at h
  split at h
  · rename_i m hinsert
    obtain rfl := Except.ok.inj h
    refine ⟨rfl, fun s hs => ?_⟩
    rw [Transitions.states_insert? hinsert] at hs
    exact List.mem_append.1 hs
  · cases h

/-- An update brings in the targets, made canonical for the source of the entry. -/
theorem update_eq_ok {t t' : Table κ} {source : State} {on : Trigger κ} {targets : StateSet}
    (h : t.update source on targets = .ok t') :
    t'.pinned = t.pinned ∧ ∃ src ∈ t.instances, ∀ s ∈ t'.transitions.states,
      s ∈ t.transitions.states ∨ s ∈ t.canonicalSet src targets := by
  unfold update at h
  split at h
  · rename_i e hfind
    obtain rfl := Except.ok.inj h
    have hsource : e.source ∈ t.transitions.states := Transitions.mem_states.2
      ⟨e, Transitions.mem_of_find? hfind, Transitions.mem_entry_states.2 (.inl rfl)⟩
    refine ⟨rfl, e.source, mem_instances.2 (.inr hsource), fun s hs => ?_⟩
    rcases Transitions.mem_states_modify hs with hs | ⟨-, -, hs⟩
    · exact .inl hs
    · exact .inr hs
  · cases h

/-- What an edit brings in are states made canonical for a source that is canonical itself. -/
theorem apply_cases (t : Table κ) (c : Edit κ) :
    (t.apply c).pinned = t.pinned ∧
      ((∀ s ∈ (t.apply c).transitions.states, s ∈ t.transitions.states) ∨
        ∃ src ts, (src ∈ t.instances ∨ ∀ x ∈ t.instances, x.name ≠ src.name) ∧
          ∀ s ∈ (t.apply c).transitions.states,
            s ∈ t.transitions.states ∨ s ∈ src :: (t.canonicalSet src ts).toList) := by
  cases c with
  | add source on targets =>
    have happly : t.apply (.add source on targets) = (t.add source on targets).toOption.getD t := rfl
    rw [happly]
    cases hadd : t.add source on targets with
    | error e => exact ⟨rfl, .inl fun s hs => hs⟩
    | ok t' =>
      obtain ⟨hpinned, hstates⟩ := add_eq_ok hadd
      refine ⟨hpinned, .inr ⟨t.canonical source, targets, ?_, hstates⟩⟩
      refine (t.canonical_cases source).imp_right fun hfree x hx => ?_
      rw [name_canonical]
      exact hfree.2 x hx
  | update source on targets =>
    have happly : t.apply (.update source on targets) =
        (t.update source on targets).toOption.getD t := rfl
    rw [happly]
    cases hupdate : t.update source on targets with
    | error e => exact ⟨rfl, .inl fun s hs => hs⟩
    | ok t' =>
      obtain ⟨hpinned, src, hsrc, hstates⟩ := update_eq_ok hupdate
      refine ⟨hpinned, .inr ⟨src, targets, .inl hsrc, fun s hs => ?_⟩⟩
      exact (hstates s hs).imp_right (List.mem_cons_of_mem src)
  | remove name on => exact ⟨rfl, .inl fun s hs => Transitions.mem_states_erase hs⟩

theorem oneInstance_apply {t : Table κ} {n : String} (h : OneInstance t.instances n) (c : Edit κ) :
    OneInstance (t.apply c).instances n := by
  obtain ⟨hpinned, hless | ⟨src, ts, hsrc, hmore⟩⟩ := t.apply_cases c
  · refine h.mono fun x hx => ?_
    rw [mem_instances, hpinned] at hx
    exact mem_instances.2 (hx.imp_right (hless x))
  · refine (oneInstance_append_canonical h hsrc ts).mono fun x hx => ?_
    rw [mem_instances, hpinned] at hx
    rw [List.mem_append, mem_instances]
    rcases hx with hx | hx
    · exact .inl (.inl hx)
    · rcases hmore x hx with hx | hx
      · exact .inl (.inr hx)
      · exact .inr hx

theorem pinned_edited (t : Table κ) (l : List (Edit κ)) : (t.edited l).pinned = t.pinned := by
  induction l generalizing t with
  | nil => rfl
  | cons c l ih => exact (ih (t.apply c)).trans (t.apply_cases c).1

/-- Edits keep one instance for each name that had one. -/
theorem oneInstance_edited {t : Table κ} {n : String} (h : OneInstance t.instances n)
    (l : List (Edit κ)) : OneInstance (t.edited l).instances n := by
  induction l generalizing t with
  | nil => exact h
  | cons c l ih => exact ih (oneInstance_apply h c)

/-! ## Pins -/

theorem mem_instances_pin {t : Table κ} {s x : State} (h : x ∈ (t.pin s).instances) :
    x = s ∨ (x.name ≠ s.name ∧ x ∈ t.instances) := by
  rcases mem_instances.1 h with h | h
  · rcases List.mem_append.1 h with h | h
    · obtain ⟨hx, hname⟩ := List.mem_filter.1 h
      exact .inr ⟨by simpa using hname, mem_instances.2 (.inl hx)⟩
    · exact .inl (List.mem_singleton.1 h)
  · obtain ⟨y, hy, hyx⟩ := Transitions.mem_states_relabel h
    unfold standIn at hyx
    split at hyx
    · exact .inl hyx.symm
    · rename_i hname
      rw [← hyx]
      exact .inr ⟨hname, mem_instances.2 (.inr hy)⟩

theorem oneInstance_pin (t : Table κ) (s : State) : OneInstance (t.pin s).instances s.name := by
  have hself : ∀ x ∈ (t.pin s).instances, x.name = s.name → x = s := by
    intro x hx hname
    rcases mem_instances_pin hx with h | ⟨hne, -⟩
    · exact h
    · exact absurd hname hne
  intro x hx y hy hxn hyn
  rw [hself x hx hxn, hself y hy hyn]

theorem mem_pinned_pin (t : Table κ) (s : State) : s ∈ (t.pin s).pinned :=
  List.mem_append_right _ (List.mem_singleton.2 rfl)

/-- A pinned instance stays pinned unless another instance of its name is pinned. -/
theorem mem_pinned_pin_pin (t : Table κ) {s other : State}
    (h : s.name ≠ other.name ∨ s = other) : s ∈ ((t.pin s).pin other).pinned := by
  rcases h with hname | rfl
  · refine List.mem_append_left _ (List.mem_filter.2 ⟨mem_pinned_pin t s, ?_⟩)
    simpa using hname
  · exact mem_pinned_pin _ s

/-- A pin keeps one instance for each name that had one. -/
theorem oneInstance_pin_of {t : Table κ} {n : String} (h : OneInstance t.instances n) (s : State) :
    OneInstance (t.pin s).instances n := by
  intro x hx y hy hxn hyn
  have hxy : x.name = y.name := hxn.trans hyn.symm
  rcases mem_instances_pin hx with rfl | ⟨hxs, hxt⟩
  · -- the pinned instance is the only one of its name
    exact oneInstance_pin t x x hx y hy rfl hxy.symm
  · rcases mem_instances_pin hy with rfl | ⟨-, hyt⟩
    · exact absurd hxy hxs
    · exact h x hxt y hyt hxn hyn

/-- A pinned instance stays the one of its name through all edits. -/
theorem eq_of_mem_pinned {t : Table κ} {s : State} (hs : s ∈ t.pinned)
    (hone : OneInstance t.instances s.name) {l : List (Edit κ)} {x : State}
    (hx : x ∈ (t.edited l).instances) (hname : x.name = s.name) : x = s := by
  have hpinned : s ∈ (t.edited l).instances := by
    rw [mem_instances, pinned_edited]
    exact .inl hs
  exact oneInstance_edited hone l x hx s hpinned hname rfl

theorem isSome_find?_pin (t : Table κ) (s : State) (n : String) (on : Trigger κ) :
    ((t.pin s).transitions.find? n on).isSome = (t.transitions.find? n on).isSome := by
  have hfind : (t.pin s).transitions.find? n on =
      (t.transitions.find? n on).map (Entry.relabel (standIn s) (name_standIn s)) :=
    Transitions.find?_relabel _ _ _ n on
  rw [hfind, Option.isSome_map]

theorem names_direct_pin (t : Table κ) (s : State) (n : String) (on : Trigger κ) :
    ((t.pin s).direct n on).names = (t.direct n on).names := by
  have htargets : (t.pin s).direct n on =
      (t.direct n on).relabel (standIn s) (name_standIn s) :=
    Transitions.targets_relabel _ _ _ n on
  rw [htargets, SortedSet.names_relabel]

/-! ## The states of a table and of an automaton -/

theorem mem_states {t : Table κ} {s : State} (h : s ∈ t.states) : s ∈ t.transitions.states := by
  rcases SortedSet.mem_union h with h | h
  · obtain ⟨e, he, rfl⟩ := List.mem_map.1 (SortedSet.mem_collect h)
    exact Transitions.mem_states.2 ⟨e, he, Transitions.mem_entry_states.2 (.inl rfl)⟩
  · obtain ⟨e, he, hs⟩ := List.mem_flatMap.1 (SortedSet.mem_collect h)
    exact Transitions.mem_states.2 ⟨e, he, Transitions.mem_entry_states.2 (.inr hs)⟩

theorem has_states_of_mem {t : Table κ} {s : State} (h : s ∈ t.transitions.states) :
    t.states.has s.name = true := by
  obtain ⟨e, he, hs⟩ := Transitions.mem_states.1 h
  unfold states Transitions.sources Transitions.allTargets
  rw [SortedSet.has_union, Bool.or_eq_true, SortedSet.has_collect, SortedSet.has_collect,
    List.any_eq_true, List.any_eq_true]
  rcases Transitions.mem_entry_states.1 hs with rfl | hs
  · exact .inl ⟨e.source, List.mem_map.2 ⟨e, he, rfl⟩, by simp⟩
  · exact .inr ⟨s, List.mem_flatMap.2 ⟨e, he, hs⟩, by simp⟩

end Table

namespace Automaton

def edited (a : Automaton κ) (l : List (Table.Edit κ)) : Automaton κ :=
  { a with table := a.table.edited l }

theorem mem_states {a : Automaton κ} {s : State} (h : s ∈ a.states) :
    s ∈ a.table.transitions.states ∨ s = a.start ∨ s = a.error := by
  rcases SortedSet.mem_insert.1 h with h | ⟨rfl, -⟩
  · rcases SortedSet.mem_insert.1 h with h | ⟨rfl, -⟩
    · exact .inl (Table.mem_states h)
    · exact .inr (.inl rfl)
  · exact .inr (.inr rfl)

theorem has_states {a : Automaton κ} {n : String} :
    a.states.has n = true ↔ a.table.states.has n = true ∨ a.start.name = n ∨ a.error.name = n := by
  unfold states
  rw [SortedSet.has_insert, SortedSet.has_insert]
  simp [or_assoc]

end Automaton

end HookedAutomata
