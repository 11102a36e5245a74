import Mathlib.Data.List.Dedup
import Mathlib.Data.List.Sort
import Mathlib.Data.String.Basic
import HookedAutomata.SortedSet.Lemmas

/-!
# Sets seen through their names

Steps of a run decide by names alone, while hooks hang on instances. So sets of states are compared
in two ways: by the names they have (`SortedSet.names_eq_iff`), and by the members they hold
(`SortedSet.mem_union`, `SortedSet.mem_collect` and the like say where a member can come from). The
names that a set has are listed in order, each of them once (`SortedSet.names_eq_inOrder`).

`SortedSet.unions` puts the sets of a list together; the next current states of a run are made
that way, one set for each source.
-/

namespace HookedAutomata

/-- The names of a list in their order, each of them once. -/
def inOrder (l : List String) : List String := l.dedup.insertionSort (· ≤ ·)

theorem mem_inOrder {l : List String} {n : String} : n ∈ inOrder l ↔ n ∈ l := by
  rw [inOrder, List.mem_insertionSort, List.mem_dedup]

theorem pairwise_inOrder (l : List String) : (inOrder l).Pairwise (· < ·) := by
  have hsortedLE : (inOrder l).SortedLE := List.sortedLE_insertionSort
  have hnodup : (inOrder l).Nodup := (List.perm_insertionSort _ _).nodup_iff.2 l.nodup_dedup
  exact (hsortedLE.sortedLT_of_nodup hnodup).pairwise

theorem inOrder_eq_nil {l : List String} : inOrder l = [] ↔ l = [] := by
  rw [inOrder, ← List.length_eq_zero_iff, List.length_insertionSort, List.length_eq_zero_iff,
    List.dedup_eq_nil]

namespace SortedSet

variable {α β : Type} [Named α] [Named β]

/-! ## Members and names -/

theorem has_of_mem {s : SortedSet α} {a : α} (h : a ∈ s) : s.has (Named.name a) = true :=
  has_iff.2 ⟨a, h, rfl⟩

theorem eq_of_mem_of_name_eq {s : SortedSet α} {a b : α} (ha : a ∈ s) (hb : b ∈ s)
    (h : Named.name a = Named.name b) : a = b := by
  have hfind : s.find? (Named.name b) = some a := find?_eq_some_iff.2 ⟨ha, h⟩
  rw [find?_eq_some_iff.2 ⟨hb, rfl⟩] at hfind
  exact (Option.some.inj hfind).symm

/-- Two sets have the same list of names when they have the same names, whatever their members. -/
theorem names_eq_iff {s : SortedSet α} {t : SortedSet β} :
    s.names = t.names ↔ ∀ n, s.has n = t.has n := by
  constructor
  · intro h n
    rw [Bool.eq_iff_iff, ← mem_names, ← mem_names, h]
  · intro h
    refine eq_of_pairwise_of_mem_iff s.pairwise_names t.pairwise_names fun n => ?_
    rw [mem_names, mem_names, h]

/-- A set that has the names of a list has them in their order. -/
theorem names_eq_inOrder {s : SortedSet α} {l : List String} (h : ∀ n, s.has n = true ↔ n ∈ l) :
    s.names = inOrder l := by
  refine eq_of_pairwise_of_mem_iff s.pairwise_names (pairwise_inOrder l) fun n => ?_
  rw [mem_names, h, mem_inOrder]

theorem inOrder_names (s : SortedSet α) : inOrder s.names = s.names :=
  (names_eq_inOrder fun _ => mem_names.symm).symm

/-- Sets of names that have the same names are equal. -/
theorem ext_has {s t : NameSet} (h : ∀ n, s.has n = t.has n) : s = t := by
  have hself : ∀ u : NameSet, u.names = u.toList := fun u => List.map_id _
  refine ext ?_
  rw [← hself s, ← hself t]
  exact names_eq_iff.2 h

theorem size_eq_length_names (s : SortedSet α) : s.size = s.names.length := by
  simp [size, names]

theorem isEmpty_eq_names (s : SortedSet α) : s.isEmpty = s.names.isEmpty := by
  simp [isEmpty, names]

theorem size_congr {s : SortedSet α} {t : SortedSet β} (h : s.names = t.names) :
    s.size = t.size := by
  rw [size_eq_length_names, h, size_eq_length_names]

theorem isEmpty_congr {s : SortedSet α} {t : SortedSet β} (h : s.names = t.names) :
    s.isEmpty = t.isEmpty := by
  rw [isEmpty_eq_names, h, isEmpty_eq_names]

theorem isEmpty_eq_false_iff {s : SortedSet α} : s.isEmpty = false ↔ ∃ n, s.has n = true := by
  rw [← Bool.not_eq_true, isEmpty_iff]
  simp

/-! ## Where members come from -/

theorem mem_singleton {a b : α} : b ∈ singleton a ↔ b = a :=
  List.mem_singleton

theorem not_mem_empty (a : α) : ¬ a ∈ (∅ : SortedSet α) := List.not_mem_nil

theorem mem_filter {s : SortedSet α} {p : α → Bool} {a : α} :
    a ∈ s.filter p ↔ a ∈ s ∧ p a = true :=
  List.mem_filter

theorem mem_relabel {s : SortedSet α} {f : α → α} {h : ∀ a, Named.name (f a) = Named.name a}
    {b : α} : b ∈ s.relabel f h ↔ ∃ a ∈ s, f a = b :=
  List.mem_map

theorem mem_foldl_insert {s : SortedSet α} {l : List α} {a : α} (h : a ∈ l.foldl insert s) :
    a ∈ s ∨ a ∈ l := by
  induction l generalizing s with
  | nil => exact .inl h
  | cons b l ih =>
    rcases ih h with h | h
    · rcases mem_insert.1 h with h | ⟨rfl, -⟩
      · exact .inl h
      · exact .inr List.mem_cons_self
    · exact .inr (List.mem_cons_of_mem b h)

theorem mem_union {s t : SortedSet α} {a : α} (h : a ∈ s ∪ t) : a ∈ s ∨ a ∈ t :=
  mem_foldl_insert h

theorem mem_ofList {l : List α} {a : α} (h : a ∈ ofList l) : a ∈ l :=
  (mem_foldl_insert h).resolve_left (not_mem_empty a)

theorem mem_collect {l : List α} {a : α} (h : a ∈ collect l) : a ∈ l :=
  List.mem_reverse.1 (mem_ofList h)

/-- A filter by name keeps exactly the names that pass. -/
theorem has_filter_name (s : SortedSet α) (p : String → Bool) (n : String) :
    (s.filter fun a => p (Named.name a)).has n = (s.has n && p n) := by
  rw [Bool.eq_iff_iff, has_iff, Bool.and_eq_true, has_iff]
  constructor
  · rintro ⟨a, ha, rfl⟩
    exact ⟨⟨a, (mem_filter.1 ha).1, rfl⟩, (mem_filter.1 ha).2⟩
  · rintro ⟨⟨a, ha, rfl⟩, hp⟩
    exact ⟨a, mem_filter.2 ⟨ha, hp⟩, rfl⟩

/-! ## Unions of many sets -/

/-- The members of all listed sets; of several members of one name the first stays. -/
def unions (l : List (SortedSet α)) : SortedSet α := l.foldl union ∅

theorem has_foldl_union (s : SortedSet α) (l : List (SortedSet α)) (n : String) :
    (l.foldl union s).has n = true ↔ s.has n = true ∨ ∃ t ∈ l, t.has n = true := by
  induction l generalizing s with
  | nil => simp
  | cons t l ih =>
    have hunion : (s.union t).has n = (s.has n || t.has n) := has_union s t n
    rw [List.foldl_cons, ih, hunion, Bool.or_eq_true]
    simp [or_assoc]

theorem has_unions {l : List (SortedSet α)} {n : String} :
    (unions l).has n = true ↔ ∃ t ∈ l, t.has n = true := by
  rw [unions, has_foldl_union]
  simp

/-- The names in a union that is indexed by a list. -/
theorem has_unions_map {γ : Type} {l : List γ} {f : γ → SortedSet α} {n : String} :
    (unions (l.map f)).has n = true ↔ ∃ c ∈ l, (f c).has n = true := by
  rw [has_unions]
  constructor
  · rintro ⟨t, ht, hn⟩
    obtain ⟨c, hc, rfl⟩ := List.mem_map.1 ht
    exact ⟨c, hc, hn⟩
  · rintro ⟨c, hc, hn⟩
    exact ⟨f c, List.mem_map.2 ⟨c, hc, rfl⟩, hn⟩

theorem mem_foldl_union {s : SortedSet α} {l : List (SortedSet α)} {a : α}
    (h : a ∈ l.foldl union s) : a ∈ s ∨ ∃ t ∈ l, a ∈ t := by
  induction l generalizing s with
  | nil => exact .inl h
  | cons t l ih =>
    rcases ih h with h | ⟨u, hu, ha⟩
    · rcases mem_union h with h | h
      · exact .inl h
      · exact .inr ⟨t, List.mem_cons_self, h⟩
    · exact .inr ⟨u, List.mem_cons_of_mem t hu, ha⟩

/-- The members of a union that is indexed by a list. -/
theorem mem_unions_map {γ : Type} {l : List γ} {f : γ → SortedSet α} {a : α}
    (h : a ∈ unions (l.map f)) : ∃ c ∈ l, a ∈ f c := by
  obtain ⟨t, ht, ha⟩ := (mem_foldl_union h).resolve_left (not_mem_empty a)
  obtain ⟨c, hc, rfl⟩ := List.mem_map.1 ht
  exact ⟨c, hc, ha⟩

end SortedSet

end HookedAutomata
