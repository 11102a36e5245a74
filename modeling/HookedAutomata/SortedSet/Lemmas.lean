import HookedAutomata.SortedSet.Basic

/-!
# Lookups in sets ordered by name

What each operation on a set does to lookups by name. The main statements:

* `SortedSet.find?_eq_some_iff`: a lookup finds exactly the members of its name;
* `SortedSet.ext_find?`: sets in which every lookup finds the same are equal;
* `SortedSet.find?_insert`: an insertion shows under the name inserted, and only where that name
  was free, and `SortedSet.find?_union` and `SortedSet.find?_ofList` likewise for many;
* `SortedSet.find?_collect`: in a set that is made in one go the last value of a name is found;
* `SortedSet.toList_insert_perm`: an insertion under a free name adds one member to the list;
* `SortedSet.find?_filter` and `SortedSet.find?_relabel`: what becomes of the members.
-/

namespace HookedAutomata.SortedSet

variable {α : Type} [Named α]

/-! ## Lookups in sorted lists -/

/-- A name below the first of a sorted list is not in it. -/
theorem find?_eq_none_of_lt {l : List α} {n : String} (h : ∀ b ∈ l, n < Named.name b) :
    l.find? (fun b => Named.name b == n) = none := by
  rw [List.find?_eq_none]
  intro b hb
  have hne : Named.name b ≠ n := fun heq => String.lt_irrefl n (heq ▸ h b hb)
  simpa using hne

/-- Two names neither of which is below the other are equal. -/
theorem name_eq_of_not_lt {a b : String} (hab : ¬ a < b) (hba : ¬ b < a) : a = b :=
  String.le_antisymm (String.not_lt.1 hba) (String.not_lt.1 hab)

theorem find?_place (a : α) {l : List α} (h : l.Pairwise fun a b => Named.name a < Named.name b)
    (n : String) :
    (place a l).find? (fun b => Named.name b == n) =
      (l.find? fun b => Named.name b == n).or (if Named.name a = n then some a else none) := by
  induction l with
  | nil => by_cases hn : Named.name a = n <;> simp [place, hn]
  | cons b l ih =>
    have hb := List.pairwise_cons.1 h
    unfold place
    split
    · -- `a` goes before everything, so its name is not among the others
      rename_i hab
      by_cases hn : Named.name a = n
      · subst hn
        have hnone : (b :: l).find? (fun b => Named.name b == Named.name a) = none := by
          refine find?_eq_none_of_lt fun c hc => ?_
          rcases List.mem_cons.1 hc with rfl | hc
          · exact hab
          · exact String.lt_trans hab (hb.1 c hc)
        simp [hnone]
      · have hnb : (Named.name a == n) = false := by simpa using hn
        rw [List.find?_cons, hnb]
        simp [hn]
    · split
      · by_cases hn : Named.name b = n
        · simp [hn]
        · have hnb : (Named.name b == n) = false := by simpa using hn
          rw [List.find?_cons, List.find?_cons, hnb, ih hb.2]
      · rename_i hab hba
        have heq := name_eq_of_not_lt hab hba
        by_cases hn : Named.name b = n
        · simp [hn]
        · simp [heq, hn]

/-! ## Insertion -/

/-- What is found after an insertion: what was found before, or else the value inserted. -/
theorem find?_insert (s : SortedSet α) (a : α) (n : String) :
    (s.insert a).find? n = (s.find? n).or (if Named.name a = n then some a else none) :=
  find?_place a s.sorted n

@[simp] theorem has_insert (s : SortedSet α) (a : α) (n : String) :
    (s.insert a).has n = (s.has n || Named.name a == n) := by
  simp only [has, find?_insert]
  by_cases hn : Named.name a = n <;> simp [hn]

@[simp] theorem has_empty (n : String) : (∅ : SortedSet α).has n = false := rfl

/-- A lookup finds exactly the members of its name. -/
theorem find?_eq_some_iff {s : SortedSet α} {n : String} {a : α} :
    s.find? n = some a ↔ a ∈ s ∧ Named.name a = n := by
  obtain ⟨l, h⟩ := s
  simp only [find?]
  change _ ↔ a ∈ l ∧ _
  induction l with
  | nil => simp
  | cons b l ih =>
    have hb := List.pairwise_cons.1 h
    by_cases hn : Named.name b = n
    · simp only [List.find?_cons, hn, beq_self_eq_true, Option.some.injEq, List.mem_cons]
      constructor
      · rintro rfl
        exact ⟨.inl rfl, hn⟩
      · rintro ⟨rfl | ha, han⟩
        · rfl
        · exact absurd (hb.1 a ha) (by rw [hn, han]; exact String.lt_irrefl n)
    · have hnb : (Named.name b == n) = false := by simpa using hn
      rw [List.find?_cons, hnb, ih hb.2]
      constructor
      · rintro ⟨ha, han⟩
        exact ⟨List.mem_cons_of_mem b ha, han⟩
      · rintro ⟨ha, han⟩
        rcases List.mem_cons.1 ha with rfl | ha
        · exact absurd han hn
        · exact ⟨ha, han⟩

theorem has_iff {s : SortedSet α} {n : String} : s.has n = true ↔ ∃ a ∈ s, Named.name a = n := by
  simp only [has, Option.isSome_iff_exists, find?_eq_some_iff]

/-- The members after an insertion: those before, and the value inserted if its name was free. -/
theorem mem_insert {s : SortedSet α} {a b : α} :
    b ∈ s.insert a ↔ b ∈ s ∨ (b = a ∧ s.has (Named.name a) = false) := by
  have hfind : b ∈ s.insert a ↔ (s.insert a).find? (Named.name b) = some b := by
    simp [find?_eq_some_iff]
  rw [hfind, find?_insert, Option.or_eq_some_iff, find?_eq_some_iff]
  constructor
  · rintro (⟨hb, -⟩ | ⟨hnone, hif⟩)
    · exact .inl hb
    · split at hif
      · obtain rfl := Option.some.inj hif
        exact .inr ⟨rfl, by simp [has, hnone]⟩
      · cases hif
  · rintro (hb | ⟨rfl, hfree⟩)
    · exact .inl ⟨hb, rfl⟩
    · exact .inr ⟨by simpa [has] using hfree, by simp⟩

/-- A value whose name is free takes its place among the others. -/
theorem perm_place {a : α} {l : List α} (h : ∀ b ∈ l, Named.name b ≠ Named.name a) :
    (place a l).Perm (a :: l) := by
  induction l with
  | nil => exact .refl _
  | cons b l ih =>
    have hrest : (place a l).Perm (a :: l) := ih fun c hc => h c (List.mem_cons_of_mem b hc)
    unfold place
    split
    · exact .refl _
    · split
      · exact (hrest.cons b).trans (.swap a b l)
      · rename_i hab hba
        exact absurd (name_eq_of_not_lt hba hab) (h b List.mem_cons_self)

theorem toList_insert_perm {s : SortedSet α} {a : α} (h : s.has (Named.name a) = false) :
    (s.insert a).toList.Perm (a :: s.toList) := by
  refine perm_place fun b hb hname => ?_
  have hhas : s.has (Named.name a) = true := has_iff.2 ⟨b, hb, hname⟩
  rw [h] at hhas
  cases hhas

/-! ## Many insertions -/

theorem find?_foldl_insert (s : SortedSet α) (l : List α) (n : String) :
    (l.foldl insert s).find? n = (s.find? n).or (l.find? fun a => Named.name a == n) := by
  induction l generalizing s with
  | nil => simp
  | cons a l ih =>
    rw [List.foldl_cons, ih, find?_insert, Option.or_assoc]
    by_cases hn : Named.name a = n
    · simp [hn]
    · have hna : (Named.name a == n) = false := by simpa using hn
      rw [List.find?_cons, hna]
      simp [hn]

/-- What is found in the set of listed values: the first value of the name. -/
theorem find?_ofList (l : List α) (n : String) :
    (ofList l).find? n = l.find? fun a => Named.name a == n := by
  rw [ofList, find?_foldl_insert]
  rfl

/-- What is found in the set that is made in one go: the last value of the name. -/
theorem find?_collect (l : List α) (n : String) :
    (collect l).find? n = l.reverse.find? fun a => Named.name a == n :=
  find?_ofList l.reverse n

/-- What is found in a union: what the first set has, or else what the second has. -/
theorem find?_union (s t : SortedSet α) (n : String) :
    (s ∪ t).find? n = (s.find? n).or (t.find? n) :=
  find?_foldl_insert s t.toList n

@[simp] theorem has_ofList (l : List α) (n : String) :
    (ofList l).has n = l.any fun a => Named.name a == n := by
  rw [has, find?_ofList, List.isSome_find?]

@[simp] theorem has_collect (l : List α) (n : String) :
    (collect l).has n = l.any fun a => Named.name a == n := by
  rw [has, find?_collect, List.isSome_find?, List.any_reverse]

@[simp] theorem has_union (s t : SortedSet α) (n : String) :
    (s ∪ t).has n = (s.has n || t.has n) := by
  simp only [has, find?_union, Option.isSome_or]

@[simp] theorem has_singleton (a : α) (n : String) :
    (singleton a).has n = (Named.name a == n) := by
  by_cases hn : Named.name a = n <;> simp [has, find?, singleton, hn]

/-! ## Selection and replacement -/

/-- What is found among the members that pass a test: a member of the set that passes it. -/
theorem find?_filter (s : SortedSet α) (p : α → Bool) (n : String) :
    (s.filter p).find? n = (s.find? n).filter p := by
  ext a
  have hmem : a ∈ s.filter p ↔ a ∈ s ∧ p a = true := List.mem_filter
  simp only [Option.filter_eq_some_iff, find?_eq_some_iff, hmem, and_assoc, and_comm]

/-- What is found after a replacement: what the member found before is replaced by. -/
theorem find?_relabel (s : SortedSet α) (f : α → α) (h : ∀ a, Named.name (f a) = Named.name a)
    (n : String) : (s.relabel f h).find? n = (s.find? n).map f := by
  simp only [find?, relabel, List.find?_map]
  congr 2
  funext a
  simp [h]

@[simp] theorem has_relabel (s : SortedSet α) (f : α → α)
    (h : ∀ a, Named.name (f a) = Named.name a) (n : String) :
    (s.relabel f h).has n = s.has n := by
  simp only [has, find?_relabel, Option.isSome_map]

@[simp] theorem names_relabel (s : SortedSet α) (f : α → α)
    (h : ∀ a, Named.name (f a) = Named.name a) : (s.relabel f h).names = s.names := by
  simp [names, relabel, h]

/-! ## Equality -/

theorem mem_names {s : SortedSet α} {n : String} : n ∈ s.names ↔ s.has n = true := by
  rw [has_iff, names, List.mem_map]
  rfl

/-- Names increase strictly along the names of a set. -/
theorem pairwise_names (s : SortedSet α) : s.names.Pairwise (· < ·) :=
  List.pairwise_map.2 s.sorted

theorem nodup_names (s : SortedSet α) : s.names.Nodup := s.pairwise_names.imp String.ne_of_lt

/-- Two lists that increase strictly and have the same members are equal. -/
theorem eq_of_pairwise_of_mem_iff {l m : List α}
    (hl : l.Pairwise fun a b => Named.name a < Named.name b)
    (hm : m.Pairwise fun a b => Named.name a < Named.name b) (h : ∀ a, a ∈ l ↔ a ∈ m) : l = m := by
  induction l generalizing m with
  | nil =>
    cases m with
    | nil => rfl
    | cons b m => exact absurd ((h b).2 List.mem_cons_self) (by simp)
  | cons a l ih =>
    cases m with
    | nil => exact absurd ((h a).1 List.mem_cons_self) (by simp)
    | cons b m =>
      have hl' := List.pairwise_cons.1 hl
      have hm' := List.pairwise_cons.1 hm
      -- each head is in the other list, and neither can stand behind the other
      have hab : a = b := by
        rcases List.mem_cons.1 ((h a).1 List.mem_cons_self) with hab | ham
        · exact hab
        · rcases List.mem_cons.1 ((h b).2 List.mem_cons_self) with hba | hbl
          · exact hba.symm
          · exact absurd (String.lt_trans (hm'.1 a ham) (hl'.1 b hbl)) (String.lt_irrefl _)
      subst hab
      congr 1
      refine ih hl'.2 hm'.2 fun c => ⟨fun hc => ?_, fun hc => ?_⟩
      · rcases List.mem_cons.1 ((h c).1 (List.mem_cons_of_mem a hc)) with rfl | hcm
        · exact absurd (hl'.1 c hc) (String.lt_irrefl _)
        · exact hcm
      · rcases List.mem_cons.1 ((h c).2 (List.mem_cons_of_mem a hc)) with rfl | hcl
        · exact absurd (hm'.1 c hc) (String.lt_irrefl _)
        · exact hcl

/-- Sets in which every lookup finds the same are equal. -/
theorem ext_find? {s t : SortedSet α} (h : ∀ n, s.find? n = t.find? n) : s = t := by
  refine ext (eq_of_pairwise_of_mem_iff s.sorted t.sorted fun a => ?_)
  have hs : a ∈ s.toList ↔ s.find? (Named.name a) = some a := by
    rw [find?_eq_some_iff]; exact (and_iff_left rfl).symm
  have ht : a ∈ t.toList ↔ t.find? (Named.name a) = some a := by
    rw [find?_eq_some_iff]; exact (and_iff_left rfl).symm
  rw [hs, ht, h]

@[simp] theorem union_empty (s : SortedSet α) : s ∪ ∅ = s := rfl

@[simp] theorem empty_union (s : SortedSet α) : ∅ ∪ s = s :=
  ext_find? fun n => by rw [find?_union]; rfl

theorem relabel_union (s t : SortedSet α) (f : α → α) (h : ∀ a, Named.name (f a) = Named.name a) :
    (s ∪ t).relabel f h = s.relabel f h ∪ t.relabel f h := by
  refine ext_find? fun n => ?_
  rw [find?_relabel, find?_union, find?_union, find?_relabel, find?_relabel, Option.map_or]

theorem isEmpty_iff {s : SortedSet α} : s.isEmpty = true ↔ ∀ n, s.has n = false := by
  constructor
  · intro h n
    rw [ext (t := ∅) (List.isEmpty_iff.1 h)]
    rfl
  · intro h
    refine List.isEmpty_iff.2 (List.eq_nil_iff_forall_not_mem.2 fun a ha => ?_)
    exact absurd (has_iff.2 ⟨a, ha, rfl⟩) (by simp [h])

end HookedAutomata.SortedSet
