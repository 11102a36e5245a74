import Mathlib.Data.Finmap
import HookedAutomata.Proofs.Editing
import HookedAutomata.Trigger.Symbol

/-!
# Tables as finite maps

What a table says is a finite map: its keys are names of states with triggers, where triggers that
match are one, and under a key it has a set of names and the spelling of the trigger
(`Table.contents`). An edit replaces states by instances that the table knows and then does what it
does to the map (`Contents.apply`), as instances are replaced by others of their names. It also
answers as is told from the map (`Contents.reply`).

Spellings are kept: what is stored for a key is spelled as by the addition that brought the key in
(`Contents.spelling_of_lookup`). All else a table is asked for can be read off the map.

The main statement is `Table.behaves_as_map`.
-/

namespace HookedAutomata

variable {κ : Type} [CustomTrigger κ]

/-! ## Answers to edits -/

namespace Table

/-- What an edit answers. -/
inductive Reply (κ : Type) where
  | made
  | refused (e : TableError κ)
  -- the names of the targets that were dropped, if there was an entry
  | removed (targets : Option (List String))

def reply (t : Table κ) : Edit κ → Reply κ
  | .add source on targets =>
    match t.add source on targets with
    | .ok _ => .made
    | .error e => .refused e
  | .update source on targets =>
    match t.update source on targets with
    | .ok _ => .made
    | .error e => .refused e
  | .remove name on => .removed ((t.remove name on).1.map (·.names))

/-- What a sequence of edits answers. -/
def replies (t : Table κ) : List (Edit κ) → List (Reply κ)
  | [] => []
  | c :: l => t.reply c :: (t.apply c).replies l

/-- An edit that is refused leaves the table as it is, instances included. -/
theorem apply_of_refused {t : Table κ} {c : Edit κ} {e : TableError κ}
    (h : t.reply c = .refused e) : t.apply c = t := by
  cases c with
  | add source on targets =>
    simp only [reply] at h
    simp only [apply]
    cases hadd : t.add source on targets with
    | ok t' => simp [hadd] at h
    | error e' => rfl
  | update source on targets =>
    simp only [reply] at h
    simp only [apply]
    cases hupdate : t.update source on targets with
    | ok t' => simp [hupdate] at h
    | error e' => rfl
  | remove name on => cases h

theorem names_canonicalSet (t : Table κ) (source : State) (s : StateSet) :
    (t.canonicalSet source s).names = s.names :=
  SortedSet.names_relabel s _ (t.name_canonicalAt source)

end Table

/-! ## Triggers without repetition -/

namespace Trigger

/-- Of the triggers that match it the first stays, and then the rest are made distinct. -/
theorem distinct_induction {P : List (Trigger κ) → List (Trigger κ) → Prop} (nil : P [] [])
    (cons : ∀ (g : Trigger κ) (l : List (Trigger κ)),
      P (l.filter fun h => !(h == g)) (distinct (l.filter fun h => !(h == g))) →
        P (g :: l) (g :: distinct (l.filter fun h => !(h == g)))) : ∀ l, P l (distinct l)
  | [] => nil
  | g :: l => by
    unfold distinct
    rw [List.eraseDups_cons]
    exact cons g l (distinct_induction nil cons _)
termination_by l => l.length
decreasing_by exact Nat.lt_succ_of_le (List.length_filter_le _ _)

theorem mem_of_mem_distinct (l : List (Trigger κ)) : ∀ g ∈ distinct l, g ∈ l := by
  induction l using distinct_induction with
  | nil => exact fun g hg => hg
  | cons h l ih =>
    intro g hg
    rcases List.mem_cons.1 hg with rfl | hg
    · exact List.mem_cons_self
    · exact List.mem_cons_of_mem h (List.mem_filter.1 (ih g hg)).1

variable [EquivBEq κ]

theorem exists_mem_distinct (l : List (Trigger κ)) :
    ∀ g ∈ l, ∃ h ∈ distinct l, (h == g) = true := by
  induction l using distinct_induction with
  | nil => exact fun g hg => absurd hg List.not_mem_nil
  | cons h l ih =>
    intro g hg
    cases hgh : g == h with
    | true => exact ⟨h, List.mem_cons_self, BEq.symm hgh⟩
    | false =>
      have hother : g ∈ l.filter fun g => !(g == h) := by
        rcases List.mem_cons.1 hg with rfl | hg
        · simp at hgh
        · exact List.mem_filter.2 ⟨hg, by simp [hgh]⟩
      obtain ⟨d, hd, hdg⟩ := ih g hother
      exact ⟨d, List.mem_cons_of_mem h hd, hdg⟩

theorem pairwise_distinct (l : List (Trigger κ)) :
    (distinct l).Pairwise fun g h => (g == h) = false := by
  induction l using distinct_induction with
  | nil => exact .nil
  | cons h l ih =>
    refine List.pairwise_cons.2 ⟨fun g hg => ?_, ih⟩
    have hkept := (List.mem_filter.1 (mem_of_mem_distinct _ g hg)).2
    rw [BEq.comm]
    simpa using hkept

end Trigger

variable [EquivBEq κ]

/-! ## Keys -/

namespace Trigger

variable (κ) in
/-- Triggers are one if they match. -/
def matching : Setoid (Trigger κ) where
  r g h := (g == h) = true
  iseqv := ⟨fun _ => BEq.rfl, BEq.symm, BEq.trans⟩

variable (κ) in
/-- A trigger in whatever spelling. -/
def Class : Type := Quotient (matching κ)

/-- The trigger without its spelling. -/
def toClass (g : Trigger κ) : Class κ := Quotient.mk (matching κ) g

theorem toClass_eq_iff {g h : Trigger κ} : g.toClass = h.toClass ↔ (g == h) = true :=
  Quotient.eq (r := matching κ)

instance : DecidableEq (Class κ) :=
  letI : ∀ g h : Trigger κ, Decidable ((matching κ).r g h) :=
    fun g h => inferInstanceAs (Decidable ((g == h) = true))
  inferInstanceAs (DecidableEq (Quotient (matching κ)))

end Trigger

variable (κ) in
/-- The name of a source and a trigger in whatever spelling. -/
abbrev Key : Type := String × Trigger.Class κ

def Key.of (n : String) (on : Trigger κ) : Key κ := (n, on.toClass)

theorem Key.of_eq_iff {n m : String} {on off : Trigger κ} :
    Key.of n on = Key.of m off ↔ n = m ∧ (on == off) = true := by
  unfold Key.of
  rw [Prod.mk.injEq, Trigger.toClass_eq_iff]

theorem Key.exists_of (k : Key κ) : ∃ n on, k = Key.of n on := by
  obtain ⟨n, c⟩ := k
  obtain ⟨on, rfl⟩ := Quotient.exists_rep c
  exact ⟨n, on, rfl⟩

/-- What is stored under a key: its trigger as it is spelled there, and the names of the targets. -/
structure Cell (κ : Type) where
  trigger : Trigger κ
  targets : List String

variable (κ) in
/-- A finite map from keys to what is stored. -/
abbrev Contents : Type := Finmap fun _ : Key κ => Cell κ

theorem Contents.ext_of {m m' : Contents κ}
    (h : ∀ n on, m.lookup (Key.of n on) = m'.lookup (Key.of n on)) : m = m' := by
  refine Finmap.ext_lookup fun k => ?_
  obtain ⟨n, on, rfl⟩ := k.exists_of
  exact h n on

namespace Entry

def key (e : Entry κ) : Key κ := Key.of e.source.name e.trigger

def cell (e : Entry κ) : Cell κ := ⟨e.trigger, e.targets.names⟩

theorem isFor_iff {e : Entry κ} {n : String} {on : Trigger κ} :
    e.isFor n on = true ↔ e.key = Key.of n on := by
  unfold isFor key
  rw [Key.of_eq_iff, Bool.and_eq_true, beq_iff_eq]

end Entry

/-! ## Contents of transitions -/

namespace Transitions

theorem nodupKeys (m : Transitions κ) :
    (m.entries.map fun e => (⟨e.key, e.cell⟩ : Σ _ : Key κ, Cell κ)).NodupKeys := by
  refine List.nodupKeys_iff_pairwise.2 (List.pairwise_map.2 (m.distinct.imp fun {d e} h => ?_))
  intro hkey
  have hfor : d.isFor e.source.name e.trigger = true := Entry.isFor_iff.2 hkey
  rw [h] at hfor
  cases hfor

/-- The map that the entries are. -/
def contents (m : Transitions κ) : Contents κ :=
  AList.toFinmap ⟨m.entries.map fun e => ⟨e.key, e.cell⟩, m.nodupKeys⟩

theorem lookup_contents_eq_some {m : Transitions κ} {k : Key κ} {x : Cell κ} :
    m.contents.lookup k = some x ↔ ∃ e ∈ m.entries, e.key = k ∧ e.cell = x := by
  unfold contents
  rw [Finmap.lookup_toFinmap]
  refine (AList.mem_lookup_iff).trans ?_
  simp

theorem lookup_contents (m : Transitions κ) (n : String) (on : Trigger κ) :
    m.contents.lookup (Key.of n on) = (m.find? n on).map Entry.cell := by
  cases hfind : m.find? n on with
  | some e =>
    have hkey : e.key = Key.of n on := Entry.isFor_iff.1 (isFor_of_find? hfind)
    exact lookup_contents_eq_some.2 ⟨e, mem_of_find? hfind, hkey, rfl⟩
  | none =>
    rw [Option.map_none, Option.eq_none_iff_forall_ne_some]
    intro x hx
    obtain ⟨e, he, hkey, -⟩ := lookup_contents_eq_some.1 hx
    exact List.find?_eq_none.1 hfind e he (Entry.isFor_iff.2 hkey)

theorem mem_contents {m : Transitions κ} {n : String} {on : Trigger κ} :
    Key.of n on ∈ m.contents ↔ (m.find? n on).isSome = true := by
  rw [← Finmap.lookup_isSome, lookup_contents, Option.isSome_map]

theorem insert?_eq_none_iff_mem {m : Transitions κ} {e : Entry κ} :
    m.insert? e = none ↔ e.key ∈ m.contents := by
  rw [insert?_eq_none_iff, Entry.key, mem_contents, Option.isSome_iff_ne_none]

theorem contents_insert? {m m' : Transitions κ} {e : Entry κ} (h : m.insert? e = some m') :
    m'.contents = m.contents.insert e.key e.cell := by
  have hfree : m.contents.lookup e.key = none := by
    refine Finmap.lookup_eq_none.2 fun hmem => ?_
    rw [insert?_eq_none_iff_mem.2 hmem] at h
    cases h
  refine Contents.ext_of fun n on => ?_
  rw [lookup_contents, find?_insert? h, Option.map_or, ← lookup_contents]
  by_cases hkey : e.key = Key.of n on
  · rw [← hkey, hfree, if_pos (Entry.isFor_iff.2 hkey), Finmap.lookup_insert]
    rfl
  · have hother : ¬ e.isFor n on = true := fun hfor => hkey (Entry.isFor_iff.1 hfor)
    rw [if_neg hother, Option.map_none, Option.or_none, Finmap.lookup_insert_of_ne _ (Ne.symm hkey)]

theorem contents_modify {m : Transitions κ} {n : String} {on : Trigger κ} {e : Entry κ}
    (h : m.find? n on = some e) (f : StateSet → StateSet) :
    (m.modify n on f).contents = m.contents.insert (Key.of n on) (e.withTargets f).cell := by
  refine Contents.ext_of fun n' on' => ?_
  rw [lookup_contents, find?_modify]
  by_cases hkey : Key.of n' on' = Key.of n on
  · have hcongr : m.find? n' on' = some e := by
      obtain ⟨rfl, hon⟩ := Key.of_eq_iff.1 hkey
      rw [m.find?_congr hon, h]
    rw [hcongr, hkey, Finmap.lookup_insert, Option.map_some, if_pos (isFor_of_find? h)]
    rfl
  · rw [Finmap.lookup_insert_of_ne _ hkey, lookup_contents]
    cases hfind : m.find? n' on' with
    | none => rfl
    | some d =>
      have hother : ¬ d.isFor n on = true := fun hd =>
        hkey ((Entry.isFor_iff.1 (isFor_of_find? hfind)).symm.trans (Entry.isFor_iff.1 hd))
      rw [Option.map_some, if_neg hother]

theorem contents_erase (m : Transitions κ) (n : String) (on : Trigger κ) :
    (m.erase n on).contents = m.contents.erase (Key.of n on) := by
  refine Contents.ext_of fun n' on' => ?_
  rw [lookup_contents, find?_erase]
  by_cases hkey : Key.of n' on' = Key.of n on
  · have hsame := Key.of_eq_iff.1 hkey
    rw [if_pos (by simp [hsame]), hkey, Finmap.lookup_erase]
    rfl
  · have hother : ¬ (n' == n && on' == on) = true := by
      rwa [Bool.and_eq_true, beq_iff_eq, ← Key.of_eq_iff]
    rw [if_neg hother, Finmap.lookup_erase_ne hkey, lookup_contents]

end Transitions

/-! ## Edits of a map -/

/-- The key that an edit is about. -/
def Table.Edit.key : Table.Edit κ → Key κ
  | .add source on _ => Key.of source.name on
  | .update source on _ => Key.of source.name on
  | .remove name on => Key.of name on

/-- Whether an edit drops a key. -/
def Table.Edit.Drops (k : Key κ) : Table.Edit κ → Prop
  | .remove name on => Key.of name on = k
  | _ => False

namespace Contents

/-- What an edit does to a map. An update keeps the trigger as it is spelled. -/
def apply (m : Contents κ) : Table.Edit κ → Contents κ
  | .add source on targets =>
    if Key.of source.name on ∈ m then m else m.insert (Key.of source.name on) ⟨on, targets.names⟩
  | .update source on targets =>
    match m.lookup (Key.of source.name on) with
    | some x => m.insert (Key.of source.name on) { x with targets := targets.names }
    | none => m
  | .remove name on => m.erase (Key.of name on)

def edited (m : Contents κ) (l : List (Table.Edit κ)) : Contents κ := l.foldl apply m

/-- What an edit of a map answers. -/
def reply (m : Contents κ) : Table.Edit κ → Table.Reply κ
  | .add source on _ =>
    if Key.of source.name on ∈ m then .refused (.duplicateTransition source.name on) else .made
  | .update source on _ =>
    if Key.of source.name on ∈ m then .made else .refused (.missingTransition source.name on)
  | .remove name on => .removed ((m.lookup (Key.of name on)).map (·.targets))

def replies (m : Contents κ) : List (Table.Edit κ) → List (Table.Reply κ)
  | [] => []
  | c :: l => m.reply c :: (m.apply c).replies l

/-- An edit changes nothing but what is stored under its key. -/
theorem lookup_apply_of_ne (m : Contents κ) {c : Table.Edit κ} {k : Key κ} (h : k ≠ c.key) :
    (m.apply c).lookup k = m.lookup k := by
  cases c with
  | add source on targets =>
    simp only [apply]
    split
    · rfl
    · exact Finmap.lookup_insert_of_ne m h
  | update source on targets =>
    simp only [apply]
    split
    · exact Finmap.lookup_insert_of_ne m h
    · rfl
  | remove name on => exact Finmap.lookup_erase_ne h

/-- What is stored after an edit is spelled as before, or the edit has brought its key in. -/
theorem spelling_of_lookup_apply {m : Contents κ} {c : Table.Edit κ} {k : Key κ} {x : Cell κ}
    (h : (m.apply c).lookup k = some x) :
    (∃ y, m.lookup k = some y ∧ y.trigger = x.trigger ∧ ¬ c.Drops k) ∨
      ∃ source targets, c = .add source x.trigger targets ∧ Key.of source.name x.trigger = k ∧
        k ∉ m := by
  by_cases hk : k = c.key
  · subst hk
    cases c with
    | add source on targets =>
      simp only [apply, Table.Edit.key] at h
      split at h
      · exact .inl ⟨x, h, rfl, id⟩
      · rename_i hfree
        rw [Finmap.lookup_insert] at h
        obtain rfl := Option.some.inj h
        exact .inr ⟨source, targets, rfl, rfl, hfree⟩
    | update source on targets =>
      simp only [apply, Table.Edit.key] at h
      split at h
      · rename_i y hy
        rw [Finmap.lookup_insert] at h
        obtain rfl := Option.some.inj h
        exact .inl ⟨y, hy, rfl, id⟩
      · exact .inl ⟨x, h, rfl, id⟩
    | remove name on =>
      rw [apply, Table.Edit.key, Finmap.lookup_erase] at h
      cases h
  · rw [m.lookup_apply_of_ne hk] at h
    refine .inl ⟨x, h, rfl, fun hdrops => hk ?_⟩
    cases c with
    | remove name on => exact hdrops.symm
    | _ => exact hdrops.elim

/-- What is stored after edits is spelled as at first, or as by the addition that brought its key
in. Since then no edit has dropped the key. Induction on the edits. -/
theorem spelling_of_lookup {m : Contents κ} {l : List (Table.Edit κ)} {k : Key κ} {x : Cell κ}
    (h : (m.edited l).lookup k = some x) :
    (∃ y, m.lookup k = some y ∧ y.trigger = x.trigger ∧ ∀ c ∈ l, ¬ c.Drops k) ∨
      ∃ before source targets rest, l = before ++ .add source x.trigger targets :: rest ∧
        Key.of source.name x.trigger = k ∧ k ∉ m.edited before ∧ ∀ c ∈ rest, ¬ c.Drops k := by
  induction l generalizing m with
  | nil => exact .inl ⟨x, h, rfl, fun c hc => absurd hc List.not_mem_nil⟩
  | cons c l ih =>
    rcases ih h with ⟨y, hy, hyx, hkept⟩ | ⟨before, source, targets, rest, rfl, hlater⟩
    · rcases spelling_of_lookup_apply hy with ⟨z, hz, hzy, hc⟩ | ⟨source, targets, rfl, hkey, hfree⟩
      · exact .inl ⟨z, hz, hzy.trans hyx, List.forall_mem_cons.2 ⟨hc, hkept⟩⟩
      · rw [hyx] at hkey ⊢
        exact .inr ⟨[], source, targets, l, rfl, hkey, hfree, hkept⟩
    · exact .inr ⟨c :: before, source, targets, rest, rfl, hlater⟩

end Contents

/-! ## Edits of a table -/

namespace Table

def contents (t : Table κ) : Contents κ := t.transitions.contents

/-- An addition fails for a key that is there, and else stores the names of the targets. -/
theorem add_cases (t : Table κ) (source : State) (on : Trigger κ) (targets : StateSet) :
    (Key.of source.name on ∈ t.contents ∧
        t.add source on targets = .error (.duplicateTransition source.name on)) ∨
      (Key.of source.name on ∉ t.contents ∧ ∃ t', t.add source on targets = .ok t' ∧
        t'.contents = t.contents.insert (Key.of source.name on) ⟨on, targets.names⟩) := by
  -- the instances that are stored have the names that were given
  let e : Entry κ := ⟨t.canonical source, on, t.canonicalSet (t.canonical source) targets⟩
  have hkey : e.key = Key.of source.name on := congrArg (Key.of · on) (t.name_canonical source)
  have hcell : e.cell = ⟨on, targets.names⟩ :=
    congrArg (Cell.mk on) (t.names_canonicalSet _ targets)
  rw [← hkey, ← hcell]
  unfold add contents
  cases hinsert : t.transitions.insert? e with
  | none => exact .inl ⟨Transitions.insert?_eq_none_iff_mem.1 hinsert, rfl⟩
  | some m =>
    refine .inr ⟨fun hmem => ?_, _, rfl, Transitions.contents_insert? hinsert⟩
    rw [Transitions.insert?_eq_none_iff_mem.2 hmem] at hinsert
    cases hinsert

/-- An update fails for a key that is not there, and else stores the names of the targets with the
trigger as it is spelled. -/
theorem update_cases (t : Table κ) (source : State) (on : Trigger κ) (targets : StateSet) :
    (t.contents.lookup (Key.of source.name on) = none ∧
        t.update source on targets = .error (.missingTransition source.name on)) ∨
      ∃ x, t.contents.lookup (Key.of source.name on) = some x ∧
        ∃ t', t.update source on targets = .ok t' ∧ t'.contents =
          t.contents.insert (Key.of source.name on) { x with targets := targets.names } := by
  unfold update contents
  rw [Transitions.lookup_contents]
  cases hfind : t.transitions.find? source.name on with
  | none => exact .inl ⟨rfl, rfl⟩
  | some e =>
    have hcell : (e.withTargets fun _ => t.canonicalSet e.source targets).cell =
        ⟨e.trigger, targets.names⟩ :=
      congrArg (Cell.mk e.trigger) (t.names_canonicalSet _ targets)
    refine .inr ⟨e.cell, rfl, _, rfl, ?_⟩
    rw [Transitions.contents_modify hfind, hcell]
    rfl

theorem contents_apply (t : Table κ) (c : Edit κ) : (t.apply c).contents = t.contents.apply c := by
  cases c with
  | add source on targets =>
    simp only [apply, Contents.apply]
    rcases t.add_cases source on targets with ⟨hmem, hadd⟩ | ⟨hmem, t', hadd, ht'⟩
    · rw [hadd, if_pos hmem]
      rfl
    · rw [hadd, if_neg hmem, ← ht']
      rfl
  | update source on targets =>
    simp only [apply, Contents.apply]
    rcases t.update_cases source on targets with ⟨hx, hupdate⟩ | ⟨x, hx, t', hupdate, ht'⟩
    · rw [hupdate, hx]
      rfl
    · rw [hupdate, hx]
      exact ht'
  | remove name on => exact t.transitions.contents_erase name on

theorem reply_eq (t : Table κ) (c : Edit κ) : t.reply c = t.contents.reply c := by
  cases c with
  | add source on targets =>
    simp only [reply, Contents.reply]
    rcases t.add_cases source on targets with ⟨hmem, hadd⟩ | ⟨hmem, t', hadd, -⟩
    · rw [hadd, if_pos hmem]
    · rw [hadd, if_neg hmem]
  | update source on targets =>
    simp only [reply, Contents.reply]
    rcases t.update_cases source on targets with ⟨hx, hupdate⟩ | ⟨x, hx, t', hupdate, -⟩
    · rw [hupdate, if_neg (Finmap.lookup_eq_none.1 hx)]
    · rw [hupdate, if_pos (Finmap.mem_of_lookup_eq_some hx)]
  | remove name on =>
    simp only [reply, remove, Contents.reply, contents]
    rw [Transitions.lookup_contents, Option.map_map, Option.map_map]
    rfl

theorem contents_edited (t : Table κ) (l : List (Edit κ)) :
    (t.edited l).contents = t.contents.edited l := by
  induction l generalizing t with
  | nil => rfl
  | cons c l ih =>
    refine (ih (t.apply c)).trans ?_
    rw [contents_apply]
    rfl

theorem replies_eq (t : Table κ) (l : List (Edit κ)) : t.replies l = t.contents.replies l := by
  induction l generalizing t with
  | nil => rfl
  | cons c l ih => rw [replies, Contents.replies, ih, reply_eq, contents_apply]

/-! ## What is read off -/

theorem names_direct (t : Table κ) (n : String) (on : Trigger κ) :
    (t.direct n on).names = ((t.contents.lookup (Key.of n on)).map (·.targets)).getD [] := by
  unfold direct contents
  rw [Transitions.targets_eq, Transitions.lookup_contents]
  cases t.transitions.find? n on <;> rfl

theorem size_eq_card (t : Table κ) : t.size = t.contents.keys.card := by
  have hkeys : t.contents.keys.card = (t.transitions.entries.map fun e =>
      (⟨e.key, e.cell⟩ : Σ _ : Key κ, Cell κ)).keys.length := rfl
  rw [hkeys, List.keys, List.length_map, List.length_map]
  rfl

theorem mem_keys {t : Table κ} {k : Key κ} :
    k ∈ t.contents.keys ↔ ∃ e ∈ t.transitions.entries, e.key = k := by
  rw [Finmap.mem_keys, Finmap.mem_iff]
  constructor
  · rintro ⟨x, hx⟩
    obtain ⟨e, he, hkey, -⟩ := Transitions.lookup_contents_eq_some.1 hx
    exact ⟨e, he, hkey⟩
  · rintro ⟨e, he, hkey⟩
    exact ⟨e.cell, Transitions.lookup_contents_eq_some.2 ⟨e, he, hkey, rfl⟩⟩

theorem has_sources {t : Table κ} {n : String} :
    t.transitions.sources.has n = true ↔ ∃ k ∈ t.contents.keys, k.1 = n := by
  unfold Transitions.sources
  rw [SortedSet.has_collect, List.any_map, List.any_eq_true]
  constructor
  · rintro ⟨e, he, hname⟩
    exact ⟨e.key, mem_keys.2 ⟨e, he, rfl⟩, beq_iff_eq.1 hname⟩
  · rintro ⟨k, hk, rfl⟩
    obtain ⟨e, he, rfl⟩ := mem_keys.1 hk
    exact ⟨e, he, beq_self_eq_true _⟩

theorem has_allTargets {t : Table κ} {n : String} :
    t.transitions.allTargets.has n = true ↔
      ∃ k x, t.contents.lookup k = some x ∧ n ∈ x.targets := by
  unfold Transitions.allTargets
  rw [SortedSet.has_collect, List.any_flatMap, List.any_eq_true]
  constructor
  · rintro ⟨e, he, hname⟩
    obtain ⟨s, hs, hn⟩ := List.any_eq_true.1 hname
    exact ⟨e.key, e.cell, Transitions.lookup_contents_eq_some.2 ⟨e, he, rfl, rfl⟩,
      List.mem_map.2 ⟨s, hs, beq_iff_eq.1 hn⟩⟩
  · rintro ⟨k, x, hx, hn⟩
    obtain ⟨e, he, -, rfl⟩ := Transitions.lookup_contents_eq_some.1 hx
    obtain ⟨s, hs, hname⟩ := List.mem_map.1 hn
    exact ⟨e, he, List.any_eq_true.2 ⟨s, hs, beq_iff_eq.2 hname⟩⟩

theorem exists_lookup_of_mem_triggers {t : Table κ} {g : Trigger κ}
    (h : g ∈ t.transitions.triggers) : ∃ k x, t.contents.lookup k = some x ∧ x.trigger = g := by
  obtain ⟨e, he, rfl⟩ := List.mem_map.1 (Trigger.mem_of_mem_distinct _ g h)
  exact ⟨e.key, e.cell, Transitions.lookup_contents_eq_some.2 ⟨e, he, rfl, rfl⟩, rfl⟩

theorem exists_mem_triggers {t : Table κ} {k : Key κ} (h : k ∈ t.contents.keys) :
    ∃ g ∈ t.transitions.triggers, g.toClass = k.2 := by
  obtain ⟨e, he, rfl⟩ := mem_keys.1 h
  obtain ⟨g, hg, hge⟩ := Trigger.exists_mem_distinct _ e.trigger (List.mem_map_of_mem he)
  exact ⟨g, hg, Trigger.toClass_eq_iff.2 hge⟩

/-- **A table behaves as a finite map.** Triggers match as an equivalence does. A table was edited:
`t` is what it has become, and `m` is what the edits make of the map that the table was at first.

The map that `t` is then is `m`, and the edits are answered as for the map: an addition is refused
exactly for a key that is there, an update for one that is not, and a removal gives the names of the
targets that were stored. An edit that is refused leaves the table as it is, and no edit changes
what is stored under other keys. The trigger that is stored for a key is spelled as by the addition
that brought the key in, or as at first, and no edit has dropped the key since.

Targets, size, sources, all targets and triggers are those of the map. -/
theorem behaves_as_map (t₀ : Table κ) (l : List (Edit κ)) :
    let t := t₀.edited l
    let m := t₀.contents.edited l
    t.contents = m ∧ t₀.replies l = t₀.contents.replies l ∧
    (∀ c e, t.reply c = .refused e → t.apply c = t) ∧
    (∀ c k, k ≠ c.key → (t.apply c).contents.lookup k = m.lookup k) ∧
    (∀ k x, m.lookup k = some x →
      (∃ y, t₀.contents.lookup k = some y ∧ y.trigger = x.trigger ∧ ∀ c ∈ l, ¬ c.Drops k) ∨
      ∃ before source targets rest, l = before ++ .add source x.trigger targets :: rest ∧
        Key.of source.name x.trigger = k ∧ k ∉ t₀.contents.edited before ∧
        ∀ c ∈ rest, ¬ c.Drops k) ∧
    (∀ n on, (t.direct n on).names = ((m.lookup (Key.of n on)).map (·.targets)).getD []) ∧
    t.size = m.keys.card ∧
    (∀ n, t.transitions.sources.has n = true ↔ ∃ k ∈ m.keys, k.1 = n) ∧
    (∀ n, t.transitions.allTargets.has n = true ↔ ∃ k x, m.lookup k = some x ∧ n ∈ x.targets) ∧
    (∀ g ∈ t.transitions.triggers, ∃ k x, m.lookup k = some x ∧ x.trigger = g) ∧
    (∀ k ∈ m.keys, ∃ g ∈ t.transitions.triggers, g.toClass = k.2) ∧
    t.transitions.triggers.Pairwise fun g h => (g == h) = false := by
  intro t m
  have hm : t.contents = m := contents_edited t₀ l
  refine ⟨hm, replies_eq t₀ l, fun c e => apply_of_refused, fun c k hk => ?_,
    fun k x => Contents.spelling_of_lookup, ?_⟩
  · rw [contents_apply, hm]
    exact m.lookup_apply_of_ne hk
  · rw [← hm]
    exact ⟨t.names_direct, t.size_eq_card, fun n => has_sources, fun n => has_allTargets,
      fun g => exists_lookup_of_mem_triggers, fun k => exists_mem_triggers,
      Trigger.pairwise_distinct _⟩

/-- Words match without regard to case: the second addition is refused, and the update changes what
the first one stored. -/
theorem behaves_as_map_word :
    let word (s : String) : Trigger Symbol := .custom (.word s)
    let l : List (Edit Symbol) := [.add ⟨"left", 0⟩ (word "Go") (.singleton ⟨"right", 1⟩),
      .add ⟨"left", 2⟩ (word "GO") ∅, .update ⟨"left", 3⟩ (word "gO") (.singleton ⟨"left", 4⟩),
      .remove "right" (word "go")]
    let t := (∅ : Table Symbol).edited l
    (∅ : Table Symbol).replies l =
        [.made, .refused (.duplicateTransition "left" (word "GO")), .made, .removed none] ∧
      t.size = 1 ∧ (t.direct "left" (word "go")).names = ["left"] ∧
      ∃ x, t.contents.lookup (Key.of "left" (word "go")) = some x ∧ x.targets = ["left"] ∧
        ∃ before source targets rest, l = before ++ .add source x.trigger targets :: rest ∧
          Key.of source.name x.trigger = Key.of "left" (word "go") := by
  intro word l t
  obtain ⟨hm, -, -, -, hspelling, htargets, -⟩ := behaves_as_map (∅ : Table Symbol) l
  have hdirect : (t.direct "left" (word "go")).names = ["left"] := by decide +kernel
  have hnames := htargets "left" (word "go")
  rw [← hm, hdirect] at hnames
  cases hx : t.contents.lookup (Key.of "left" (word "go")) with
  | none =>
    rw [hx] at hnames
    cases hnames
  | some x =>
    rw [hx] at hnames
    refine ⟨rfl, rfl, hdirect, x, rfl, hnames.symm, ?_⟩
    rcases hspelling _ x (hm ▸ hx) with ⟨y, hy, -⟩ | ⟨before, source, targets, rest, hl, hkey, -⟩
    · cases hy
    · exact ⟨before, source, targets, rest, hl, hkey⟩

end Table

end HookedAutomata
