import HookedAutomata.Proofs.SameNames
import HookedAutomata.Proofs.TableHistories

/-!
# What a draft is made of

A draft is served requests: calls, which may be refused, and now and then it is built. Of all these
requests only some leave a trace, the calls that were not refused and that no later call cleared away
(`Draft.effective`). They alone make the same draft (`Draft.served_eq_after`).

What the draft holds can be read off them as off a set of edges (`Draft.Denotes`): there is an entry
for a key if one of them adds a transition for it, and its targets are those that any of them adds.
So the order of the calls that add transitions and end names does not matter, as long as each of them
comes late enough to be taken.

The main statement is `Draft.build_denotes_effective`.
-/

namespace HookedAutomata

variable {κ : Type} [CustomTrigger κ]

namespace Draft

/-! ## Requests -/

/-- What a host asks of a draft. -/
inductive Request (κ : Type) where
  | call (c : Call κ)
  | build

/-- The draft after a request. Only a call that is not refused changes it. -/
def asked (d : Draft κ) : Request κ → Draft κ
  | .call c => (d.call c).toOption.getD d
  | .build => d

def served (d : Draft κ) (l : List (Request κ)) : Draft κ := l.foldl asked d

/-- What is left of some calls, those that took effect on the way to `d`, after one more request. -/
def Request.appended (d : Draft κ) (log : List (Call κ)) : Request κ → List (Call κ)
  | .call .clear => []
  | .call c => if (d.call c).isOk then log ++ [c] else log
  | .build => log

def effectiveFrom (d : Draft κ) (log : List (Call κ)) : List (Request κ) → List (Call κ)
  | [] => log
  | q :: l => effectiveFrom (d.asked q) (q.appended d log) l

/-- The calls that were not refused since the last call that cleared the draft, in order. -/
def effective (l : List (Request κ)) : List (Call κ) := effectiveFrom ∅ [] l

theorem served_append (d : Draft κ) (l m : List (Request κ)) :
    d.served (l ++ m) = (d.served l).served m :=
  List.foldl_append

theorem effectiveFrom_append (d : Draft κ) (log : List (Call κ)) (l m : List (Request κ)) :
    effectiveFrom d log (l ++ m) = effectiveFrom (d.served l) (effectiveFrom d log l) m := by
  induction l generalizing d log with
  | nil => rfl
  | cons q l ih => exact ih (d.asked q) (q.appended d log)

theorem appended_call (d : Draft κ) (log : List (Call κ)) {c : Call κ} (hclear : c ≠ .clear) :
    (Request.call c).appended d log = if (d.call c).isOk then log ++ [c] else log := by
  cases c with
  | clear => exact absurd rfl hclear
  | _ => rfl

/-- Three kinds of requests: those that leave a trace, those that leave none, and a clear. -/
theorem asked_cases (d : Draft κ) (log : List (Call κ)) (q : Request κ) :
    (∃ c d', c ≠ .clear ∧ d.call c = .ok d' ∧ d.asked q = d' ∧ q.appended d log = log ++ [c]) ∨
      (d.asked q = d ∧ q.appended d log = log) ∨
      (d.asked q = ∅ ∧ q.appended d log = []) := by
  cases q with
  | build => exact .inr (.inl ⟨rfl, rfl⟩)
  | call c =>
    by_cases hclear : c = .clear
    · subst hclear
      exact .inr (.inr ⟨rfl, rfl⟩)
    · rw [appended_call d log hclear, asked]
      cases hcall : d.call c with
      | ok d' => exact .inl ⟨c, d', hclear, hcall, rfl, rfl⟩
      | error e => exact .inr (.inl ⟨rfl, rfl⟩)

/-- What holds of an empty draft and no calls, and is kept by each call that is not refused, holds of
every draft and the calls that are left of what it was asked. -/
theorem served_invariant {P : Draft κ → List (Call κ) → Prop} (hempty : P ∅ [])
    (hcall : ∀ {d d' log c}, c ≠ .clear → d.call c = .ok d' → P d log → P d' (log ++ [c]))
    (l : List (Request κ)) : P ((∅ : Draft κ).served l) (effective l) := by
  have hfrom : ∀ d log, P d log → P (d.served l) (effectiveFrom d log l) := by
    induction l with
    | nil => exact fun _ _ h => h
    | cons q l ih =>
      intro d log h
      refine ih _ _ ?_
      rcases asked_cases d log q with ⟨c, d', hclear, hok, hasked, happended⟩ |
          ⟨hasked, happended⟩ | ⟨hasked, happended⟩
      · rw [hasked, happended]
        exact hcall hclear hok h
      · rw [hasked, happended]
        exact h
      · rw [hasked, happended]
        exact hempty
  exact hfrom ∅ [] hempty

/-! ## What the calls denote -/

/-- Whether a call adds an end name or a transition. -/
def Call.isAdd : Call κ → Bool
  | .addEnd _ => true
  | .addTransition _ _ _ => true
  | _ => false

def Call.startName? : Call κ → Option String
  | .setStart n => some n
  | _ => none

def Call.errorName? : Call κ → Option String
  | .setError n => some n
  | _ => none

omit [CustomTrigger κ] in
theorem Call.startName?_of_isAdd {c : Call κ} (h : c.isAdd = true) : c.startName? = none := by
  cases c with
  | setStart n => cases h
  | _ => rfl

omit [CustomTrigger κ] in
theorem Call.errorName?_of_isAdd {c : Call κ} (h : c.isAdd = true) : c.errorName? = none := by
  cases c with
  | setError n => cases h
  | _ => rfl

/-- The draft holds what the calls say, in whatever order they add transitions and end names. -/
structure Denotes (d : Draft κ) (log : List (Call κ)) : Prop where
  entry : ∀ n on, (d.transitions.find? n on).isSome = true ↔
    ∃ off ns, .addTransition n off ns ∈ log ∧ (off == on) = true
  target : ∀ n on m, (d.transitions.targets n on).has m = true ↔
    ∃ off ns, .addTransition n off ns ∈ log ∧ (off == on) = true ∧ m ∈ ns
  ends : ∀ n, d.endNames.has n = true ↔ .addEnd n ∈ log
  start : d.start.map (·.name) = (log.filterMap Call.startName?).getLast?
  error : d.error.map (·.name) = (log.filterMap Call.errorName?).getLast?

theorem denotes_empty : Denotes (∅ : Draft κ) [] where
  entry n on := ⟨nofun, by simp⟩
  target n on m := ⟨nofun, by simp⟩
  ends n := ⟨nofun, by simp⟩
  start := rfl
  error := rfl

omit [CustomTrigger κ] in
theorem exists_addTransition_append {log : List (Call κ)} {n k : String} {on : Trigger κ}
    {ns : List String} {P : Trigger κ → List String → Prop} :
    (∃ off ms, .addTransition k off ms ∈ log ++ [.addTransition n on ns] ∧ P off ms) ↔
      (∃ off ms, .addTransition k off ms ∈ log ∧ P off ms) ∨ (n = k ∧ P on ns) := by
  constructor
  · rintro ⟨off, ms, hmem, hP⟩
    rcases List.mem_append.1 hmem with hmem | hmem
    · exact .inl ⟨off, ms, hmem, hP⟩
    · obtain ⟨rfl, rfl, rfl⟩ := Call.addTransition.inj (List.mem_singleton.1 hmem)
      exact .inr ⟨rfl, hP⟩
  · rintro (⟨off, ms, hmem, hP⟩ | ⟨rfl, hP⟩)
    · exact ⟨off, ms, List.mem_append_left _ hmem, hP⟩
    · exact ⟨on, ns, List.mem_append_right _ List.mem_cons_self, hP⟩

/-- A merged entry adds the edges of the call that adds it. -/
theorem Denotes.merge [EquivBEq κ] {d : Draft κ} {log : List (Call κ)} (h : d.Denotes log)
    {n : String} {on : Trigger κ} {ns : List String} {e : Entry κ} (he : e.Over d.states n on ns) :
    Denotes { d with transitions := d.transitions.merge e } (log ++ [.addTransition n on ns]) where
  entry k t := by
    have hkey : e.isFor k t = true ↔ n = k ∧ (on == t) = true := by
      rw [Entry.isFor, he.source_name, he.trigger, Bool.and_eq_true, beq_iff_eq]
    rw [Transitions.isSome_find?_merge, Bool.or_eq_true, h.entry, hkey, exists_addTransition_append]
  target k t m := by
    have hkey : (k == e.source.name && t == e.trigger) = true ↔ n = k ∧ (on == t) = true := by
      rw [he.source_name, he.trigger, Bool.and_eq_true, beq_iff_eq, eq_comm, BEq.comm]
    have hmerge : ((d.transitions.merge e).targets k t).has m = true ↔
        (d.transitions.targets k t).has m = true ∨ (n = k ∧ (on == t) = true ∧ m ∈ ns) := by
      rw [Transitions.targets_merge]
      split
      · rename_i hfor
        simp [he.has_targets, hkey.1 hfor]
      · rename_i hfor
        rw [← and_assoc, ← hkey]
        simp [hfor]
    show ((d.transitions.merge e).targets k t).has m = true ↔ _
    rw [hmerge, h.target, exists_addTransition_append]
  ends k := by simpa using h.ends k
  start := by simpa [Call.startName?] using h.start
  error := by simpa [Call.errorName?] using h.error

/-- A call that adds neither end names nor transitions leaves those of the draft as they are. -/
theorem Denotes.other {d d' : Draft κ} {log : List (Call κ)} (h : d.Denotes log) {c : Call κ}
    (hadd : c.isAdd = false) (htransitions : d'.transitions = d.transitions)
    (hends : d'.endNames = d.endNames)
    (hstart : d'.start.map (·.name) = ((log ++ [c]).filterMap Call.startName?).getLast?)
    (herror : d'.error.map (·.name) = ((log ++ [c]).filterMap Call.errorName?).getLast?) :
    d'.Denotes (log ++ [c]) := by
  have hmem : ∀ e : Call κ, e.isAdd = true → (e ∈ log ++ [c] ↔ e ∈ log) := by
    intro e he
    rw [List.mem_append, List.mem_singleton, or_iff_left]
    rintro rfl
    rw [he] at hadd
    cases hadd
  have hedge : ∀ n off ns, .addTransition n off ns ∈ log ++ [c] ↔ .addTransition n off ns ∈ log :=
    fun _ _ _ => hmem _ rfl
  refine ⟨fun n on => ?_, fun n on m => ?_, fun n => ?_, hstart, herror⟩
  · rw [htransitions]
    simpa only [hedge] using h.entry n on
  · rw [htransitions]
    simpa only [hedge] using h.target n on m
  · rw [hends, hmem _ rfl]
    exact h.ends n

/-- A call that is not refused adds to the draft what it says. -/
theorem Denotes.call [EquivBEq κ] {d d' : Draft κ} {log : List (Call κ)} (h : d.Denotes log)
    {c : Call κ} (hclear : c ≠ .clear) (hcall : d.call c = .ok d') : d'.Denotes (log ++ [c]) := by
  cases c with
  | addState s =>
    rcases d.addState_cases s with ⟨-, hadd⟩ | ⟨-, hadd⟩
    · obtain rfl := Except.ok.inj (hadd.symm.trans hcall)
      exact h.other rfl rfl rfl (by simpa [Call.startName?] using h.start)
        (by simpa [Call.errorName?] using h.error)
    · cases hadd.symm.trans hcall
  | addEnd n =>
    rcases d.addEnd_cases n with ⟨-, hadd⟩ | ⟨-, hadd⟩
    · obtain rfl := Except.ok.inj (hadd.symm.trans hcall)
      refine ⟨by simpa using h.entry, by simpa using h.target, fun k => ?_,
        by simpa [Call.startName?] using h.start, by simpa [Call.errorName?] using h.error⟩
      rw [SortedSet.has_insert, Bool.or_eq_true, h.ends, beq_iff_eq, Named.name_string]
      rw [List.mem_append, List.mem_singleton, Call.addEnd.injEq, eq_comm (a := k)]
    · cases hadd.symm.trans hcall
  | setStart n =>
    rcases d.setStart_cases n with ⟨s, -, rfl, hset⟩ | ⟨-, hset⟩
    · obtain rfl := Except.ok.inj (hset.symm.trans hcall)
      exact h.other rfl rfl rfl (by simp [Call.startName?]) (by simpa [Call.errorName?] using h.error)
    · cases hset.symm.trans hcall
  | setError n =>
    rcases d.setError_cases n with ⟨s, -, rfl, hset⟩ | ⟨-, hset⟩
    · obtain rfl := Except.ok.inj (hset.symm.trans hcall)
      exact h.other rfl rfl rfl (by simpa [Call.startName?] using h.start) (by simp [Call.errorName?])
    · cases hset.symm.trans hcall
  | addTransition n on ns =>
    rcases d.addTransition_cases n on ns with ⟨e, he, hadd⟩ | ⟨-, hadd⟩ | ⟨-, -, m, -, -, -, -, hadd⟩
    · obtain rfl := Except.ok.inj (hadd.symm.trans hcall)
      exact h.merge he
    · cases hadd.symm.trans hcall
    · cases hadd.symm.trans hcall
  | clear => exact absurd rfl hclear

/-- The calls that are left make the same draft. -/
theorem served_eq_after (l : List (Request κ)) :
    (∅ : Draft κ).served l = (∅ : Draft κ).after (effective l) := by
  refine served_invariant (P := fun d log => d = (∅ : Draft κ).after log) rfl ?_ l
  intro d d' log c _ hcall hd
  unfold after at hd ⊢
  rw [List.foldl_append, ← hd, List.foldl_cons, hcall]
  rfl

theorem denotes_served [EquivBEq κ] (l : List (Request κ)) :
    ((∅ : Draft κ).served l).Denotes (effective l) :=
  served_invariant denotes_empty (fun hclear hcall h => h.call hclear hcall) l

/-! ## Calls in another order -/

/-- The same calls, where those that add end names and transitions may stand in another order and
elsewhere among the others. -/
structure Reordered (log log' : List (Call κ)) : Prop where
  adds : (log.filter Call.isAdd).Perm (log'.filter Call.isAdd)
  others : (log.filter fun c => !c.isAdd) = log'.filter fun c => !c.isAdd

omit [CustomTrigger κ] in
theorem Reordered.refl (log : List (Call κ)) : Reordered log log := ⟨.refl _, rfl⟩

omit [CustomTrigger κ] in
theorem Reordered.append {log log' more more' : List (Call κ)} (h : Reordered log log')
    (hmore : Reordered more more') : Reordered (log ++ more) (log' ++ more') := by
  constructor
  · rw [List.filter_append, List.filter_append]
    exact h.adds.append hmore.adds
  · rw [List.filter_append, List.filter_append, h.others, hmore.others]

omit [CustomTrigger κ] in
theorem reordered_of_perm {log log' : List (Call κ)} (hadd : ∀ c ∈ log, c.isAdd = true)
    (h : log.Perm log') : Reordered log log' := by
  have hnone : ∀ l : List (Call κ), (∀ c ∈ l, c.isAdd = true) → l.filter (fun c => !c.isAdd) = [] :=
    fun l hl => List.filter_eq_nil_iff.2 fun c hc => by simp [hl c hc]
  exact ⟨h.filter _, by rw [hnone log hadd, hnone log' fun c hc => hadd c (h.symm.subset hc)]⟩

omit [CustomTrigger κ] in
theorem Reordered.mem_iff {log log' : List (Call κ)} (h : Reordered log log') {c : Call κ}
    (hadd : c.isAdd = true) : c ∈ log ↔ c ∈ log' := by
  have hmem := h.adds.mem_iff (a := c)
  rw [List.mem_filter, List.mem_filter] at hmem
  simpa [hadd] using hmem

omit [CustomTrigger κ] in
/-- What the other calls say is said in the same order. -/
theorem Reordered.filterMap_eq {log log' : List (Call κ)} (h : Reordered log log')
    {f : Call κ → Option String} (hf : ∀ c, c.isAdd = true → f c = none) :
    log.filterMap f = log'.filterMap f := by
  have hothers : ∀ l : List (Call κ), l.filterMap f = (l.filter fun c => !c.isAdd).filterMap f := by
    intro l
    rw [List.filterMap_filter]
    congr 1
    funext c
    cases hc : c.isAdd with
    | true => simp [hf c hc]
    | false => rfl
  rw [hothers log, h.others, ← hothers log']

theorem lookup_congr {d d' : Draft κ} (h : d.states = d'.states) : d.lookup = d'.lookup := by
  funext n
  unfold Draft.lookup state?
  rw [h]

/-- What a call is answered depends on the states alone, and so do the states after it. -/
theorem call_congr {d d' : Draft κ} (h : d.states = d'.states) (c : Call κ) :
    (∃ e e', d.call c = .ok e ∧ d'.call c = .ok e' ∧ e.states = e'.states) ∨
      ∃ x, d.call c = .error x ∧ d'.call c = .error x := by
  cases c with
  | addState s =>
    simp only [Draft.call, addState, hasState, h]
    by_cases hs : d'.states.has s.name = true
    · simp only [hs, if_true]
      exact .inr ⟨_, rfl, rfl⟩
    · simp only [hs]
      exact .inl ⟨_, _, rfl, rfl, rfl⟩
  | addEnd n =>
    simp only [Draft.call, addEnd, lookup_congr h]
    cases d'.lookup n with
    | error x => exact .inr ⟨x, rfl, rfl⟩
    | ok s => exact .inl ⟨_, _, rfl, rfl, h⟩
  | setStart n =>
    simp only [Draft.call, setStart, lookup_congr h]
    cases d'.lookup n with
    | error x => exact .inr ⟨x, rfl, rfl⟩
    | ok s => exact .inl ⟨_, _, rfl, rfl, h⟩
  | setError n =>
    simp only [Draft.call, setError, lookup_congr h]
    cases d'.lookup n with
    | error x => exact .inr ⟨x, rfl, rfl⟩
    | ok s => exact .inl ⟨_, _, rfl, rfl, h⟩
  | addTransition n on ns =>
    simp only [Draft.call, addTransition, lookup_congr h]
    cases d'.lookup n with
    | error x => exact .inr ⟨x, rfl, rfl⟩
    | ok s =>
      cases ns.mapM d'.lookup with
      | error x => exact .inr ⟨x, rfl, rfl⟩
      | ok ts => exact .inl ⟨_, _, rfl, rfl, h⟩
  | clear => exact .inl ⟨_, _, rfl, rfl, rfl⟩

theorem isOk_call_congr {d d' : Draft κ} (h : d.states = d'.states) (c : Call κ) :
    (d.call c).isOk = (d'.call c).isOk := by
  rcases call_congr h c with ⟨e, e', hd, hd', -⟩ | ⟨x, hd, hd'⟩
  · rw [hd, hd']
    rfl
  · rw [hd, hd']

theorem states_asked_congr {d d' : Draft κ} (h : d.states = d'.states) (q : Request κ) :
    (d.asked q).states = (d'.asked q).states := by
  cases q with
  | build => exact h
  | call c =>
    simp only [asked]
    rcases call_congr h c with ⟨e, e', hd, hd', he⟩ | ⟨x, hd, hd'⟩
    · rw [hd, hd']
      exact he
    · rw [hd, hd']
      exact h

theorem states_asked_of_isAdd (d : Draft κ) {c : Call κ} (h : c.isAdd = true) :
    (d.asked (.call c)).states = d.states := by
  cases c with
  | addEnd n =>
    simp only [asked, Draft.call]
    rcases d.addEnd_cases n with ⟨-, hadd⟩ | ⟨-, hadd⟩
    all_goals
      rw [hadd]
      rfl
  | addTransition n on ns =>
    simp only [asked, Draft.call]
    rcases d.addTransition_cases n on ns with ⟨e, -, hadd⟩ | ⟨-, hadd⟩ | ⟨-, -, m, -, -, -, -, hadd⟩
    all_goals
      rw [hadd]
      rfl
  | _ => cases h

/-- Of calls that add end names and transitions, those are taken that refer to states of the draft,
in whatever order they come. -/
theorem effectiveFrom_adds (d : Draft κ) (log : List (Call κ)) {added : List (Call κ)}
    (hadd : ∀ c ∈ added, c.isAdd = true) :
    (d.served (added.map .call)).states = d.states ∧
      effectiveFrom d log (added.map .call) = log ++ added.filter fun c => (d.call c).isOk := by
  induction added generalizing d log with
  | nil => exact ⟨rfl, (List.append_nil log).symm⟩
  | cons c added ih =>
    have hc : c.isAdd = true := hadd c List.mem_cons_self
    have hclear : c ≠ .clear := by
      rintro rfl
      cases hc
    have hstates := states_asked_of_isAdd d hc
    obtain ⟨hserved, heffective⟩ := ih (d.asked (.call c)) ((Request.call c).appended d log)
      fun e he => hadd e (List.mem_cons_of_mem c he)
    refine ⟨hserved.trans hstates, heffective.trans ?_⟩
    -- what the call adds does not matter to whether the next ones are taken
    have hrest : (added.filter fun e => ((d.asked (.call c)).call e).isOk) =
        added.filter fun e => (d.call e).isOk :=
      List.filter_congr fun e _ => isOk_call_congr hstates e
    rw [hrest, appended_call d log hclear, List.filter_cons]
    cases (d.call c).isOk with
    | true => exact List.append_assoc log [c] _
    | false => rfl

/-- Reordered calls stay so while the same requests are served. -/
theorem Reordered.effectiveFrom {log log' : List (Call κ)} (h : Reordered log log') {d d' : Draft κ}
    (hstates : d.states = d'.states) (l : List (Request κ)) :
    Reordered (effectiveFrom d log l) (effectiveFrom d' log' l) := by
  induction l generalizing d d' log log' with
  | nil => exact h
  | cons q l ih =>
    refine ih ?_ (states_asked_congr hstates q)
    cases q with
    | build => exact h
    | call c =>
      by_cases hclear : c = .clear
      · subst hclear
        exact .refl []
      · rw [appended_call d log hclear, appended_call d' log' hclear, isOk_call_congr hstates c]
        cases (d'.call c).isOk with
        | false => exact h
        | true => exact h.append (.refl [c])

/-- Calls that add end names and transitions may be made in any order, while nothing else is asked
between them. -/
theorem reordered_effective_of_perm (before rest : List (Request κ)) {added added' : List (Call κ)}
    (hadd : ∀ c ∈ added, c.isAdd = true) (hperm : added.Perm added') :
    Reordered (effective (before ++ added.map .call ++ rest))
      (effective (before ++ added'.map .call ++ rest)) := by
  have hadd' : ∀ c ∈ added', c.isAdd = true := fun c hc => hadd c (hperm.symm.subset hc)
  obtain ⟨hstates, heffective⟩ :=
    effectiveFrom_adds ((∅ : Draft κ).served before) (Draft.effectiveFrom ∅ [] before) hadd
  obtain ⟨hstates', heffective'⟩ :=
    effectiveFrom_adds ((∅ : Draft κ).served before) (Draft.effectiveFrom ∅ [] before) hadd'
  unfold effective
  rw [effectiveFrom_append, effectiveFrom_append, effectiveFrom_append, effectiveFrom_append,
    served_append, served_append, heffective, heffective']
  refine Reordered.effectiveFrom ?_ (hstates.trans hstates'.symm) rest
  refine (Reordered.refl _).append (reordered_of_perm (fun c hc => ?_) (hperm.filter _))
  exact hadd c (List.mem_filter.1 hc).1

end Draft

/-! ## What is built -/

/-- The automaton has what the calls say, whatever the order of those that add end names and
transitions. -/
structure Automaton.Realizes (a : Automaton κ) (log : List (Draft.Call κ)) : Prop where
  entry : ∀ n on, (a.table.transitions.find? n on).isSome = true ↔
    ∃ off ns, .addTransition n off ns ∈ log ∧ (off == on) = true
  target : ∀ n on m, (a.table.direct n on).has m = true ↔
    ∃ off ns, .addTransition n off ns ∈ log ∧ (off == on) = true ∧ m ∈ ns
  ends : ∀ n, a.isEnd n = true ↔ .addEnd n ∈ log
  start : (log.filterMap Draft.Call.startName?).getLast? = some a.start.name
  error : (log.filterMap Draft.Call.errorName?).getLast? = some a.error.name

theorem Draft.build_eq_ok_iff {d : Draft κ} {a : Automaton κ} :
    d.build = .ok a ↔ ∃ s e, d.start = some s ∧ d.error = some e ∧
      a = .assemble s e d.endNames (.ofTransitions d.transitions) := by
  unfold build
  cases hstart : d.start with
  | none => simp
  | some s =>
    cases herror : d.error with
    | none => simp
    | some e => simp [eq_comm]

theorem Draft.Denotes.realizes {d : Draft κ} {log : List (Draft.Call κ)} (h : d.Denotes log)
    {a : Automaton κ} (ha : d.build = .ok a) : a.Realizes log := by
  obtain ⟨s, e, hs, he, rfl⟩ := Draft.build_eq_ok_iff.1 ha
  refine ⟨fun n on => ?_, fun n on m => ?_, h.ends, ?_, ?_⟩
  · rw [Automaton.isSome_find?_assemble]
    exact h.entry n on
  · rw [← SortedSet.mem_names, Automaton.names_direct_assemble, SortedSet.mem_names]
    exact h.target n on m
  · rw [← h.start, hs]
    rfl
  · rw [← h.error, he]
    rfl

/-- A draft that holds calls which set a start and an error state can be built. -/
theorem Draft.Denotes.exists_build {d : Draft κ} {log : List (Draft.Call κ)} (h : d.Denotes log)
    {n m : String} (hn : (log.filterMap Draft.Call.startName?).getLast? = some n)
    (hm : (log.filterMap Draft.Call.errorName?).getLast? = some m) : ∃ a, d.build = .ok a := by
  obtain ⟨s, hs, -⟩ := Option.map_eq_some_iff.1 (h.start.trans hn)
  obtain ⟨e, he, -⟩ := Option.map_eq_some_iff.1 (h.error.trans hm)
  exact ⟨_, Draft.build_eq_ok_iff.2 ⟨s, e, hs, he, rfl⟩⟩

namespace Automaton

/-- The same calls in another order are realized by the same names. -/
theorem Realizes.sameNames {a a' : Automaton κ} {log log' : List (Draft.Call κ)}
    (h : a.Realizes log) (h' : a'.Realizes log') (hlog : Draft.Reordered log log') :
    a.SameNames a' := by
  have hstart := h.start
  have herror := h.error
  rw [hlog.filterMap_eq fun _ => Draft.Call.startName?_of_isAdd, h'.start] at hstart
  rw [hlog.filterMap_eq fun _ => Draft.Call.errorName?_of_isAdd, h'.error] at herror
  refine ⟨(Option.some.inj hstart).symm, (Option.some.inj herror).symm, ?_, fun n on => ?_⟩
  · refine SortedSet.ext_has fun n => ?_
    rw [Bool.eq_iff_iff]
    exact (h.ends n).trans ((hlog.mem_iff rfl).trans (h'.ends n).symm)
  · have hmem : ∀ off ns, .addTransition n off ns ∈ log ↔ .addTransition n off ns ∈ log' :=
      fun _ _ => hlog.mem_iff rfl
    have hsome : (a.table.transitions.find? n on).isSome = (a'.table.transitions.find? n on).isSome := by
      rw [Bool.eq_iff_iff, h.entry, h'.entry]
      simp only [hmem]
    have htargets : (a.table.direct n on).names = (a'.table.direct n on).names := by
      refine SortedSet.names_eq_iff.2 fun m => ?_
      rw [Bool.eq_iff_iff, h.target, h'.target]
      simp only [hmem]
    have hnames : ∀ b : Automaton κ, (b.table.transitions.find? n on).map (·.targets.names) =
        if (b.table.transitions.find? n on).isSome then some (b.table.direct n on).names else none := by
      intro b
      show _ = if _ then some (b.table.transitions.targets n on).names else none
      rw [Transitions.targets_eq]
      cases b.table.transitions.find? n on <;> rfl
    rw [hnames, hnames, hsome, htargets]

end Automaton

/-! ## The history of a draft -/

namespace Draft

/-- The start and the error state are the states of the draft that have their names. -/
theorem state?_of_build {l : List (Request κ)} {a : Automaton κ}
    (h : ((∅ : Draft κ).served l).build = .ok a) :
    ((∅ : Draft κ).served l).state? a.start.name = some a.start ∧
      ((∅ : Draft κ).served l).state? a.error.name = some a.error := by
  have hsound : ((∅ : Draft κ).served l).Sound := by
    rw [served_eq_after]
    exact sound_empty.after (effective l)
  obtain ⟨s, e, hs, he, rfl⟩ := build_eq_ok_iff.1 h
  exact ⟨SortedSet.find?_eq_some_iff.2 ⟨hsound.start s hs, rfl⟩,
    SortedSet.find?_eq_some_iff.2 ⟨hsound.error e he, rfl⟩⟩

/-- **A draft is the union of what is added to it.** An automaton is built from a draft that was
served requests, calls and builds, some of the calls refused and some of them clearing the draft.
Triggers match as an equivalence does.

The table has an entry for a source and a trigger exactly if a call adds a transition for them, for
the trigger in this spelling or another, and the call was not refused and not cleared away since. Its
targets are those that any such call adds. The end names are those that such calls add, and the start
and the error state are the states by the names that were set last.

So these calls alone build the automaton: a refused call and a build contribute nothing. Requests that
leave the same calls, but for the order in which they add transitions and end names, build an
automaton of the same names. This is so where calls that add transitions and end names, made one
after another, change places. -/
theorem build_denotes_effective [EquivBEq κ] {l : List (Request κ)} {a : Automaton κ}
    (h : ((∅ : Draft κ).served l).build = .ok a) :
    (∀ n on, (a.table.transitions.find? n on).isSome = true ↔
      ∃ off ns, .addTransition n off ns ∈ effective l ∧ (off == on) = true) ∧
    (∀ n on m, (a.table.direct n on).has m = true ↔
      ∃ off ns, .addTransition n off ns ∈ effective l ∧ (off == on) = true ∧ m ∈ ns) ∧
    (∀ n, a.isEnd n = true ↔ .addEnd n ∈ effective l) ∧
    (((effective l).filterMap Call.startName?).getLast? = some a.start.name ∧
      ((∅ : Draft κ).served l).state? a.start.name = some a.start) ∧
    (((effective l).filterMap Call.errorName?).getLast? = some a.error.name ∧
      ((∅ : Draft κ).served l).state? a.error.name = some a.error) ∧
    ((∅ : Draft κ).after (effective l)).build = .ok a ∧
    (∀ l', Reordered (effective l) (effective l') →
      ∃ a', ((∅ : Draft κ).served l').build = .ok a' ∧ a.SameNames a') ∧
    ∀ (before : List (Request κ)) (added added' : List (Call κ)) (rest : List (Request κ)),
      l = before ++ added.map .call ++ rest → (∀ c ∈ added, c.isAdd = true) → added.Perm added' →
      ∃ a', ((∅ : Draft κ).served (before ++ added'.map .call ++ rest)).build = .ok a' ∧
        a.SameNames a' := by
  have hreal : a.Realizes (effective l) := (denotes_served l).realizes h
  obtain ⟨hstart, herror⟩ := state?_of_build h
  have hreordered : ∀ l', Reordered (effective l) (effective l') →
      ∃ a', ((∅ : Draft κ).served l').build = .ok a' ∧ a.SameNames a' := by
    intro l' hlog
    have hdenotes := denotes_served l'
    have hn := hreal.start
    have hm := hreal.error
    rw [hlog.filterMap_eq fun _ => Call.startName?_of_isAdd] at hn
    rw [hlog.filterMap_eq fun _ => Call.errorName?_of_isAdd] at hm
    obtain ⟨a', ha'⟩ := hdenotes.exists_build hn hm
    exact ⟨a', ha', hreal.sameNames (hdenotes.realizes ha') hlog⟩
  refine ⟨hreal.entry, hreal.target, hreal.ends, ⟨hreal.start, hstart⟩, ⟨hreal.error, herror⟩,
    served_eq_after l ▸ h, hreordered, ?_⟩
  rintro before added added' rest rfl hadd hperm
  exact hreordered _ (reordered_effective_of_perm before rest hadd hperm)

/-- A door is drafted after something else was cleared away. The first transition is refused, since
the door cannot be closed yet, and the next two go to one entry. -/
theorem build_denotes_effective_door :
    let cleared : List (Request Symbol) := [.call (.addState ⟨"draft", 0⟩),
      .call (.addTransition "draft" (.text "push") ["draft"]), .build, .call .clear,
      .call (.addState ⟨"open", 1⟩), .call (.addTransition "open" (.text "push") ["shut"]),
      .call (.addState ⟨"shut", 2⟩), .call (.setStart "open"), .call (.setError "shut"), .build]
    let added : List (Call Symbol) := [.addTransition "open" (.text "push") ["shut"],
      .addTransition "open" (.text "push") ["open", "open"], .addEnd "shut"]
    ∃ a a', ((∅ : Draft Symbol).served (cleared ++ added.map .call ++ [])).build = .ok a ∧
      (∀ c ∈ added, c.isAdd = true) ∧ added.Perm added.reverse ∧
      ((∅ : Draft Symbol).served (cleared ++ added.reverse.map .call ++ [])).build = .ok a' ∧
      a.SameNames a' ∧ (a.table.direct "open" (.text "push")).has "shut" = true ∧
      (a.table.transitions.find? "draft" (.text "push")).isSome = false := by
  intro cleared added
  obtain ⟨a, ha⟩ : ∃ a, ((∅ : Draft Symbol).served (cleared ++ added.map .call ++ [])).build = .ok a :=
    ⟨_, rfl⟩
  have hadd : ∀ c ∈ added, c.isAdd = true := by simp [added, Call.isAdd]
  have hperm : added.Perm added.reverse := added.reverse_perm.symm
  obtain ⟨hentry, htarget, -, -, -, -, -, hmoved⟩ := build_denotes_effective ha
  obtain ⟨a', ha', hsame⟩ := hmoved cleared added added.reverse [] rfl hadd hperm
  have heffective : effective (cleared ++ added.map .call ++ []) = [.addState ⟨"open", 1⟩,
      .addState ⟨"shut", 2⟩, .setStart "open", .setError "shut"] ++ added := rfl
  refine ⟨a, a', ha, hadd, hperm, ha', hsame, (htarget _ _ _).2 ?_, ?_⟩
  · refine ⟨.text "push", ["shut"], ?_, by decide, by decide⟩
    rw [heffective]
    simp [added]
  · rw [← Bool.not_eq_true, hentry, heffective]
    simp [added]

end Draft

end HookedAutomata
