import HookedAutomata.Proofs.Reloading

/-!
# Runs go on after saving and loading

A run that is saved and loaded is alike the run it was saved from (`Run.Alike`), because its automaton
is, and because the names of its states are all found again. So the two cannot be told apart by
their answers and by the names they show, whatever is done with both.

If callbacks only log, and the registry has the callbacks that the states had, the two also log the
same: an action consults slots of the same names on both sides, and these hold the same callbacks
(`Run.Alike.heard`).

The main statement is `Run.load_toRecord_alike`.
-/

namespace HookedAutomata

/-! ## What succeeds -/

section Except

variable {ε α β : Type}

theorem bind_eq_ok {x : Except ε α} {f : α → Except ε β} {b : β} :
    x >>= f = .ok b ↔ ∃ a, x = .ok a ∧ f a = .ok b := by
  cases x with
  | error e => exact ⟨nofun, nofun⟩
  | ok a => exact ⟨fun h => ⟨a, rfl, h⟩, fun ⟨_, hx, h⟩ => Except.ok.inj hx ▸ h⟩

/-- A list is mapped by mapping each of its values. -/
theorem forall₂_of_mapM_eq_ok {f : α → Except ε β} {l : List α} {bs : List β}
    (h : l.mapM f = .ok bs) : List.Forall₂ (fun a b => f a = .ok b) l bs := by
  induction l generalizing bs with
  | nil =>
    obtain rfl := Except.ok.inj h
    exact .nil
  | cons a l ih =>
    rw [List.mapM_cons] at h
    obtain ⟨b, ha, h⟩ := bind_eq_ok.1 h
    obtain ⟨bs', hl, h⟩ := bind_eq_ok.1 h
    obtain rfl := Except.ok.inj h
    exact .cons ha (ih hl)

end Except

variable {κ : Type} [CustomTrigger κ]

/-- A run is loaded if its version is right, its automaton is loaded, and its names are found. -/
theorem RunRecord.load_eq_ok_iff {q : RunRecord} {g : Registries κ} {v w : Wiring} {r : Run κ} :
    q.load g v = .ok (r, w) ↔ q.version = recordVersion ∧ ∃ a current snapshots,
      q.automaton.load g v = .ok (a, w) ∧ a.resolveNames q.current = .ok current ∧
        q.history.mapM a.resolveNames = .ok snapshots ∧
        r = ⟨q.id, a, q.policy, current, snapshots.foldl Sightings.record ∅⟩ := by
  unfold load
  by_cases hversion : q.version = recordVersion
  · rw [if_neg (not_not.2 hversion)]
    constructor
    · intro h
      obtain ⟨⟨a, w'⟩, ha, h⟩ := bind_eq_ok.1 h
      obtain ⟨current, hcurrent, h⟩ := bind_eq_ok.1 h
      obtain ⟨snapshots, hsnapshots, h⟩ := bind_eq_ok.1 h
      cases h
      exact ⟨hversion, a, current, snapshots, ha, hcurrent, hsnapshots, rfl⟩
    · intro h
      obtain ⟨-, a, current, snapshots, ha, hcurrent, hsnapshots, rfl⟩ := h
      exact bind_eq_ok.2 ⟨(a, w), ha, bind_eq_ok.2 ⟨current, hcurrent,
        bind_eq_ok.2 ⟨snapshots, hsnapshots, rfl⟩⟩⟩
  · rw [if_pos hversion]
    exact ⟨nofun, fun h => absurd h.1 hversion⟩

/-! ## What is logged -/

namespace Run

/-- Consulting slots of the same names leaves the same labels, if each slot by itself does. -/
theorem flatMap_labelsAt_of_keys {u u' : Wiring} {l l' : List (State × Slot)}
    (hkeys : keys l = keys l')
    (hlabels : ∀ p ∈ l, ∀ p' ∈ l', p.1.name = p'.1.name → p.2 = p'.2 →
      u.labelsAt p = u'.labelsAt p') :
    l.flatMap u.labelsAt = l'.flatMap u'.labelsAt := by
  induction l generalizing l' with
  | nil =>
    rw [List.map_eq_nil_iff.1 hkeys.symm]
    rfl
  | cons p l ih =>
    cases l' with
    | nil => cases hkeys
    | cons p' l' =>
      obtain ⟨hkey, hrest⟩ := List.cons.inj hkeys
      obtain ⟨hname, hslot⟩ := Prod.mk.inj hkey
      have hfirst : u.labelsAt p = u'.labelsAt p' :=
        hlabels p List.mem_cons_self p' List.mem_cons_self hname hslot
      rw [List.flatMap_cons, List.flatMap_cons, hfirst, ih hrest fun q hq q' hq' =>
        hlabels q (List.mem_cons_of_mem p hq) q' (List.mem_cons_of_mem p' hq')]

/-- The states of an automaton have only callbacks that log. -/
def OnlyLogsIn (a : Automaton κ) (w : Wiring) : Prop :=
  ∀ s ∈ a.states, ∀ slot c, w.hook s slot = some c → c.OnlyLogs w.code

/-- An action of a run in states with such callbacks leaves the hooks as they are and logs the labels
of the slots consulted. -/
theorem Within.act_of_onlyLogs {a : Automaton κ} {r : Run κ} (h : r.Within a) (ha : a.Shared)
    {w : Wiring} (hw : OnlyLogsIn a w) (c : Action κ) :
    r.act w c = ⟨r.answer c, r.next c, w.withLog ((r.slots c).flatMap w.labelsAt)⟩ := by
  have hfire : w.fireAll (r.slots c) = w.withLog ((r.slots c).flatMap w.labelsAt) :=
    Wiring.fireAll_of_onlyLogs fun p hp callback => hw p.1 (h.mem_slots ha hp) p.2 callback
  rw [act_eq, hfire]

/-- Runs that are alike log the same, if all callbacks of their states only log, and states of one
name leave the same labels. -/
theorem Alike.heard {a b : Automaton κ} {q r : Run κ} (h : q.Alike r) (hq : q.Within b)
    (hb : b.Shared) (hr : r.Within a) (ha : a.Shared) {u u' : Wiring} (hu : OnlyLogsIn a u)
    (hu' : OnlyLogsIn b u')
    (hlabels : ∀ y ∈ b.states, ∀ x ∈ a.states, y.name = x.name → ∀ slot,
      u'.labelsAt (y, slot) = u.labelsAt (x, slot))
    (cs : List (Action κ)) : q.heard u' cs = r.heard u cs := by
  induction cs generalizing q r u u' with
  | nil => rfl
  | cons c rest ih =>
    have hslots : (q.slots c).flatMap u'.labelsAt = (r.slots c).flatMap u.labelsAt := by
      refine flatMap_labelsAt_of_keys (h.keys_slots c) ?_
      rintro ⟨y, slot⟩ hy ⟨x, slot'⟩ hx hname hslot
      obtain rfl : slot = slot' := hslot
      exact hlabels y (hq.mem_slots hb hy) x (hr.mem_slots ha hx) hname slot
    -- more in the log changes no hook, so the rest is heard in wirings that agree as before
    have hlogged : OnlyLogsIn a (u.withLog ((r.slots c).flatMap u.labelsAt)) := hu
    have hlogged' : OnlyLogsIn b (u'.withLog ((q.slots c).flatMap u'.labelsAt)) := hu'
    have hrest := ih (h.next c) (hq.next hb c) (hr.next ha c) hlogged hlogged' hlabels
    have hdrop : ∀ (w : Wiring) (l : List String), (w.withLog l).log.drop w.log.length = l :=
      fun w l => List.drop_left
    unfold Run.heard
    simp only [hq.act_of_onlyLogs hb hu' c, hr.act_of_onlyLogs ha hu c, hdrop]
    rw [hrest, hslots]

end Run

/-! ## Names that are found again -/

namespace Automaton

theorem resolveName_of_has {a : Automaton κ} {n : String} (h : a.states.has n = true) :
    ∃ s ∈ a.states, s.name = n ∧ a.resolveName n = .ok s := by
  obtain ⟨s, hs, rfl⟩ := SortedSet.has_iff.1 h
  have hfind : a.state? (Named.name s) = some s := SortedSet.find?_eq_some_iff.2 ⟨hs, rfl⟩
  refine ⟨s, hs, rfl, ?_⟩
  unfold resolveName
  rw [hfind]

theorem mapM_resolveName {a : Automaton κ} {l : List String}
    (h : ∀ n ∈ l, a.states.has n = true) :
    ∃ xs, l.mapM a.resolveName = .ok xs ∧ xs.map (·.name) = l ∧ ∀ x ∈ xs, x ∈ a.states := by
  induction l with
  | nil => exact ⟨[], rfl, rfl, fun x hx => absurd hx List.not_mem_nil⟩
  | cons n l ih =>
    obtain ⟨s, hs, hname, hresolve⟩ := resolveName_of_has (h n List.mem_cons_self)
    obtain ⟨xs, hxs, hnames, hmem⟩ := ih fun m hm => h m (List.mem_cons_of_mem n hm)
    refine ⟨s :: xs, ?_, by rw [List.map_cons, hname, hnames], fun x hx => ?_⟩
    · rw [List.mapM_cons, hresolve]
      show (do let xs ← l.mapM a.resolveName; pure (s :: xs)) = _
      rw [hxs]
      rfl
    · rcases List.mem_cons.1 hx with rfl | hx
      · exact hs
      · exact hmem x hx

/-- Names of states are resolved to a set of states of these names. -/
theorem resolveNames_of_has {a : Automaton κ} {l : List String}
    (h : ∀ n ∈ l, a.states.has n = true) :
    ∃ s, a.resolveNames l = .ok s ∧ s.names = inOrder l ∧ ∀ x ∈ s, x ∈ a.states := by
  obtain ⟨xs, hxs, rfl, hmem⟩ := mapM_resolveName h
  refine ⟨.collect xs, ?_, SortedSet.names_eq_inOrder fun n => ?_,
    fun x hx => hmem x (SortedSet.mem_collect hx)⟩
  · unfold resolveNames
    rw [hxs]
    rfl
  · rw [SortedSet.has_collect]
    simp

theorem mapM_resolveNames_of_has {a : Automaton κ} {l : List (List String)}
    (h : ∀ n ∈ l.flatten, a.states.has n = true) :
    ∃ ts, l.mapM a.resolveNames = .ok ts ∧ ts.map SortedSet.names = l.map inOrder := by
  induction l with
  | nil => exact ⟨[], rfl, rfl⟩
  | cons ns l ih =>
    rw [List.flatten_cons] at h
    obtain ⟨t, ht, hnames, -⟩ := resolveNames_of_has fun n hn => h n (List.mem_append_left _ hn)
    obtain ⟨ts, hts, hrest⟩ := ih fun n hn => h n (List.mem_append_right _ hn)
    refine ⟨t :: ts, ?_, by rw [List.map_cons, List.map_cons, hnames, hrest]⟩
    rw [List.mapM_cons, ht]
    show (do let ts ← l.mapM a.resolveNames; pure (t :: ts)) = _
    rw [hts]
    rfl

end Automaton

/-- Recording sets one by one drops the empty ones. -/
theorem Sightings.names_foldl_record (h : Sightings) (l : List StateSet) :
    (l.foldl record h).names = h.names ++ (l.map SortedSet.names).filter (· ≠ []) := by
  induction l generalizing h with
  | nil => simp
  | cons s l ih =>
    rw [List.foldl_cons, ih, names_record, List.append_assoc, ← List.filter_append]
    rfl

/-! ## Runs that are restored -/

/-- In an automaton that shares its instances the error state is listed as it is. -/
theorem Automaton.Shared.errorAgrees {a : Automaton κ} (ha : a.Shared) (w : Wiring) :
    (a.toRecord w).errorAgrees = true := by
  refine Automaton.errorAgrees_toRecord.2 fun s hs => ?_
  obtain ⟨hs, hname⟩ := SortedSet.find?_eq_some_iff.1 hs
  have herror : a.error ∈ a.states := ha.mem_states (.inr (.inr rfl))
  rw [SortedSet.eq_of_mem_of_name_eq hs herror hname]

/-- An automaton that shares its instances is saved and loaded, if the registries know its callbacks
and can rebuild its triggers. -/
theorem Automaton.Shared.load_toRecord {a : Automaton κ} (ha : a.Shared) {g : Registries κ}
    {w : Wiring}
    (hcallbacks : ∀ s ∈ a.states, ∀ slot n, w.hookName s slot = some n →
      g.callbacks.contains n = true)
    (htriggers : ∀ e ∈ a.table.transitions.entries,
      ∃ on, g.triggers.resolve e.trigger.toRecord = .ok on) (v : Wiring) :
    ∃ b v' states es, (a.toRecord w).load g v = .ok (b, v') ∧
      (a.toRecord w).Replayed g v v' states es b := by
  have hcallbacks' : ∀ s, s ∈ a.states ∨ s = a.error → ∀ slot n, w.hookName s slot = some n →
      g.callbacks.contains n = true := by
    rintro s (hs | rfl)
    · exact hcallbacks s hs
    · exact hcallbacks a.error (ha.mem_states (.inr (.inr rfl)))
  have haccepts : ∀ e ∈ a.table.transitions.entries,
      ∃ on, g.triggers.Accepts e.trigger.toRecord on :=
    fun e he => (htriggers e he).imp fun on hon => TriggerRegistry.accepts_of_resolve hon
  have htags : ∀ e ∈ a.table.transitions.entries,
      g.triggers.contains e.trigger.tag = true := by
    intro e he
    obtain ⟨on, b, hb, -⟩ := haccepts e he
    exact Option.isSome_iff_exists.2 ⟨b, hb⟩
  -- the one fault left to a saved automaton is that of the error state, and this one has it not
  have hviolations := Automaton.violations_toRecord hcallbacks' htags
  rw [ha.errorAgrees w] at hviolations
  refine AutomatonRecord.load_of_accepted (AutomatonRecord.violations_eq_nil_iff.1 hviolations)
    (fun t ht => ?_) v
  obtain ⟨e, he, rfl⟩ := Automaton.mem_transitions_toRecord.1 ht
  exact haccepts e he

namespace Run

/-- A run is restored over an automaton that is alike, in states of the same names. -/
theorem Entered.restored {a b : Automaton κ} {r : Run κ} (h : r.Entered a) (hba : b.Alike a)
    {g : Registries κ} {w v v' : Wiring} (hload : (a.toRecord w).load g v = .ok (b, v'))
    (savedAt : Instant) :
    ∃ q, (r.toRecord w savedAt).load g v = .ok (q, v') ∧ q.id = r.id ∧ q.Within b ∧ q.Alike r := by
  obtain rfl := h.automaton
  -- the names that are looked up can be entered in the automaton that was loaded too
  have hknown : ∀ n, r.automaton.CanEnter n ∨ n = r.automaton.error.name →
      b.states.has n = true := by
    rintro n (hn | rfl)
    · exact Automaton.has_states_of_canEnter (hba.canEnter.2 hn)
    · exact Automaton.has_states.2 (.inr (.inr hba.error))
  obtain ⟨current, hcurrent, hnames, hmem⟩ := Automaton.resolveNames_of_has
    fun n hn => hknown n (h.current n (SortedSet.mem_names.1 hn))
  have hlisted : ∀ n ∈ r.history.names.flatten, b.states.has n = true := by
    intro n hn
    obtain ⟨ns, hns, hn⟩ := List.mem_flatten.1 hn
    obtain ⟨s, hs, rfl⟩ := List.mem_map.1 hns
    exact hknown n (.inl (h.history s hs n (SortedSet.mem_names.1 hn)))
  obtain ⟨snapshots, hsnapshots, hhistory⟩ := Automaton.mapM_resolveNames_of_has hlisted
  -- names that were saved are in order already
  have hordered : r.history.names.map inOrder = r.history.names := by
    unfold Sightings.names
    rw [List.map_map]
    exact List.map_congr_left fun s _ => SortedSet.inOrder_names s
  -- a history records no empty snapshot, so recording those saved gives all of them back
  have hfilled : r.history.names.filter (· ≠ []) = r.history.names := by
    refine List.filter_eq_self.2 fun ns hns => ?_
    obtain ⟨s, hs, rfl⟩ := List.mem_map.1 hns
    have hnonempty := r.history.nonempty s hs
    rw [SortedSet.isEmpty_eq_names] at hnonempty
    simpa using hnonempty
  refine ⟨⟨r.id, b, r.policy, current, snapshots.foldl Sightings.record ∅⟩,
    RunRecord.load_eq_ok_iff.2 ⟨rfl, b, current, snapshots, hload, hcurrent, hsnapshots, rfl⟩, rfl,
    ⟨rfl, hmem⟩, ⟨hba, rfl, hnames.trans (SortedSet.inOrder_names _), ?_⟩⟩
  show (snapshots.foldl Sightings.record ∅).names = _
  rw [Sightings.names_foldl_record, hhistory, hordered]
  exact hfilled

/-- **A run that is saved and loaded goes on as it would have.** A run over a drafted and perhaps
edited automaton, reached by any actions, is saved and loaded by registries that know the callbacks
of its states and rebuild each of its triggers as one that matches. Loading succeeds and leaves the
wiring alone but for fresh instances. Whatever is done afterwards with the restored run and the
original, in whatever wirings, the two show the same.

If moreover all callbacks are the registry's own, under names that do not stand for none, and only
log, the same with the code of either wiring, then the two also log the same, as long as nothing
else rewires their states. -/
theorem load_toRecord_alike [EquivBEq κ] {a₀ : Automaton κ} (hdrafted : a₀.Drafted)
    (edits : List (Table.Edit κ)) {id : Uuid} {policy : Policy} {r : Run κ}
    (hreached : (fresh id (a₀.edited edits) policy).Reached r) {g : Registries κ} {w : Wiring}
    (hcallbacks : ∀ s ∈ (a₀.edited edits).states, ∀ slot n, w.hookName s slot = some n →
      g.callbacks.contains n = true)
    (htriggers : ∀ e ∈ (a₀.edited edits).table.transitions.entries,
      ∃ on, g.triggers.resolve e.trigger.toRecord = .ok on ∧ (on == e.trigger) = true)
    (savedAt : Instant) (v : Wiring) :
    ∃ q v', (r.toRecord w savedAt).load g v = .ok (q, v') ∧ v.Extends v' ∧
      q.id = r.id ∧ q.policy = r.policy ∧ q.current.names = r.current.names ∧
      q.history.names = r.history.names ∧ (∀ u u' cs, q.shown u' cs = r.shown u cs) ∧
      ∀ u u' : Wiring, (∀ s ∈ (a₀.edited edits).states, ∀ slot c, w.hook s slot = some c →
          c.name ≠ noCallback ∧ g.callbacks.callbacks.find? c.name = some c ∧
            c.OnlyLogs u.code ∧ c.OnlyLogs u'.code ∧ c.labels u'.code = c.labels u.code) →
        (∀ s ∈ (a₀.edited edits).states, u.hooksOf s = w.hooksOf s) →
        (∀ s ∈ q.automaton.states, u'.hooksOf s = v'.hooksOf s) →
        ∀ cs, q.heard u' cs = r.heard u cs := by
  have ha : (a₀.edited edits).Shared := hdrafted.shared.edited edits
  -- how the automaton came about is done with: what counts is that it shares its instances
  generalize a₀.edited edits = a at *
  obtain ⟨b, v', states, es, hload, hreplayed⟩ :=
    ha.load_toRecord hcallbacks (fun e he => (htriggers e he).imp fun _ h => h.1) v
  have hba : b.Alike a := hreplayed.alike htriggers
  obtain ⟨q, hq, hid, hwithin, halike⟩ := hreached.entered.restored hba hload savedAt
  refine ⟨q, v', hq, hreplayed.grown, hid, halike.policy, halike.current, halike.history,
    fun u u' cs => halike.shown u' u cs, ?_⟩
  -- what is logged: states of one name have the same callbacks on both sides, and these only log
  intro u u' hown hu hu' cs
  rw [hwithin.automaton] at hu'
  have hown' : ∀ s ∈ a.states, ∀ slot c, w.hook s slot = some c →
      c.name ≠ noCallback ∧ g.callbacks.callbacks.find? c.name = some c :=
    fun s hs slot c hc => ⟨(hown s hs slot c hc).1, (hown s hs slot c hc).2.1⟩
  have hhooks : ∀ y ∈ b.states, ∀ x ∈ a.states, y.name = x.name → u'.hooksOf y = u.hooksOf x := by
    intro y hy x hx hname
    rw [hu' y hy, hu x hx]
    exact hreplayed.hooksOf hown' hx hy hname
  have hlogging : ∀ x ∈ a.states, ∀ slot c, u.hook x slot = some c →
      c.OnlyLogs u.code ∧ c.OnlyLogs u'.code ∧ c.labels u'.code = c.labels u.code := by
    intro x hx slot c hc
    unfold Wiring.hook at hc
    rw [hu x hx] at hc
    exact (hown x hx slot c hc).2.2
  have hlogs' : OnlyLogsIn b u' := by
    intro y hy slot c hc
    obtain ⟨x, hx, hname⟩ := SortedSet.has_iff.1 (hreplayed.has_states hy)
    unfold Wiring.hook at hc
    rw [hhooks y hy x hx hname.symm] at hc
    exact (hlogging x hx slot c hc).2.1
  have hlabels : ∀ y ∈ b.states, ∀ x ∈ a.states, y.name = x.name → ∀ slot,
      u'.labelsAt (y, slot) = u.labelsAt (x, slot) :=
    fun y hy x hx hname slot => Wiring.labelsAt_congr
      (congrArg (Hooks.get · slot) (hhooks y hy x hx hname))
      fun c hc => (hlogging x hx slot c hc).2.2
  exact halike.heard hwithin hreplayed.shared.1 (hreached.within ha) ha
    (fun x hx slot c hc => (hlogging x hx slot c hc).1) hlogs' hlabels cs

/-- A turnstile that a coin opens, as it is drafted. -/
def turnstile : Automaton Symbol :=
  .assemble ⟨"locked", 0⟩ ⟨"error", 2⟩ (.singleton "open") <| .ofTransitions
    ⟨[⟨⟨"locked", 0⟩, .text "coin", .singleton ⟨"open", 1⟩⟩], by decide⟩

/-- A push locks it again. The states are named by instances of their own. -/
def turnstileEdits : List (Table.Edit Symbol) :=
  [.add ⟨"open", 3⟩ (.text "push") (.singleton ⟨"locked", 3⟩)]

theorem load_toRecord_alike_turnstile :
    let a := turnstile.edited turnstileEdits
    let r := (((fresh default a {}).act .logging .start).run.act .logging (.update (.text "coin"))).run
    turnstile.Drafted ∧ (fresh default a {}).Reached r ∧
      (∀ s ∈ a.states, ∀ slot n, Wiring.logging.hookName s slot = some n →
        Registries.logging.callbacks.contains n = true) ∧
      (∀ e ∈ a.table.transitions.entries, ∃ on,
        Registries.logging.triggers.resolve e.trigger.toRecord = .ok on ∧
          (on == e.trigger) = true) ∧
      (∀ s ∈ a.states, ∀ slot c, Wiring.logging.hook s slot = some c → c.name ≠ noCallback ∧
        Registries.logging.callbacks.callbacks.find? c.name = some c ∧
          ∀ code, c.OnlyLogs code ∧ c.labels code = ["log"]) ∧
      ∃ q v', (r.toRecord .logging default).load Registries.logging .logging = .ok (q, v') ∧
        (∀ u u' cs, q.shown u' cs = r.shown u cs) ∧
        ∀ cs, q.heard v' cs = r.heard .logging cs := by
  intro a r
  have hdrafted : turnstile.Drafted :=
    ⟨[.addState ⟨"locked", 0⟩, .addState ⟨"open", 1⟩, .addState ⟨"error", 2⟩, .addEnd "open",
      .addTransition "locked" (.text "coin") ["open"], .setStart "locked", .setError "error"], rfl⟩
  have hreached : (fresh default a {}).Reached r := .act _ _ (.act _ _ .refl)
  have hcallbacks : ∀ s ∈ a.states, ∀ slot n, Wiring.logging.hookName s slot = some n →
      Registries.logging.callbacks.contains n = true :=
    fun s _ slot n h => Registries.contains_logging h
  have htriggers : ∀ e ∈ a.table.transitions.entries, ∃ on,
      Registries.logging.triggers.resolve e.trigger.toRecord = .ok on ∧
        (on == e.trigger) = true := by
    intro e he
    rcases List.mem_cons.1 he with rfl | he
    · exact ⟨.text "coin", rfl, rfl⟩
    · obtain rfl := List.mem_singleton.1 he
      exact ⟨.text "push", rfl, rfl⟩
  have hown : ∀ s ∈ a.states, ∀ slot c, Wiring.logging.hook s slot = some c →
      c.name ≠ noCallback ∧ Registries.logging.callbacks.callbacks.find? c.name = some c ∧
        ∀ code, c.OnlyLogs code ∧ c.labels code = ["log"] := by
    intro s _ slot c hc
    rw [Wiring.eq_logging_of_hook hc]
    exact ⟨by decide, rfl, fun code =>
      ⟨Callback.onlyLogs_emit "log" ["log"] code, Callback.labels_emit "log" ["log"] code⟩⟩
  obtain ⟨q, v', hload, -, -, -, -, -, hshown, hheard⟩ :=
    load_toRecord_alike hdrafted turnstileEdits hreached hcallbacks htriggers default .logging
  refine ⟨hdrafted, hreached, hcallbacks, htriggers, hown, q, v', hload, hshown,
    hheard .logging v' (fun s hs slot c hc => ?_) (fun _ _ => rfl) fun _ _ => rfl⟩
  obtain ⟨hname, hfind, hlogs⟩ := hown s hs slot c hc
  exact ⟨hname, hfind, (hlogs _).1, (hlogs _).1, (hlogs _).2.trans (hlogs _).2.symm⟩

end Run

end HookedAutomata
