import HookedAutomata.Proofs.Steps

/-!
# What wirings keep

Two things happen to a wiring besides edits by callbacks: fresh instances are made in it, and
callbacks write to its log.

* `Wiring.Extends`: a later wiring has more instances and is otherwise the same, and so for every
  instance there was. Making an instance does this (`Wiring.extends_create`).
* `Callback.OnlyLogs`: a callback that leaves its labels and does nothing else, in every wiring in
  which the host has the given code. Where only such callbacks are fired, the wiring keeps its
  hooks, and the log grows by the labels of what is in the slots consulted
  (`Wiring.fireAll_of_onlyLogs`).
-/

namespace HookedAutomata

/-! ## Fresh instances -/

/-- `w` has the instances of `v` with the hooks they have there, and perhaps more. -/
structure Wiring.Extends (v w : Wiring) : Prop where
  created : v.created ≤ w.created
  hooks : ∀ s : State, s.instanceId < v.created → w.hooksOf s = v.hooksOf s
  handles : w.handles = v.handles
  log : w.log = v.log
  memory : w.memory = v.memory
  code : w.code = v.code

namespace Wiring

theorem Extends.refl (v : Wiring) : v.Extends v :=
  ⟨Nat.le_refl _, fun _ _ => rfl, rfl, rfl, rfl, rfl⟩

theorem Extends.trans {u v w : Wiring} (huv : u.Extends v) (hvw : v.Extends w) : u.Extends w where
  created := Nat.le_trans huv.created hvw.created
  hooks s hs := by
    have hv : s.instanceId < v.created := Nat.lt_of_lt_of_le hs huv.created
    rw [hvw.hooks s hv, huv.hooks s hs]
  handles := hvw.handles.trans huv.handles
  log := hvw.log.trans huv.log
  memory := hvw.memory.trans huv.memory
  code := hvw.code.trans huv.code

/-- Making an instance leaves those there were as they are. -/
theorem extends_create (w : Wiring) (name : String) (h : Hooks) :
    w.Extends (w.create name h).2 where
  created := Nat.le_succ _
  hooks s hs := by
    have hne : s.instanceId ≠ (State.mk name w.created).instanceId := Nat.ne_of_lt hs
    show (w.setHooks ⟨name, w.created⟩ h).hooksOf s = w.hooksOf s
    rw [hooksOf_setHooks, if_neg hne]
  handles := rfl
  log := rfl
  memory := rfl
  code := rfl

/-- The instance that was made has the hooks it was made with. -/
theorem hooksOf_create (w : Wiring) (name : String) (h : Hooks) :
    (w.create name h).2.hooksOf (w.create name h).1 = h := by
  show (w.setHooks ⟨name, w.created⟩ h).hooksOf ⟨name, w.created⟩ = h
  rw [hooksOf_setHooks, if_pos rfl]

end Wiring

/-! ## Callbacks that only log -/

namespace Wiring

/-- The same wiring with more in its log. -/
def withLog (w : Wiring) (labels : List String) : Wiring := { w with log := w.log ++ labels }

@[simp] theorem withLog_nil (w : Wiring) : w.withLog [] = w := by
  simp [withLog]

@[simp] theorem withLog_withLog (w : Wiring) (l m : List String) :
    (w.withLog l).withLog m = w.withLog (l ++ m) := by
  simp [withLog]

theorem foldl_perform_emit (w : Wiring) (labels : List String) :
    (labels.map Effect.emit).foldl perform w = w.withLog labels := by
  induction labels generalizing w with
  | nil => simp
  | cons label labels ih =>
    rw [List.map_cons, List.foldl_cons, ih]
    show (w.withLog [label]).withLog labels = _
    rw [withLog_withLog]
    rfl

end Wiring

namespace Callback

/-- The labels that a callback leaves on an empty board, where it calls the given code. -/
def labels (c : Callback) (code : Nat → Board → Board) : List String :=
  (Wiring.run { code } c).log

/-- Whether a callback that calls the given code leaves its labels, always the same ones, and does
nothing else. -/
def OnlyLogs (c : Callback) (code : Nat → Board → Board) : Prop :=
  ∀ w : Wiring, w.code = code → w.run c = w.withLog (c.labels code)

theorem labels_emit (name : String) (labels : List String) (code : Nat → Board → Board) :
    Callback.labels ⟨name, labels.map .emit⟩ code = labels := by
  unfold Callback.labels Wiring.run
  rw [Wiring.foldl_perform_emit]
  exact List.nil_append labels

/-- A callback that calls no code and rewires nothing only logs, whatever the code is. -/
theorem onlyLogs_emit (name : String) (labels : List String) (code : Nat → Board → Board) :
    OnlyLogs ⟨name, labels.map .emit⟩ code := by
  intro w _
  rw [labels_emit]
  exact w.foldl_perform_emit labels

-- Code of the host may do the logging as well.
example : OnlyLogs ⟨"knock", [.call 0]⟩ fun _ board =>
    { board with log := board.log ++ ["knock"] } := by
  rintro ⟨board, _⟩ rfl
  rfl

end Callback

namespace Wiring

/-- The labels that are left when a slot is consulted. -/
def labelsAt (w : Wiring) (c : State × Slot) : List String :=
  match w.hook c.1 c.2 with
  | some callback => callback.labels w.code
  | none => []

/-- Slots that hold the same leave the same labels, if what they hold does so in both wirings. -/
theorem labelsAt_congr {u w : Wiring} {s t : State} {slot : Slot}
    (hhook : u.hook s slot = w.hook t slot)
    (hlabels : ∀ c, w.hook t slot = some c → c.labels u.code = c.labels w.code) :
    u.labelsAt (s, slot) = w.labelsAt (t, slot) := by
  unfold labelsAt
  rw [hhook]
  cases hc : w.hook t slot with
  | none => rfl
  | some c => exact hlabels c hc

/-- A slot that is empty or holds a callback that only logs is fired without a change to hooks. -/
theorem fire_of_onlyLogs {w : Wiring} {s : State} {slot : Slot}
    (h : ∀ c, w.hook s slot = some c → c.OnlyLogs w.code) :
    w.fire s slot = w.withLog (w.labelsAt (s, slot)) := by
  unfold fire labelsAt
  cases hc : w.hook s slot with
  | none => exact w.withLog_nil.symm
  | some c => exact h c hc w rfl

/-- Slots that hold only callbacks that log leave their labels one after another. -/
theorem fireAll_of_onlyLogs {w : Wiring} {l : List (State × Slot)}
    (h : ∀ p ∈ l, ∀ c, w.hook p.1 p.2 = some c → c.OnlyLogs w.code) :
    w.fireAll l = w.withLog (l.flatMap w.labelsAt) := by
  induction l generalizing w with
  | nil => simp
  | cons p l ih =>
    have hfirst : w.fire p.1 p.2 = w.withLog (w.labelsAt p) :=
      fire_of_onlyLogs (h p List.mem_cons_self)
    -- what comes later reads its slots in a wiring that has the same hooks
    have hrest : ∀ q ∈ l, ∀ c,
        (w.withLog (w.labelsAt p)).hook q.1 q.2 = some c → c.OnlyLogs w.code :=
      fun q hq c hc => h q (List.mem_cons_of_mem p hq) c hc
    rw [fireAll_cons, hfirst, ih hrest, withLog_withLog]
    rfl

end Wiring

/-! ## A callback that logs -/

/-- Leaves its name in the log. -/
def Callback.logging : Callback := ⟨"log", [.emit "log"]⟩

namespace Wiring

/-- The first instance that was made logs when it is entered. -/
def logging : Wiring := { created := 4, hooks := [(0, { entry := some .logging })] }

/-- Where one instance has hooks, each hook that is found is its hook. -/
theorem get_of_hook {w : Wiring} {i : Nat} {h : Hooks} (hw : w.hooks = [(i, h)]) {s : State}
    {slot : Slot} {c : Callback} (hc : w.hook s slot = some c) : h.get slot = some c := by
  have hhooks : w.hooksOf s = h ∨ w.hooksOf s = {} := by
    unfold hooksOf
    rw [hw, List.lookup_cons]
    cases s.instanceId == i with
    | true => exact .inl rfl
    | false => exact .inr rfl
  unfold hook at hc
  rcases hhooks with hhooks | hhooks
  · rwa [hhooks] at hc
  · rw [hhooks] at hc
    cases slot <;> cases hc

theorem eq_logging_of_hook {s : State} {slot : Slot} {c : Callback}
    (h : logging.hook s slot = some c) : c = .logging := by
  have hget := get_of_hook rfl h
  cases slot with
  | entry => exact (Option.some.inj hget).symm
  | exit => cases hget
  | stay => cases hget

end Wiring

end HookedAutomata
