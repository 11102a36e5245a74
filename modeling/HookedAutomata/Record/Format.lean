import HookedAutomata.Format.Fields
import HookedAutomata.Record.Basic

/-!
# The saved forms of records

The fields of each record with their keys, in the order in which they are saved. Where a key may be
left out of a JSON text, the value that the field then has stands beside its format.
-/

namespace HookedAutomata

def StateRecord.format : Format StateRecord :=
  .record
    (.cons "name" .text none <|
      .cons "callback_name" .text none <|
      .cons "exit_callback" (.optional .text) (some none) <|
      .cons "stay_callback" (.optional .text) (some none) .nil)
    (fun (name, entry, exit, stay, ()) => ⟨name, entry, exit, stay⟩)
    (fun r => (r.name, r.entry, r.exit, r.stay, ()))

def TriggerRecord.format : Format TriggerRecord :=
  .record (.cons "tag" .text none <| .cons "payload" .text none .nil)
    (fun (tag, payload, ()) => ⟨tag, payload⟩)
    (fun r => (r.tag, r.payload, ()))

def TransitionRecord.format : Format TransitionRecord :=
  .record
    (.cons "source_state_name" .text none <|
      .cons "trigger" TriggerRecord.format none <|
      .cons "target_state_names" (.list .text) none .nil)
    (fun (source, trigger, targets, ()) => ⟨source, trigger, targets⟩)
    (fun r => (r.source, r.trigger, r.targets, ()))

def AutomatonRecord.format : Format AutomatonRecord :=
  .record
    (.cons "states" (.list StateRecord.format) none <|
      .cons "transitions" (.list TransitionRecord.format) none <|
      .cons "start_state_name" .text none <|
      .cons "error_state" StateRecord.format none <|
      .cons "end_state_names" (.list .text) (some []) .nil)
    (fun (states, transitions, start, error, ends, ()) =>
      ⟨states, transitions, start, error, ends⟩)
    (fun r => (r.states, r.transitions, r.start, r.error, r.ends, ()))

def Policy.format : Format Policy :=
  .record
    (.cons "allow_multiple_target_states" .flag (some ({} : Policy).allowBranching) <|
      .cons "allow_stay_on_undefined_transition" .flag (some ({} : Policy).allowStaying) <|
      .cons "exit_on_end_state_encountered" .flag (some ({} : Policy).stopAtEnd) .nil)
    (fun (branching, staying, stop, ()) => ⟨branching, staying, stop⟩)
    (fun p => (p.allowBranching, p.allowStaying, p.stopAtEnd, ()))

def RunRecord.format : Format RunRecord :=
  .record
    (.cons "version" .word32 none <|
      .cons "id" .uuid none <|
      .cons "saved_at" .moment none <|
      .cons "automate" AutomatonRecord.format none <|
      .cons "current_state_names" (.list .text) none <|
      .cons "encountered_end_state_name_sets" (.list (.list .text)) none <|
      .cons "configuration" Policy.format none .nil)
    (fun (version, id, savedAt, automaton, current, history, policy, ()) =>
      ⟨version, id, savedAt, automaton, current, history, policy⟩)
    (fun r => (r.version, r.id, r.savedAt, r.automaton, r.current, r.history, r.policy, ()))

end HookedAutomata
