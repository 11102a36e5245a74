import HookedAutomata.State

/-!
# Sightings of end states

While a run goes on it notes which end states it reaches. Each step that reaches some adds one
snapshot, the set of those states; a step that reaches none adds nothing. So there are no empty
snapshots, which is part of the type, and there is a snapshot exactly if some end state was seen.
-/

namespace HookedAutomata

/-- The snapshots of end states seen during a run, the oldest first. -/
structure Sightings where
  -- one set of end states for each step that reached some
  snapshots : List StateSet := []
  nonempty : ∀ s ∈ snapshots, s.isEmpty = false := by simp

namespace Sightings

instance : EmptyCollection Sightings := ⟨{ snapshots := [] }⟩

instance : Inhabited Sightings := ⟨∅⟩

/-- Adds a snapshot, unless it is empty. -/
def record (h : Sightings) (s : StateSet) : Sightings :=
  if hs : s.isEmpty = true then h
  else
    ⟨h.snapshots ++ [s], fun x hx => by
      rcases List.mem_append.1 hx with hx | hx
      · exact h.nonempty x hx
      · rw [List.mem_singleton.1 hx]
        simpa using hs⟩

/-- An empty snapshot is passed over, and any other comes last. -/
theorem snapshots_record (h : Sightings) (s : StateSet) :
    (h.record s).snapshots = h.snapshots ++ if s.isEmpty then [] else [s] := by
  unfold record
  split <;> simp_all

def latest? (h : Sightings) : Option StateSet := h.snapshots.getLast?

def size (h : Sightings) : Nat := h.snapshots.length

def isEmpty (h : Sightings) : Bool := h.snapshots.isEmpty

def names (h : Sightings) : List (List String) := h.snapshots.map (·.names)

/-- Whether two histories count as equal: the same names, snapshot by snapshot. -/
def same (h k : Sightings) : Bool := h.names == k.names

end Sightings

end HookedAutomata
