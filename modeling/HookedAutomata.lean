import HookedAutomata.Record.Load
import HookedAutomata.Transitions.Lemmas
import HookedAutomata.Trigger.Symbol
import HookedAutomata.Proofs.Editing
import HookedAutomata.Proofs.Loading
import HookedAutomata.Proofs.SubsetConstruction
import HookedAutomata.Proofs.Saving
import HookedAutomata.Proofs.Actions
import HookedAutomata.Proofs.NamesAlone
import HookedAutomata.Proofs.OwnStates
import HookedAutomata.Proofs.Reloading
import HookedAutomata.Proofs.Restoring
import HookedAutomata.Proofs.SavedHooks
import HookedAutomata.Proofs.TableHistories
import HookedAutomata.Proofs.HookOrder
import HookedAutomata.Proofs.SameNames
import HookedAutomata.Proofs.Handles
import HookedAutomata.Proofs.CanonicalRecords
import HookedAutomata.Proofs.SavedBytes
import HookedAutomata.Proofs.SavedTexts
import HookedAutomata.Proofs.Lifecycle
import HookedAutomata.Proofs.SightingLog
import HookedAutomata.Proofs.DraftHistories
import HookedAutomata.Proofs.EntryOrder
import HookedAutomata.Proofs.FinishedRuns
import HookedAutomata.Proofs.DraftIntegrity
import HookedAutomata.Proofs.TableContents
import HookedAutomata.Proofs.MergedRuns
import HookedAutomata.Proofs.ClosureWalk
import HookedAutomata.Proofs.RecordMeaning
import HookedAutomata.Proofs.LoadedRuns
import HookedAutomata.Proofs.Restarts
import HookedAutomata.Proofs.FaultReports
import HookedAutomata.Proofs.ClosedCurrents
import HookedAutomata.Proofs.RunWidth
import HookedAutomata.Proofs.ScansAndLookups
import HookedAutomata.Proofs.WalkLength
