import HeapLedger.Scenario
import HeapLedger.Trial
import HeapLedger.Proofs.Run
import HeapLedger.Proofs.Trail
import HeapLedger.Proofs.Move
import HeapLedger.Proofs.Sound
import HeapLedger.Proofs.Upkeep
import HeapLedger.Proofs.Still
import HeapLedger.Proofs.ChargeMoves
import HeapLedger.Proofs.ActionMoves
import HeapLedger.Proofs.Reach
import HeapLedger.Proofs.Spread
import HeapLedger.Proofs.ChargeEffect
import HeapLedger.Proofs.Flow
import HeapLedger.Proofs.Balance
import HeapLedger.Proofs.Arrival
import HeapLedger.Proofs.Conservation
import HeapLedger.Proofs.Erasure
import HeapLedger.Proofs.Mirror
import HeapLedger.Proofs.ChargeMirrors
import HeapLedger.Proofs.ActionMirrors
import HeapLedger.Proofs.Recall
import HeapLedger.Proofs.WorkerSlots
import HeapLedger.Proofs.HookFlag
import HeapLedger.Proofs.Nested
import HeapLedger.Proofs.Reentrancy
import HeapLedger.Proofs.Feed
import HeapLedger.Proofs.Attribution
import HeapLedger.Proofs.Course
import HeapLedger.Proofs.Story
import HeapLedger.Proofs.Calm
import HeapLedger.Proofs.Served
import HeapLedger.Proofs.Lifecycle
import HeapLedger.Proofs.Promise
import HeapLedger.Proofs.Departure
import HeapLedger.Proofs.Reports
import HeapLedger.Proofs.Heard
import HeapLedger.Proofs.Written
import HeapLedger.Proofs.Level
import HeapLedger.Proofs.Reserved
import HeapLedger.Proofs.Billing
import HeapLedger.Proofs.Metering
import HeapLedger.Proofs.Scoped
import HeapLedger.Proofs.Secluded
import HeapLedger.Proofs.Accounted
import HeapLedger.Proofs.Resolutions
import HeapLedger.Proofs.Recollection
import HeapLedger.Proofs.Lookups
import HeapLedger.Proofs.Agree
import HeapLedger.Proofs.Unread
import HeapLedger.Proofs.Eager
import HeapLedger.Proofs.Landing
import HeapLedger.Proofs.Refund
import HeapLedger.Proofs.Blind
import HeapLedger.Proofs.Offered
import HeapLedger.Proofs.Rerun
import HeapLedger.Proofs.Interleaving
import HeapLedger.Proofs.CutOff
import HeapLedger.Proofs.Nesting
import HeapLedger.Proofs.Forest
import HeapLedger.Proofs.CarryOver
import HeapLedger.Proofs.ThreadFlush
import HeapLedger.Proofs.Traffic
import HeapLedger.Proofs.SizeClasses
import HeapLedger.Proofs.Attempts
import HeapLedger.Proofs.Rounds
