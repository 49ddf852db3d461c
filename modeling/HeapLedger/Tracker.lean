import HeapLedger.Charge

/-!
# Trackers

A tracker receives committed amounts and passes them on to the trackers above it, nearest first. A
counter keeps totals. An echo answers an amount with charges of its own, for as long as it has
answers left.

The amounts of a counter wrap around as those of 64 bits do. How many there were is a number without bound, which is
what 64 bits show of it as long as there were fewer than `2 ^ 64`.
-/

namespace HeapLedger

/-! ## Counters -/

structure Totals where
  consumption : Delta := 0
  peak : Delta := 0
  commits : Nat := 0
  deriving Inhabited, DecidableEq

/-- Adds a committed amount. The sum wraps around at the ends of the range. -/
def Totals.add (t : Totals) (b : Delta) : Totals where
  consumption := t.consumption + b
  peak := max t.peak (t.consumption + b)
  commits := t.commits + 1

/-! ## Echoes -/

structure Echo where
  name : String
  /-- The charges of one answer. -/
  charges : List Request := []
  /-- How many more amounts are answered; `none` when there is no limit. -/
  answers : Option Nat := some 0

def Echo.spend? (e : Echo) : Option Echo :=
  match e.answers with
  | none => some e
  | some 0 => none
  | some (n + 1) => some { e with answers := some n }

/-! ## Trackers -/

inductive TrackerKind
  | counter (label : String) (totals : Totals)
  | echo (e : Echo)

structure Tracker where
  kind : TrackerKind
  /-- Every tracker that an amount reaches after this one. -/
  above : List TrackerId := []

instance : Inhabited Tracker := ⟨{ kind := .counter "" {} }⟩

def Tracker.parent? (t : Tracker) : Option TrackerId := t.above.head?

def Tracker.totals? (t : Tracker) : Option Totals :=
  match t.kind with
  | .counter _ totals => some totals
  | .echo _ => none

end HeapLedger
