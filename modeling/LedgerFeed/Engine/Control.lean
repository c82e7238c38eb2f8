/-! The gate that lets one run in at a time, and the stop flag that runs look at. A run first enters
the gate, then clears a stale stop request, and only then honours new ones. -/

namespace LedgerFeed

inductive Gate where
  | idle
  /-- A run has entered but does not honour stop requests yet. -/
  | starting
  | running
  deriving DecidableEq

structure Control where
  gate : Gate
  stop : Bool
  deriving DecidableEq

namespace Control

def initial : Control := ⟨.idle, false⟩

def enter? (c : Control) : Option Control :=
  if c.gate = .idle then some { c with gate := .starting } else none

def clearStop (c : Control) : Control :=
  { c with stop := false }

def activate (c : Control) : Control :=
  { c with gate := .running }

def release (c : Control) : Control :=
  { c with gate := .idle }

def isRunning (c : Control) : Bool :=
  c.gate = .running

def raiseStop (c : Control) : Control :=
  { c with stop := true }

def requestStop (c : Control) : Control :=
  if c.isRunning then c.raiseStop else c

theorem enter?_eq_some_iff {c entered : Control} :
    c.enter? = some entered ↔ c.gate = .idle ∧ entered = { c with gate := .starting } := by
  unfold enter?
  split <;> simp_all [eq_comm]

theorem requestStop_of_not_running {c : Control} (h : c.isRunning = false) :
    c.requestStop = c := by
  rw [requestStop, if_neg (by simp [h])]

theorem requestStop_of_running {c : Control} (h : c.isRunning = true) :
    c.requestStop = { c with stop := true } := if_pos h

@[simp] theorem gate_requestStop (c : Control) : c.requestStop.gate = c.gate := by
  cases h : c.isRunning with
  | true => rw [requestStop_of_running h]
  | false => rw [requestStop_of_not_running h]

end Control
end LedgerFeed
