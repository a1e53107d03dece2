/-!
# Queue/Signal — completion signals

A task ends when its signal is given.  The signal may have several holders; any of them gives it,
the first time counts, and it gives itself when the last holder lets go or the task fails.  A task
that nobody holds any more cannot fail.
-/

namespace DeviceStats.Queue

structure Signal where
  /-- Not given yet. -/
  opened : Bool := true
  /-- How many hold it. -/
  holders : Nat := 1
deriving DecidableEq, Repr

/-- What is done with a signal. -/
inductive SignalOp
  /-- One more holds it. -/
  | share
  /-- A holder gives it. -/
  | give
  /-- A holder lets go. -/
  | release
  /-- The task fails. -/
  | fail
deriving DecidableEq, Repr

namespace Signal

/-- A signal after an operation.  Without a holder nothing can be done. -/
def after (s : Signal) (op : SignalOp) : Signal :=
  if s.holders = 0 then s
  else
    match op with
    | .share => { s with holders := s.holders + 1 }
    | .give => { s with opened := false }
    | .release => ⟨s.opened && s.holders != 1, s.holders - 1⟩
    | .fail => { s with opened := false }

/-- Whether giving the signal counts. -/
def counts (s : Signal) : Bool := s.opened && s.holders != 0

/-- What is given stays given. -/
theorem opened_after_le (s : Signal) (op : SignalOp) (h : (s.after op).opened = true) :
    s.opened = true := by
  unfold after at h
  split at h
  · exact h
  · cases op <;> simp_all

end Signal

end DeviceStats.Queue
