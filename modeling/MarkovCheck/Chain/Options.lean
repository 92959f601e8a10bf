import MarkovCheck.Error
import MarkovCheck.Scalar

/-!
# Settings of an analysis

How the equations of an analysis are solved, and when the analysis is told to stop. The signal to
stop can be given at any time, also while an analysis is under way, and it stays given. An analysis
asks for it once in each iteration, so what matters is how often it was asked for before it is found
given: a computation keeps count of that, over all the iterations that it makes.

* `Method`, `Options`: the settings
* `Polling`, `Options.poll`: computations that ask for the signal
* `Polling.value`: what a call ends with
-/

namespace MarkovCheck

/-- How to solve the equations without a step bound. -/
inductive Method where
  /-- By elimination, or by iteration if the system counts as singular. -/
  | direct
  /-- By iteration. -/
  | iterative
  deriving DecidableEq

structure Options (α : Type) where
  method : Method
  tolerance : α
  maxIterations : Nat
  /-- How often the signal to stop is asked for in vain, if it is ever given. -/
  cancelledAfter : Option Nat

/-- Computations that can fail and that count how often they asked for the signal to stop. -/
abbrev Polling (α : Type) := StateT Nat (Except (Error α))

variable {α β : Type}

/-- Elimination, with iteration allowed a million rounds to change by less than `1e-9`. -/
def Options.default [Scalar α] : Options α := ⟨.direct, 1e-9, 1000000, none⟩

/-- Is the signal found given by someone who asked that often before? -/
def Options.isCancelled (o : Options α) (polls : Nat) : Bool := o.cancelledAfter.any (· ≤ polls)

/-- Asks for the signal to stop. -/
@[inline] def Options.poll (o : Options α) : Polling α Unit := fun polls =>
  if o.isCancelled polls then .error .cancelled else .ok ((), polls + 1)

/-- What a call ends with, which begins without having asked for the signal. -/
@[inline] def Polling.value (x : Polling α β) : Except (Error α) β := x.run' 0

end MarkovCheck
