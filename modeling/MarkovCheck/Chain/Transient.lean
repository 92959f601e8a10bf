import MarkovCheck.Chain.Basic

/-!
# Distributions and transient analysis

A distribution is a vector of masses, one for each state; the masses need not sum to one.
`transient` moves a distribution a number of steps along the chain, by repeated steps or, when there
are many, by a power of the transition matrix.
-/

namespace MarkovCheck

/-- Masses of the states of a chain, by number. -/
abbrev Distribution (α : Type) := Array α

namespace Distribution

variable {α : Type} [Scalar α]

omit [Scalar α] in
/-- The given masses, one for each state of the chain. -/
def dense (c : Chain α) (masses : Array α) : Except (Error α) (Distribution α) :=
  if masses.size = c.size then .ok masses
  else .error (.distributionSize masses.size c.size)

/-- The listed masses, later ones replacing earlier ones, and zero for all other states. -/
@[specialize]
def ofMasses (c : Chain α) (masses : List (Nat × α)) : Except (Error α) (Distribution α) :=
  masses.foldlM (fun d (s, mass) =>
    if s < d.size then .ok (d.setIfInBounds s mass) else .error (.foreignState s))
    (Array.replicate c.size 0)

@[specialize]
def point (c : Chain α) (s : Nat) : Except (Error α) (Distribution α) := ofMasses c [(s, 1)]

@[specialize] def total (d : Distribution α) : α := Scalar.total d.toList

/-- The sum of the masses of a set of states. States without a mass add nothing. -/
@[specialize] def massOf (d : Distribution α) (set : StateSet) : α :=
  Scalar.total (set.toList.filterMap fun s => d[s]?)

omit [Scalar α] in
def massAt (d : Distribution α) (s : Nat) : Except (Error α) α :=
  match d[s]? with
  | some mass => .ok mass
  | none => .error .misuse

end Distribution

namespace Chain

variable {α : Type} [Scalar α]

/-- Is it cheaper to raise the matrix to a power than to take the steps one by one? -/
def prefersPower (n steps : Nat) : Bool :=
  decide (0 < steps) && decide (2 * n * (steps.log2 + 1) < steps)

@[specialize] def stepBy (m : Matrix α) : Nat → Distribution α → Except (Error α) (Distribution α)
  | 0, d => .ok d
  | steps + 1, d => do
    let d' ← m.vecMul d
    stepBy m steps d'

/-- The distribution after the given number of steps. -/
@[specialize] def transient (c : Chain α) (steps : Nat) (d : Distribution α) :
    Except (Error α) (Distribution α) :=
  if c.size = 0 then .error .noStates
  else if d.size ≠ c.size then .error (.distributionSize d.size c.size)
  else
    let m := c.transitionMatrix
    if prefersPower c.size steps then do
      let power ← m.pow steps
      power.vecMul d
    else stepBy m steps d

/-- The distribution after the given number of steps from the initial state. -/
@[specialize]
def transientFromInitial (c : Chain α) (steps : Nat) : Except (Error α) (Distribution α) :=
  match c.initial with
  | none => .error .noStates
  | some s => do
    let d ← Distribution.point c s
    c.transient steps d

end Chain

end MarkovCheck
