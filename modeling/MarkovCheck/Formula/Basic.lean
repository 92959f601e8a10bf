import MarkovCheck.Interval

/-!
# Formulas

State formulas hold or fail in a state; path formulas hold or fail along an infinite path, and so
have a probability in each state. The kind of a formula is part of its type.

* `Formula`: formulas of a given kind
* `Formula.Any`: a formula whose kind is only known when the program runs, with constructors that
  check the kinds of their arguments from left to right
-/

namespace MarkovCheck

inductive Formula (α : Type) : Kind → Type where
  /-- Holds in every state. -/
  | top : Formula α .state
  /-- Holds in no state. -/
  | bot : Formula α .state
  /-- Holds in the states that carry the label. -/
  | atom (label : String) : Formula α .state
  | and (lhs rhs : Formula α .state) : Formula α .state
  | or (lhs rhs : Formula α .state) : Formula α .state
  | not (arg : Formula α .state) : Formula α .state
  /-- Holds where the probability of the path formula lies in the interval. -/
  | prob (bounds : Interval α) (path : Formula α .path) : Formula α .state
  /-- The second state of the path satisfies the argument. -/
  | next (arg : Formula α .state) : Formula α .path
  /-- The path meets the right argument, within the given number of steps if there is one, and
  satisfies the left argument until then. -/
  | strongUntil (lhs rhs : Formula α .state) (bound : Option Nat) : Formula α .path

namespace Formula

structure Any (α : Type) where
  kind : Kind
  formula : Formula α kind

namespace Any

variable {α : Type}

def toState : Any α → Except (Error α) (Formula α .state)
  | ⟨.state, φ⟩ => .ok φ
  | ⟨.path, _⟩ => .error (.wrongKind .state .path)

def toPath : Any α → Except (Error α) (Formula α .path)
  | ⟨.path, ψ⟩ => .ok ψ
  | ⟨.state, _⟩ => .error (.wrongKind .path .state)

def and (lhs rhs : Any α) : Except (Error α) (Any α) := do
  let l ← lhs.toState
  let r ← rhs.toState
  return ⟨.state, .and l r⟩

def or (lhs rhs : Any α) : Except (Error α) (Any α) := do
  let l ← lhs.toState
  let r ← rhs.toState
  return ⟨.state, .or l r⟩

def not (arg : Any α) : Except (Error α) (Any α) := do
  let φ ← arg.toState
  return ⟨.state, .not φ⟩

def prob (bounds : Interval α) (path : Any α) : Except (Error α) (Any α) := do
  let ψ ← path.toPath
  return ⟨.state, .prob bounds ψ⟩

def next (arg : Any α) : Except (Error α) (Any α) := do
  let φ ← arg.toState
  return ⟨.path, .next φ⟩

def strongUntil (lhs rhs : Any α) (bound : Option Nat) : Except (Error α) (Any α) := do
  let l ← lhs.toState
  let r ← rhs.toState
  return ⟨.path, .strongUntil l r bound⟩

end Any

end Formula

end MarkovCheck
