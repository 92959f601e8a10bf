import Std.Data.HashMap
import MarkovCheck.Formula.Evaluation
import MarkovCheck.Formula.Node

/-!
# Evaluation with remembered results

Each node remembers its last result, together with what the result depends on: the content of the
chain, the method and the tolerance. `Node.evaluate` answers from memory when that matches, without
looking at the parts of the node. Otherwise it evaluates the parts, computes, and remembers. A
failing computation leaves the node's memory as it was, while the parts evaluated before the failure
keep their new results.

The memory also keeps what is known of the present call: the nodes computed anew in it, and how
often it asked for the signal to stop.
-/

namespace MarkovCheck

structure EvalKey (α : Type) where
  chain : ChainKey
  method : Method
  tolerance : α
  deriving DecidableEq

/-- The dependencies of a result for a chain under some settings. -/
def EvalKey.of {α : Type} (c : Chain α) (o : Options α) : EvalKey α :=
  ⟨c.key, o.method, o.tolerance⟩

structure Entry (α : Type) (k : Kind) where
  key : EvalKey α
  value : Value α k

/-- What nodes remember, by identity, and what the present call did. -/
structure Memo (α : Type) where
  sets : Std.HashMap Nat (Entry α .state)
  vectors : Std.HashMap Nat (Entry α .path)
  computed : List Nat
  polls : Nat

namespace Memo

variable {α : Type}

def empty : Memo α := ⟨∅, ∅, [], 0⟩

def find? (m : Memo α) : (k : Kind) → Nat → Option (Entry α k)
  | .state, id => m.sets[id]?
  | .path, id => m.vectors[id]?

def store (m : Memo α) : (k : Kind) → Nat → Entry α k → Memo α
  | .state, id, e => { m with sets := m.sets.insert id e }
  | .path, id, e => { m with vectors := m.vectors.insert id e }

/-- Makes the node of either kind with an identity forget. -/
def erase (m : Memo α) (id : Nat) : Memo α :=
  { m with sets := m.sets.erase id, vectors := m.vectors.erase id }

/-- Puts a node on the list of the computed ones. -/
def note (m : Memo α) (id : Nat) : Memo α := { m with computed := id :: m.computed }

/-- The memory for a call that has done nothing yet. -/
def newCall (m : Memo α) : Memo α := { m with computed := [], polls := 0 }

end Memo

/-- Computations that can fail and that use the memory, which a failure does not undo. -/
abbrev EvalM (α : Type) := ExceptT (Error α) (StateM (Memo α))

/-- A result that does not depend on the memory. -/
def EvalM.ofExcept {α β : Type} (r : Except (Error α) β) : EvalM α β := ExceptT.mk (pure r)

/-- A result that depends on the signal to stop, which the call may have asked for before. -/
def EvalM.ofPolling {α β : Type} (x : Polling α β) : EvalM α β :=
  ExceptT.mk fun memo =>
    match x.run memo.polls with
    | .ok (b, polls) => (.ok b, { memo with polls := polls })
    | .error e => (.error e, memo)

/-- The remembered result of a node if it has the given key, and else the result of the computation,
which is remembered if it does not fail. -/
@[specialize] def memoized {α : Type} [Scalar α] (key : EvalKey α) {k : Kind} (id : Nat)
    (compute : EvalM α (Value α k)) : EvalM α (Value α k) :=
  ExceptT.mk fun memo =>
    let anew : Unit → Except (Error α) (Value α k) × Memo α := fun _ =>
      match compute (memo.note id) with
      | (.ok v, memo') => (.ok v, memo'.store k id ⟨key, v⟩)
      | (.error e, memo') => (.error e, memo')
    match memo.find? k id with
    | some e => if e.key = key then (.ok e.value, memo) else anew ()
    | none => anew ()

namespace Node

variable {α : Type} [Scalar α]

/-- The value of a node, from memory where possible. -/
@[specialize]
def evaluate (c : Chain α) (o : Options α) : {k : Kind} → Node α k → EvalM α (Value α k)
  | _, .top id => memoized (.of c o) id (pure c.allStates)
  | _, .bot id => memoized (.of c o) id (pure StateSet.empty)
  | _, .atom id label => memoized (.of c o) id (pure (c.labelled label))
  | _, .and id lhs rhs => memoized (.of c o) id do
    let l ← lhs.evaluate c o
    let r ← rhs.evaluate c o
    return StateSet.inter l r
  | _, .or id lhs rhs => memoized (.of c o) id do
    let l ← lhs.evaluate c o
    let r ← rhs.evaluate c o
    return StateSet.union l r
  | _, .not id arg => memoized (.of c o) id do
    let sat ← arg.evaluate c o
    return StateSet.complement sat c.size
  | _, .prob id bounds path => memoized (.of c o) id do
    let probabilities ← path.evaluate c o
    return Chain.withProbabilityIn bounds probabilities
  | _, .next id arg => do
    EvalM.ofExcept c.requireStates
    memoized (.of c o) id do
      let sat ← arg.evaluate c o
      EvalM.ofExcept (c.nextProbabilities sat)
  | _, .strongUntil id lhs rhs bound => do
    EvalM.ofExcept c.requireStates
    memoized (.of c o) id do
      let l ← lhs.evaluate c o
      let r ← rhs.evaluate c o
      EvalM.ofPolling (c.untilPolling o l r bound)

omit [Scalar α] in
def forget {k : Kind} (n : Node α k) (memo : Memo α) : Memo α :=
  n.ids.foldl Memo.erase memo

end Node

end MarkovCheck
