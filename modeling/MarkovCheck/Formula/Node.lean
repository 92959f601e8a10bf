import MarkovCheck.Formula.Basic

/-!
# Formulas with shared parts

A node is a formula each part of which has an identity. Two occurrences of one identity are one
part, shared; results are remembered by identity, so a shared part is evaluated once.

* `Node.formula`: the formula behind a node
* `Node.ids`: the identities in it
* `Node.ofFormula`: a formula as a node with fresh identities throughout
* `Node.Any`: a node of either kind, with the kind checks of `Formula.Any`
-/

namespace MarkovCheck

inductive Node (α : Type) : Kind → Type where
  | top (id : Nat) : Node α .state
  | bot (id : Nat) : Node α .state
  | atom (id : Nat) (label : String) : Node α .state
  | and (id : Nat) (lhs rhs : Node α .state) : Node α .state
  | or (id : Nat) (lhs rhs : Node α .state) : Node α .state
  | not (id : Nat) (arg : Node α .state) : Node α .state
  | prob (id : Nat) (bounds : Interval α) (path : Node α .path) : Node α .state
  | next (id : Nat) (arg : Node α .state) : Node α .path
  | strongUntil (id : Nat) (lhs rhs : Node α .state) (bound : Option Nat) : Node α .path

namespace Node

variable {α : Type}

def id : {k : Kind} → Node α k → Nat
  | _, .top i => i
  | _, .bot i => i
  | _, .atom i _ => i
  | _, .and i _ _ => i
  | _, .or i _ _ => i
  | _, .not i _ => i
  | _, .prob i _ _ => i
  | _, .next i _ => i
  | _, .strongUntil i _ _ _ => i

def formula : {k : Kind} → Node α k → Formula α k
  | _, .top _ => .top
  | _, .bot _ => .bot
  | _, .atom _ label => .atom label
  | _, .and _ lhs rhs => .and lhs.formula rhs.formula
  | _, .or _ lhs rhs => .or lhs.formula rhs.formula
  | _, .not _ arg => .not arg.formula
  | _, .prob _ bounds path => .prob bounds path.formula
  | _, .next _ arg => .next arg.formula
  | _, .strongUntil _ lhs rhs bound => .strongUntil lhs.formula rhs.formula bound

/-- The identities of a node and of all its parts, in preorder and with repetitions. -/
def ids : {k : Kind} → Node α k → List Nat
  | _, .top i => [i]
  | _, .bot i => [i]
  | _, .atom i _ => [i]
  | _, .and i lhs rhs => i :: lhs.ids ++ rhs.ids
  | _, .or i lhs rhs => i :: lhs.ids ++ rhs.ids
  | _, .not i arg => i :: arg.ids
  | _, .prob i _ path => i :: path.ids
  | _, .next i arg => i :: arg.ids
  | _, .strongUntil i lhs rhs _ => i :: lhs.ids ++ rhs.ids

/-- The formula with identities from `fresh` on, and the first identity that is left. -/
def ofFormula (fresh : Nat) : {k : Kind} → Formula α k → Node α k × Nat
  | _, .top => (.top fresh, fresh + 1)
  | _, .bot => (.bot fresh, fresh + 1)
  | _, .atom label => (.atom fresh label, fresh + 1)
  | _, .and lhs rhs =>
    let (l, fresh₁) := ofFormula fresh lhs
    let (r, fresh₂) := ofFormula fresh₁ rhs
    (.and fresh₂ l r, fresh₂ + 1)
  | _, .or lhs rhs =>
    let (l, fresh₁) := ofFormula fresh lhs
    let (r, fresh₂) := ofFormula fresh₁ rhs
    (.or fresh₂ l r, fresh₂ + 1)
  | _, .not arg =>
    let (a, fresh₁) := ofFormula fresh arg
    (.not fresh₁ a, fresh₁ + 1)
  | _, .prob bounds path =>
    let (p, fresh₁) := ofFormula fresh path
    (.prob fresh₁ bounds p, fresh₁ + 1)
  | _, .next arg =>
    let (a, fresh₁) := ofFormula fresh arg
    (.next fresh₁ a, fresh₁ + 1)
  | _, .strongUntil lhs rhs bound =>
    let (l, fresh₁) := ofFormula fresh lhs
    let (r, fresh₂) := ofFormula fresh₁ rhs
    (.strongUntil fresh₂ l r bound, fresh₂ + 1)

structure Any (α : Type) where
  kind : Kind
  node : Node α kind

namespace Any

def toState : Any α → Except (Error α) (Node α .state)
  | ⟨.state, φ⟩ => .ok φ
  | ⟨.path, _⟩ => .error (.wrongKind .state .path)

def toPath : Any α → Except (Error α) (Node α .path)
  | ⟨.path, ψ⟩ => .ok ψ
  | ⟨.state, _⟩ => .error (.wrongKind .path .state)

def formula (n : Any α) : Formula.Any α := ⟨n.kind, n.node.formula⟩

/-- A formula as a node with identities from `fresh` on, and the first identity that is left. -/
def ofFormula (fresh : Nat) (f : Formula.Any α) : Any α × Nat :=
  let (node, fresh') := Node.ofFormula fresh f.formula
  (⟨f.kind, node⟩, fresh')

end Any

end Node

/-- One operator over nodes `ν` that exist already. -/
inductive Operator (α ν : Type) where
  | top
  | bot
  | atom (label : String)
  | and (lhs rhs : ν)
  | or (lhs rhs : ν)
  | not (arg : ν)
  | prob (bounds : Interval α) (path : ν)
  | next (arg : ν)
  | strongUntil (lhs rhs : ν) (bound : Option Nat)

/-- A new node with the given identity over nodes that keep theirs. Kinds are checked from left to
right. -/
def Operator.node {α : Type} (id : Nat) :
    Operator α (Node.Any α) → Except (Error α) (Node.Any α)
  | .top => .ok ⟨.state, .top id⟩
  | .bot => .ok ⟨.state, .bot id⟩
  | .atom label => .ok ⟨.state, .atom id label⟩
  | .and lhs rhs => do
    let l ← lhs.toState
    let r ← rhs.toState
    return ⟨.state, .and id l r⟩
  | .or lhs rhs => do
    let l ← lhs.toState
    let r ← rhs.toState
    return ⟨.state, .or id l r⟩
  | .not arg => do
    let φ ← arg.toState
    return ⟨.state, .not id φ⟩
  | .prob bounds path => do
    let ψ ← path.toPath
    return ⟨.state, .prob id bounds ψ⟩
  | .next arg => do
    let φ ← arg.toState
    return ⟨.path, .next id φ⟩
  | .strongUntil lhs rhs bound => do
    let l ← lhs.toState
    let r ← rhs.toState
    return ⟨.path, .strongUntil id l r bound⟩

end MarkovCheck
