import MarkovCheck.Formula.Node
import MarkovCheck.Proofs.Outcome

/-!
# The parts of a node

A node is made of parts, itself included, each with an identity. `Node.parts` lists them, in the
order of `Node.ids`.

A node made from a formula has identities of its own, a different one for each part. A node made by
an operator has one new identity and shares all other parts with the operands.
-/

namespace MarkovCheck

namespace Node

variable {α : Type}

/-- A node and all its parts, in preorder and with repetitions. -/
def parts : {k : Kind} → Node α k → List (Node.Any α)
  | _, .top i => [⟨_, .top i⟩]
  | _, .bot i => [⟨_, .bot i⟩]
  | _, .atom i label => [⟨_, .atom i label⟩]
  | _, .and i lhs rhs => ⟨_, .and i lhs rhs⟩ :: (lhs.parts ++ rhs.parts)
  | _, .or i lhs rhs => ⟨_, .or i lhs rhs⟩ :: (lhs.parts ++ rhs.parts)
  | _, .not i arg => ⟨_, .not i arg⟩ :: arg.parts
  | _, .prob i bounds path => ⟨_, .prob i bounds path⟩ :: path.parts
  | _, .next i arg => ⟨_, .next i arg⟩ :: arg.parts
  | _, .strongUntil i lhs rhs bound => ⟨_, .strongUntil i lhs rhs bound⟩ :: (lhs.parts ++ rhs.parts)

theorem mem_parts_self {k : Kind} (n : Node α k) : ⟨k, n⟩ ∈ n.parts := by
  cases n <;> simp [parts]

theorem ids_eq {k : Kind} (n : Node α k) : n.ids = n.parts.map fun part => part.node.id := by
  induction n with
  | top | bot | atom => rfl
  | and _ lhs rhs left right | or _ lhs rhs left right | strongUntil _ lhs rhs _ left right =>
    simp [ids, parts, id, left, right]
  | not _ arg inner | prob _ _ arg inner | next _ arg inner => simp [ids, parts, id, inner]

theorem mem_parts_trans {k : Kind} {n : Node α k} {part inner : Node.Any α}
    (member : part ∈ n.parts) (below : inner ∈ part.node.parts) : inner ∈ n.parts := by
  induction n with
  | top | bot | atom =>
    simp only [parts, List.mem_singleton] at member
    subst member
    exact below
  | and _ lhs rhs left right | or _ lhs rhs left right | strongUntil _ lhs rhs _ left right =>
    simp only [parts, List.mem_cons, List.mem_append] at member
    obtain rfl | member | member := member
    · exact below
    · simp [parts, left member]
    · simp [parts, right member]
  | not _ arg inductionHypothesis | prob _ _ arg inductionHypothesis
  | next _ arg inductionHypothesis =>
    simp only [parts, List.mem_cons] at member
    obtain rfl | member := member
    · exact below
    · simp [parts, inductionHypothesis member]

/-! ## Nodes of formulas -/

/-- The identities given to the parts of a formula lie between the first one that was free and the
first one that is left. -/
theorem mem_ids_ofFormula (fresh : Nat) {k : Kind} (f : Formula α k) :
    fresh < (ofFormula fresh f).2 ∧
      ∀ i ∈ (ofFormula fresh f).1.ids, fresh ≤ i ∧ i < (ofFormula fresh f).2 := by
  induction f generalizing fresh with
  | top | bot | atom => simp [ofFormula, ids]
  | and lhs rhs left right | or lhs rhs left right | strongUntil lhs rhs _ left right =>
    obtain ⟨leftGrows, leftIds⟩ := left fresh
    obtain ⟨rightGrows, rightIds⟩ := right (ofFormula fresh lhs).2
    simp only [ofFormula, ids, List.cons_append, List.mem_cons, List.mem_append]
    refine ⟨by omega, ?_⟩
    rintro i (rfl | member | member)
    · omega
    · have := leftIds i member
      omega
    · have := rightIds i member
      omega
  | not arg inner | prob _ arg inner | next arg inner =>
    obtain ⟨grows, ids⟩ := inner fresh
    simp only [ofFormula, Node.ids, List.mem_cons]
    refine ⟨by omega, ?_⟩
    rintro i (rfl | member)
    · omega
    · have := ids i member
      omega

theorem nodup_ids_ofFormula (fresh : Nat) {k : Kind} (f : Formula α k) :
    (ofFormula fresh f).1.ids.Nodup := by
  induction f generalizing fresh with
  | top | bot | atom => simp [ofFormula, ids]
  | and lhs rhs left right | or lhs rhs left right | strongUntil lhs rhs _ left right =>
    have leftIds := (mem_ids_ofFormula fresh lhs).2
    obtain ⟨rightGrows, rightIds⟩ := mem_ids_ofFormula (ofFormula fresh lhs).2 rhs
    simp only [ofFormula, ids, List.cons_append, List.nodup_cons, List.mem_append]
    refine ⟨?_, List.nodup_append.mpr ⟨left fresh, right _, ?_⟩⟩
    · rintro (member | member)
      · have := leftIds _ member
        omega
      · have := rightIds _ member
        omega
    · -- All identities on the left are below those on the right.
      intro i onLeft j onRight
      have := leftIds i onLeft
      have := rightIds j onRight
      omega
  | not arg inner | prob _ arg inner | next arg inner =>
    simp only [ofFormula, ids, List.nodup_cons]
    refine ⟨fun member => ?_, inner fresh⟩
    have := (mem_ids_ofFormula fresh arg).2 _ member
    omega

end Node

/-! ## Nodes of operators -/

namespace Operator

variable {α ν : Type}

def operands : Operator α ν → List ν
  | .top | .bot | .atom _ => []
  | .and lhs rhs | .or lhs rhs | .strongUntil lhs rhs _ => [lhs, rhs]
  | .not arg | .prob _ arg | .next arg => [arg]

end Operator

theorem Node.Any.toState_eq_ok {α : Type} {n : Node.Any α} {φ : Node α .state}
    (kind : n.toState = .ok φ) : n = ⟨.state, φ⟩ := by
  obtain ⟨k, node⟩ := n
  cases k with
  | state => exact congrArg (Node.Any.mk Kind.state) (Except.ok.inj kind)
  | path => cases kind

theorem Node.Any.toPath_eq_ok {α : Type} {n : Node.Any α} {ψ : Node α .path}
    (kind : n.toPath = .ok ψ) : n = ⟨.path, ψ⟩ := by
  obtain ⟨k, node⟩ := n
  cases k with
  | state => cases kind
  | path => exact congrArg (Node.Any.mk Kind.path) (Except.ok.inj kind)

/-- A node made by an operator has the given identity, and its other parts are those of the
operands. -/
theorem Operator.node_eq_ok {α : Type} {op : Operator α (Node.Any α)} {id : Nat}
    {n : Node.Any α} (made : op.node id = .ok n) :
    n.node.id = id ∧ ∀ part ∈ n.node.parts, part = n ∨
      ∃ operand ∈ op.operands, part ∈ operand.node.parts := by
  cases op with
  | top | bot | atom =>
    cases made
    exact ⟨rfl, fun part member => .inl (by simpa [Node.parts] using member)⟩
  | and lhs rhs | or lhs rhs | strongUntil lhs rhs _ =>
    obtain ⟨l, leftKind, rest⟩ := Outcome.bind_eq_ok.mp made
    obtain ⟨r, rightKind, result⟩ := Outcome.bind_eq_ok.mp rest
    -- The operands have the kind that the operator asks for, so their parts are parts of the node.
    cases Node.Any.toState_eq_ok leftKind
    cases Node.Any.toState_eq_ok rightKind
    cases result
    refine ⟨rfl, fun part member => ?_⟩
    simp only [Node.parts, List.mem_cons, List.mem_append] at member
    obtain rfl | member | member := member
    · exact .inl rfl
    · exact .inr ⟨⟨.state, l⟩, by simp [operands], member⟩
    · exact .inr ⟨⟨.state, r⟩, by simp [operands], member⟩
  | not arg | next arg =>
    obtain ⟨φ, kind, result⟩ := Outcome.bind_eq_ok.mp made
    cases Node.Any.toState_eq_ok kind
    cases result
    refine ⟨rfl, fun part member => ?_⟩
    simp only [Node.parts, List.mem_cons] at member
    obtain rfl | member := member
    · exact .inl rfl
    · exact .inr ⟨⟨.state, φ⟩, by simp [operands], member⟩
  | prob bounds path =>
    obtain ⟨ψ, kind, result⟩ := Outcome.bind_eq_ok.mp made
    cases Node.Any.toPath_eq_ok kind
    cases result
    refine ⟨rfl, fun part member => ?_⟩
    simp only [Node.parts, List.mem_cons] at member
    obtain rfl | member := member
    · exact .inl rfl
    · exact .inr ⟨⟨.path, ψ⟩, by simp [operands], member⟩

end MarkovCheck
