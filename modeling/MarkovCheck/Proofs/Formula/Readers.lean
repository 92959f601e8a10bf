import MarkovCheck.Formula.Parser
import MarkovCheck.Proofs.Interval
import MarkovCheck.Proofs.Outcome

/-!
# What the readers of formulas read

Each reader of the parser is described by when it reads a value and which tokens it leaves, in terms
of the readers it calls. Proofs about the parser go through these descriptions and do not open the
readers.

* `Parser.Reads`: a reading succeeds with a value and leaves some tokens
* `Parser.front`: the token that decides what a reader does
* `Formula.Any.and_eq_ok` and its like: operators accept operands of the right kind only
-/

namespace MarkovCheck

/-! ## Operators of formulas -/

namespace Formula.Any

variable {α : Type} {f lhs rhs : Any α}

theorem toState_eq_ok {φ : Formula α .state} : f.toState = .ok φ ↔ f = ⟨.state, φ⟩ := by
  obtain ⟨kind, f⟩ := f
  cases kind with
  | state =>
    simp only [toState, Except.ok.injEq, Any.mk.injEq, heq_eq_eq, true_and]
  | path =>
    constructor <;> intro same <;> cases same

theorem toPath_eq_ok {ψ : Formula α .path} : f.toPath = .ok ψ ↔ f = ⟨.path, ψ⟩ := by
  obtain ⟨kind, f⟩ := f
  cases kind with
  | path =>
    simp only [toPath, Except.ok.injEq, Any.mk.injEq, heq_eq_eq, true_and]
  | state =>
    constructor <;> intro same <;> cases same

theorem and_eq_ok : lhs.and rhs = .ok f ↔
    ∃ l r, lhs = ⟨.state, l⟩ ∧ rhs = ⟨.state, r⟩ ∧ f = ⟨.state, .and l r⟩ := by
  simp only [and, Outcome.bind_eq_ok, toState_eq_ok, pure, Except.pure, Except.ok.injEq,
    exists_and_left, @eq_comm _ _ f]

theorem or_eq_ok : lhs.or rhs = .ok f ↔
    ∃ l r, lhs = ⟨.state, l⟩ ∧ rhs = ⟨.state, r⟩ ∧ f = ⟨.state, .or l r⟩ := by
  simp only [or, Outcome.bind_eq_ok, toState_eq_ok, pure, Except.pure, Except.ok.injEq,
    exists_and_left, @eq_comm _ _ f]

theorem strongUntil_eq_ok {bound : Option Nat} : lhs.strongUntil rhs bound = .ok f ↔
    ∃ l r, lhs = ⟨.state, l⟩ ∧ rhs = ⟨.state, r⟩ ∧ f = ⟨.path, .strongUntil l r bound⟩ := by
  simp only [strongUntil, Outcome.bind_eq_ok, toState_eq_ok, pure, Except.pure, Except.ok.injEq,
    exists_and_left, @eq_comm _ _ f]

theorem not_eq_ok {arg : Any α} : arg.not = .ok f ↔
    ∃ φ, arg = ⟨.state, φ⟩ ∧ f = ⟨.state, .not φ⟩ := by
  simp only [not, Outcome.bind_eq_ok, toState_eq_ok, pure, Except.pure, Except.ok.injEq,
    @eq_comm _ _ f]

theorem next_eq_ok {arg : Any α} : arg.next = .ok f ↔
    ∃ φ, arg = ⟨.state, φ⟩ ∧ f = ⟨.path, .next φ⟩ := by
  simp only [next, Outcome.bind_eq_ok, toState_eq_ok, pure, Except.pure, Except.ok.injEq,
    @eq_comm _ _ f]

theorem prob_eq_ok {bounds : Interval α} {path : Any α} : prob bounds path = .ok f ↔
    ∃ ψ, path = ⟨.path, ψ⟩ ∧ f = ⟨.state, .prob bounds ψ⟩ := by
  simp only [prob, Outcome.bind_eq_ok, toPath_eq_ok, pure, Except.pure, Except.ok.injEq,
    @eq_comm _ _ f]

end Formula.Any

namespace Parser

/-! ## Readings -/

section Reads

variable {β γ : Type} {n : Nat} {value : β} {rest : List Located}

/-- The reading succeeds with a value and leaves some tokens. -/
def Reads (reading : Reading β n) (value : β) (rest : List Located) : Prop :=
  ∃ fewer, reading = .ok ⟨value, rest, fewer⟩

theorem Reads.fewer {reading : Reading β n} (read : Reads reading value rest) :
    rest.length < n :=
  read.choose

theorem Reads.unique {reading : Reading β n} {value' : β} {rest' : List Located}
    (read : Reads reading value rest) (again : Reads reading value' rest') : value = value' := by
  obtain ⟨_, read⟩ := read
  obtain ⟨_, again⟩ := again
  cases read.symm.trans again
  rfl

@[simp] theorem reads_ok {read : Read β n} :
    Reads (.ok read) value rest ↔ read.value = value ∧ read.rest = rest := by
  constructor
  · rintro ⟨_, same⟩
    cases same
    exact ⟨rfl, rfl⟩
  · rintro ⟨rfl, rfl⟩
    exact ⟨read.fewer, rfl⟩

@[simp] theorem not_reads_error {e : Error Float} :
    ¬ Reads (.error e : Reading β n) value rest := by
  rintro ⟨_, same⟩
  cases same

theorem reads_pure {read : Read β n} :
    Reads (pure read) value rest ↔ read.value = value ∧ read.rest = rest :=
  reads_ok

/-- After a computation that can fail, the reading goes on with its result. -/
theorem reads_bind {x : Except (Error Float) γ} {next : γ → Reading β n} :
    Reads (x >>= next) value rest ↔ ∃ c, x = .ok c ∧ Reads (next c) value rest := by
  simp only [Reads, Outcome.bind_eq_ok]
  constructor
  · rintro ⟨fewer, c, done, read⟩
    exact ⟨c, done, fewer, read⟩
  · rintro ⟨c, done, fewer, read⟩
    exact ⟨fewer, c, done, read⟩

/-- What is said of the outcome of a reading is said of what it reads and leaves. -/
theorem exists_read {x : Reading γ n} {p : Read γ n → Prop} :
    (∃ read, x = .ok read ∧ p read) ↔
      ∃ value rest, Reads x value rest ∧ ∃ fewer, p ⟨value, rest, fewer⟩ := by
  constructor
  · rintro ⟨⟨value, rest, fewer⟩, done, holds⟩
    exact ⟨value, rest, ⟨fewer, done⟩, fewer, holds⟩
  · rintro ⟨value, rest, ⟨_, done⟩, fewer, holds⟩
    exact ⟨⟨value, rest, fewer⟩, done, holds⟩

theorem reads_and_fewer {reading : Reading β n} {p : Prop} :
    Reads reading value rest ∧ rest.length < n ∧ p ↔ Reads reading value rest ∧ p := by
  constructor
  · rintro ⟨read, _, holds⟩
    exact ⟨read, holds⟩
  · rintro ⟨read, holds⟩
    exact ⟨read, read.fewer, holds⟩

end Reads

variable {stop : Nat} {ts rest : List Located}

/-- The first token. -/
def front (ts : List Located) : Option Token := ts.head?.map Located.token

@[simp] theorem front_cons (t : Located) (ts : List Located) : front (t :: ts) = some t.token := rfl

@[simp] theorem front_nil : front [] = none := rfl

theorem front_ne_iff {t : Token} :
    front ts ≠ some t ↔ ∀ offset ts', ts ≠ ⟨offset, t⟩ :: ts' := by
  constructor
  · rintro other offset ts' rfl
    exact other rfl
  · intro other same
    cases ts with
    | nil => cases same
    | cons head tail =>
      cases same
      exact other head.offset tail rfl

/-! ## Numbers and bounds -/

@[simp] theorem reads_expect {want : Token} {u : Unit} :
    Reads (expect stop want ts) u rest ↔ ∃ offset, ts = ⟨offset, want⟩ :: rest := by
  cases ts with
  | nil => simp [expect]
  | cons t ts =>
    simp only [expect]
    split
    · next same =>
      rw [reads_ok]
      constructor
      · rintro ⟨_, rfl⟩
        exact ⟨t.offset, by rw [← same]⟩
      · rintro ⟨_, equal⟩
        cases equal
        exact ⟨rfl, rfl⟩
    · next different =>
      constructor
      · intro read
        exact absurd read not_reads_error
      · rintro ⟨_, equal⟩
        cases equal
        exact absurd rfl different

@[simp] theorem reads_number {offset : Nat} {digits : List Char} :
    Reads (number stop ts) (offset, digits) rest ↔ ts = ⟨offset, .number digits⟩ :: rest := by
  unfold number
  split
  · simp
  · rw [reads_ok]
    simp [and_assoc]
  · next other =>
    constructor
    · intro read
      exact absurd read not_reads_error
    · intro equal
      cases equal
      exact absurd rfl (other _ _)

theorem reads_probability {p : Float} :
    Reads (probability stop ts) p rest ↔
      ∃ offset digits, ts = ⟨offset, .number digits⟩ :: rest ∧
        Decimal.readFloat digits = some p := by
  simp only [probability, reads_bind, exists_read, Prod.exists, reads_number]
  constructor
  · rintro ⟨offset, digits, ts₁, rfl, _, read⟩
    split at read
    · next number =>
      obtain ⟨rfl, rfl⟩ := reads_ok.mp read
      exact ⟨offset, digits, rfl, number⟩
    · exact absurd read not_reads_error
  · rintro ⟨offset, digits, rfl, number⟩
    exact ⟨offset, digits, rest, rfl, Nat.lt_succ_self _, by simp [number]⟩

theorem reads_stepBound {k : Nat} :
    Reads (stepBound stop ts) k rest ↔
      ∃ offset digits, ts = ⟨offset, .number digits⟩ :: rest ∧
        Decimal.readStepCount digits = some k := by
  simp only [stepBound, reads_bind, exists_read, Prod.exists, reads_number]
  constructor
  · rintro ⟨offset, digits, ts₁, rfl, _, read⟩
    split at read
    · next number =>
      obtain ⟨rfl, rfl⟩ := reads_ok.mp read
      exact ⟨offset, digits, rfl, number⟩
    · split at read <;> exact absurd read not_reads_error
  · rintro ⟨offset, digits, rfl, number⟩
    exact ⟨offset, digits, rest, rfl, Nat.lt_succ_self _, by simp [number]⟩

theorem reads_bound {i : Interval Float} : Reads (bound stop ts) i rest ↔
    (∃ offset ts₁ lower ts₂ upper, ts = ⟨offset, .lbracket⟩ :: ts₁ ∧
      (∃ comma, Reads (probability stop ts₁) lower (⟨comma, .comma⟩ :: ts₂)) ∧
      (∃ close, Reads (probability stop ts₂) upper (⟨close, .rbracket⟩ :: rest)) ∧
      Interval.make lower upper = .ok i) ∨
    (∃ offset ts₁ p, ts = ⟨offset, .ge⟩ :: ts₁ ∧ Reads (probability stop ts₁) p rest ∧
      Interval.atLeast p = .ok i) ∨
    (∃ offset ts₁ p, ts = ⟨offset, .le⟩ :: ts₁ ∧ Reads (probability stop ts₁) p rest ∧
      Interval.atMost p = .ok i) ∨
    (∃ offset ts₁ p, ts = ⟨offset, .eqEq⟩ :: ts₁ ∧ Reads (probability stop ts₁) p rest ∧
      Interval.exactly p = .ok i) := by
  rw [bound.eq_def]
  split
  · simp
  · simp only [reads_bind, exists_read, reads_pure, exists_prop, reads_and_fewer]
    simp
  · simp only [reads_bind, exists_read, reads_pure, exists_prop, reads_and_fewer]
    simp
  · simp only [reads_bind, exists_read, reads_pure, exists_prop, reads_and_fewer]
    simp
  · simp only [reads_bind, exists_read, reads_pure, exists_prop, reads_and_fewer]
    simp
  · next noBracket noGe noLe noEq =>
    refine iff_of_false not_reads_error ?_
    rintro (⟨_, _, _, _, _, same, _⟩ | ⟨_, _, _, same, _⟩ | ⟨_, _, _, same, _⟩ | ⟨_, _, _, same, _⟩)
    · exact noBracket _ (List.cons.inj same).1
    · exact noGe _ (List.cons.inj same).1
    · exact noLe _ (List.cons.inj same).1
    · exact noEq _ (List.cons.inj same).1

/-! ## Phrases -/

variable {f : Formula.Any Float}

theorem reads_formula : Reads (formula stop ts) f rest ↔
    (∃ offset ts₁ arg, ts = ⟨offset, .x⟩ :: ts₁ ∧ Reads (unary stop ts₁) arg rest ∧
      arg.next = .ok f) ∨
    (front ts ≠ some .x ∧ ∃ lhs ts₁, Reads (disjunction stop ts) lhs ts₁ ∧
      Reads (untilPart stop lhs ts₁) f rest) := by
  rw [formula.eq_def]
  split
  · simp only [reads_bind, exists_read, reads_pure, exists_prop, reads_and_fewer]
    simp
  · next other =>
    rw [← front_ne_iff] at other
    simp only [reads_bind, exists_read, reads_pure, exists_prop, reads_and_fewer]
    simp [other, front_ne_iff.mp other]

theorem reads_untilPart {lhs : Formula.Any Float} : Reads (untilPart stop lhs ts) f rest ↔
    (∃ offset offset' ts₁ k ts₂ rhs, ts = ⟨offset, .u⟩ :: ⟨offset', .le⟩ :: ts₁ ∧
      Reads (stepBound stop ts₁) k ts₂ ∧ Reads (disjunction stop ts₂) rhs rest ∧
      lhs.strongUntil rhs (some k) = .ok f) ∨
    (∃ offset ts₁ rhs, ts = ⟨offset, .u⟩ :: ts₁ ∧ front ts₁ ≠ some .le ∧
      Reads (disjunction stop ts₁) rhs rest ∧ lhs.strongUntil rhs none = .ok f) ∨
    (front ts ≠ some .u ∧ lhs = f ∧ ts = rest) := by
  rw [untilPart.eq_def]
  split
  · simp only [reads_bind, exists_read, reads_pure, exists_prop, reads_and_fewer]
    simp
  · next other =>
    rw [← front_ne_iff] at other
    simp only [reads_bind, exists_read, reads_pure, exists_prop, reads_and_fewer]
    simp [other, front_ne_iff.mp other]
  · next other =>
    rw [← front_ne_iff] at other
    simp [other, front_ne_iff.mp other]

theorem reads_disjunction : Reads (disjunction stop ts) f rest ↔
    ∃ lhs ts₁, Reads (conjunction stop ts) lhs ts₁ ∧ Reads (disjuncts stop lhs ts₁) f rest := by
  rw [disjunction]
  simp only [reads_bind, exists_read, reads_pure, exists_prop, reads_and_fewer]
  simp

theorem reads_disjuncts {lhs : Formula.Any Float} : Reads (disjuncts stop lhs ts) f rest ↔
    (∃ offset ts₁ rhs ts₂ g, ts = ⟨offset, .bar⟩ :: ts₁ ∧ Reads (conjunction stop ts₁) rhs ts₂ ∧
      lhs.or rhs = .ok g ∧ Reads (disjuncts stop g ts₂) f rest) ∨
    (front ts ≠ some .bar ∧ lhs = f ∧ ts = rest) := by
  rw [disjuncts.eq_def]
  split
  · simp only [reads_bind, exists_read, reads_pure, exists_prop, reads_and_fewer]
    simp
  · next other =>
    rw [← front_ne_iff] at other
    simp [other, front_ne_iff.mp other]

theorem reads_conjunction : Reads (conjunction stop ts) f rest ↔
    ∃ lhs ts₁, Reads (unary stop ts) lhs ts₁ ∧ Reads (conjuncts stop lhs ts₁) f rest := by
  rw [conjunction]
  simp only [reads_bind, exists_read, reads_pure, exists_prop, reads_and_fewer]
  simp

theorem reads_conjuncts {lhs : Formula.Any Float} : Reads (conjuncts stop lhs ts) f rest ↔
    (∃ offset ts₁ rhs ts₂ g, ts = ⟨offset, .amp⟩ :: ts₁ ∧ Reads (unary stop ts₁) rhs ts₂ ∧
      lhs.and rhs = .ok g ∧ Reads (conjuncts stop g ts₂) f rest) ∨
    (front ts ≠ some .amp ∧ lhs = f ∧ ts = rest) := by
  rw [conjuncts.eq_def]
  split
  · simp only [reads_bind, exists_read, reads_pure, exists_prop, reads_and_fewer]
    simp
  · next other =>
    rw [← front_ne_iff] at other
    simp [other, front_ne_iff.mp other]

theorem reads_unary : Reads (unary stop ts) f rest ↔
    (∃ offset ts₁ arg, ts = ⟨offset, .bang⟩ :: ts₁ ∧ Reads (unary stop ts₁) arg rest ∧
      arg.not = .ok f) ∨
    (front ts ≠ some .bang ∧ Reads (primary stop ts) f rest) := by
  rw [unary.eq_def]
  split
  · simp only [reads_bind, exists_read, reads_pure, exists_prop, reads_and_fewer]
    simp
  · next other =>
    rw [← front_ne_iff] at other
    simp [other, front_ne_iff.mp other]

theorem reads_primary : Reads (primary stop ts) f rest ↔
    (∃ offset, ts = ⟨offset, .top⟩ :: rest ∧ ⟨.state, .top⟩ = f) ∨
    (∃ offset, ts = ⟨offset, .bot⟩ :: rest ∧ ⟨.state, .bot⟩ = f) ∨
    (∃ offset name, ts = ⟨offset, .atom name⟩ :: rest ∧
      ⟨.state, .atom (String.ofList name)⟩ = f) ∨
    (∃ offset ts₁ bounds ts₂ path, ts = ⟨offset, .p⟩ :: ts₁ ∧
      (∃ lparen, Reads (bound stop ts₁) bounds (⟨lparen, .lparen⟩ :: ts₂)) ∧
      (∃ close, Reads (formula stop ts₂) path (⟨close, .rparen⟩ :: rest)) ∧
      Formula.Any.prob bounds path = .ok f) ∨
    (∃ offset ts₁ close, ts = ⟨offset, .lparen⟩ :: ts₁ ∧
      Reads (formula stop ts₁) f (⟨close, .rparen⟩ :: rest)) := by
  rw [primary.eq_def]
  split
  · simp
  · simp [and_comm]
  · simp [and_comm]
  · simp [and_comm]
  · simp only [reads_bind, exists_read, reads_pure, exists_prop, reads_and_fewer]
    simp
  · simp only [reads_bind, exists_read, reads_pure, exists_prop, reads_and_fewer]
    simp
  · next noTop noBot noAtom noProb noParen =>
    refine iff_of_false not_reads_error ?_
    rintro (⟨_, same, _⟩ | ⟨_, same, _⟩ | ⟨_, _, same, _⟩ | ⟨_, _, _, _, _, same, _⟩ |
      ⟨_, _, _, same, _⟩)
    · exact noTop _ (List.cons.inj same).1
    · exact noBot _ (List.cons.inj same).1
    · exact noAtom _ _ (List.cons.inj same).1
    · exact noProb _ (List.cons.inj same).1
    · exact noParen _ (List.cons.inj same).1

end Parser

end MarkovCheck
