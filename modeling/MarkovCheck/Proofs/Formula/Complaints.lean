import MarkovCheck.Proofs.Formula.Readers

/-!
# What the parser complains about

The parser decides by the tokens alone and only passes their offsets on to its complaints. So the
same tokens at other offsets are read alike: with the same result, or with the same complaint at the
new offset. And every complaint is about one of the tokens or about the lack of one.

* `SyntaxProblem.About`: the token that a complaint is about, if there is one
* `Parser.Complains`: the same complaint about the same token, before and after tokens are moved
* `Parser.Alike`: two readings with the same result or the same complaint
* `Parser.whole_alike`: moved tokens are read alike
-/

namespace MarkovCheck

/-- The token at another offset. -/
def Located.move (σ : Nat → Nat) (t : Located) : Located := ⟨σ t.offset, t.token⟩

/-- The error at another position, if it has one. -/
def Error.move {α : Type} (σ : Nat → Nat) : Error α → Error α
  | .unreadable position problem => .unreadable (σ position) problem
  | e => e

/-- The errors of a text that have no position: a bad bound, or an operand of the wrong kind. -/
def Error.Placeless {α : Type} : Error α → Prop
  | .invalidInterval _ _ | .invalidStepBound _ | .wrongKind _ _ => True
  | _ => False

/-- The complaint is about the given token, or about the end of the tokens. -/
def SyntaxProblem.About (found : Option Token) : SyntaxProblem → Prop
  | .wanted _ found' | .wantedNumber found' | .wantedBound found' | .strayToken found' =>
    found' = found
  | .malformedNumber digits => found = some (.number digits)
  | .trailing t => found = some t
  | .lacksEquals _ | .strayChar _ => False

theorem Interval.placeless_make {l u : Float} {e : Error Float}
    (failed : Interval.make l u = .error e) : e.Placeless := by
  unfold Interval.make at failed
  split at failed
  · cases failed
  · cases failed
    trivial

namespace Formula.Any

variable {α : Type} {f lhs rhs arg : Any α} {e : Error α}

theorem placeless_toState (failed : f.toState = .error e) : e.Placeless := by
  obtain ⟨kind, f⟩ := f
  cases kind with
  | state => cases failed
  | path =>
    cases failed
    trivial

theorem placeless_toPath (failed : f.toPath = .error e) : e.Placeless := by
  obtain ⟨kind, f⟩ := f
  cases kind with
  | path => cases failed
  | state =>
    cases failed
    trivial

/-- An operator that refuses its operands does so because of their kinds. -/
theorem placeless_bind {β γ : Type} {x : Except (Error α) β} {k : β → Except (Error α) γ}
    (first : ∀ e, x = .error e → e.Placeless) (second : ∀ b e, k b = .error e → e.Placeless)
    (failed : (x >>= k) = .error e) : e.Placeless := by
  cases x with
  | ok b => exact second b e failed
  | error e' =>
    cases failed
    exact first _ rfl

theorem placeless_single {make : Formula α .state → Any α}
    (failed : (do
      let φ ← arg.toState
      return make φ) = Except.error e) : e.Placeless :=
  placeless_bind (fun _ => placeless_toState) (fun _ _ returned => by cases returned) failed

theorem placeless_prob {bounds : Interval α} (failed : prob bounds arg = .error e) :
    e.Placeless :=
  placeless_bind (fun _ => placeless_toPath) (fun _ _ returned => by cases returned) failed

theorem placeless_pair {make : Formula α .state → Formula α .state → Any α}
    (failed : (do
      let l ← lhs.toState
      let r ← rhs.toState
      return make l r) = Except.error e) : e.Placeless :=
  placeless_bind (fun _ => placeless_toState) (fun _ _ =>
    placeless_bind (fun _ => placeless_toState) fun _ _ returned => by cases returned) failed

end Formula.Any

namespace Parser

section Alike

variable (σ : Nat → Nat) (stop stop' : Nat) (all : List Located)

/-- The same complaint before and after the tokens are moved: one that has no place, one about the
end, or one about a token. -/
inductive Complains : Error Float → Error Float → Prop where
  | placeless {e : Error Float} (placeless : e.Placeless) : Complains e e
  | atEnd {problem : SyntaxProblem} (about : problem.About none) :
      Complains (.unreadable stop problem) (.unreadable stop' problem)
  | atToken {t : Located} {problem : SyntaxProblem} (member : t ∈ all)
      (about : problem.About (some t.token)) :
      Complains (.unreadable t.offset problem) (.unreadable (σ t.offset) problem)

/-- The same result, leaving the same tokens, or the same complaint. -/
inductive Alike {β : Type} {n n' : Nat} : Reading β n → Reading β n' → Prop where
  | read {value : β} {rest : List Located} {fewer : rest.length < n}
      {fewer' : (rest.map (Located.move σ)).length < n'} (within : ∀ t ∈ rest, t ∈ all) :
      Alike (.ok ⟨value, rest, fewer⟩) (.ok ⟨value, rest.map (Located.move σ), fewer'⟩)
  | failed {e e' : Error Float} (same : Complains σ stop stop' all e e') :
      Alike (.error e) (.error e')

end Alike

variable {σ : Nat → Nat} {stop stop' : Nat} {all : List Located} {ts : List Located}

section Rules

variable {β γ : Type} {n n' m m' : Nat}

theorem Alike.bind {x : Reading β n} {x' : Reading β n'} {k : Read β n → Reading γ m}
    {k' : Read β n' → Reading γ m'} (first : Alike σ stop stop' all x x')
    (next : ∀ value rest fewer fewer', (∀ t ∈ rest, t ∈ all) → Alike σ stop stop' all
      (k ⟨value, rest, fewer⟩) (k' ⟨value, rest.map (Located.move σ), fewer'⟩)) :
    Alike σ stop stop' all (x >>= k) (x' >>= k') := by
  cases first with
  | read within => exact next _ _ _ _ within
  | failed same => exact .failed same

/-- A computation that knows nothing of tokens goes the same way in both readings. -/
theorem Alike.make {x : Except (Error Float) β} {k : β → Reading γ m} {k' : β → Reading γ m'}
    (placeless : ∀ e, x = .error e → e.Placeless)
    (next : ∀ b, Alike σ stop stop' all (k b) (k' b)) :
    Alike σ stop stop' all (x >>= k) (x >>= k') := by
  cases x with
  | ok b => exact next b
  | error e => exact .failed (.placeless (placeless e rfl))

end Rules

theorem expect_alike {want : Token} (within : ∀ t ∈ ts, t ∈ all) :
    Alike σ stop stop' all (expect stop want ts) (expect stop' want (ts.map (Located.move σ))) := by
  cases ts with
  | nil => exact .failed (.atEnd rfl)
  | cons t ts =>
    simp only [List.forall_mem_cons] at within
    change Alike σ stop stop' all (if t.token = want then _ else _)
      (if t.token = want then _ else _)
    split
    · exact .read within.2
    · exact .failed (.atToken within.1 rfl)

/-- What number tokens stand for is read from their digits. -/
theorem number_alike {β : Type} {n n' : Nat} {k : Read (Nat × List Char) ts.length → Reading β n}
    {k' : Read (Nat × List Char) (ts.map (Located.move σ)).length → Reading β n'}
    (within : ∀ t ∈ ts, t ∈ all)
    (next : ∀ offset digits rest fewer fewer', ⟨offset, .number digits⟩ ∈ all →
      (∀ t ∈ rest, t ∈ all) → Alike σ stop stop' all
        (k ⟨(offset, digits), rest, fewer⟩)
        (k' ⟨(σ offset, digits), rest.map (Located.move σ), fewer'⟩)) :
    Alike σ stop stop' all (number stop ts >>= k)
      (number stop' (ts.map (Located.move σ)) >>= k') := by
  cases ts with
  | nil => exact .failed (.atEnd rfl)
  | cons t ts =>
    simp only [List.forall_mem_cons] at within
    obtain ⟨offset, token⟩ := t
    cases token with
    | number digits => exact next offset digits ts _ _ within.1 within.2
    | _ => exact .failed (.atToken within.1 rfl)

theorem probability_alike (within : ∀ t ∈ ts, t ∈ all) :
    Alike σ stop stop' all (probability stop ts)
      (probability stop' (ts.map (Located.move σ))) := by
  apply number_alike within
  intro offset digits rest fewer fewer' member within
  dsimp only
  cases Decimal.readFloat digits with
  | some p => exact .read within
  | none => exact .failed (.atToken member rfl)

theorem stepBound_alike (within : ∀ t ∈ ts, t ∈ all) :
    Alike σ stop stop' all (stepBound stop ts) (stepBound stop' (ts.map (Located.move σ))) := by
  apply number_alike within
  intro offset digits rest fewer fewer' member within
  dsimp only
  cases Decimal.readStepCount digits with
  | some k => exact .read within
  | none =>
    cases Decimal.readFloat digits with
    | some p => exact .failed (.placeless trivial)
    | none => exact .failed (.atToken member rfl)

theorem bound_alike (within : ∀ t ∈ ts, t ∈ all) :
    Alike σ stop stop' all (bound stop ts) (bound stop' (ts.map (Located.move σ))) := by
  cases ts with
  | nil => exact .failed (.atEnd rfl)
  | cons t ts =>
    simp only [List.forall_mem_cons] at within
    obtain ⟨offset, token⟩ := t
    cases token with
    | lbracket =>
      apply (probability_alike within.2).bind
      intro lower ts₂ _ _ within
      apply (expect_alike within).bind
      intro _ ts₃ _ _ within
      apply (probability_alike within).bind
      intro upper ts₄ _ _ within
      apply (expect_alike within).bind
      intro _ ts₅ _ _ within
      exact .make (fun _ => Interval.placeless_make) fun _ => .read within
    | ge | le | eqEq =>
      apply (probability_alike within.2).bind
      intro p ts₂ _ _ within
      exact .make (fun _ => Interval.placeless_make) fun _ => .read within
    | _ => exact .failed (.atToken within.1 rfl)

/-! ## Phrases -/

/-- Whether a token comes first is seen alike before and after the tokens are moved. -/
theorem front_cases (σ : Nat → Nat) (t : Token) (ts : List Located) :
    (∃ offset ts₁, ts = ⟨offset, t⟩ :: ts₁) ∨
      (∀ offset ts₁, ts = ⟨offset, t⟩ :: ts₁ → False) ∧
        ∀ offset ts₁, ts.map (Located.move σ) = ⟨offset, t⟩ :: ts₁ → False := by
  cases ts with
  | nil => simp
  | cons head ts₁ =>
    by_cases same : head.token = t
    · subst same
      exact .inl ⟨head.offset, ts₁, rfl⟩
    · right
      constructor
      · intro offset ts₂ equal
        cases equal
        exact same rfl
      · intro offset ts₂ equal
        cases equal
        exact same rfl

mutual

theorem formula_alike (ts : List Located) (within : ∀ t ∈ ts, t ∈ all) :
    Alike σ stop stop' all (formula stop ts) (formula stop' (ts.map (Located.move σ))) := by
  obtain ⟨offset, ts₁, rfl⟩ | ⟨other, other'⟩ := front_cases σ .x ts
  · simp only [List.forall_mem_cons] at within
    change Alike σ stop stop' all _ (formula stop' (⟨σ offset, .x⟩ :: ts₁.map (Located.move σ)))
    rw [formula, formula]
    apply (unary_alike ts₁ within.2).bind
    intro arg ts₂ _ _ within
    exact .make (fun _ => Formula.Any.placeless_single) fun _ => .read within
  · rw [formula.eq_2 _ _ other, formula.eq_2 _ _ other']
    apply (disjunction_alike ts within).bind
    intro lhs ts₁ fewer _ within
    apply (untilPart_alike lhs ts₁ within).bind
    intro f ts₂ _ _ within
    exact .read within
termination_by 5 * ts.length + 4
decreasing_by
  · subst_vars; simp; omega
  · omega
  · omega

theorem untilPart_alike (lhs : Formula.Any Float) (ts : List Located)
    (within : ∀ t ∈ ts, t ∈ all) :
    Alike σ stop stop' all (untilPart stop lhs ts)
      (untilPart stop' lhs (ts.map (Located.move σ))) := by
  obtain ⟨offset, ts₁, rfl⟩ | ⟨other, other'⟩ := front_cases σ .u ts
  · simp only [List.forall_mem_cons] at within
    obtain ⟨offset', ts₂, rfl⟩ | ⟨other, other'⟩ := front_cases σ .le ts₁
    · simp only [List.forall_mem_cons] at within
      change Alike σ stop stop' all _
        (untilPart stop' lhs (⟨σ offset, .u⟩ :: ⟨σ offset', .le⟩ :: ts₂.map (Located.move σ)))
      rw [untilPart, untilPart]
      apply (stepBound_alike within.2.2).bind
      intro k ts₃ _ _ within
      apply (disjunction_alike ts₃ within).bind
      intro rhs ts₄ _ _ within
      exact .make (fun _ => Formula.Any.placeless_pair) fun _ => .read within
    · change Alike σ stop stop' all _
        (untilPart stop' lhs (⟨σ offset, .u⟩ :: ts₁.map (Located.move σ)))
      rw [untilPart.eq_2 _ _ _ _ other, untilPart.eq_2 _ _ _ _ other']
      apply (disjunction_alike ts₁ within.2).bind
      intro rhs ts₂ _ _ within
      exact .make (fun _ => Formula.Any.placeless_pair) fun _ => .read within
  · rw [untilPart.eq_3 _ _ _ (fun _ _ _ => other _ _) other,
      untilPart.eq_3 _ _ _ (fun _ _ _ => other' _ _) other']
    exact .read within
termination_by 5 * ts.length
decreasing_by all_goals (subst_vars; simp; omega)

theorem disjunction_alike (ts : List Located) (within : ∀ t ∈ ts, t ∈ all) :
    Alike σ stop stop' all (disjunction stop ts)
      (disjunction stop' (ts.map (Located.move σ))) := by
  rw [disjunction, disjunction]
  apply (conjunction_alike ts within).bind
  intro lhs ts₁ _ _ within
  apply (disjuncts_alike lhs ts₁ within).bind
  intro f ts₂ _ _ within
  exact .read within
termination_by 5 * ts.length + 3
decreasing_by all_goals omega

theorem disjuncts_alike (lhs : Formula.Any Float) (ts : List Located)
    (within : ∀ t ∈ ts, t ∈ all) :
    Alike σ stop stop' all (disjuncts stop lhs ts)
      (disjuncts stop' lhs (ts.map (Located.move σ))) := by
  obtain ⟨offset, ts₁, rfl⟩ | ⟨other, other'⟩ := front_cases σ .bar ts
  · simp only [List.forall_mem_cons] at within
    change Alike σ stop stop' all _
      (disjuncts stop' lhs (⟨σ offset, .bar⟩ :: ts₁.map (Located.move σ)))
    rw [disjuncts, disjuncts]
    apply (conjunction_alike ts₁ within.2).bind
    intro rhs ts₂ _ _ within
    apply Alike.make fun _ => Formula.Any.placeless_pair
    intro g
    apply (disjuncts_alike g ts₂ within).bind
    intro f ts₃ _ _ within
    exact .read within
  · rw [disjuncts.eq_2 _ _ _ other, disjuncts.eq_2 _ _ _ other']
    exact .read within
termination_by 5 * ts.length
decreasing_by all_goals (subst_vars; simp; omega)

theorem conjunction_alike (ts : List Located) (within : ∀ t ∈ ts, t ∈ all) :
    Alike σ stop stop' all (conjunction stop ts)
      (conjunction stop' (ts.map (Located.move σ))) := by
  rw [conjunction, conjunction]
  apply (unary_alike ts within).bind
  intro lhs ts₁ _ _ within
  apply (conjuncts_alike lhs ts₁ within).bind
  intro f ts₂ _ _ within
  exact .read within
termination_by 5 * ts.length + 2
decreasing_by all_goals omega

theorem conjuncts_alike (lhs : Formula.Any Float) (ts : List Located)
    (within : ∀ t ∈ ts, t ∈ all) :
    Alike σ stop stop' all (conjuncts stop lhs ts)
      (conjuncts stop' lhs (ts.map (Located.move σ))) := by
  obtain ⟨offset, ts₁, rfl⟩ | ⟨other, other'⟩ := front_cases σ .amp ts
  · simp only [List.forall_mem_cons] at within
    change Alike σ stop stop' all _
      (conjuncts stop' lhs (⟨σ offset, .amp⟩ :: ts₁.map (Located.move σ)))
    rw [conjuncts, conjuncts]
    apply (unary_alike ts₁ within.2).bind
    intro rhs ts₂ _ _ within
    apply Alike.make fun _ => Formula.Any.placeless_pair
    intro g
    apply (conjuncts_alike g ts₂ within).bind
    intro f ts₃ _ _ within
    exact .read within
  · rw [conjuncts.eq_2 _ _ _ other, conjuncts.eq_2 _ _ _ other']
    exact .read within
termination_by 5 * ts.length
decreasing_by all_goals (subst_vars; simp; omega)

theorem unary_alike (ts : List Located) (within : ∀ t ∈ ts, t ∈ all) :
    Alike σ stop stop' all (unary stop ts) (unary stop' (ts.map (Located.move σ))) := by
  obtain ⟨offset, ts₁, rfl⟩ | ⟨other, other'⟩ := front_cases σ .bang ts
  · simp only [List.forall_mem_cons] at within
    change Alike σ stop stop' all _ (unary stop' (⟨σ offset, .bang⟩ :: ts₁.map (Located.move σ)))
    rw [unary, unary]
    apply (unary_alike ts₁ within.2).bind
    intro arg ts₂ _ _ within
    exact .make (fun _ => Formula.Any.placeless_single) fun _ => .read within
  · rw [unary.eq_2 _ _ other, unary.eq_2 _ _ other']
    exact primary_alike ts within
termination_by 5 * ts.length + 1
decreasing_by
  · subst_vars; simp
  · omega

theorem primary_alike (ts : List Located) (within : ∀ t ∈ ts, t ∈ all) :
    Alike σ stop stop' all (primary stop ts) (primary stop' (ts.map (Located.move σ))) := by
  cases ts with
  | nil =>
    change Alike σ stop stop' all _ (primary stop' [])
    rw [primary, primary]
    exact .failed (.atEnd rfl)
  | cons t ts₁ =>
    simp only [List.forall_mem_cons] at within
    obtain ⟨offset, token⟩ := t
    change Alike σ stop stop' all _ (primary stop' (⟨σ offset, token⟩ :: ts₁.map (Located.move σ)))
    cases token with
    | top | bot | atom =>
      rw [primary, primary]
      exact .read within.2
    | p =>
      rw [primary, primary]
      apply (bound_alike within.2).bind
      intro bounds ts₂ _ _ within
      apply (expect_alike within).bind
      intro _ ts₃ _ _ within
      apply (formula_alike ts₃ within).bind
      intro path ts₄ _ _ within
      apply (expect_alike within).bind
      intro _ ts₅ _ _ within
      exact .make (fun _ => Formula.Any.placeless_prob) fun _ => .read within
    | lparen =>
      rw [primary, primary]
      apply (formula_alike ts₁ within.2).bind
      intro inner ts₂ _ _ within
      apply (expect_alike within).bind
      intro _ ts₃ _ _ within
      exact .read within
    | number | x | u | bang | amp | bar | rparen | lbracket | rbracket | comma | le | ge | eqEq =>
      rw [primary, primary]
      · exact .failed (.atToken within.1 rfl)
      all_goals simp
termination_by 5 * ts.length
decreasing_by all_goals (subst_vars; simp; omega)

end

/-- Moved tokens are parsed as the same formula, or with the same complaint. -/
theorem whole_alike (stop stop' : Nat) (σ : Nat → Nat) (ts : List Located) :
    (∃ f, whole stop ts = .ok f ∧ whole stop' (ts.map (Located.move σ)) = .ok f) ∨
      ∃ e e', whole stop ts = .error e ∧ whole stop' (ts.map (Located.move σ)) = .error e' ∧
        Complains σ stop stop' ts e e' := by
  have alike : Alike σ stop stop' ts (formula stop ts) (formula stop' (ts.map (Located.move σ))) :=
    formula_alike ts fun _ member => member
  generalize read : formula stop ts = x at alike
  generalize read' : formula stop' (ts.map (Located.move σ)) = x' at alike
  simp only [whole, read, read']
  cases alike with
  | failed same => exact .inr ⟨_, _, rfl, rfl, same⟩
  | @read f rest _ _ within =>
    cases rest with
    | nil => exact .inl ⟨f, rfl, rfl⟩
    | cons t rest => exact .inr ⟨_, _, rfl, rfl, .atToken (within t List.mem_cons_self) rfl⟩

end Parser

end MarkovCheck
