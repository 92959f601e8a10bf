import MarkovCheck.Proofs.Formula.Readers

/-!
# The grammar of formulas

The grammar as a relation between token lists and formulas, independent of how the parser goes about
it. A repetition such as `conjunction ( '|' conjunction )*` is a left recursion here, which says how
it groups. Operands have the kind that the type of their operator asks for, and numbers have to be
readable where they stand.

* `Formula.Derives`, `Formula.DerivesBound`: the grammar
* `Parser.formula_sound`: what a reader has read is derived from the tokens it has taken
* `Parser.complete`: a reader takes the tokens of a derivation, whatever follows them, unless a loop
  of the parser goes on with what follows
* `Formula.parse_iff_derives`: the parser accepts what the grammar derives
-/

namespace MarkovCheck

namespace Formula

/-- The sorts of phrases, from loosest to tightest. -/
inductive Category where
  | formula
  | disjunction
  | conjunction
  | unary
  | primary
  deriving DecidableEq

/-- The tokens are a probability bound, for the interval. -/
inductive DerivesBound : List Token → Interval Float → Prop where
  | between {lower upper : List Char} {l u : Float} (readLower : Decimal.readFloat lower = some l)
      (readUpper : Decimal.readFloat upper = some u) (proper : Interval.Proper ⟨l, u⟩) :
      DerivesBound [.lbracket, .number lower, .comma, .number upper, .rbracket] ⟨l, u⟩
  | atLeast {digits : List Char} {p : Float} (read : Decimal.readFloat digits = some p)
      (proper : Interval.Proper ⟨p, 1⟩) : DerivesBound [.ge, .number digits] ⟨p, 1⟩
  | atMost {digits : List Char} {p : Float} (read : Decimal.readFloat digits = some p)
      (proper : Interval.Proper ⟨0, p⟩) : DerivesBound [.le, .number digits] ⟨0, p⟩
  | exactly {digits : List Char} {p : Float} (read : Decimal.readFloat digits = some p)
      (proper : Interval.Proper ⟨p, p⟩) : DerivesBound [.eqEq, .number digits] ⟨p, p⟩

/-- The tokens are a phrase of the given sort, for the formula. -/
inductive Derives : Category → List Token → Any Float → Prop where
  | next {ts : List Token} {φ : Formula Float .state} (arg : Derives .unary ts ⟨.state, φ⟩) :
      Derives .formula (.x :: ts) ⟨.path, .next φ⟩
  | strongUntil {ls rs : List Token} {l r : Formula Float .state}
      (lhs : Derives .disjunction ls ⟨.state, l⟩) (rhs : Derives .disjunction rs ⟨.state, r⟩) :
      Derives .formula (ls ++ .u :: rs) ⟨.path, .strongUntil l r none⟩
  | boundedUntil {ls rs : List Token} {digits : List Char} {k : Nat} {l r : Formula Float .state}
      (lhs : Derives .disjunction ls ⟨.state, l⟩) (read : Decimal.readStepCount digits = some k)
      (rhs : Derives .disjunction rs ⟨.state, r⟩) :
      Derives .formula (ls ++ .u :: .le :: .number digits :: rs)
        ⟨.path, .strongUntil l r (some k)⟩
  | disjunction {ts : List Token} {f : Any Float} (alone : Derives .disjunction ts f) :
      Derives .formula ts f
  | or {ls rs : List Token} {l r : Formula Float .state}
      (lhs : Derives .disjunction ls ⟨.state, l⟩) (rhs : Derives .conjunction rs ⟨.state, r⟩) :
      Derives .disjunction (ls ++ .bar :: rs) ⟨.state, .or l r⟩
  | conjunction {ts : List Token} {f : Any Float} (alone : Derives .conjunction ts f) :
      Derives .disjunction ts f
  | and {ls rs : List Token} {l r : Formula Float .state}
      (lhs : Derives .conjunction ls ⟨.state, l⟩) (rhs : Derives .unary rs ⟨.state, r⟩) :
      Derives .conjunction (ls ++ .amp :: rs) ⟨.state, .and l r⟩
  | unary {ts : List Token} {f : Any Float} (alone : Derives .unary ts f) :
      Derives .conjunction ts f
  | not {ts : List Token} {φ : Formula Float .state} (arg : Derives .unary ts ⟨.state, φ⟩) :
      Derives .unary (.bang :: ts) ⟨.state, .not φ⟩
  | primary {ts : List Token} {f : Any Float} (alone : Derives .primary ts f) : Derives .unary ts f
  | top : Derives .primary [.top] ⟨.state, .top⟩
  | bot : Derives .primary [.bot] ⟨.state, .bot⟩
  | atom {name : List Char} : Derives .primary [.atom name] ⟨.state, .atom (String.ofList name)⟩
  | prob {bs ts : List Token} {bounds : Interval Float} {ψ : Formula Float .path}
      (bound : DerivesBound bs bounds) (path : Derives .formula ts ⟨.path, ψ⟩) :
      Derives .primary (.p :: (bs ++ .lparen :: (ts ++ [.rparen]))) ⟨.state, .prob bounds ψ⟩
  | parens {ts : List Token} {f : Any Float} (inner : Derives .formula ts f) :
      Derives .primary (.lparen :: (ts ++ [.rparen])) f

/-! ## How phrases start -/

/-- A phrase of the category can start with the token. -/
def Category.starts (c : Category) : Token → Bool
  | .top | .bot | .atom _ | .p | .lparen => true
  | .bang => c ≠ .primary
  | .x => c = .formula
  | _ => false

theorem Category.starts_formula {c : Category} {t : Token} (starts : c.starts t = true) :
    Category.formula.starts t = true := by
  cases t <;> first | rfl | exact starts

theorem Category.starts_of_primary {c : Category} {t : Token}
    (starts : Category.primary.starts t = true) : c.starts t = true := by
  cases t <;> first | rfl | cases starts

theorem Derives.exists_starts {c : Category} {ts : List Token} {f : Any Float}
    (derived : Derives c ts f) : ∃ t us, ts = t :: us ∧ c.starts t = true := by
  induction derived with
  | next | not | top | bot | atom | prob | parens => exact ⟨_, _, rfl, rfl⟩
  | strongUntil _ _ left | boundedUntil _ _ _ left =>
    obtain ⟨t, us, rfl, starts⟩ := left
    exact ⟨t, _, rfl, Category.starts_formula starts⟩
  | or _ _ left | and _ _ left =>
    obtain ⟨t, us, rfl, starts⟩ := left
    exact ⟨t, _, rfl, starts⟩
  | disjunction _ inner =>
    obtain ⟨t, us, rfl, starts⟩ := inner
    exact ⟨t, us, rfl, Category.starts_formula starts⟩
  | conjunction _ inner => exact inner
  | unary _ inner => exact inner
  | primary _ inner =>
    obtain ⟨t, us, rfl, starts⟩ := inner
    exact ⟨t, us, rfl, Category.starts_of_primary starts⟩

theorem Derives.front_ne {c : Category} {us rest : List Located} {f : Any Float} {t : Token}
    (derived : Derives c (us.map Located.token) f) (never : c.starts t = false) :
    Parser.front (us ++ rest) ≠ some t := by
  obtain ⟨t', ts, same, starts⟩ := derived.exists_starts
  cases us with
  | nil => cases same
  | cons head tail =>
    cases same
    rintro same
    cases same
    rw [never] at starts
    cases starts

end Formula

namespace Parser

open Formula

/-! ## Bounds -/

theorem map_token_eq_cons {us : List Located} {t : Token} {ts : List Token} :
    us.map Located.token = t :: ts ↔
      ∃ offset us', us = ⟨offset, t⟩ :: us' ∧ us'.map Located.token = ts := by
  rw [List.map_eq_cons_iff]
  constructor
  · rintro ⟨⟨offset, t⟩, us', rfl, rfl, rfl⟩
    exact ⟨offset, us', rfl, rfl⟩
  · rintro ⟨offset, us', rfl, rfl⟩
    exact ⟨⟨offset, t⟩, us', rfl, rfl, rfl⟩

theorem bound_sound {stop : Nat} {ts rest : List Located} {i : Interval Float}
    (read : Reads (bound stop ts) i rest) :
    ∃ us, ts = us ++ rest ∧ DerivesBound (us.map Located.token) i := by
  simp only [reads_bound, reads_probability, Interval.atLeast, Interval.atMost, Interval.exactly,
    Interval.make_eq_ok_iff] at read
  obtain ⟨offset, _, lower, _, upper, rfl, ⟨comma, o₁, ds₁, rfl, readLower⟩,
      ⟨close, o₂, ds₂, rfl, readUpper⟩, rfl, proper⟩ |
    ⟨offset, _, p, rfl, ⟨o₁, ds₁, rfl, read⟩, rfl, proper⟩ |
    ⟨offset, _, p, rfl, ⟨o₁, ds₁, rfl, read⟩, rfl, proper⟩ |
    ⟨offset, _, p, rfl, ⟨o₁, ds₁, rfl, read⟩, rfl, proper⟩ := read
  · exact ⟨[_, _, _, _, _], rfl, .between readLower readUpper proper⟩
  · exact ⟨[_, _], rfl, .atLeast read proper⟩
  · exact ⟨[_, _], rfl, .atMost read proper⟩
  · exact ⟨[_, _], rfl, .exactly read proper⟩

theorem bound_complete {stop : Nat} {us rest : List Located} {tokens : List Token}
    {i : Interval Float} (derived : DerivesBound tokens i)
    (same : us.map Located.token = tokens) : Reads (bound stop (us ++ rest)) i rest := by
  cases derived with
  | between readLower readUpper proper =>
    simp only [map_token_eq_cons, List.map_eq_nil_iff] at same
    obtain ⟨o₁, _, rfl, o₂, _, rfl, o₃, _, rfl, o₄, _, rfl, o₅, _, rfl, rfl⟩ := same
    exact reads_bound.mpr (.inl ⟨o₁, _, _, _, _, rfl,
      ⟨o₃, reads_probability.mpr ⟨o₂, _, rfl, readLower⟩⟩,
      ⟨o₅, reads_probability.mpr ⟨o₄, _, rfl, readUpper⟩⟩,
      Interval.make_eq_ok_iff.mpr ⟨rfl, proper⟩⟩)
  | atLeast read proper =>
    simp only [map_token_eq_cons, List.map_eq_nil_iff] at same
    obtain ⟨o₁, _, rfl, o₂, _, rfl, rfl⟩ := same
    exact reads_bound.mpr (.inr (.inl ⟨o₁, _, _, rfl, reads_probability.mpr ⟨o₂, _, rfl, read⟩,
      Interval.make_eq_ok_iff.mpr ⟨rfl, proper⟩⟩))
  | atMost read proper =>
    simp only [map_token_eq_cons, List.map_eq_nil_iff] at same
    obtain ⟨o₁, _, rfl, o₂, _, rfl, rfl⟩ := same
    exact reads_bound.mpr (.inr (.inr (.inl ⟨o₁, _, _, rfl,
      reads_probability.mpr ⟨o₂, _, rfl, read⟩, Interval.make_eq_ok_iff.mpr ⟨rfl, proper⟩⟩)))
  | exactly read proper =>
    simp only [map_token_eq_cons, List.map_eq_nil_iff] at same
    obtain ⟨o₁, _, rfl, o₂, _, rfl, rfl⟩ := same
    exact reads_bound.mpr (.inr (.inr (.inr ⟨o₁, _, _, rfl,
      reads_probability.mpr ⟨o₂, _, rfl, read⟩, Interval.make_eq_ok_iff.mpr ⟨rfl, proper⟩⟩)))

/-! ## What is read is derived -/

mutual

theorem formula_sound {stop : Nat} {ts rest : List Located} {f : Any Float}
    (read : Reads (formula stop ts) f rest) :
    ∃ us, ts = us ++ rest ∧ Derives .formula (us.map Located.token) f := by
  obtain ⟨offset, ts₁, arg, rfl, argRead, made⟩ | ⟨_, lhs, ts₁, lhsRead, untilRead⟩ :=
    reads_formula.mp read
  · obtain ⟨us, rfl, derived⟩ := unary_sound argRead
    obtain ⟨φ, rfl, rfl⟩ := Any.next_eq_ok.mp made
    exact ⟨_ :: us, rfl, .next derived⟩
  · obtain ⟨us, rfl, derived⟩ := disjunction_sound lhsRead
    obtain ⟨vs, rfl, derived⟩ := untilPart_sound derived untilRead
    exact ⟨us ++ vs, by simp, by simpa using derived⟩
termination_by 5 * ts.length + 4
decreasing_by all_goals (subst_vars; simp <;> omega)

theorem untilPart_sound {stop : Nat} {ts rest : List Located} {f lhs : Any Float}
    {ls : List Token} (left : Derives .disjunction ls lhs)
    (read : Reads (untilPart stop lhs ts) f rest) :
    ∃ us, ts = us ++ rest ∧ Derives .formula (ls ++ us.map Located.token) f := by
  obtain ⟨offset, offset', ts₁, k, ts₂, rhs, rfl, countRead, rhsRead, made⟩ |
    ⟨offset, ts₁, rhs, rfl, _, rhsRead, made⟩ | ⟨_, rfl, rfl⟩ := reads_untilPart.mp read
  · obtain ⟨offset'', digits, rfl, count⟩ := reads_stepBound.mp countRead
    obtain ⟨us, rfl, right⟩ := disjunction_sound rhsRead
    obtain ⟨l, r, rfl, rfl, rfl⟩ := Any.strongUntil_eq_ok.mp made
    exact ⟨_ :: _ :: _ :: us, rfl, .boundedUntil left count right⟩
  · obtain ⟨us, rfl, right⟩ := disjunction_sound rhsRead
    obtain ⟨l, r, rfl, rfl, rfl⟩ := Any.strongUntil_eq_ok.mp made
    exact ⟨_ :: us, rfl, .strongUntil left right⟩
  · exact ⟨[], rfl, by simpa using .disjunction left⟩
termination_by 5 * ts.length
decreasing_by all_goals (subst_vars; simp; omega)

theorem disjunction_sound {stop : Nat} {ts rest : List Located} {f : Any Float}
    (read : Reads (disjunction stop ts) f rest) :
    ∃ us, ts = us ++ rest ∧ Derives .disjunction (us.map Located.token) f := by
  obtain ⟨lhs, ts₁, lhsRead, furtherRead⟩ := reads_disjunction.mp read
  obtain ⟨us, rfl, derived⟩ := conjunction_sound lhsRead
  obtain ⟨vs, rfl, derived⟩ := disjuncts_sound (.conjunction derived) furtherRead
  exact ⟨us ++ vs, by simp, by simpa using derived⟩
termination_by 5 * ts.length + 3
decreasing_by all_goals (subst_vars; simp <;> omega)

theorem disjuncts_sound {stop : Nat} {ts rest : List Located} {f lhs : Any Float}
    {ls : List Token} (left : Derives .disjunction ls lhs)
    (read : Reads (disjuncts stop lhs ts) f rest) :
    ∃ us, ts = us ++ rest ∧ Derives .disjunction (ls ++ us.map Located.token) f := by
  obtain ⟨offset, ts₁, rhs, ts₂, g, rfl, rhsRead, made, furtherRead⟩ | ⟨_, rfl, rfl⟩ :=
    reads_disjuncts.mp read
  · obtain ⟨us, rfl, right⟩ := conjunction_sound rhsRead
    obtain ⟨l, r, rfl, rfl, rfl⟩ := Any.or_eq_ok.mp made
    obtain ⟨vs, rfl, derived⟩ := disjuncts_sound (.or left right) furtherRead
    exact ⟨⟨offset, .bar⟩ :: us ++ vs, by simp, by simpa using derived⟩
  · exact ⟨[], rfl, by simpa using left⟩
termination_by 5 * ts.length
decreasing_by all_goals (subst_vars; simp <;> omega)

theorem conjunction_sound {stop : Nat} {ts rest : List Located} {f : Any Float}
    (read : Reads (conjunction stop ts) f rest) :
    ∃ us, ts = us ++ rest ∧ Derives .conjunction (us.map Located.token) f := by
  obtain ⟨lhs, ts₁, lhsRead, furtherRead⟩ := reads_conjunction.mp read
  obtain ⟨us, rfl, derived⟩ := unary_sound lhsRead
  obtain ⟨vs, rfl, derived⟩ := conjuncts_sound (.unary derived) furtherRead
  exact ⟨us ++ vs, by simp, by simpa using derived⟩
termination_by 5 * ts.length + 2
decreasing_by all_goals (subst_vars; simp <;> omega)

theorem conjuncts_sound {stop : Nat} {ts rest : List Located} {f lhs : Any Float}
    {ls : List Token} (left : Derives .conjunction ls lhs)
    (read : Reads (conjuncts stop lhs ts) f rest) :
    ∃ us, ts = us ++ rest ∧ Derives .conjunction (ls ++ us.map Located.token) f := by
  obtain ⟨offset, ts₁, rhs, ts₂, g, rfl, rhsRead, made, furtherRead⟩ | ⟨_, rfl, rfl⟩ :=
    reads_conjuncts.mp read
  · obtain ⟨us, rfl, right⟩ := unary_sound rhsRead
    obtain ⟨l, r, rfl, rfl, rfl⟩ := Any.and_eq_ok.mp made
    obtain ⟨vs, rfl, derived⟩ := conjuncts_sound (.and left right) furtherRead
    exact ⟨⟨offset, .amp⟩ :: us ++ vs, by simp, by simpa using derived⟩
  · exact ⟨[], rfl, by simpa using left⟩
termination_by 5 * ts.length
decreasing_by all_goals (subst_vars; simp <;> omega)

theorem unary_sound {stop : Nat} {ts rest : List Located} {f : Any Float}
    (read : Reads (unary stop ts) f rest) :
    ∃ us, ts = us ++ rest ∧ Derives .unary (us.map Located.token) f := by
  obtain ⟨offset, ts₁, arg, rfl, argRead, made⟩ | ⟨_, primaryRead⟩ := reads_unary.mp read
  · obtain ⟨us, rfl, derived⟩ := unary_sound argRead
    obtain ⟨φ, rfl, rfl⟩ := Any.not_eq_ok.mp made
    exact ⟨_ :: us, rfl, .not derived⟩
  · obtain ⟨us, rfl, derived⟩ := primary_sound primaryRead
    exact ⟨us, rfl, .primary derived⟩
termination_by 5 * ts.length + 1
decreasing_by all_goals (subst_vars; simp)

theorem primary_sound {stop : Nat} {ts rest : List Located} {f : Any Float}
    (read : Reads (primary stop ts) f rest) :
    ∃ us, ts = us ++ rest ∧ Derives .primary (us.map Located.token) f := by
  obtain ⟨offset, rfl, rfl⟩ | ⟨offset, rfl, rfl⟩ | ⟨offset, name, rfl, rfl⟩ |
    ⟨offset, ts₁, bounds, ts₂, path, rfl, ⟨lparen, boundRead⟩, ⟨close, pathRead⟩, made⟩ |
    ⟨offset, ts₁, close, rfl, innerRead⟩ := reads_primary.mp read
  · exact ⟨[_], rfl, .top⟩
  · exact ⟨[_], rfl, .bot⟩
  · exact ⟨[_], rfl, .atom⟩
  · obtain ⟨bs, rfl, bound⟩ := bound_sound boundRead
    obtain ⟨us, rfl, derived⟩ := formula_sound pathRead
    obtain ⟨ψ, rfl, rfl⟩ := Any.prob_eq_ok.mp made
    exact ⟨⟨offset, .p⟩ :: bs ++ ⟨lparen, .lparen⟩ :: us ++ [⟨close, .rparen⟩], by simp,
      by simpa using .prob bound derived⟩
  · obtain ⟨us, rfl, derived⟩ := formula_sound innerRead
    exact ⟨⟨offset, .lparen⟩ :: us ++ [⟨close, .rparen⟩], by simp, by simpa using .parens derived⟩
termination_by 5 * ts.length
decreasing_by all_goals (subst_vars; simp; omega)

end

/-! ## What is derived is read -/

section Complete

variable {stop : Nat} {rest us : List Located} {f : Any Float}

/-- Whatever follows the tokens of the phrase, the reader of its sort takes them and stops, or goes
on like the loop that it enters after them. -/
def Complete (stop : Nat) (us : List Located) (f : Any Float) : Category → Prop
  | .formula => ∀ rest, front rest ≠ some .amp → front rest ≠ some .bar → front rest ≠ some .u →
      Reads (formula stop (us ++ rest)) f rest
  | .disjunction => ∀ rest g rest', front rest ≠ some .amp → Reads (disjuncts stop f rest) g rest' →
      Reads (disjunction stop (us ++ rest)) g rest'
  | .conjunction => ∀ rest g rest', Reads (conjuncts stop f rest) g rest' →
      Reads (conjunction stop (us ++ rest)) g rest'
  | .unary => ∀ rest, Reads (unary stop (us ++ rest)) f rest
  | .primary => ∀ rest, Reads (primary stop (us ++ rest)) f rest

theorem Complete.disjunction_alone (complete : Complete stop us f .disjunction)
    (noAmp : front rest ≠ some .amp) (noBar : front rest ≠ some .bar) :
    Reads (disjunction stop (us ++ rest)) f rest :=
  complete rest f rest noAmp (reads_disjuncts.mpr (.inr ⟨noBar, rfl, rfl⟩))

theorem Complete.conjunction_alone (complete : Complete stop us f .conjunction)
    (noAmp : front rest ≠ some .amp) : Reads (conjunction stop (us ++ rest)) f rest :=
  complete rest f rest (reads_conjuncts.mpr (.inr ⟨noAmp, rfl, rfl⟩))

/-- A derived phrase is read as the formula it is derived for. -/
theorem complete {c : Category} {tokens : List Token} (derived : Derives c tokens f)
    (same : us.map Located.token = tokens) : Complete stop us f c := by
  induction derived generalizing us with
  | next _ arg =>
    obtain ⟨offset, us, rfl, rfl⟩ := map_token_eq_cons.mp same
    intro rest _ _ _
    exact reads_formula.mpr (.inl ⟨offset, _, _, rfl, arg rfl rest, rfl⟩)
  | strongUntil lhs rhs left right =>
    simp only [List.map_eq_append_iff, map_token_eq_cons] at same
    obtain ⟨us₁, _, rfl, rfl, offset, us₂, rfl, rfl⟩ := same
    intro rest noAmp noBar _
    rw [List.append_assoc]
    refine reads_formula.mpr (.inr ⟨lhs.front_ne rfl, _, _,
      (left rfl).disjunction_alone (by simp) (by simp), ?_⟩)
    exact reads_untilPart.mpr (.inr (.inl ⟨offset, us₂ ++ rest, _, rfl, rhs.front_ne rfl,
      (right rfl).disjunction_alone noAmp noBar, rfl⟩))
  | boundedUntil lhs read rhs left right =>
    simp only [List.map_eq_append_iff, map_token_eq_cons] at same
    obtain ⟨us₁, _, rfl, rfl, offset, _, rfl, offset', _, rfl, offset'', us₂, rfl, rfl⟩ := same
    intro rest noAmp noBar _
    rw [List.append_assoc]
    refine reads_formula.mpr (.inr ⟨lhs.front_ne rfl, _, _,
      (left rfl).disjunction_alone (by simp) (by simp), ?_⟩)
    exact reads_untilPart.mpr (.inl ⟨offset, offset', _, _, us₂ ++ rest, _, rfl,
      reads_stepBound.mpr ⟨offset'', _, rfl, read⟩,
      (right rfl).disjunction_alone noAmp noBar, rfl⟩)
  | disjunction alone inner =>
    subst same
    intro rest noAmp noBar noUntil
    exact reads_formula.mpr (.inr ⟨alone.front_ne rfl, _, _,
      (inner rfl).disjunction_alone noAmp noBar,
      reads_untilPart.mpr (.inr (.inr ⟨noUntil, rfl, rfl⟩))⟩)
  | or _ _ left right =>
    simp only [List.map_eq_append_iff, map_token_eq_cons] at same
    obtain ⟨us₁, _, rfl, rfl, offset, us₂, rfl, rfl⟩ := same
    intro rest g rest' noAmp further
    rw [List.append_assoc]
    exact left rfl _ g rest' (by simp) (reads_disjuncts.mpr (.inl ⟨offset, us₂ ++ rest, _, rest, _,
      rfl, (right rfl).conjunction_alone noAmp, rfl, further⟩))
  | conjunction _ inner =>
    intro rest g rest' noAmp further
    exact reads_disjunction.mpr ⟨_, _, (inner same).conjunction_alone noAmp, further⟩
  | and _ _ left right =>
    simp only [List.map_eq_append_iff, map_token_eq_cons] at same
    obtain ⟨us₁, _, rfl, rfl, offset, us₂, rfl, rfl⟩ := same
    intro rest g rest' further
    rw [List.append_assoc]
    exact left rfl _ g rest' (reads_conjuncts.mpr (.inl ⟨offset, us₂ ++ rest, _, rest, _,
      rfl, right rfl rest, rfl, further⟩))
  | unary _ inner =>
    intro rest g rest' further
    exact reads_conjunction.mpr ⟨_, _, inner same rest, further⟩
  | not _ arg =>
    obtain ⟨offset, us, rfl, rfl⟩ := map_token_eq_cons.mp same
    intro rest
    exact reads_unary.mpr (.inl ⟨offset, _, _, rfl, arg rfl rest, rfl⟩)
  | primary alone inner =>
    subst same
    intro rest
    exact reads_unary.mpr (.inr ⟨alone.front_ne rfl, inner rfl rest⟩)
  | top =>
    simp only [map_token_eq_cons, List.map_eq_nil_iff] at same
    obtain ⟨offset, _, rfl, rfl⟩ := same
    intro rest
    exact reads_primary.mpr (.inl ⟨offset, rfl, rfl⟩)
  | bot =>
    simp only [map_token_eq_cons, List.map_eq_nil_iff] at same
    obtain ⟨offset, _, rfl, rfl⟩ := same
    intro rest
    exact reads_primary.mpr (.inr (.inl ⟨offset, rfl, rfl⟩))
  | atom =>
    simp only [map_token_eq_cons, List.map_eq_nil_iff] at same
    obtain ⟨offset, _, rfl, rfl⟩ := same
    intro rest
    exact reads_primary.mpr (.inr (.inr (.inl ⟨offset, _, rfl, rfl⟩)))
  | prob bound _ path =>
    simp only [List.map_eq_append_iff, map_token_eq_cons, List.map_eq_nil_iff] at same
    obtain ⟨offset, _, rfl, us₁, _, rfl, rfl, lparen, _, rfl, us₂, _, rfl, rfl, close, _, rfl,
      rfl⟩ := same
    intro rest
    have pathRead := path rfl (⟨close, .rparen⟩ :: rest) (by simp) (by simp) (by simp)
    exact reads_primary.mpr (.inr (.inr (.inr (.inl ⟨offset, us₁ ++ ⟨lparen, .lparen⟩ :: _, _, _, _,
      by simp, ⟨lparen, bound_complete bound rfl⟩, ⟨close, pathRead⟩, rfl⟩))))
  | parens _ inner =>
    simp only [List.map_eq_append_iff, map_token_eq_cons, List.map_eq_nil_iff] at same
    obtain ⟨offset, _, rfl, us, _, rfl, rfl, close, _, rfl, rfl⟩ := same
    intro rest
    have innerRead := inner rfl (⟨close, .rparen⟩ :: rest) (by simp) (by simp) (by simp)
    exact reads_primary.mpr (.inr (.inr (.inr (.inr ⟨offset, _, close, by simp, innerRead⟩))))

end Complete

end Parser

namespace Formula

/-! ## The parser and the grammar -/

theorem reads_iff_derives {stop : Nat} {ts : List Located} {f : Any Float} :
    Parser.Reads (Parser.formula stop ts) f [] ↔ Derives .formula (ts.map Located.token) f := by
  constructor
  · intro read
    obtain ⟨us, rfl, derived⟩ := Parser.formula_sound read
    rw [List.append_nil]
    exact derived
  · intro derived
    have complete : Parser.Complete stop ts f .formula := Parser.complete derived rfl
    have read := complete [] (by simp) (by simp) (by simp)
    rwa [List.append_nil] at read

theorem whole_eq_ok {stop : Nat} {ts : List Located} {f : Any Float} :
    Parser.whole stop ts = .ok f ↔ Parser.Reads (Parser.formula stop ts) f [] := by
  rw [Parser.whole, Outcome.bind_eq_ok]
  constructor
  · rintro ⟨⟨g, rest, fewer⟩, read, finished⟩
    cases rest with
    | nil =>
      cases finished
      exact ⟨fewer, read⟩
    | cons => cases finished
  · rintro ⟨fewer, read⟩
    exact ⟨_, read, rfl⟩

/-- A text is parsed as a formula exactly if its tokens are derived as that formula, and no tokens
are derived as two different ones. -/
theorem parse_iff_derives :
    (∀ (s : String) (f : Any Float), parse s = .ok f ↔
      ∃ ts, tokenize s = .ok ts ∧ Derives .formula (ts.map Located.token) f) ∧
    ∀ (ts : List Token) (f g : Any Float),
      Derives .formula ts f → Derives .formula ts g → f = g := by
  constructor
  · intro s f
    simp only [parse, Outcome.bind_eq_ok, whole_eq_ok, reads_iff_derives]
  · intro ts f g derived derived'
    -- Any offsets will do, since both formulas are read from the same located tokens.
    have located : (ts.map (Located.mk 0)).map Located.token = ts := by simp [Function.comp_def]
    rw [← located, ← @reads_iff_derives 0] at derived derived'
    exact derived.unique derived'

/-- Negation, conjunction, disjunction and until bind in this order, inside a bound. -/
theorem parse_iff_derives_precedence :
    ∃ half ts, Decimal.readFloat ['0', '.', '5'] = some half ∧
      tokenize "P>=0.5(!a & b | c U<=3 true)" = .ok ts ∧
      parse "P>=0.5(!a & b | c U<=3 true)" = .ok ⟨.state, .prob ⟨half, 1⟩ (.strongUntil
        (.or (.and (.not (.atom "a")) (.atom "b")) (.atom "c")) .top (some 3))⟩ ∧
      ∀ g, Derives .formula (ts.map Located.token) g → g = ⟨.state, .prob ⟨half, 1⟩ (.strongUntil
        (.or (.and (.not (.atom "a")) (.atom "b")) (.atom "c")) .top (some 3))⟩ := by
  have read : Decimal.readFloat ['0', '.', '5'] = some (Float.ofBits 0x3FE0000000000000) := by
    decide +kernel
  have proper : Interval.Proper ⟨Float.ofBits 0x3FE0000000000000, 1⟩ := by
    constructor <;> decide +kernel
  have count : Decimal.readStepCount ['3'] = some 3 := by decide +kernel
  have tokenized : tokenize "P>=0.5(!a & b | c U<=3 true)" = .ok [⟨0, .p⟩, ⟨1, .ge⟩,
      ⟨3, .number ['0', '.', '5']⟩, ⟨6, .lparen⟩, ⟨7, .bang⟩, ⟨8, .atom ['a']⟩, ⟨10, .amp⟩,
      ⟨12, .atom ['b']⟩, ⟨14, .bar⟩, ⟨16, .atom ['c']⟩, ⟨18, .u⟩, ⟨19, .le⟩, ⟨21, .number ['3']⟩,
      ⟨23, .top⟩, ⟨27, .rparen⟩] := by
    with_unfolding_all rfl
  have lhs : Derives .disjunction [.bang, .atom ['a'], .amp, .atom ['b'], .bar, .atom ['c']] _ :=
    .or (.conjunction (.and (.unary (.not (.primary .atom))) (.primary .atom)))
      (.unary (.primary .atom))
  have path := Derives.boundedUntil lhs count (.conjunction (.unary (.primary .top)))
  have derived := Derives.disjunction
    (.conjunction (.unary (.primary (.prob (.atLeast read proper) path))))
  exact ⟨_, _, read, tokenized, (parse_iff_derives.1 _ _).mpr ⟨_, tokenized, derived⟩,
    fun g other => parse_iff_derives.2 _ _ _ other derived⟩

end Formula

end MarkovCheck
