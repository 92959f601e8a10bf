import MarkovCheck.Formula.Printer
import MarkovCheck.Proofs.Decimal.Numerals
import MarkovCheck.Proofs.Formula.Grammar
import MarkovCheck.Proofs.Formula.Lexing

/-!
# Written formulas are read back

A written formula consists of certain tokens, and from these the grammar derives the formula. So the
parser reads it back, whatever its shape: conjunctions and disjunctions are written in parentheses,
and everything else is tight enough to be an operand as it stands.

* `Formula.Writable`: the formulas whose names, intervals and step bounds can be written
* `Formula.tokens`, `Formula.lexes_charsBefore`: the tokens of a written formula
* `Formula.derives_tokens`: they derive the formula
* `Formula.Derives.writable`: only writable formulas are ever derived
-/

namespace MarkovCheck

/-! ## Numbers -/

namespace Decimal

theorem wellSpelled_natChars (n : Nat) : (Token.number (Formula.natChars n)).WellSpelled := by
  have digits : ∀ c ∈ Formula.natChars n, isNumberChar c = true := fun c member =>
    isNumberChar_of_isDigit (Nat.isDigit_of_mem_toDigits (by decide) (by decide) member)
  cases written : Formula.natChars n with
  | nil => exact absurd written Nat.toDigits_ne_nil
  | cons c cs =>
    rw [written] at digits
    exact ⟨c, cs, rfl, .inr (digits c List.mem_cons_self),
      fun d member => digits d (List.mem_cons_of_mem c member)⟩

theorem wellSpelled_plain {x : Float} (finite : magnitudeBits x < infinityBits) :
    (Token.number (plain.chars x)).WellSpelled := by
  obtain ⟨numeral, nonempty, _⟩ := spells_positional (shortest (magnitudeBits x))
  rw [plain_chars_eq finite]
  cases isNegative x with
  | true => exact ⟨'-', _, rfl, .inl rfl, numeral⟩
  | false =>
    cases written : positionalChars false (shortest (magnitudeBits x)) with
    | nil => exact absurd written nonempty
    | cons c cs =>
      rw [written] at numeral
      exact ⟨c, cs, rfl, .inr (numeral c List.mem_cons_self),
        fun d member => numeral d (List.mem_cons_of_mem c member)⟩

end Decimal

namespace Formula

/-- Names are identifiers, intervals are in order and in the unit interval, and step bounds fit in a
64-bit word. -/
def Writable : {k : Kind} → Formula Float k → Prop
  | _, .top => True
  | _, .bot => True
  | _, .atom label => IsIdentifier label.toList
  | _, .and lhs rhs => lhs.Writable ∧ rhs.Writable
  | _, .or lhs rhs => lhs.Writable ∧ rhs.Writable
  | _, .not arg => arg.Writable
  | _, .prob bounds path => bounds.Proper ∧ path.Writable
  | _, .next arg => arg.Writable
  | _, .strongUntil lhs rhs bound =>
    lhs.Writable ∧ rhs.Writable ∧ ∀ k ∈ bound, k < Decimal.stepCountBound

/-! ## The tokens of a written formula -/

def boundTokens (bounds : Interval Float) : List Token :=
  [.lbracket, .number (Decimal.plain.chars bounds.lower), .comma,
    .number (Decimal.plain.chars bounds.upper), .rbracket]

def tokens : {k : Kind} → Formula Float k → List Token
  | _, .top => [.top]
  | _, .bot => [.bot]
  | _, .atom label => [.atom label.toList]
  | _, .and lhs rhs => .lparen :: (lhs.tokens ++ .amp :: rhs.tokens ++ [.rparen])
  | _, .or lhs rhs => .lparen :: (lhs.tokens ++ .bar :: rhs.tokens ++ [.rparen])
  | _, .not arg => .bang :: arg.tokens
  | _, .prob bounds path => .p :: (boundTokens bounds ++ .lparen :: (path.tokens ++ [.rparen]))
  | _, .next arg => .x :: arg.tokens
  | _, .strongUntil lhs rhs none => lhs.tokens ++ .u :: rhs.tokens
  | _, .strongUntil lhs rhs (some k) =>
    lhs.tokens ++ .u :: .le :: .number (natChars k) :: rhs.tokens

theorem lexes_bound {bounds : Interval Float} (proper : bounds.Proper) {cs : List Char}
    {ts : List Token} (lexed : Lexes cs ts) :
    Lexes (bounds.chars ++ cs) (boundTokens bounds ++ ts) := by
  obtain ⟨lower, upper⟩ := proper.finite
  have close := lexes_sign .rbracket rfl lexed
  have second := lexes_token (Decimal.wellSpelled_plain upper) rfl close
  have comma := lexes_sign .comma rfl (lexes_blank second)
  have first := lexes_token (Decimal.wellSpelled_plain lower) rfl comma
  have whole := lexes_sign .lbracket rfl first
  simpa [Interval.chars, boundTokens, Token.spelling] using whole

/-- A written formula consists of its tokens, if what follows does not go on with its last name. -/
theorem lexes_charsBefore {k : Kind} {f : Formula Float k} (writable : f.Writable) {cs : List Char}
    {ts : List Token} (ends : cs.head?.any isNameChar = false) (lexed : Lexes cs ts) :
    Lexes (f.charsBefore cs) (f.tokens ++ ts) := by
  induction f generalizing cs ts with
  | top => exact lexes_token (t := .top) trivial ends lexed
  | bot => exact lexes_token (t := .bot) trivial ends lexed
  | atom label => exact lexes_token (t := .atom label.toList) writable ends lexed
  | and lhs rhs left right =>
    have close := lexes_sign .rparen rfl lexed
    have sign := lexes_sign .amp rfl (lexes_blank (right writable.2 rfl close))
    have whole := lexes_sign .lparen rfl (left writable.1 rfl (lexes_blank sign))
    simp only [tokens, List.cons_append, List.append_assoc, List.nil_append]
    exact whole
  | or lhs rhs left right =>
    have close := lexes_sign .rparen rfl lexed
    have sign := lexes_sign .bar rfl (lexes_blank (right writable.2 rfl close))
    have whole := lexes_sign .lparen rfl (left writable.1 rfl (lexes_blank sign))
    simp only [tokens, List.cons_append, List.append_assoc, List.nil_append]
    exact whole
  | not arg inner => exact lexes_sign .bang rfl (inner writable ends lexed)
  | prob bounds path inner =>
    have close := lexes_sign .rparen rfl lexed
    have body := lexes_sign .lparen rfl (inner writable.2 rfl close)
    have whole := lexes_sign .p rfl (lexes_bound writable.1 body)
    simp only [tokens, List.cons_append, List.append_assoc, List.nil_append]
    exact whole
  | next arg inner => exact lexes_sign .x rfl (lexes_blank (inner writable ends lexed))
  | strongUntil lhs rhs bound left right =>
    obtain ⟨leftWritable, rightWritable, _⟩ := writable
    have rest := lexes_blank (right rightWritable ends lexed)
    cases bound with
    | none =>
      have whole := left leftWritable rfl (lexes_blank (lexes_sign .u rfl rest))
      simp only [tokens, List.cons_append, List.append_assoc]
      exact whole
    | some n =>
      have count := lexes_token (Decimal.wellSpelled_natChars n) rfl rest
      have sign := lexes_sign .u rfl (lexes_sign .le rfl count)
      have whole := left leftWritable rfl (lexes_blank sign)
      simp only [tokens, List.cons_append, List.append_assoc]
      exact whole

/-! ## The formula they derive -/

/-- State formulas are written so that they can be operands, path formulas only so that they can
stand alone. -/
def category : Kind → Category
  | .state => .unary
  | .path => .formula

theorem derives_boundTokens {bounds : Interval Float} (proper : bounds.Proper) :
    DerivesBound (boundTokens bounds) bounds :=
  .between (Decimal.readFloat_plain proper.finite.1) (Decimal.readFloat_plain proper.finite.2)
    proper

theorem Derives.operand {ts : List Token} {f : Any Float} (derived : Derives .unary ts f) :
    Derives .disjunction ts f :=
  .conjunction (.unary derived)

theorem derives_tokens {k : Kind} {f : Formula Float k} (writable : f.Writable) :
    Derives (category k) f.tokens ⟨k, f⟩ := by
  induction f with
  | top => exact .primary .top
  | bot => exact .primary .bot
  | atom label =>
    have derived : Derives .primary [.atom label.toList] _ := .atom
    rw [String.ofList_toList] at derived
    exact .primary derived
  | and lhs rhs left right =>
    have derived := Derives.and (.unary (left writable.1)) (right writable.2)
    exact .primary (.parens (.disjunction (.conjunction derived)))
  | or lhs rhs left right =>
    have derived := Derives.or (left writable.1).operand (.unary (right writable.2))
    exact .primary (.parens (.disjunction derived))
  | not arg inner => exact .not (inner writable)
  | prob bounds path inner =>
    exact .primary (.prob (derives_boundTokens writable.1) (inner writable.2))
  | next arg inner => exact .next (inner writable)
  | strongUntil lhs rhs bound left right =>
    obtain ⟨leftWritable, rightWritable, small⟩ := writable
    have first := (left leftWritable).operand
    have second := (right rightWritable).operand
    cases bound with
    | none => exact .strongUntil first second
    | some n => exact .boundedUntil first (Decimal.readStepCount_toDigits (small n rfl)) second

/-- A written formula stands alone, whatever its kind. -/
theorem derives_formula {k : Kind} {f : Formula Float k} (writable : f.Writable) :
    Derives .formula f.tokens ⟨k, f⟩ := by
  have derived := derives_tokens writable
  cases k with
  | state => exact .disjunction (Derives.operand derived)
  | path => exact derived

/-! ## Derived formulas can be written -/

theorem DerivesBound.proper {ts : List Token} {bounds : Interval Float}
    (derived : DerivesBound ts bounds) : bounds.Proper := by
  cases derived with
  | between _ _ proper | atLeast _ proper | atMost _ proper | exactly _ proper => exact proper

theorem Derives.writable {c : Category} {ts : List Token} {f : Any Float} (derived : Derives c ts f)
    (spelled : ∀ t ∈ ts, t.WellSpelled) : f.formula.Writable := by
  induction derived with
  | top | bot => trivial
  | atom =>
    have identifier : IsIdentifier _ := spelled _ List.mem_cons_self
    simpa only [Writable, String.toList_ofList] using identifier
  | next _ inner | not _ inner =>
    exact inner fun t member => spelled t (List.mem_cons_of_mem _ member)
  | disjunction _ inner | conjunction _ inner | unary _ inner | primary _ inner =>
    exact inner spelled
  | and _ _ left right | or _ _ left right =>
    simp only [List.forall_mem_append, List.forall_mem_cons] at spelled
    exact ⟨left spelled.1, right spelled.2.2⟩
  | strongUntil _ _ left right =>
    simp only [List.forall_mem_append, List.forall_mem_cons] at spelled
    exact ⟨left spelled.1, right spelled.2.2, by simp⟩
  | boundedUntil _ read _ left right =>
    simp only [List.forall_mem_append, List.forall_mem_cons] at spelled
    refine ⟨left spelled.1, right spelled.2.2.2.2, fun n same => ?_⟩
    cases same
    exact Decimal.readStepCount_lt read
  | prob bound _ inner =>
    simp only [List.forall_mem_append, List.forall_mem_cons] at spelled
    exact ⟨bound.proper, inner spelled.2.2.2.1⟩
  | parens _ inner =>
    simp only [List.forall_mem_append, List.forall_mem_cons] at spelled
    exact inner spelled.2.1

/-! ## Reading back -/

theorem tokenize_eq_ok {s : String} {ts : List Located} :
    tokenize s = .ok ts ↔ tokensFrom 0 s.toList = .ok ts := by
  unfold tokenize
  split
  · next found => rw [found]; simp
  · next failed => simp [failed]

theorem parse_eq_ok {s : String} {f : Any Float} :
    parse s = .ok f ↔ ∃ ts, tokensFrom 0 s.toList = .ok ts ∧
      Derives .formula (ts.map Located.token) f := by
  simp only [parse, Outcome.bind_eq_ok, whole_eq_ok, reads_iff_derives, tokenize_eq_ok]

theorem parse_text_of_writable {k : Kind} {f : Formula Float k} (writable : f.Writable) :
    parse f.text = .ok ⟨k, f⟩ := by
  obtain ⟨ts, found, same⟩ := lexes_charsBefore writable rfl lexes_nil 0
  refine parse_eq_ok.mpr ⟨ts, ?_, ?_⟩
  · rw [text, String.toList_ofList, found]
  · rw [same, List.append_nil]
    exact derives_formula writable

theorem writable_of_parse {s : String} {f : Any Float} (parsed : parse s = .ok f) :
    f.formula.Writable := by
  obtain ⟨ts, found, derived⟩ := parse_eq_ok.mp parsed
  refine derived.writable fun t member => ?_
  obtain ⟨u, inTokens, rfl⟩ := List.mem_map.mp member
  exact wellSpelled_of_tokensFrom found u inTokens

/-- A writable formula of either kind is read back from its text, with the same names, bounds and
step bounds; and writing what was read from any text and reading it again changes nothing. -/
theorem parse_text :
    (∀ (k : Kind) (f : Formula Float k), f.Writable → parse f.text = .ok ⟨k, f⟩) ∧
      ∀ (s : String) (f : Any Float), parse s = .ok f → parse f.formula.text = .ok f :=
  ⟨fun _ _ writable => parse_text_of_writable writable,
    fun _ _ parsed => parse_text_of_writable (writable_of_parse parsed)⟩

/-- A formula with a negative zero, nested bounds, the largest step bound and a text that has to be
grouped. -/
theorem parse_text_nested :
    let f : Formula Float .path := .strongUntil (.not (.or (.atom "up") .top))
      (.and (.atom "_x1") (.prob ⟨Float.ofBits 0x8000000000000000, 1⟩ (.next .bot)))
      (some 18446744073709551615)
    f.Writable ∧ parse f.text = .ok ⟨.path, f⟩ ∧
      ∃ g, parse "a | b & c" = .ok g ∧ parse g.formula.text = .ok g := by
  intro f
  have up : IsIdentifier "up".toList :=
    ⟨⟨'u', ['p'], by decide, rfl, List.all_eq_true.mp rfl⟩, by decide, by decide⟩
  have x1 : IsIdentifier "_x1".toList :=
    ⟨⟨'_', ['x', '1'], by decide, rfl, List.all_eq_true.mp rfl⟩, by decide, by decide⟩
  have proper : Interval.Proper ⟨Float.ofBits 0x8000000000000000, 1⟩ := by
    constructor <;> decide +kernel
  have small : ∀ k ∈ some 18446744073709551615, k < Decimal.stepCountBound := by
    intro k same
    cases same
    decide +kernel
  have writable : f.Writable := ⟨⟨up, trivial⟩, ⟨x1, proper, trivial⟩, small⟩
  have found : tokensFrom 0 "a | b & c".toList = .ok [⟨0, .atom ['a']⟩, ⟨2, .bar⟩, ⟨4, .atom ['b']⟩,
      ⟨6, .amp⟩, ⟨8, .atom ['c']⟩] := by
    with_unfolding_all rfl
  have derived : Derives .disjunction [.atom ['a'], .bar, .atom ['b'], .amp, .atom ['c']] _ :=
    .or (Derives.primary .atom).operand (.and (.unary (.primary .atom)) (.primary .atom))
  have parsed := parse_eq_ok.mpr ⟨_, found, .disjunction derived⟩
  exact ⟨writable, parse_text.1 _ _ writable, _, parsed, parse_text.2 _ _ parsed⟩

end Formula

end MarkovCheck
