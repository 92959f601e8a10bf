import MarkovCheck.Proofs.Formula.RoundTrip

/-!
# How a text splits into tokens

Splitting a text is described without the order in which it is read: a text consists of tokens and
blanks, and no token goes on with the character after it. What stops the splitting is described by
the part of the text that was split before, and by the character that comes next.

* `Splits`: a text consists of the given tokens
* `tokensFrom_eq_ok`: these tokens are found
* `Offends`: a character that no token can start with, or a sign that is not completed
* `tokensFrom_eq_error`: the first such character is complained about
* `Splits.exists_append`, `Splits.pairwise_lt`: the tokens stand in the text at their offsets, one
  after the other
* `Splits.ascii`: what splits is ASCII
-/

namespace MarkovCheck

/-- The offset of the first character after a token. -/
def Located.stop (t : Located) : Nat := t.offset + t.token.spelling.length

/-- The text, whose first character has the given offset, consists of the tokens at their offsets
and of blanks. No token goes on with the character after it. -/
inductive Splits : Nat → List Char → List Located → Prop where
  | nil (offset : Nat) : Splits offset [] []
  | blank {offset : Nat} {c : Char} {cs : List Char} {ts : List Located} (blank : isBlank c = true)
      (rest : Splits (offset + 1) cs ts) : Splits offset (c :: cs) ts
  | token {offset : Nat} {t : Token} {cs : List Char} {ts : List Located}
      (spelled : t.WellSpelled) (ends : cs.head?.any t.continues = false)
      (rest : Splits (offset + t.spelling.length) cs ts) :
      Splits offset (t.spelling ++ cs) (⟨offset, t⟩ :: ts)

/-- Nothing can be read where the character stands: it starts no token, or it is a sign that lacks
its equality sign. -/
inductive Offends (c : Char) (after : List Char) : SyntaxProblem → Prop where
  | stray (visible : isBlank c = false)
      (starts : ∀ t : Token, t.WellSpelled → t.spelling.head? ≠ some c) :
      Offends c after (.strayChar c)
  | lacksEquals (sign : c = '<' ∨ c = '>' ∨ c = '=') (missing : after.head? ≠ some '=') :
      Offends c after (.lacksEquals c)

namespace Token

/-! ## One token -/

theorem ofSign?_eq_some {c : Char} {t : Token} (sign : ofSign? c = some t) :
    t.spelling = [c] ∧ t.continues = fun _ => false := by
  unfold ofSign? at sign
  split at sign <;> cases sign <;> exact ⟨rfl, rfl⟩

theorem ofComparison?_eq_some {c : Char} {t : Token} (comparison : ofComparison? c = some t) :
    t.spelling = [c, '='] ∧ t.continues = (fun _ => false) ∧ (c = '<' ∨ c = '>' ∨ c = '=') := by
  unfold ofComparison? at comparison
  split at comparison <;> cases comparison <;> simp [spelling, continues]

theorem spelling_ofName (name : List Char) : (ofName name).spelling = name := by
  unfold ofName
  split
  · next same => exact same.symm
  · split
    · next same => exact same.symm
    · rfl

theorem continues_ofName (name : List Char) : (ofName name).continues = isNameChar := by
  unfold ofName
  split
  · rfl
  · split <;> rfl

theorem head?_dropWhile (p : Char → Bool) (cs : List Char) :
    (cs.dropWhile p).head?.any p = false := by
  cases dropped : cs.dropWhile p with
  | nil => rfl
  | cons c rest =>
    have stopped := List.head_dropWhile_not p (l := cs) (by simp [dropped])
    simpa [dropped] using stopped

/-- What is read is the spelling of the token, and it ends where the token does not go on. -/
theorem scan_eq_ok {c : Char} {cs rest : List Char} {t : Token}
    (scanned : scan c cs = .ok (t, rest)) :
    c :: cs = t.spelling ++ rest ∧ rest.head?.any t.continues = false := by
  unfold scan at scanned
  split at scanned
  · next sign =>
    cases scanned
    obtain ⟨spelled, never⟩ := ofSign?_eq_some sign
    simp [spelled, never]
  · split at scanned
    · next comparison =>
      split at scanned
      · cases scanned
        obtain ⟨spelled, never, _⟩ := ofComparison?_eq_some comparison
        simp [spelled, never]
      · cases scanned
    · split at scanned
      · cases scanned
        exact ⟨by simp [spelling], head?_dropWhile isNumberChar cs⟩
      · split at scanned
        · cases scanned
          refine ⟨by simp [spelling_ofName], ?_⟩
          rw [continues_ofName]
          exact head?_dropWhile isNameChar cs
        · cases scanned

/-- The characters that a token can start with. -/
theorem starts_iff {c : Char} : (∃ t : Token, t.WellSpelled ∧ t.spelling.head? = some c) ↔
    (ofSign? c).isSome = true ∨ (ofComparison? c).isSome = true ∨
      (c = '-' ∨ isNumberChar c = true) ∨ isNameStart c = true := by
  constructor
  · rintro ⟨t, spelled, first⟩
    cases t with
    | atom name =>
      obtain ⟨d, ds, rfl, start, _⟩ := spelled.start
      cases first
      simp [start]
    | number digits =>
      obtain ⟨d, ds, rfl, start, _⟩ := spelled
      cases first
      simp [start]
    | top | bot | x | u | p | bang | amp | bar | lparen | rparen | lbracket | rbracket | comma | le
    | ge | eqEq =>
      cases first
      decide
  · rintro (sign | comparison | number | name)
    · obtain ⟨t, found⟩ := Option.isSome_iff_exists.mp sign
      exact ⟨t, wellSpelled_of_ofSign? found, by simp [(ofSign?_eq_some found).1]⟩
    · obtain ⟨t, found⟩ := Option.isSome_iff_exists.mp comparison
      exact ⟨t, wellSpelled_of_ofComparison? found, by simp [(ofComparison?_eq_some found).1]⟩
    · exact ⟨.number [c], ⟨c, [], rfl, number, by simp⟩, rfl⟩
    · exact ⟨ofName [c], wellSpelled_ofName name (by simp), by simp [spelling_ofName]⟩

theorem exists_spelling_eq_cons {t : Token} (spelled : t.WellSpelled) :
    ∃ c cs, t.spelling = c :: cs ∧ isBlank c = false := by
  have stops : ([] : List Char).head?.any t.continues = false := rfl
  obtain ⟨c, cs, same, visible, _⟩ := scan_spelling spelled stops
  exact ⟨c, cs, by simpa using same, visible⟩

theorem isNameChar_of_isNameStart {c : Char} (start : isNameStart c = true) :
    isNameChar c = true := by
  simp only [isNameStart, Bool.or_eq_true] at start
  simp only [isNameChar, Char.isAlphanum, Char.isAlpha, Bool.or_eq_true]
  tauto

/-- Names and numbers consist of characters between the minus sign and the lower-case letters. -/
theorem toNat_of_word {c : Char} (word : c = '-' ∨ isNumberChar c = true ∨ isNameChar c = true) :
    45 ≤ c.toNat ∧ c.toNat ≤ 122 := by
  simp only [isNumberChar, isNameChar, Char.isAlphanum, Char.isAlpha, Char.isUpper, isLower_iff,
    Char.isDigit, Bool.or_eq_true, Bool.and_eq_true, decide_eq_true_eq, ge_iff_le,
    UInt32.le_iff_toNat_le] at word
  rcases word with rfl | (digit | rfl) | (((upper | lower) | digit) | rfl)
  case inl => decide
  case inr.inl.inr => decide
  case inr.inr.inr => decide
  all_goals
    simp only [Char.toNat]
    simp at *
    omega

theorem toNat_of_isBlank {c : Char} (blank : isBlank c = true) : c.toNat ≤ 32 := by
  simp only [isBlank, Bool.or_eq_true, decide_eq_true_eq] at blank
  rcases blank with (((rfl | rfl) | rfl) | rfl) | rfl <;> decide

/-- No token goes on with a blank. -/
theorem continues_of_isBlank (t : Token) {c : Char} (blank : isBlank c = true) :
    t.continues c = false := by
  have small := toNat_of_isBlank blank
  cases t with
  | top | bot | atom =>
    by_contra word
    have range := toNat_of_word (.inr (.inr (Bool.not_eq_false _ ▸ word)))
    omega
  | number =>
    by_contra word
    have range := toNat_of_word (.inr (.inl (Bool.not_eq_false _ ▸ word)))
    omega
  | x | u | p | bang | amp | bar | lparen | rparen | lbracket | rbracket | comma | le | ge | eqEq =>
    rfl

/-- The characters of tokens are visible and ASCII. -/
theorem toNat_of_mem_spelling {t : Token} (spelled : t.WellSpelled) :
    ∀ c ∈ t.spelling, 33 ≤ c.toNat ∧ c.toNat ≤ 127 := by
  cases t with
  | atom name =>
    obtain ⟨d, ds, rfl, start, letters⟩ := spelled.start
    intro c member
    have word : isNameChar c = true := by
      rcases List.mem_cons.mp member with rfl | further
      · exact isNameChar_of_isNameStart start
      · exact letters c further
    have range := toNat_of_word (.inr (.inr word))
    omega
  | number digits =>
    obtain ⟨d, ds, rfl, start, further⟩ := spelled
    intro c member
    have word : c = '-' ∨ isNumberChar c = true := by
      rcases List.mem_cons.mp member with rfl | rest
      · exact start
      · exact .inr (further c rest)
    have range := toNat_of_word (word.imp_right .inl)
    omega
  | top | bot | x | u | p | bang | amp | bar | lparen | rparen | lbracket | rbracket | comma | le
  | ge | eqEq => simp [spelling]

/-- Reading fails exactly where nothing can be read. -/
theorem scan_eq_error {c : Char} {cs : List Char} {problem : SyntaxProblem}
    (visible : isBlank c = false) : scan c cs = .error problem ↔ Offends c cs problem := by
  constructor
  · intro failed
    unfold scan at failed
    split at failed
    · cases failed
    · next noSign =>
      split at failed
      · next comparison =>
        split at failed
        · cases failed
        · next missing =>
          cases failed
          apply Offends.lacksEquals (ofComparison?_eq_some comparison).2.2
          cases cs with
          | nil => simp
          | cons d ds =>
            intro equals
            cases equals
            exact missing ds rfl
      · next noComparison =>
        split at failed
        · cases failed
        · next noNumber =>
          split at failed
          · cases failed
          · next noName =>
            cases failed
            refine .stray visible fun t spelled first => ?_
            have starts := starts_iff.mp ⟨t, spelled, first⟩
            simp_all
  · intro offends
    cases offends with
    | lacksEquals sign missing =>
      rcases sign with rfl | rfl | rfl <;> cases cs <;> simp_all [scan, ofSign?, ofComparison?]
    | stray _ starts =>
      have never : ¬ ∃ t : Token, t.WellSpelled ∧ t.spelling.head? = some c := by
        rintro ⟨t, spelled, first⟩
        exact starts t spelled first
      simp only [starts_iff, not_or, Bool.not_eq_true, Option.isSome_eq_false_iff,
        Option.isNone_iff_eq_none] at never
      obtain ⟨noSign, noComparison, noNumber, noName⟩ := never
      simp [scan, noSign, noComparison, noNumber, noName]

end Token

/-! ## All tokens -/

theorem tokensFrom_failed {offset : Nat} {c : Char} {cs : List Char} {problem : SyntaxProblem}
    (visible : isBlank c = false) (failed : Token.scan c cs = .error problem) :
    tokensFrom offset (c :: cs) = .error (offset, problem) := by
  rw [tokensFrom, if_neg (by simp [visible])]
  split
  · next failed' =>
    cases failed.symm.trans failed'
    rfl
  · next scanned =>
    cases failed.symm.trans scanned

/-- The tokens found in a text are those that it splits into. -/
theorem tokensFrom_eq_ok {offset : Nat} {cs : List Char} {ts : List Located} :
    tokensFrom offset cs = .ok ts ↔ Splits offset cs ts := by
  constructor
  · intro found
    fun_induction tokensFrom offset cs generalizing ts with
    | case1 offset =>
      cases found
      exact .nil offset
    | case2 offset c rest blank inductionHypothesis =>
      exact .blank blank (inductionHypothesis found)
    | case3 | case4 => cases found
    | case5 offset c rest visible t rest' scanned ts' found' inductionHypothesis =>
      cases found
      obtain ⟨same, ends⟩ := Token.scan_eq_ok scanned
      rw [same]
      exact .token (Token.wellSpelled_of_scan scanned) ends (inductionHypothesis found')
  · intro splits
    induction splits with
    | nil offset => rw [tokensFrom]
    | blank blank _ inductionHypothesis => rw [tokensFrom_blank blank, inductionHypothesis]
    | token spelled ends _ inductionHypothesis =>
      rw [tokensFrom_spelling spelled ends, inductionHypothesis]
      rfl

theorem Offends.visible {c : Char} {after : List Char} {problem : SyntaxProblem}
    (offends : Offends c after problem) : isBlank c = false := by
  cases offends with
  | stray visible _ => exact visible
  | lacksEquals sign _ => rcases sign with rfl | rfl | rfl <;> rfl

/-- Splitting goes on past what splits into tokens, and stops where nothing can be read. -/
theorem Splits.tokensFrom_append {offset : Nat} {before after : List Char} {c : Char}
    {ts : List Located} {problem : SyntaxProblem} (splits : Splits offset before ts)
    (ends : ∀ t ∈ ts, t.stop = offset + before.length → t.token.continues c = false)
    (offends : Offends c after problem) :
    tokensFrom offset (before ++ c :: after) = .error (offset + before.length, problem) := by
  induction splits with
  | nil offset =>
    exact tokensFrom_failed offends.visible ((Token.scan_eq_error offends.visible).mpr offends)
  | @blank offset d cs ts blank _ inductionHypothesis =>
    have length : offset + 1 + cs.length = offset + (d :: cs).length := by
      simp only [List.length_cons]
      omega
    rw [List.cons_append, tokensFrom_blank blank, inductionHypothesis (by rwa [length]), length]
  | @token offset t cs ts spelled stops _ inductionHypothesis =>
    have length : offset + t.spelling.length + cs.length = offset + (t.spelling ++ cs).length := by
      simp only [List.length_append]
      omega
    have further : ∀ u ∈ ts, u.stop = offset + t.spelling.length + cs.length →
        u.token.continues c = false := by
      rw [length]
      exact fun u member => ends u (List.mem_cons_of_mem _ member)
    have stops' : (cs ++ c :: after).head?.any t.continues = false := by
      cases cs with
      | nil => simpa using ends ⟨offset, t⟩ List.mem_cons_self (by simp [Located.stop])
      | cons d ds => simpa using stops
    rw [List.append_assoc, tokensFrom_spelling spelled stops', inductionHypothesis further, length]
    rfl

/-- The complaint is about the first character at which nothing can be read: what stands before it
splits into tokens, and none of them goes on with it. -/
theorem tokensFrom_eq_error {offset position : Nat} {cs : List Char} {problem : SyntaxProblem} :
    tokensFrom offset cs = .error (position, problem) ↔
      ∃ before c after ts, cs = before ++ c :: after ∧ position = offset + before.length ∧
        Splits offset before ts ∧ (∀ t ∈ ts, t.stop = position → t.token.continues c = false) ∧
        Offends c after problem := by
  constructor
  · intro failed
    fun_induction tokensFrom offset cs with
    | case1 | case5 => cases failed
    | case2 offset c rest blank inductionHypothesis =>
      obtain ⟨before, d, after, ts, rfl, rfl, splits, ends, offends⟩ := inductionHypothesis failed
      refine ⟨c :: before, d, after, ts, rfl, ?_, .blank blank splits, ends, offends⟩
      simp only [List.length_cons]
      omega
    | case3 offset c rest visible problem' scanned =>
      cases failed
      have offends := (Token.scan_eq_error (by simpa using visible)).mp scanned
      exact ⟨[], c, rest, [], rfl, rfl, .nil _, by simp, offends⟩
    | case4 offset c rest visible t rest' scanned e failed' inductionHypothesis =>
      cases failed
      obtain ⟨before, d, after, ts, rfl, rfl, splits, ends, offends⟩ := inductionHypothesis failed'
      obtain ⟨same, stops⟩ := Token.scan_eq_ok scanned
      have stops' : before.head?.any t.continues = false := by
        cases before with
        | nil => rfl
        | cons d' ds => simpa using stops
      refine ⟨t.spelling ++ before, d, after, ⟨offset, t⟩ :: ts, by simp [same], by simp; omega,
        .token (Token.wellSpelled_of_scan scanned) stops' splits, ?_, offends⟩
      intro u member last
      cases member with
      | head =>
        -- The token is the last thing before the character only if nothing stands between them.
        cases before with
        | nil => simpa using stops
        | cons d' ds =>
          simp only [Located.stop, List.length_cons] at last
          omega
      | tail _ further => exact ends u further last
  · rintro ⟨before, c, after, ts, rfl, rfl, splits, ends, offends⟩
    exact splits.tokensFrom_append ends offends

theorem Formula.tokenize_iff_splits {s : String} {ts : List Located} :
    tokenize s = .ok ts ↔ Splits 0 s.toList ts :=
  tokenize_eq_ok.trans tokensFrom_eq_ok

/-! ## Where the tokens stand -/

theorem Splits.ascii {offset : Nat} {cs : List Char} {ts : List Located}
    (splits : Splits offset cs ts) : ∀ c ∈ cs, c.toNat ≤ 127 := by
  induction splits with
  | nil => simp
  | blank blank _ inductionHypothesis =>
    intro c member
    rcases List.mem_cons.mp member with rfl | further
    · exact (Token.toNat_of_isBlank blank).trans (by decide)
    · exact inductionHypothesis c further
  | token spelled _ _ inductionHypothesis =>
    intro c member
    rcases List.mem_append.mp member with inside | further
    · exact (Token.toNat_of_mem_spelling spelled c inside).2
    · exact inductionHypothesis c further

/-- A token stands in the text at its offset. -/
theorem Splits.exists_append {offset : Nat} {cs : List Char} {ts : List Located} {t : Located}
    (splits : Splits offset cs ts) (member : t ∈ ts) :
    t.token.WellSpelled ∧ ∃ before after, cs = before ++ t.token.spelling ++ after ∧
      t.offset = offset + before.length := by
  induction splits with
  | nil => cases member
  | @blank offset c cs ts _ _ inductionHypothesis =>
    obtain ⟨spelled, before, after, rfl, place⟩ := inductionHypothesis member
    refine ⟨spelled, c :: before, after, rfl, ?_⟩
    simp only [List.length_cons]
    omega
  | @token offset t' cs ts spelled _ _ inductionHypothesis =>
    rcases List.mem_cons.mp member with rfl | further
    · exact ⟨spelled, [], cs, rfl, rfl⟩
    · obtain ⟨spelled', before, after, rfl, place⟩ := inductionHypothesis further
      refine ⟨spelled', t'.spelling ++ before, after, by simp, ?_⟩
      simp only [List.length_append]
      omega

theorem Splits.offset_le {offset : Nat} {cs : List Char} {ts : List Located} {t : Located}
    (splits : Splits offset cs ts) (member : t ∈ ts) : offset ≤ t.offset := by
  obtain ⟨_, before, _, _, place⟩ := splits.exists_append member
  omega

/-- The tokens stand one after the other. -/
theorem Splits.pairwise_lt {offset : Nat} {cs : List Char} {ts : List Located}
    (splits : Splits offset cs ts) : ts.Pairwise fun t next => t.offset < next.offset := by
  induction splits with
  | nil => exact .nil
  | blank _ _ inductionHypothesis => exact inductionHypothesis
  | @token offset t cs ts spelled _ rest inductionHypothesis =>
    refine .cons (fun next member => ?_) inductionHypothesis
    obtain ⟨c, word, spelling, _⟩ := Token.exists_spelling_eq_cons spelled
    have after := rest.offset_le member
    rw [spelling, List.length_cons] at after
    dsimp only
    omega

/-- Texts of ASCII characters have as many bytes as characters. -/
theorem utf8ByteSize_of_ascii {s : String} (ascii : ∀ c ∈ s.toList, c.toNat ≤ 127) :
    s.utf8ByteSize = s.toList.length := by
  rw [← String.utf8Len_toList]
  generalize s.toList = cs at ascii
  induction cs with
  | nil => rfl
  | cons c cs inductionHypothesis =>
    have one : c.utf8Size = 1 := Char.utf8Size_eq_one_iff.mpr (ascii c List.mem_cons_self)
    rw [String.utf8Len_cons, List.length_cons, one,
      inductionHypothesis fun d member => ascii d (List.mem_cons_of_mem c member)]

end MarkovCheck
