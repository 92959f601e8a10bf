import MarkovCheck.Proofs.Formula.Bytes
import MarkovCheck.Proofs.Formula.Complaints

/-!
# Where the complaints point

A text of any characters is read without an access outside its boundaries of characters. Every
complaint points at such a boundary: at the first character that cannot be read, at a token, or at
the end of the text when a token is missing.

* `Formula.slice_of_tokenize`: the text of a token is cut out at its offset
* `Complained`: the three places of a complaint
* `Formula.complained_of_parse`: there are no others
* `Formula.parseBytes_safe`: reading the bytes of any text is safe
-/

open String (utf8Len)

namespace MarkovCheck

/-- What a complaint about a text can be about, and where it points then. -/
inductive Complained (s : String) : Nat → SyntaxProblem → Prop where
  /-- The first character at which nothing can be read. What stands before it splits into tokens,
  and none of them goes on with it. -/
  | atChar {before after : List Char} {c : Char} {ts : List Located} {problem : SyntaxProblem}
      (text : s.toList = before ++ c :: after) (splits : Splits 0 before ts)
      (ends : ∀ t ∈ ts, t.stop = utf8Len before → t.token.continues c = false)
      (offends : Offends c after problem) : Complained s (utf8Len before) problem
  | atToken {ts : List Located} {t : Located} {problem : SyntaxProblem}
      (found : Formula.tokenize s = .ok ts) (member : t ∈ ts)
      (about : problem.About (some t.token)) : Complained s t.offset problem
  | atEnd {ts : List Located} {problem : SyntaxProblem} (found : Formula.tokenize s = .ok ts)
      (about : problem.About none) : Complained s s.utf8ByteSize problem

theorem Splits.utf8Len_eq {offset : Nat} {cs : List Char} {ts : List Located}
    (splits : Splits offset cs ts) : utf8Len cs = cs.length :=
  ByteLexer.utf8Len_of_ascii splits.ascii

/-- A text has a boundary of characters at each place of a complaint. -/
theorem Complained.isValid {s : String} {position : Nat} {problem : SyntaxProblem}
    (complained : Complained s position problem) : String.Pos.Raw.IsValid s ⟨position⟩ := by
  cases complained with
  | atChar text => exact ByteLexer.isValid_of_append text
  | atToken found member =>
    have splits := Formula.tokenize_iff_splits.mp found
    obtain ⟨_, before, after, text, place⟩ := splits.exists_append member
    have ascii : ∀ c ∈ before, c.toNat ≤ 127 := fun c inside =>
      splits.ascii c (by rw [text]; simp [inside])
    rw [place, Nat.zero_add, ← ByteLexer.utf8Len_of_ascii ascii]
    exact ByteLexer.isValid_of_append (text.trans (List.append_assoc _ _ _))
  | atEnd => exact String.Pos.Raw.isValid_rawEndPos

namespace Formula

/-- A text that is no formula is complained about at one of the three places, or it has a bad bound
or an operand of the wrong kind. -/
theorem complained_of_parse {s : String} {e : Error Float} (failed : parse s = .error e) :
    e.Placeless ∨ ∃ position problem, e = .unreadable position problem ∧
      Complained s position problem := by
  cases found : tokenize s with
  | error e' =>
    rw [parse, found] at failed
    cases failed
    rw [tokenize] at found
    split at found
    · cases found
    · next position problem failed =>
      cases found
      obtain ⟨before, c, after, ts, text, rfl, splits, ends, offends⟩ :=
        tokensFrom_eq_error.mp failed
      rw [Nat.zero_add, ← splits.utf8Len_eq] at *
      exact .inr ⟨_, _, rfl, .atChar text splits ends offends⟩
  | ok ts =>
    rw [parse, found, Outcome.ok_bind] at failed
    obtain ⟨f, parsed, _⟩ | ⟨e', e'', failed', _, same⟩ :=
      Parser.whole_alike s.utf8ByteSize s.utf8ByteSize id ts
    · cases failed.symm.trans parsed
    · cases failed.symm.trans failed'
      cases same with
      | placeless placeless => exact .inl placeless
      | atEnd about => exact .inr ⟨_, _, rfl, .atEnd found about⟩
      | atToken member about => exact .inr ⟨_, _, rfl, .atToken found member about⟩

theorem slice_of_tokenize {s : String} {ts : List Located} {t : Located}
    (found : tokenize s = .ok ts) (member : t ∈ ts) :
    ByteLexer.slice s t.offset t.stop = .ok (String.ofList t.token.spelling) := by
  have splits := tokenize_iff_splits.mp found
  obtain ⟨spelled, before, after, text, place⟩ := splits.exists_append member
  have front : utf8Len before = before.length := ByteLexer.utf8Len_of_ascii fun c inside =>
    splits.ascii c (by rw [text]; simp [inside])
  have word : utf8Len t.token.spelling = t.token.spelling.length :=
    ByteLexer.utf8Len_of_ascii fun c inside => (Token.toNat_of_mem_spelling spelled c inside).2
  have cut := ByteLexer.slice_of_append text
  rwa [word, front, ← Nat.zero_add before.length, ← place] at cut

/-- Walking along the bytes of a text, whatever its characters, makes no access that fails and finds
the same as its characters. Tokens come one after the other, and the text of each is cut out at its
offset. A complaint points at a boundary of characters: at the first character that cannot be read,
at a token, or at the end of the text if a token is missing there. -/
theorem parseBytes_safe (s : String) :
    tokenizeBytes s = tokenize s ∧ parseBytes s = parse s ∧ parseBytes s ≠ .error .misuse ∧
      (∀ ts, tokenizeBytes s = .ok ts → ts.Pairwise (fun t next => t.offset < next.offset) ∧
        ∀ t ∈ ts, ByteLexer.slice s t.offset t.stop = .ok (String.ofList t.token.spelling)) ∧
      ∀ position problem, parseBytes s = .error (.unreadable position problem) →
        position ≤ s.utf8ByteSize ∧ String.Pos.Raw.IsValid s ⟨position⟩ ∧
          Complained s position problem := by
  refine ⟨tokenizeBytes_eq s, parseBytes_eq s, ?_, ?_, ?_⟩
  · intro failed
    rw [parseBytes_eq] at failed
    obtain placeless | ⟨_, _, unreadable, _⟩ := complained_of_parse failed
    · cases placeless
    · cases unreadable
  · intro ts found
    rw [tokenizeBytes_eq] at found
    exact ⟨(tokenize_iff_splits.mp found).pairwise_lt, fun _ => slice_of_tokenize found⟩
  · intro position problem failed
    rw [parseBytes_eq] at failed
    obtain placeless | ⟨_, _, unreadable, complained⟩ := complained_of_parse failed
    · cases placeless
    · cases unreadable
      exact ⟨complained.isValid.le_utf8ByteSize, complained.isValid, complained⟩

/-- A character of two bytes after a name and in front of a comparison sign. -/
theorem parseBytes_safe_twoBytes :
    parseBytes "ab\u00e9<" = .error (.unreadable 2 (.strayChar '\u00e9')) ∧
      String.Pos.Raw.IsValid "ab\u00e9<" ⟨2⟩ ∧
      Complained "ab\u00e9<" 2 (.strayChar '\u00e9') ∧
      tokenizeBytes "a==\t.5" = .ok [⟨0, .atom ['a']⟩, ⟨1, .eqEq⟩, ⟨4, .number ['.', '5']⟩] ∧
      ByteLexer.slice "a==\t.5" 4 6 = .ok ".5" := by
  have failed : parse "ab\u00e9<" = .error (.unreadable 2 (.strayChar '\u00e9')) := by
    with_unfolding_all rfl
  have found : tokenize "a==\t.5" =
      .ok [⟨0, .atom ['a']⟩, ⟨1, .eqEq⟩, ⟨4, .number ['.', '5']⟩] := by
    with_unfolding_all rfl
  obtain ⟨_, same, _, _, complaints⟩ := parseBytes_safe "ab\u00e9<"
  obtain ⟨same', _, _, tokens, _⟩ := parseBytes_safe "a==\t.5"
  rw [← same] at failed
  rw [← same'] at found
  obtain ⟨_, boundary, complained⟩ := complaints _ _ failed
  exact ⟨failed, boundary, complained, found, (tokens _ found).2 ⟨4, .number ['.', '5']⟩ (by simp)⟩

end Formula

end MarkovCheck
