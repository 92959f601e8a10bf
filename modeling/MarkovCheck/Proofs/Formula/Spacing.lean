import MarkovCheck.Proofs.Formula.Complaints
import MarkovCheck.Proofs.Formula.Splitting

/-!
# Blanks are insignificant

Blanks may be put anywhere around the tokens of a text and taken away from there: the same tokens
are found, and they are parsed alike. The one exception is that a name or a number goes on with the
token after it when no blank is left between them.

* `Token.fuses`: a token that goes on with the first character of another one
* `Respacing`: blanks that are put into a text, and characters that are taken out
* `Respacing.Parts`: something remains between two offsets
* `Splits.respaced`, `Splits.parts_of_respaced`: the same tokens are found exactly if all tokens
  that fuse are kept apart
* `Formula.parse_eq_of_moved`: moved tokens are parsed alike
-/

namespace MarkovCheck

/-- The first token goes on with the second one, if that stands right after it. -/
def Token.fuses (t next : Token) : Bool := next.spelling.head?.any t.continues

/-- A change of the blanks in a text: what is put in front of the character at an offset, or at the
end of the text, and which characters are kept. -/
structure Respacing where
  inserted : Nat → List Char
  kept : Nat → Bool

namespace Respacing

def inserting (blanks : Nat → List Char) : Respacing := ⟨blanks, fun _ => true⟩

def removing (gone : Nat → Bool) : Respacing := ⟨fun _ => [], fun offset => !gone offset⟩

variable (r : Respacing)

/-- What stands for one character. -/
def replacement (offset : Nat) (c : Char) : List Char :=
  r.inserted offset ++ if r.kept offset then [c] else []

/-- The changed text, if the first character of the text has the given offset. -/
def chars : Nat → List Char → List Char
  | offset, [] => r.inserted offset
  | offset, c :: cs => r.replacement offset c ++ chars (offset + 1) cs

def text (s : String) : String := String.ofList (r.chars 0 s.toList)

/-- The length of what stands for the characters before an offset. -/
def start : Nat → Nat
  | 0 => 0
  | offset + 1 => start offset + (r.inserted offset).length + if r.kept offset then 1 else 0

/-- The offset at which a character stands after the change. -/
def offset (before : Nat) : Nat := r.start before + (r.inserted before).length

/-- Something is left between the two offsets, or put there. -/
def Parts (first last : Nat) : Prop :=
  ∃ i, first ≤ i ∧ i ≤ last ∧ (r.inserted i ≠ [] ∨ i < last ∧ r.kept i = true)

/-- Only blanks are put in, and tokens are neither interrupted nor shortened. -/
structure Spares (ts : List Located) : Prop where
  blank : ∀ i, ∀ c ∈ r.inserted i, isBlank c = true
  unbroken : ∀ t ∈ ts, ∀ i, t.offset < i → i < t.stop → r.inserted i = []
  kept : ∀ t ∈ ts, ∀ i, t.offset ≤ i → i < t.stop → r.kept i = true

/-- Tokens that fuse are kept apart. -/
def KeepsApart (ts : List Located) : Prop :=
  ts.IsChain fun t next => t.token.fuses next.token = true → r.Parts t.stop next.offset

variable {r}

theorem Spares.tail {t : Located} {ts : List Located} (spares : r.Spares (t :: ts)) :
    r.Spares ts where
  blank := spares.blank
  unbroken u member := spares.unbroken u (List.mem_cons_of_mem t member)
  kept u member := spares.kept u (List.mem_cons_of_mem t member)

theorem Spares.blank_replacement {ts : List Located} (spares : r.Spares ts) {c : Char}
    (blank : isBlank c = true) (offset : Nat) : ∀ d ∈ r.replacement offset c, isBlank d = true := by
  intro d member
  rcases List.mem_append.mp member with inserted | kept
  · exact spares.blank offset d inserted
  · split at kept
    · rwa [List.mem_singleton.mp kept]
    · cases kept

theorem length_replacement (offset : Nat) (c : Char) :
    r.start offset + (r.replacement offset c).length = r.start (offset + 1) := by
  rw [replacement, List.length_append, start]
  split <;> simp only [List.length_cons, List.length_nil] <;> omega

theorem length_chars (offset : Nat) (cs : List Char) :
    r.start offset + (r.chars offset cs).length = r.offset (offset + cs.length) := by
  induction cs generalizing offset with
  | nil => rfl
  | cons c cs inductionHypothesis =>
    rw [chars, List.length_append, ← Nat.add_assoc, length_replacement, inductionHypothesis,
      List.length_cons, Nat.add_right_comm, Nat.add_assoc]

/-- A stretch that nothing is put into and that is kept stays as it is. -/
theorem chars_append_of_kept {offset : Nat} {word : List Char} (cs : List Char)
    (unbroken : ∀ i, offset ≤ i → i < offset + word.length → r.inserted i = [])
    (kept : ∀ i, offset ≤ i → i < offset + word.length → r.kept i = true) :
    r.chars offset (word ++ cs) = word ++ r.chars (offset + word.length) cs ∧
      r.start (offset + word.length) = r.start offset + word.length := by
  induction word generalizing offset with
  | nil => exact ⟨rfl, rfl⟩
  | cons c word inductionHypothesis =>
    have length : offset + (c :: word).length = offset + 1 + word.length := by
      simp only [List.length_cons]
      omega
    rw [length] at unbroken kept
    obtain ⟨same, further⟩ := inductionHypothesis (fun i after => unbroken i (by omega))
      (fun i after => kept i (by omega))
    have nothing : r.inserted offset = [] := unbroken offset (by omega) (by omega)
    have stays : r.kept offset = true := kept offset (by omega) (by omega)
    constructor
    · rw [List.cons_append, chars, same, replacement, nothing, if_pos stays, length]
      rfl
    · rw [length, further, start, nothing, if_pos stays]
      simp only [List.length_nil, List.length_cons]
      omega

/-- A token that is spared stands after what is put in front of it. -/
theorem Spares.chars_spelling {place : Nat} {t : Token} {ts : List Located}
    (spares : r.Spares (⟨place, t⟩ :: ts)) (spelled : t.WellSpelled) (cs : List Char) :
    r.chars place (t.spelling ++ cs) =
        r.inserted place ++ (t.spelling ++ r.chars (place + t.spelling.length) cs) ∧
      r.start (place + t.spelling.length) = r.offset place + t.spelling.length := by
  obtain ⟨c, word, spelling, _⟩ := Token.exists_spelling_eq_cons spelled
  have length : place + t.spelling.length = place + 1 + word.length := by
    rw [spelling, List.length_cons]
    omega
  have unbroken : ∀ i, place < i → i < place + t.spelling.length → r.inserted i = [] :=
    spares.unbroken ⟨place, t⟩ List.mem_cons_self
  have kept : ∀ i, place ≤ i → i < place + t.spelling.length → r.kept i = true :=
    spares.kept ⟨place, t⟩ List.mem_cons_self
  rw [length] at unbroken kept ⊢
  obtain ⟨same, further⟩ := chars_append_of_kept cs (fun i _ => unbroken i (by omega))
    (fun i _ => kept i (by omega))
  have stays : r.kept place = true := kept place (by omega) (by omega)
  constructor
  · rw [spelling, List.cons_append, chars, same, replacement, if_pos stays]
    simp
  · rw [further, start, if_pos stays, spelling, List.length_cons, offset]
    omega

/-- Nothing is left where nothing is put and one character is taken away. -/
theorem parts_succ {first last : Nat} {c : Char} (nothing : r.replacement first c = []) :
    r.Parts first last ↔ r.Parts (first + 1) last := by
  obtain ⟨noInserted, noKept⟩ := List.append_eq_nil_iff.mp nothing
  constructor
  · rintro ⟨i, after, before, left⟩
    rcases Nat.eq_or_lt_of_le after with rfl | later
    · rcases left with inserted | ⟨_, kept⟩
      · exact absurd noInserted inserted
      · simp [kept] at noKept
    · exact ⟨i, later, before, left⟩
  · rintro ⟨i, after, before, left⟩
    exact ⟨i, by omega, before, left⟩

theorem parts_of_replacement_ne_nil {first last : Nat} {c : Char}
    (something : r.replacement first c ≠ []) (before : first < last) : r.Parts first last := by
  refine ⟨first, le_rfl, before.le, ?_⟩
  by_contra nothing
  simp only [not_or, not_not, before, true_and, Bool.not_eq_true] at nothing
  simp [replacement, nothing] at something

theorem not_parts_self {offset : Nat} (nothing : r.inserted offset = []) :
    ¬ r.Parts offset offset := by
  rintro ⟨i, after, before, left⟩
  obtain rfl : i = offset := by omega
  rcases left with inserted | ⟨less, _⟩
  · exact inserted nothing
  · omega

end Respacing

open Respacing

/-! ## The tokens of a respaced text -/

theorem tokensFrom_blanks {offset : Nat} {gap cs : List Char}
    (blank : ∀ c ∈ gap, isBlank c = true) :
    tokensFrom offset (gap ++ cs) = tokensFrom (offset + gap.length) cs := by
  induction gap generalizing offset with
  | nil => rfl
  | cons c gap inductionHypothesis =>
    rw [List.cons_append, tokensFrom_blank (blank c List.mem_cons_self),
      inductionHypothesis fun d member => blank d (List.mem_cons_of_mem c member), List.length_cons,
      Nat.add_right_comm, Nat.add_assoc]

theorem splits_blanks {offset : Nat} {gap cs : List Char} {ts : List Located}
    (blank : ∀ c ∈ gap, isBlank c = true) :
    Splits offset (gap ++ cs) ts ↔ Splits (offset + gap.length) cs ts := by
  rw [← tokensFrom_eq_ok, tokensFrom_blanks blank, tokensFrom_eq_ok]

/-- Where a text starts with a token, that token was found only if it ends there. -/
theorem Splits.of_spelling {offset place : Nat} {t : Token} {cs : List Char} {ts : List Located}
    (spelled : t.WellSpelled) (splits : Splits offset (t.spelling ++ cs) (⟨place, t⟩ :: ts)) :
    cs.head?.any t.continues = false ∧ Splits (offset + t.spelling.length) cs ts := by
  obtain ⟨c, word, spelling, visible⟩ := Token.exists_spelling_eq_cons spelled
  generalize whole : t.spelling ++ cs = text at splits
  cases splits with
  | blank blank _ =>
    rw [spelling] at whole
    cases whole
    simp [visible] at blank
  | token _ ends rest =>
    obtain rfl := List.append_cancel_left whole
    exact ⟨ends, rest⟩

theorem head?_any_of_blank {cs rest : List Char} {q : Char → Bool}
    (visible : ∀ c, isBlank c = true → q c = false) (blank : ∀ c ∈ cs, isBlank c = true)
    (something : cs ≠ []) : (cs ++ rest).head?.any q = false := by
  obtain ⟨c, cs', rfl⟩ := List.exists_cons_of_ne_nil something
  exact visible c (blank c List.mem_cons_self)

namespace Splits

variable {r : Respacing} {offset : Nat} {cs : List Char} {ts : List Located}

/-- The changed text starts with a blank, unless nothing is left in front of its first token. -/
theorem head?_chars (splits : Splits offset cs ts) (spares : r.Spares ts) {q : Char → Bool}
    (visible : ∀ c, isBlank c = true → q c = false) :
    (r.chars offset cs).head?.any q = false ↔
      ∀ t ∈ ts.head?, t.token.spelling.head?.any q = true → r.Parts offset t.offset := by
  induction splits with
  | nil offset =>
    refine iff_of_true ?_ (by simp)
    rw [chars]
    cases gap : r.inserted offset with
    | nil => rfl
    | cons c _ => exact visible c (spares.blank offset c (by simp [gap]))
  | @blank offset c cs ts blank rest inductionHypothesis =>
    rw [chars]
    -- A blank that is taken away leaves the question to the rest of the text.
    by_cases nothing : r.replacement offset c = []
    · simp only [nothing, List.nil_append, inductionHypothesis spares, parts_succ nothing]
    · have gap := spares.blank_replacement blank offset
      refine iff_of_true (head?_any_of_blank visible gap nothing) ?_
      intro t first _
      have later := rest.offset_le (List.mem_of_mem_head? first)
      exact parts_of_replacement_ne_nil nothing (by omega)
  | @token offset t cs ts spelled ends rest _ =>
    rw [(spares.chars_spelling spelled cs).1]
    obtain ⟨c, word, spelling, _⟩ := Token.exists_spelling_eq_cons spelled
    by_cases nothing : r.inserted offset = []
    · simp [nothing, spelling, not_parts_self nothing]
    · refine iff_of_true (head?_any_of_blank visible (spares.blank offset) nothing) ?_
      rintro _ ⟨⟩ _
      exact ⟨offset, le_rfl, le_rfl, .inl nothing⟩

/-- The same tokens are found in the changed text, if tokens that fuse are kept apart. -/
theorem respaced (splits : Splits offset cs ts) (spares : r.Spares ts) (apart : r.KeepsApart ts) :
    Splits (r.start offset) (r.chars offset cs) (ts.map (Located.move r.offset)) := by
  induction splits with
  | nil offset =>
    rw [chars, ← List.append_nil (r.inserted offset)]
    exact (splits_blanks (spares.blank offset)).mpr (.nil _)
  | @blank offset c cs ts blank rest inductionHypothesis =>
    rw [chars, splits_blanks (spares.blank_replacement blank offset), length_replacement]
    exact inductionHypothesis spares apart
  | @token offset t cs ts spelled ends rest inductionHypothesis =>
    obtain ⟨first, others⟩ := List.isChain_cons.mp apart
    obtain ⟨same, further⟩ := spares.chars_spelling spelled cs
    rw [same, splits_blanks (spares.blank offset)]
    refine .token spelled ?_ ?_
    · exact (rest.head?_chars spares.tail fun _ => t.continues_of_isBlank).mpr first
    · rw [← Respacing.offset, ← further]
      exact inductionHypothesis spares.tail others

/-- If the same tokens are found in the changed text, those that fuse were kept apart. -/
theorem parts_of_respaced (splits : Splits offset cs ts) (spares : r.Spares ts)
    {ts' : List Located} (splits' : Splits (r.start offset) (r.chars offset cs) ts')
    (same : ts'.map Located.token = ts.map Located.token) : r.KeepsApart ts := by
  induction splits generalizing ts' with
  | nil => exact .nil
  | @blank offset c cs ts blank rest inductionHypothesis =>
    rw [chars, splits_blanks (spares.blank_replacement blank offset), length_replacement] at splits'
    exact inductionHypothesis spares splits' same
  | @token offset t cs ts spelled ends rest inductionHypothesis =>
    obtain ⟨text, further⟩ := spares.chars_spelling spelled cs
    rw [text, splits_blanks (spares.blank offset)] at splits'
    obtain ⟨⟨place, t'⟩, ts'', rfl, token, same'⟩ := List.map_eq_cons_iff.mp same
    obtain rfl : t' = t := token
    -- The token found here spells no more than before, so it ends before what now comes after it.
    obtain ⟨ends', rest'⟩ := of_spelling spelled splits'
    refine List.isChain_cons.mpr ⟨?_, ?_⟩
    · exact (rest.head?_chars spares.tail fun _ => t'.continues_of_isBlank).mp ends'
    · refine inductionHypothesis spares.tail ?_ same'
      rwa [further]

/-- Neighbours that fuse have something between them, since both were found. -/
theorem stop_lt_of_fuses (splits : Splits offset cs ts) :
    ts.IsChain fun t next => t.token.fuses next.token = true → t.stop < next.offset := by
  induction splits with
  | nil => exact .nil
  | blank _ _ inductionHypothesis => exact inductionHypothesis
  | @token offset t cs ts spelled ends rest inductionHypothesis =>
    refine List.isChain_cons.mpr ⟨?_, inductionHypothesis⟩
    intro next first fuses
    -- Were the next token right here, this one would have gone on with it.
    cases rest with
    | nil => cases first
    | blank _ rest' => exact rest'.offset_le (List.mem_of_mem_head? first)
    | token spelled' =>
      cases first
      obtain ⟨c, word, spelling, _⟩ := Token.exists_spelling_eq_cons spelled'
      rw [Token.fuses, spelling] at fuses
      rw [spelling] at ends
      exact absurd fuses (Bool.not_eq_true _ ▸ ends)

end Splits

namespace Respacing

theorem start_inserting (blanks : Nat → List Char) (before : Nat) :
    (inserting blanks).start before = before + ∑ i ∈ Finset.range before, (blanks i).length := by
  induction before with
  | zero => rfl
  | succ before inductionHypothesis =>
    rw [start, inductionHypothesis, Finset.sum_range_succ]
    simp only [inserting, if_true]
    omega

theorem offset_inserting (blanks : Nat → List Char) :
    (inserting blanks).offset = fun before =>
      before + ∑ i ∈ Finset.range (before + 1), (blanks i).length := by
  funext before
  rw [offset, start_inserting, Finset.sum_range_succ, Nat.add_assoc]
  rfl

theorem offset_removing (gone : Nat → Bool) :
    (removing gone).offset = Nat.count fun i => gone i = false := by
  funext before
  induction before with
  | zero => rfl
  | succ before inductionHypothesis =>
    rw [Nat.count_succ, ← inductionHypothesis, offset, start, offset]
    simp [removing]

theorem parts_removing {gone : Nat → Bool} {first last : Nat} :
    (removing gone).Parts first last ↔ ∃ i, first ≤ i ∧ i < last ∧ gone i = false := by
  constructor
  · rintro ⟨i, after, _, inserted | ⟨before, kept⟩⟩
    · exact absurd rfl inserted
    · exact ⟨i, after, before, by simpa [removing] using kept⟩
  · rintro ⟨i, after, before, kept⟩
    exact ⟨i, after, before.le, .inr ⟨before, by simpa [removing] using kept⟩⟩

theorem keepsApart_inserting (blanks : Nat → List Char) {cs : List Char} {ts : List Located}
    (splits : Splits 0 cs ts) : (inserting blanks).KeepsApart ts := by
  refine splits.stop_lt_of_fuses.imp fun t next apart fuses => ?_
  exact ⟨t.stop, le_rfl, (apart fuses).le, .inr ⟨apart fuses, rfl⟩⟩

/-- Taking away blanks spares the tokens, which contain none. -/
theorem spares_removing {gone : Nat → Bool} {cs : List Char} {ts : List Located}
    (splits : Splits 0 cs ts)
    (blank : ∀ i c, cs[i]? = some c → gone i = true → isBlank c = true) :
    (removing gone).Spares ts where
  blank _ _ member := by cases member
  unbroken _ _ _ _ _ := rfl
  kept t member i after before := by
    obtain ⟨spelled, front, back, rfl, place⟩ := splits.exists_append member
    have inside : i - front.length < t.token.spelling.length := by
      rw [Located.stop] at before
      omega
    have here : (front ++ t.token.spelling ++ back)[i]? =
        some t.token.spelling[i - front.length] := by
      rw [List.append_assoc, List.getElem?_append_right (by omega),
        List.getElem?_append_left inside, List.getElem?_eq_getElem]
    have visible := (Token.toNat_of_mem_spelling spelled _ (List.getElem_mem inside)).1
    by_contra taken
    have small := Token.toNat_of_isBlank (blank i _ here (by simpa [removing] using taken))
    omega

end Respacing

/-! ## Parsing a respaced text -/

theorem Parser.Complains.eq_move {σ : Nat → Nat} {stop stop' : Nat} {ts : List Located}
    {e e' : Error Float} (same : Complains σ stop stop' ts e e') (ends : σ stop = stop') :
    e' = e.move σ := by
  cases same with
  | placeless placeless =>
    cases e with
    | unreadable => cases placeless
    | _ => rfl
  | atEnd => rw [Error.move, ends]
  | atToken => rfl

namespace Formula

/-- Texts with the same tokens at other offsets are parsed alike. -/
theorem parse_eq_of_moved {s s' : String} {ts : List Located} {σ : Nat → Nat}
    (found : tokenize s = .ok ts) (found' : tokenize s' = .ok (ts.map (Located.move σ)))
    (ends : σ s.utf8ByteSize = s'.utf8ByteSize) :
    parse s' = (parse s).mapError (Error.move σ) := by
  rw [parse, parse, found, found', Outcome.ok_bind, Outcome.ok_bind]
  obtain ⟨f, parsed, parsed'⟩ | ⟨e, e', failed, failed', same⟩ :=
    Parser.whole_alike s.utf8ByteSize s'.utf8ByteSize σ ts
  · rw [parsed, parsed']
    rfl
  · rw [failed, failed', same.eq_move ends]
    rfl

theorem utf8ByteSize_of_tokenize {s : String} {ts : List Located} (found : tokenize s = .ok ts) :
    s.utf8ByteSize = s.toList.length :=
  utf8ByteSize_of_ascii (tokenize_iff_splits.mp found).ascii

theorem tokenize_text {s : String} {ts' : List Located} {r : Respacing} :
    tokenize (r.text s) = .ok ts' ↔ Splits (r.start 0) (r.chars 0 s.toList) ts' := by
  rw [tokenize_iff_splits, Respacing.text, String.toList_ofList]
  rfl

theorem tokenize_respaced {s : String} {ts : List Located} {r : Respacing}
    (found : tokenize s = .ok ts) (spares : r.Spares ts) (apart : r.KeepsApart ts) :
    tokenize (r.text s) = .ok (ts.map (Located.move r.offset)) :=
  tokenize_text.mpr ((tokenize_iff_splits.mp found).respaced spares apart)

theorem parse_respaced {s : String} {ts : List Located} {r : Respacing}
    (found : tokenize s = .ok ts) (spares : r.Spares ts) (apart : r.KeepsApart ts) :
    parse (r.text s) = (parse s).mapError (Error.move r.offset) := by
  have found' := tokenize_respaced found spares apart
  refine parse_eq_of_moved found found' ?_
  rw [utf8ByteSize_of_tokenize found, utf8ByteSize_of_tokenize found', Respacing.text,
    String.toList_ofList, ← Nat.zero_add s.toList.length, ← Respacing.length_chars]
  rw [Respacing.start, Nat.zero_add]

/-- Blanks that are put around tokens move the tokens and positions after them, and change nothing
else. Blanks that are taken away leave the same tokens exactly if a name, a truth value or a number
keeps a blank before a token that it would go on with; then they change nothing else either. -/
theorem blanks_insignificant {s : String} {ts : List Located} (found : tokenize s = .ok ts) :
    (∀ blanks : Nat → List Char, (∀ i, ∀ c ∈ blanks i, isBlank c = true) →
      (∀ t ∈ ts, ∀ i, t.offset < i → i < t.stop → blanks i = []) →
      let moved := fun offset => offset + ∑ i ∈ Finset.range (offset + 1), (blanks i).length
      let text := (Respacing.inserting blanks).text s
      tokenize text = .ok (ts.map (Located.move moved)) ∧
        parse text = (parse s).mapError (Error.move moved)) ∧
    ∀ gone : Nat → Bool, (∀ i c, s.toList[i]? = some c → gone i = true → isBlank c = true) →
      let moved := Nat.count fun i => gone i = false
      let text := (Respacing.removing gone).text s
      let apart := ts.IsChain fun t next => t.token.fuses next.token = true →
        ∃ i, t.stop ≤ i ∧ i < next.offset ∧ gone i = false
      ((∃ ts', tokenize text = .ok ts' ∧ ts'.map Located.token = ts.map Located.token) ↔ apart) ∧
        (apart → tokenize text = .ok (ts.map (Located.move moved)) ∧
          parse text = (parse s).mapError (Error.move moved)) := by
  have splits := tokenize_iff_splits.mp found
  constructor
  · intro blanks blank unbroken
    have spares : (Respacing.inserting blanks).Spares ts := ⟨blank, unbroken, fun _ _ _ _ _ => rfl⟩
    have apart := Respacing.keepsApart_inserting blanks splits
    have tokens := tokenize_respaced found spares apart
    have parsed := parse_respaced found spares apart
    rw [Respacing.offset_inserting] at tokens parsed
    exact ⟨tokens, parsed⟩
  · intro gone blank moved text apart
    have spares := Respacing.spares_removing splits blank
    have keeps : (Respacing.removing gone).KeepsApart ts ↔ apart := by
      simp only [Respacing.KeepsApart, Respacing.parts_removing, apart]
    have alike : apart → tokenize text = .ok (ts.map (Located.move moved)) ∧
        parse text = (parse s).mapError (Error.move moved) := by
      intro parted
      have tokens := tokenize_respaced found spares (keeps.mpr parted)
      have parsed := parse_respaced found spares (keeps.mpr parted)
      rw [Respacing.offset_removing] at tokens parsed
      exact ⟨tokens, parsed⟩
    refine ⟨⟨?_, fun parted => ?_⟩, alike⟩
    · rintro ⟨ts', found', same⟩
      exact keeps.mp (splits.parts_of_respaced spares (tokenize_text.mp found') same)
    · exact ⟨_, (alike parted).1, by simp [Located.move, Function.comp_def]⟩

/-- Blanks before, between and after the tokens, the blank that the operator can lose, and the one
that the name in front of it cannot. -/
theorem blanks_insignificant_until :
    let ts : List Located := [⟨0, .atom ['a']⟩, ⟨2, .u⟩, ⟨4, .atom ['b']⟩]
    tokenize "a U b" = .ok ts ∧
      tokenize "  a \nU b\t" = .ok [⟨2, .atom ['a']⟩, ⟨5, .u⟩, ⟨7, .atom ['b']⟩] ∧
      tokenize "a Ub" = .ok [⟨0, .atom ['a']⟩, ⟨2, .u⟩, ⟨3, .atom ['b']⟩] ∧
      ¬ ∃ ts', tokenize "aU b" = .ok ts' ∧ ts'.map Located.token = ts.map Located.token := by
  intro ts
  have found : tokenize "a U b" = .ok ts := by
    with_unfolding_all rfl
  obtain ⟨insert, remove⟩ := blanks_insignificant found
  let blanks : Nat → List Char
    | 0 => [' ', ' ']
    | 2 => ['\n']
    | 5 => ['\t']
    | _ => []
  have blank : ∀ i, ∀ c ∈ blanks i, isBlank c = true := by
    intro i
    unfold blanks
    split <;> exact List.all_eq_true.mp rfl
  have unbroken : ∀ t ∈ ts, ∀ i, t.offset < i → i < t.stop → blanks i = [] := by
    intro t member i after before
    simp only [ts, List.mem_cons, List.not_mem_nil, or_false] at member
    rcases member with rfl | rfl | rfl
    all_goals
      simp only [Located.stop, Token.spelling, List.length_cons, List.length_nil] at after before
      omega
  have single : ∀ place : Nat, "a U b".toList[place]? = some ' ' → ∀ i c,
      "a U b".toList[i]? = some c → decide (i = place) = true → isBlank c = true := by
    intro place here i c there same
    obtain rfl : i = place := by simpa using same
    cases here.symm.trans there
    rfl
  have inserted := (insert blanks blank unbroken).1
  have shortened := (remove (fun i => decide (i = 3)) (single 3 rfl)).2
  have fused := (remove (fun i => decide (i = 1)) (single 1 rfl)).1
  have text : (Respacing.inserting blanks).text "a U b" = "  a \nU b\t" := by decide +kernel
  have text' : (Respacing.removing (fun i => decide (i = 3))).text "a U b" = "a Ub" := by
    decide +kernel
  have text'' : (Respacing.removing (fun i => decide (i = 1))).text "a U b" = "aU b" := by
    decide +kernel
  rw [text] at inserted
  rw [text'] at shortened
  rw [text''] at fused
  refine ⟨found, inserted, (shortened ?_).1, fused.not.mpr ?_⟩
  · refine .cons_cons (fun _ => ⟨1, by decide⟩) (.cons_cons ?_ (.singleton _))
    intro fuses
    cases fuses
  · intro parted
    obtain ⟨i, after, before, other⟩ := (List.isChain_cons_cons.mp parted).1 rfl
    simp only [Located.stop, Token.spelling, List.length_cons, List.length_nil,
      decide_eq_false_iff_not] at after before other
    omega

end Formula

end MarkovCheck
