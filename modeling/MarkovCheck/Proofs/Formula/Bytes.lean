import MarkovCheck.Formula.ByteLexer
import MarkovCheck.Proofs.Formula.Splitting
import MarkovCheck.Proofs.Outcome

/-!
# Walking along the bytes

The walk along the bytes of a text finds what is found in its characters. The bytes that are passed
over are those of whole characters, which are ASCII, so every cut is at a boundary of characters; a
byte of any other character looks like no character that a token consists of.

* `ByteLexer.byte?_of_append`, `ByteLexer.slice_of_append`: what is found where characters start
* `ByteLexer.apply_firstByte`: judging a character by its first byte
* `ByteLexer.tokenAt_of_append`, `ByteLexer.tokensAt_of_append`: one token, and all tokens
* `Formula.tokenizeBytes_eq`, `Formula.parseBytes_eq`: the two ways agree, so no access fails
-/

open String (utf8Len)

namespace MarkovCheck

namespace ByteLexer

/-! ## Accesses -/

/-- What `byte?` finds where a character starts. -/
def firstByte (c : Char) : Char := Char.ofNat ((String.utf8EncodeChar c).headD 0).toNat

theorem firstByte_of_ascii {c : Char} (ascii : c.toNat ≤ 127) : firstByte c = c := by
  have encoded : String.utf8EncodeChar c = [UInt8.ofNat c.toNat] := if_pos ascii
  rw [firstByte, encoded, List.headD_cons, UInt8.toNat_ofNat', Nat.mod_eq_of_lt (by omega),
    Char.ofNat_toNat]

theorem toNat_ofNat_toNat (b : UInt8) : (Char.ofNat b.toNat).toNat = b.toNat := by
  have valid : b.toNat.isValidChar := .inl (by have := b.toNat_lt; omega)
  simp [Char.toNat_ofNat, valid]

theorem toNat_firstByte {c : Char} (large : 127 < c.toNat) : 127 < (firstByte c).toNat := by
  rw [firstByte, toNat_ofNat_toNat]
  unfold String.utf8EncodeChar
  have large' : ¬ c.val.toNat ≤ 127 := Nat.not_le.mpr large
  rw [if_neg large']
  split
  · simp only [List.headD_cons, UInt8.toNat_ofNat']
    omega
  · split <;> simp only [List.headD_cons, UInt8.toNat_ofNat'] <;> omega

theorem size_utf8Encode (cs : List Char) : cs.utf8Encode.size = utf8Len cs := by
  rw [← String.utf8ByteSize_ofList, ← String.size_toByteArray, String.toByteArray_ofList]

theorem toByteArray_of_append {s : String} {before cs : List Char}
    (same : s.toList = before ++ cs) : s.toByteArray = before.utf8Encode ++ cs.utf8Encode := by
  rw [← List.utf8Encode_append, ← same, ← String.toByteArray_ofList, String.ofList_toList]

theorem byte?_of_append {s : String} {before cs : List Char} (same : s.toList = before ++ cs) :
    byte? s (utf8Len before) = cs.head?.map firstByte := by
  rw [byte?, toByteArray_of_append same, ← size_utf8Encode]
  cases cs with
  | nil => simp
  | cons c cs =>
    obtain ⟨b, further, encoded⟩ :=
      List.exists_cons_of_ne_nil (String.utf8EncodeChar_ne_nil (c := c))
    have first : (before.utf8Encode ++ (c :: cs).utf8Encode)[before.utf8Encode.size]? = some b := by
      rw [List.utf8Encode_cons, List.utf8Encode_singleton, encoded, getElem?_pos _ _ (by simp),
        ByteArray.getElem_append_right le_rfl]
      simp
    rw [first, List.head?_cons, Option.map_some, Option.map_some, firstByte, encoded,
      List.headD_cons]

theorem skip_of_some {s : String} {p : Char → Bool} {i : Nat} {c : Char}
    (here : byte? s i = some c) : skip s p i = if p c then skip s p (i + 1) else i := by
  rw [skip]
  split
  · next here' =>
    cases here.symm.trans here'
    rfl
  · next ends => cases here.symm.trans ends

theorem skip_of_none {s : String} {p : Char → Bool} {i : Nat} (ends : byte? s i = none) :
    skip s p i = i := by
  rw [skip]
  split
  · next here => cases ends.symm.trans here
  · rfl

/-- What only tells ASCII characters apart does not tell a character from its first byte. -/
theorem apply_firstByte {β : Type} {f : Char → β} {b : β} (flat : ∀ c, 127 < c.toNat → f c = b)
    (c : Char) : f (firstByte c) = f c := by
  rcases Nat.lt_or_ge 127 c.toNat with large | ascii
  · rw [flat c large, flat _ (toNat_firstByte large)]
  · rw [firstByte_of_ascii ascii]

theorem isAscii_firstByte {p : Char → Bool} (ascii : ∀ c, p c = true → c.toNat ≤ 127) (c : Char) :
    p (firstByte c) = p c := by
  refine apply_firstByte (b := false) (fun d large => ?_) c
  by_contra holds
  have small := ascii d (by simpa using holds)
  omega

theorem utf8Len_of_ascii {cs : List Char} (ascii : ∀ c ∈ cs, c.toNat ≤ 127) :
    utf8Len cs = cs.length := by
  rw [← String.utf8ByteSize_ofList, utf8ByteSize_of_ascii (by simpa using ascii),
    String.toList_ofList]

theorem utf8Len_append_of_ascii {before word : List Char} (ascii : ∀ c ∈ word, c.toNat ≤ 127) :
    utf8Len (before ++ word) = utf8Len before + word.length := by
  rw [String.utf8Len_append, utf8Len_of_ascii ascii]

/-- Skipping stops where the characters with the property end. -/
theorem skip_of_append {s : String} {p : Char → Bool} (ascii : ∀ c, p c = true → c.toNat ≤ 127)
    {before cs : List Char} (same : s.toList = before ++ cs) :
    skip s p (utf8Len before) = utf8Len before + (cs.takeWhile p).length := by
  induction cs generalizing before with
  | nil => exact skip_of_none (byte?_of_append same)
  | cons c cs inductionHypothesis =>
    rw [skip_of_some (byte?_of_append same), isAscii_firstByte ascii]
    split
    · next holds =>
      have further : s.toList = (before ++ [c]) ++ cs := by simp [same]
      have next := inductionHypothesis further
      rw [utf8Len_append_of_ascii (by simpa using ascii c holds), List.length_singleton] at next
      rw [next, List.takeWhile_cons_of_pos holds, List.length_cons]
      omega
    · next fails => rw [List.takeWhile_cons_of_neg fails, List.length_nil, Nat.add_zero]

theorem isValid_of_append {s : String} {before cs : List Char} (same : s.toList = before ++ cs) :
    String.Pos.Raw.IsValid s ⟨utf8Len before⟩ := by
  refine String.Pos.Raw.isValid_iff_exists_append.mpr ⟨.ofList before, .ofList cs, ?_, ?_⟩
  · rw [← String.ofList_append, ← same, String.ofList_toList]
  · rw [String.rawEndPos_ofList]

theorem slice_of_append {s : String} {before word after : List Char}
    (same : s.toList = before ++ word ++ after) :
    slice s (utf8Len before) (utf8Len before + utf8Len word) = .ok (String.ofList word) := by
  have first := isValid_of_append (same.trans (List.append_assoc before word after))
  have last := isValid_of_append same
  rw [String.utf8Len_append] at last
  rw [slice, dif_pos ⟨first, last, Nat.le_add_right _ _⟩]
  congr 1
  have size : utf8Len before + utf8Len word = (before.utf8Encode ++ word.utf8Encode).size := by
    rw [ByteArray.size_append, size_utf8Encode, size_utf8Encode]
  rw [← String.toByteArray_inj, String.toByteArray_extract, String.toByteArray_ofList,
    toByteArray_of_append same, List.utf8Encode_append]
  show (_ : ByteArray).extract (utf8Len before) (utf8Len before + utf8Len word) = _
  rw [size, ByteArray.extract_append_size_left]
  exact ByteArray.extract_append_eq_right (size_utf8Encode before).symm ByteArray.size_append

/-! ## One token -/

theorem toNat_of_isNumberChar {c : Char} (number : isNumberChar c = true) : c.toNat ≤ 127 := by
  have range := Token.toNat_of_word (.inr (.inl number))
  omega

theorem toNat_of_isNameChar {c : Char} (name : isNameChar c = true) : c.toNat ≤ 127 := by
  have range := Token.toNat_of_word (.inr (.inr name))
  omega

theorem ofSign?_firstByte (c : Char) : Token.ofSign? (firstByte c) = Token.ofSign? c := by
  refine apply_firstByte (b := none) (fun d large => ?_) c
  cases sign : Token.ofSign? d with
  | none => rfl
  | some t =>
    have small := (Token.toNat_of_mem_spelling (Token.wellSpelled_of_ofSign? sign) d
      (by simp [(Token.ofSign?_eq_some sign).1])).2
    omega

theorem ofComparison?_firstByte (c : Char) :
    Token.ofComparison? (firstByte c) = Token.ofComparison? c := by
  refine apply_firstByte (b := none) (fun d large => ?_) c
  cases comparison : Token.ofComparison? d with
  | none => rfl
  | some t =>
    have small := (Token.toNat_of_mem_spelling (Token.wellSpelled_of_ofComparison? comparison) d
      (by simp [(Token.ofComparison?_eq_some comparison).1])).2
    omega

theorem toNat_of_startsNumber {c : Char} (start : (c = '-' || isNumberChar c) = true) :
    c.toNat ≤ 127 := by
  have range := Token.toNat_of_word (c := c) (by simpa [← or_assoc] using Or.inl start)
  omega

theorem startsNumber_firstByte (c : Char) :
    (firstByte c = '-' || isNumberChar (firstByte c)) = (c = '-' || isNumberChar c) :=
  isAscii_firstByte (p := fun d => d = '-' || isNumberChar d) (fun _ => toNat_of_startsNumber) c

theorem isNameStart_firstByte (c : Char) : isNameStart (firstByte c) = isNameStart c :=
  isAscii_firstByte (fun _ start => toNat_of_isNameChar (Token.isNameChar_of_isNameStart start)) c

theorem isBlank_firstByte (c : Char) : isBlank (firstByte c) = isBlank c :=
  isAscii_firstByte (fun _ blank => (Token.toNat_of_isBlank blank).trans (by decide)) c

theorem firstByte_eq_equals {c : Char} : firstByte c = '=' ↔ c = '=' := by
  have same := isAscii_firstByte (p := fun d => decide (d = '='))
    (fun d here => by rw [of_decide_eq_true here]; decide) c
  simpa using same

section Word

variable {s : String} {before cs : List Char} {c : Char} {p : Char → Bool}

theorem after_ascii (same : s.toList = before ++ c :: cs) (ascii : c.toNat ≤ 127) :
    s.toList = (before ++ [c]) ++ cs ∧ utf8Len (before ++ [c]) = utf8Len before + 1 :=
  ⟨by simp [same], utf8Len_append_of_ascii (by simpa using ascii)⟩

/-- The byte after an ASCII character is an equality sign if the next character is one. -/
theorem equals_after_ascii (same : s.toList = before ++ c :: cs) (ascii : c.toNat ≤ 127) :
    byte? s (utf8Len before + 1) = some '=' ↔ cs.head? = some '=' := by
  obtain ⟨further, length⟩ := after_ascii same ascii
  rw [← length, byte?_of_append further]
  cases cs with
  | nil => simp
  | cons d ds => simp [firstByte_eq_equals]

/-- The end of a word whose characters after the first one are of a class. -/
theorem skip_after_ascii (same : s.toList = before ++ c :: cs) (first : c.toNat ≤ 127)
    (ascii : ∀ d, p d = true → d.toNat ≤ 127) :
    skip s p (utf8Len before + 1) = utf8Len before + (c :: cs.takeWhile p).length := by
  obtain ⟨further, length⟩ := after_ascii same first
  rw [← length, skip_of_append ascii further, length, List.length_cons]
  omega

/-- The text of a word, from its first character to where its class of characters ends. -/
theorem slice_word (same : s.toList = before ++ c :: cs) (first : c.toNat ≤ 127)
    (ascii : ∀ d, p d = true → d.toNat ≤ 127) :
    slice s (utf8Len before) (utf8Len before + (c :: cs.takeWhile p).length) =
      .ok (String.ofList (c :: cs.takeWhile p)) := by
  have word : utf8Len (c :: cs.takeWhile p) = (c :: cs.takeWhile p).length := by
    refine utf8Len_of_ascii fun d member => ?_
    rcases List.mem_cons.mp member with rfl | further
    · exact first
    · exact ascii d (List.mem_takeWhile_imp further)
  have parts : s.toList = before ++ (c :: cs.takeWhile p) ++ cs.dropWhile p := by
    rw [same, List.append_assoc, List.cons_append, List.takeWhile_append_dropWhile]
  rw [← word]
  exact slice_of_append parts

end Word

/-- Reading a token from the bytes is reading it from the characters. -/
theorem tokenAt_of_append {s : String} {before cs : List Char} {c : Char}
    (same : s.toList = before ++ c :: cs) :
    tokenAt s (utf8Len before) (firstByte c) = match Token.scan c cs with
      | .ok (t, _) => .ok (t, utf8Len before + t.spelling.length)
      | .error problem => .error (.unreadable (utf8Len before) problem) := by
  rw [tokenAt, Token.scan, ofSign?_firstByte, ofComparison?_firstByte, startsNumber_firstByte,
    isNameStart_firstByte]
  cases sign : Token.ofSign? c with
  | some t => simp [(Token.ofSign?_eq_some sign).1]
  | none =>
    cases comparison : Token.ofComparison? c with
    | some t =>
      obtain ⟨spelled, _, which⟩ := Token.ofComparison?_eq_some comparison
      have ascii : c.toNat ≤ 127 := by rcases which with rfl | rfl | rfl <;> decide
      simp only [equals_after_ascii same ascii, firstByte_of_ascii ascii]
      cases cs with
      | nil => simp
      | cons d ds =>
        by_cases equals : d = '='
        · subst equals
          simp [spelled]
        · simp [equals]
    | none =>
      dsimp only
      split
      · next number =>
        have ascii : c.toNat ≤ 127 := toNat_of_startsNumber number
        rw [skip_after_ascii same ascii fun _ => toNat_of_isNumberChar,
          slice_word same ascii fun _ => toNat_of_isNumberChar, Outcome.ok_bind,
          String.toList_ofList]
        rfl
      · split
        · next start =>
          have letter := Token.isNameChar_of_isNameStart start
          rw [skip_of_append (p := isNameChar) (fun _ => toNat_of_isNameChar) same,
            List.takeWhile_cons_of_pos letter,
            slice_word same (toNat_of_isNameChar letter) fun _ => toNat_of_isNameChar,
            Outcome.ok_bind, String.toList_ofList]
          dsimp only
          rw [Token.spelling_ofName]
          rfl
        · -- The complaint names the whole character, which is cut out of the rest of the text.
          have whole : s.toList = before ++ (c :: cs) ++ [] := by simp [same]
          have size : s.utf8ByteSize = utf8Len before + utf8Len (c :: cs) := by
            rw [← String.utf8Len_toList, same, String.utf8Len_append]
          rw [size, slice_of_append whole, Outcome.ok_bind, String.toList_ofList]
          rfl

/-! ## All tokens -/

theorem tokensAt_of_none {s : String} {i : Nat} (ends : byte? s i = none) :
    tokensAt s i = .ok [] := by
  rw [tokensAt]
  split
  · rfl
  · next here => cases ends.symm.trans here

theorem tokensAt_of_some {s : String} {i : Nat} {c : Char} (here : byte? s i = some c) :
    tokensAt s i = if isBlank c then tokensAt s (i + 1) else
      match tokenAt s i c with
      | .error e => .error e
      | .ok (t, stop) =>
        if i < stop then (tokensAt s stop).map (⟨i, t⟩ :: ·) else .error .misuse := by
  rw [tokensAt]
  split
  · next ends => cases ends.symm.trans here
  · next here' =>
    cases here.symm.trans here'
    split
    · rfl
    · cases tokenAt s i c with
      | error e => rfl
      | ok read =>
        obtain ⟨t, stop⟩ := read
        dsimp only
        by_cases advanced : i < stop
        · rw [dif_pos advanced, if_pos advanced]
          cases tokensAt s stop <;> rfl
        · rw [dif_neg advanced, if_neg advanced]

theorem tokensAt_of_scan {s : String} {before cs rest : List Char} {c : Char} {t : Token}
    (same : s.toList = before ++ c :: cs) (visible : isBlank c = false)
    (scanned : Token.scan c cs = .ok (t, rest)) :
    tokensAt s (utf8Len before) =
      (tokensAt s (utf8Len before + t.spelling.length)).map (⟨utf8Len before, t⟩ :: ·) := by
  obtain ⟨d, ds, spelling, _⟩ := Token.exists_spelling_eq_cons (Token.wellSpelled_of_scan scanned)
  have advanced : utf8Len before < utf8Len before + t.spelling.length := by
    rw [spelling, List.length_cons]
    omega
  rw [tokensAt_of_some (byte?_of_append same), isBlank_firstByte, if_neg (by simp [visible]),
    tokenAt_of_append same, scanned]
  exact if_pos advanced

/-- The tokens that are found in the bytes are those that are found in the characters. -/
theorem tokensAt_of_append {s : String} {before cs : List Char} (same : s.toList = before ++ cs) :
    tokensAt s (utf8Len before) =
      (tokensFrom (utf8Len before) cs).mapError fun e => .unreadable e.1 e.2 := by
  -- The offset counts bytes here and characters there; both advance over ASCII characters only.
  generalize place : utf8Len before = offset
  fun_induction tokensFrom offset cs generalizing before with
  | case1 offset =>
    subst place
    exact tokensAt_of_none (byte?_of_append same)
  | case2 offset c rest blank inductionHypothesis =>
    subst place
    have ascii : c.toNat ≤ 127 := (Token.toNat_of_isBlank blank).trans (by decide)
    rw [tokensAt_of_some (byte?_of_append same), isBlank_firstByte, if_pos blank]
    have further : s.toList = (before ++ [c]) ++ rest := by simp [same]
    exact inductionHypothesis further (utf8Len_append_of_ascii (by simpa using ascii))
  | case3 offset c rest visible problem scanned =>
    subst place
    rw [tokensAt_of_some (byte?_of_append same), isBlank_firstByte, if_neg visible,
      tokenAt_of_append same, scanned]
    rfl
  | case4 offset c rest visible t rest' scanned e failed inductionHypothesis
  | case5 offset c rest visible t rest' scanned ts found inductionHypothesis =>
    subst place
    have whole : s.toList = (before ++ t.spelling) ++ rest' := by
      rw [same, (Token.scan_eq_ok scanned).1, List.append_assoc]
    have ascii : ∀ d ∈ t.spelling, d.toNat ≤ 127 := fun d member =>
      (Token.toNat_of_mem_spelling (Token.wellSpelled_of_scan scanned) d member).2
    rw [tokensAt_of_scan same (by simpa using visible) scanned,
      inductionHypothesis whole (utf8Len_append_of_ascii ascii)]
    first | rw [failed] | rw [found]
    rfl

end ByteLexer

namespace Formula

theorem tokenizeBytes_eq (s : String) : tokenizeBytes s = tokenize s := by
  have found := ByteLexer.tokensAt_of_append (show s.toList = [] ++ s.toList from rfl)
  rw [String.utf8Len_nil] at found
  rw [tokenizeBytes, tokenize, found]
  cases tokensFrom 0 s.toList <;> rfl

theorem parseBytes_eq (s : String) : parseBytes s = parse s := by
  rw [parseBytes, parse, tokenizeBytes_eq]

end Formula

end MarkovCheck
