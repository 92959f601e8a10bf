import Mathlib.Data.List.Basic
import MarkovCheck.Chain.Text

/-!
# Labels of drawn states stay inside their quotes

The label of a state is written between quotes. A reader for whom a backslash protects the character
after it finds the closing quote where it was written, whatever characters the name and the labels
of the state have, and what it finds before spells them.

* `readQuoted`: the text up to the first quote that is not protected
* `Piece`, `unescape`: what a protected text spells
* `unescape_escapeDot`: protecting a text is undone by reading it
* `Chain.dot_label`: the labels of a drawn chain
-/

namespace MarkovCheck

/-! ## Reading quoted texts -/

/-- What stands before the first quote that no backslash protects, and what stands after it. -/
def readQuoted : List Char → Option (List Char × List Char)
  | [] => none
  | c :: cs =>
    if c = '"' then some ([], cs)
    else if c = '\\' then
      match cs with
      | [] => none
      | d :: ds => (readQuoted ds).map fun read => (c :: d :: read.1, read.2)
    else (readQuoted cs).map fun read => (c :: read.1, read.2)

/-- A character of a label, or the end of a line in it. -/
inductive Piece where
  | char (c : Char)
  | lineBreak
  deriving DecidableEq

def Piece.ofProtected? (c : Char) : Option Piece :=
  if c = '\\' ∨ c = '"' then some (.char c)
  else if c = 'n' then some .lineBreak
  else none

/-- What a text spells in which backslashes protect characters. -/
def unescape : List Char → Option (List Piece)
  | [] => some []
  | c :: cs =>
    if c = '\\' then
      match cs with
      | [] => none
      | d :: ds =>
        match Piece.ofProtected? d with
        | some piece => (unescape ds).map (piece :: ·)
        | none => none
    else (unescape cs).map (.char c :: ·)

theorem readQuoted_quote (cs : List Char) : readQuoted ('"' :: cs) = some ([], cs) := by
  rw [readQuoted.eq_def]
  rfl

theorem readQuoted_protected (c : Char) (cs : List Char) :
    readQuoted ('\\' :: c :: cs) =
      (readQuoted cs).map fun read => ('\\' :: c :: read.1, read.2) := by
  rw [readQuoted.eq_def]
  rfl

theorem readQuoted_plain {c : Char} (plain : ¬ (c = '\\' ∨ c = '"')) (cs : List Char) :
    readQuoted (c :: cs) = (readQuoted cs).map fun read => (c :: read.1, read.2) := by
  obtain ⟨noBackslash, noQuote⟩ := not_or.mp plain
  rw [readQuoted.eq_def]
  simp only [if_neg noBackslash, if_neg noQuote]

theorem unescape_protected {c : Char} {piece : Piece} (spells : Piece.ofProtected? c = some piece)
    (cs : List Char) : unescape ('\\' :: c :: cs) = (unescape cs).map (piece :: ·) := by
  rw [unescape]
  simp only [if_pos, spells]

theorem unescape_plain {c : Char} (noBackslash : c ≠ '\\') (cs : List Char) :
    unescape (c :: cs) = (unescape cs).map (.char c :: ·) := by
  rw [unescape.eq_def]
  simp only [if_neg noBackslash]

/-! ## Protected texts -/

/-- Both replacements together: the second one leaves the backslashes of the first. -/
theorem escapeDot_cons (c : Char) (cs : List Char) :
    escapeDot (c :: cs) = (if c = '\\' ∨ c = '"' then ['\\', c] else [c]) ++ escapeDot cs := by
  by_cases backslash : c = '\\'
  · subst backslash
    rfl
  · by_cases quote : c = '"'
    · subst quote
      rfl
    · simp [escapeDot, replaceChar, backslash, quote]

/-- A reader passes over a protected text. -/
theorem readQuoted_escapeDot (cs rest : List Char) :
    readQuoted (escapeDot cs ++ rest) =
      (readQuoted rest).map fun read => (escapeDot cs ++ read.1, read.2) := by
  induction cs with
  | nil => simp [escapeDot, replaceChar]
  | cons c cs inductionHypothesis =>
    rw [escapeDot_cons]
    -- A protected character is passed over together with its backslash.
    split
    · rw [List.append_assoc, List.cons_append, List.singleton_append, readQuoted_protected,
        inductionHypothesis, Option.map_map]
      rfl
    · next plain =>
      rw [List.append_assoc, List.singleton_append, readQuoted_plain plain, inductionHypothesis,
        Option.map_map]
      rfl

/-- A protected text spells the text, whatever comes after it. -/
theorem unescape_escapeDot (cs rest : List Char) :
    unescape (escapeDot cs ++ rest) = (unescape rest).map (cs.map .char ++ ·) := by
  induction cs with
  | nil => simp [escapeDot, replaceChar]
  | cons c cs inductionHypothesis =>
    rw [escapeDot_cons]
    split
    · next special =>
      rw [List.append_assoc, List.cons_append, List.singleton_append,
        unescape_protected (if_pos special), inductionHypothesis, Option.map_map]
      rfl
    · next plain =>
      rw [List.append_assoc, List.singleton_append, unescape_plain (not_or.mp plain).1,
        inductionHypothesis, Option.map_map]
      rfl

namespace Chain

/-- What the label of a state spells: its name, and its labels in braces on a line below. -/
def labelPieces (style : DotStyle) (s : State) : List Piece :=
  s.name.toList.map .char ++
    if style.showLabels = true ∧ s.labels ≠ [] then
      .lineBreak :: (['\x7b'] ++ (", ".intercalate s.labels).toList ++ ['\x7d']).map .char
    else []

theorem readQuoted_dotLabel (style : DotStyle) (s : State) (rest : List Char) :
    readQuoted (dotLabel style s ++ '"' :: rest) = some (dotLabel style s, rest) := by
  rw [dotLabel]
  split
  · simp only [List.append_assoc, readQuoted_escapeDot, List.cons_append, List.nil_append,
      readQuoted_protected]
    rw [readQuoted_plain (by decide), readQuoted_escapeDot, readQuoted_plain (by decide),
      readQuoted_quote]
    rfl
  · rw [List.append_nil, readQuoted_escapeDot, readQuoted_quote]
    simp

theorem unescape_dotLabel (style : DotStyle) (s : State) :
    unescape (dotLabel style s) = some (labelPieces style s) := by
  have shown : (style.showLabels && !s.labels.isEmpty) = true ↔
      style.showLabels = true ∧ s.labels ≠ [] := by simp
  have lineBreak : Piece.ofProtected? 'n' = some .lineBreak := rfl
  have ends : unescape ['\x7d'] = some [.char '\x7d'] := by decide
  simp only [dotLabel, labelPieces, shown]
  split
  · simp only [List.cons_append, List.nil_append, unescape_escapeDot,
      unescape_protected lineBreak]
    rw [unescape_plain (by decide), unescape_escapeDot, ends]
    simp
  · rw [unescape_escapeDot]
    rfl

/-- The drawing up to the line of a state. -/
def dotBefore (c : Chain Float) (highlight : Option StateSet) (style : DotStyle) (i : Nat) :
    String :=
  "digraph \x7b\nrankdir=" ++ style.rankdir ++ ";\nnode [shape=" ++ style.shape ++ "];\n"
    ++ String.join ((c.states.toList.take i).map (dotState style highlight))

theorem dotState_eq_append (style : DotStyle) (highlight : Option StateSet) (s : State) :
    ∃ closing, dotState style highlight s =
      toString s.id ++ " [label=\"" ++ String.ofList (dotLabel style s) ++ "\"" ++ closing := by
  unfold dotState
  exact ⟨_, String.append_assoc ..⟩

theorem dot_eq_append (c : Chain Float) (highlight : Option StateSet) (style : DotStyle) {i : Nat}
    (inside : i < c.states.size) : ∃ rest, c.dot highlight style =
      c.dotBefore highlight style i ++ dotState style highlight c.states[i] ++ rest := by
  have inside' : i < c.states.toList.length := by simpa using inside
  have parts : c.states.toList =
      c.states.toList.take i ++ c.states[i] :: c.states.toList.drop (i + 1) := by
    rw [← Array.getElem_toList inside', ← List.drop_eq_getElem_cons, List.take_append_drop]
  have regroup (opening before line after initial edges closing : String) :
      opening ++ (before ++ (line ++ after)) ++ initial ++ edges ++ closing =
        opening ++ before ++ line ++ (after ++ initial ++ edges ++ closing) := by
    simp only [String.append_assoc]
  have lines : String.join (c.states.toList.map (dotState style highlight)) =
      String.join ((c.states.toList.take i).map (dotState style highlight)) ++
        (dotState style highlight c.states[i] ++
          String.join ((c.states.toList.drop (i + 1)).map (dotState style highlight))) := by
    conv_lhs => rw [parts, List.map_append, List.map_cons, String.join_append, String.join_cons]
  unfold dot dotBefore
  rw [lines]
  exact ⟨_, regroup _ _ _ _ _ _ _⟩

/-- In a drawn chain, a reader that starts after the opening quote of a state's label finds the
closing quote where it was written, and the label in front of it spells the name of the state and
the labels shown. So if no labels are shown, states with other names have other labels. -/
theorem dot_label {c : Chain Float} {highlight : Option StateSet} {style : DotStyle} {text : String}
    (drawn : c.dotWithin highlight style = .ok text) :
    (∀ i, ∀ inside : i < c.states.size,
      let s := c.states[i]
      let opening := c.dotBefore highlight style i ++ toString s.id ++ " [label=\""
      ∃ closing rest : String,
        dotState style highlight s =
          toString s.id ++ " [label=\"" ++ String.ofList (dotLabel style s) ++ "\"" ++ closing ∧
        text = opening ++ String.ofList (dotLabel style s) ++ "\"" ++ closing ++ rest ∧
        readQuoted (text.toList.drop opening.length) =
          some (dotLabel style s, (closing ++ rest).toList) ∧
        unescape (dotLabel style s) = some (labelPieces style s)) ∧
      ∀ s t : State, style.showLabels = false → s.name ≠ t.name →
        dotLabel style s ≠ dotLabel style t := by
  have same : text = c.dot highlight style := by
    unfold dotWithin at drawn
    split at drawn
    · exact (Except.ok.inj drawn).symm
    · cases drawn
  constructor
  · intro i inside s opening
    obtain ⟨rest, parts⟩ := c.dot_eq_append highlight style inside
    obtain ⟨closing, line⟩ := dotState_eq_append style highlight s
    have whole : text = opening ++ String.ofList (dotLabel style s) ++ "\"" ++ closing ++ rest := by
      rw [same, parts, line]
      simp only [opening, String.append_assoc]
    refine ⟨closing, rest, line, whole, ?_, unescape_dotLabel style s⟩
    have after : text.toList.drop opening.length =
        dotLabel style s ++ '"' :: (closing ++ rest).toList := by
      rw [whole]
      simp [← String.length_toList]
    rw [after, readQuoted_dotLabel]
  · intro s t hidden different alike
    have spelled := unescape_dotLabel style s
    rw [alike, unescape_dotLabel] at spelled
    have names : t.name.toList.map Piece.char = s.name.toList.map Piece.char := by
      simpa [labelPieces, hidden] using spelled
    have injective : Function.Injective Piece.char := fun _ _ => Piece.char.inj
    exact different (String.toList_inj.mp (List.map_injective_iff.mpr injective names)).symm

/-- A name that ends with a backslash, in front of a label with a quote; and the same name with one
more backslash. -/
theorem dot_label_backslash :
    let s : State := ⟨0, "a\\", ["\"", "b"]⟩
    let t : State := ⟨1, "a\\\\", []⟩
    let c : Chain Float := ⟨0, 2, #[s, t], [], none, none⟩
    let style : DotStyle := .default
    let hidden : DotStyle := { style with showLabels := false }
    let opening := c.dotBefore none style 0 ++ toString s.id ++ " [label=\""
    dotLabel style s = ['a', '\\', '\\', '\\', 'n', '\x7b', '\\', '"', ',', ' ', 'b', '\x7d'] ∧
      (∃ rest, readQuoted ((c.dot none style).toList.drop opening.length) =
        some (dotLabel style s, rest)) ∧
      unescape (dotLabel style s) = some (.char 'a' :: .char '\\' :: .lineBreak ::
        ['\x7b', '"', ',', ' ', 'b', '\x7d'].map .char) ∧
      dotLabel hidden s ≠ dotLabel hidden t := by
  intro s t c style hidden opening
  have drawn : c.dotWithin none style = .ok (c.dot none style) := if_pos (by decide)
  have drawn' : c.dotWithin none hidden = .ok (c.dot none hidden) := if_pos (by decide)
  obtain ⟨_, rest, _, _, read, spells⟩ := (dot_label drawn).1 0 (by decide)
  refine ⟨by decide, ⟨_, read⟩, spells.trans (by decide), ?_⟩
  exact (dot_label drawn').2 s t rfl (by decide)

end Chain

end MarkovCheck
