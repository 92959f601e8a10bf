import MarkovCheck.Chain.Basic

/-!
# Chains as texts

* `Chain.text`: one line for each state and each transition
* `Chain.dot`: the chain as a graph in the DOT language. Names and labels stand inside quoted
  strings, where `escapeDot` protects backslashes and quotes.
* `Chain.dotWithin`: the same, refused when a probability would need too many decimal places
-/

namespace MarkovCheck

def Transition.text (t : Transition Float) : String :=
  idText t.source ++ " -- " ++ Decimal.plain.text t.probability ++ " --> " ++ idText t.target

def replaceChar (old : Char) (new cs : List Char) : List Char :=
  cs.flatMap fun c => if c = old then new else [c]

/-- Protects what would end or distort a quoted DOT string by a backslash: the backslashes first,
since the quotes bring further ones. -/
def escapeDot (cs : List Char) : List Char :=
  replaceChar '"' ['\\', '"'] (replaceChar '\\' ['\\', '\\'] cs)

structure DotStyle where
  shape : String
  highlightColor : String
  rankdir : String
  showLabels : Bool
  precision : Nat

/-- The largest number of decimal places that can be asked for. -/
def DotStyle.maxPrecision : Nat := 65535

/-- Circles from left to right, highlighted in light blue, with labels and four decimal places. -/
def DotStyle.default : DotStyle := ⟨"circle", "lightblue", "LR", true, 4⟩

namespace Chain

/-- One line for each state with its labels, then one for each transition. -/
def text (c : Chain Float) : String :=
  let stateLine (s : State) : String :=
    let labels :=
      if s.labels.isEmpty then ""
      else " " ++ Text.enclosed "\x7b" "\x7d" (s.labels.map Text.quoted)
    "  " ++ s.name ++ labels ++ "\n"
  "DTMC\n" ++ String.join (c.states.toList.map stateLine)
    ++ String.join (c.transitions.map fun t => "  " ++ t.text ++ "\n")

/-- What stands between the quotes of a state's label: the name, and the labels on a line below. -/
def dotLabel (style : DotStyle) (s : State) : List Char :=
  escapeDot s.name.toList ++
    if style.showLabels && !s.labels.isEmpty then
      ['\\', 'n', '\x7b'] ++ escapeDot (", ".intercalate s.labels).toList ++ ['\x7d']
    else []

/-- The line of a state, filled if it is highlighted. -/
def dotState (style : DotStyle) (highlight : Option StateSet) (s : State) : String :=
  let filled := match highlight with
    | some set => set.contains s.id
    | none => false
  toString s.id ++ " [label=\"" ++ String.ofList (dotLabel style s) ++ "\""
    ++ (if filled then ", style=filled, fillcolor=" ++ style.highlightColor else "") ++ "];\n"

def dotTransition (style : DotStyle) (t : Transition Float) : String :=
  toString t.source ++ " -> " ++ toString t.target ++ " [label=\""
    ++ Decimal.fixed style.precision t.probability ++ "\"];\n"

/-- The chain in the DOT language, the given states highlighted. -/
def dot (c : Chain Float) (highlight : Option StateSet) (style : DotStyle) : String :=
  "digraph \x7b\nrankdir=" ++ style.rankdir ++ ";\nnode [shape=" ++ style.shape ++ "];\n"
    ++ String.join (c.states.toList.map (dotState style highlight))
    ++ (match c.initial with
      | some s => "init [shape=point, style=invis];\ninit -> " ++ toString s ++ ";\n"
      | none => "")
    ++ String.join (c.transitions.map (dotTransition style)) ++ "\x7d\n"

/-- The chain in the DOT language. To ask for too many decimal places is a misuse, which shows with
the first probability that is written. -/
def dotWithin (c : Chain Float) (highlight : Option StateSet) (style : DotStyle) :
    Except (Error Float) String :=
  if style.precision ≤ DotStyle.maxPrecision || c.transitions.isEmpty then
    .ok (c.dot highlight style)
  else .error .misuse

end Chain

end MarkovCheck
