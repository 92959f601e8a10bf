import MarkovCheck.Session.Command
import MarkovCheck.Session.Table

/-!
# Running a session

A session starts with one chain without states. Commands are carried out in order; one that fails
answers with its error, and the session continues with what the command had done before it failed.
The identity of a chain is its index, and the parts of formulas get their identities from a counter
that never goes back.
-/

namespace MarkovCheck

structure Session where
  chains : Array (Chain Float)
  freshNode : Nat
  memo : Memo Float
  formulas : Table (Node.Any Float)
  distributions : Table (Distribution Float)
  /-- Of the signals given so far, how often the next computation asks for them in vain. -/
  signals : Table Nat

/-- Steps of a session: they can fail, and a failure does not undo what was done. -/
abbrev SessionM := ExceptT (Error Float) (StateM Session)

namespace Session

def start : Session := ⟨#[Chain.empty 0], 0, Memo.empty, Table.empty, Table.empty, Table.empty⟩

/-- A result that does not depend on the session. -/
def lift {β : Type} (r : Except (Error Float) β) : SessionM β := ExceptT.mk (pure r)

def require {β : Type} : Option β → SessionM β
  | some b => pure b
  | none => throw .misuse

def chain (c : Nat) : SessionM (Chain Float) := do
  let session ← get
  require session.chains[c]?

def setChain (c : Nat) (chain : Chain Float) : SessionM Unit :=
  modify fun s => { s with chains := s.chains.setIfInBounds c chain }

/-- Adds a chain made from its identity, which is its index. -/
def addChain (make : Nat → Chain Float) : SessionM Nat := do
  let session ← get
  let id := session.chains.size
  set { session with chains := session.chains.push (make id) }
  return id

def node (f : String) : SessionM (Node.Any Float) := do
  let session ← get
  require (session.formulas.find? f)

def distribution (d : String) : SessionM (Distribution Float) := do
  let session ← get
  require (session.distributions.find? d)

def keepDistribution (name : Option String) (d : Distribution Float) : SessionM Unit :=
  match name with
  | some n => modify fun s => { s with distributions := s.distributions.put n d }
  | none => pure ()

def signalled (s : Session) (name : String) : Bool := s.signals.find? name == some 0

/-- Gives a signal so that the next computation finds it after asking that often in vain, or earlier
if that was going to be. -/
def giveSignal (s : Session) (name : String) (polls : Nat) : Session :=
  { s with signals := s.signals.put name (((s.signals.find? name).getD polls).min polls) }

/-- How often the next computation asks for a signal in vain. Whether it asks that often or not, the
ones after it find the signal at once. -/
def takeSignal (name : String) : SessionM (Option Nat) := do
  let session ← get
  match session.signals.find? name with
  | some polls =>
    set { session with signals := session.signals.put name 0 }
    return some polls
  | none => return none

/-- The settings with the defaults filled in and the stop signal looked up. -/
def options (settings : Settings) : SessionM (Options Float) := do
  let cancelledAfter ← match settings.signal with
    | some name => takeSignal name
    | none => pure none
  let base : Options Float := Options.default
  return {
    method := settings.method.getD base.method
    tolerance := settings.tolerance.getD base.tolerance
    maxIterations := settings.maxIterations.getD base.maxIterations
    cancelledAfter := cancelledAfter }

def addState (c : Nat) (name : Option String) (labels : List String) : SessionM Nat := do
  let (id, chain') := (← chain c).addState name labels
  setChain c chain'
  return id

def addTransition (c : Nat) (source target : Nat) (p : Float) :
    SessionM (Transition Float) := do
  let (t, chain') ← lift ((← chain c).addTransition source target p)
  setChain c chain'
  return t

/-- Evaluates a node with the memory of the session. -/
def evaluate {k : Kind} (c : Chain Float) (o : Options Float) (n : Node Float k) :
    SessionM (Value Float k) := do
  let session ← get
  let (result, memo) := (n.evaluate c o).run session.memo.newCall
  set { session with memo := memo }
  lift result

def makeNode : FormulaSource → SessionM (Node.Any Float)
  | .text s => do fromFormula (← lift (Formula.parse s))
  | .tree f => fromFormula f
  | .invalid e => throw e
  | .operator op => do
    let resolved ← resolve op
    let session ← get
    let n ← lift (resolved.node session.freshNode)
    set { session with freshNode := session.freshNode + 1 }
    return n
where
  /-- Gives fresh identities to all parts of a formula. -/
  fromFormula (f : Formula.Any Float) : SessionM (Node.Any Float) := do
    let session ← get
    let (n, fresh) := Node.Any.ofFormula session.freshNode f
    set { session with freshNode := fresh }
    return n
  /-- Looks up the names under an operator. -/
  resolve : Operator Float String → SessionM (Operator Float (Node.Any Float))
    | .top => return .top
    | .bot => return .bot
    | .atom label => return .atom label
    | .and lhs rhs => return .and (← node lhs) (← node rhs)
    | .or lhs rhs => return .or (← node lhs) (← node rhs)
    | .not arg => return .not (← node arg)
    | .prob bounds path => return .prob bounds (← node path)
    | .next arg => return .next (← node arg)
    | .strongUntil lhs rhs bound => return .strongUntil (← node lhs) (← node rhs) bound

def overviewOf (c : Chain Float) : Overview :=
  ⟨c.states.toList, c.transitions, c.initial, c.allStates, c.version⟩

/-- The graph-theoretical properties of a chain. -/
def anatomyOf (c : Chain Float) : Anatomy :=
  let states := List.range c.size
  ⟨c.isIrreducible, c.isAperiodic, c.isErgodic, states.map c.periodOwn,
    states.map c.componentOwn⟩

def run : Command → SessionM Reply
  | .newChain => return .index (← addChain Chain.empty)
  | .duplicate c => do
    let source ← chain c
    return .index (← addChain source.duplicate)
  | .addState c name labels => return .index (← addState c name labels)
  | .addLabel c s label => do
    let chain' ← lift ((← chain c).addLabel s label)
    setChain c chain'
    return .version chain'.version
  | .addTransition c source target p => return .transition (← addTransition c source target p)
  | .setInitial c s => do
    let chain' ← lift ((← chain c).setInitial s)
    setChain c chain'
    return .version chain'.version
  | .build c states edges => do
    states.forM fun (name, labels) => discard (addState c name labels)
    edges.forM fun (source, target, p) => discard (addTransition c source target p)
    let built ← chain c
    return .built built.size built.transitions.length built.version
  | .overview c => return .overview (overviewOf (← chain c))
  | .text c => return .text (← chain c).text
  | .state c s => return .state? ((← chain c).state? s)
  | .hasLabel c s label => do
    let state ← (·.state? s) <$> chain c
    return .flag? (state.map fun st => st.labels.contains label)
  | .idOf c name => return .index? ((← chain c).idOf? name)
  | .successors c s => return .texts (((← chain c).successors s).map Transition.text)
  | .probability c source target => return .number ((← chain c).probability source target)
  | .labelled c label => return .set ((← chain c).labelled label)
  | .matrix c => do
    let kept := (← chain c).keepMatrix
    setChain c kept
    return .matrix kept.transitionMatrix kept.matrix?.isSome
  | .validate c tolerance => do
    lift ((← chain c).validate (tolerance.getD Chain.defaultTolerance))
    return .done
  | .checkStates c set => do
    lift ((← chain c).checkStates set)
    return .done
  | .sameKey a b => return .flag (decide ((← chain a).key = (← chain b).key))
  | .sameState a b => do
    let s := (← chain a.1).state? a.2
    let t := (← chain b.1).state? b.2
    return .flag (decide (s.map State.id = t.map State.id))
  | .dot c highlight style => do return .text (← lift ((← chain c).dotWithin highlight style))
  | .reachableFrom c s => return .set ((← chain c).reachableFrom s)
  | .reaching c s => do return .set (← lift ((← chain c).reaching s))
  | .component c s => do return .set (← lift ((← chain c).component s))
  | .period c s => do return .index? (← lift ((← chain c).period s))
  | .anatomy c => return .anatomy (anatomyOf (← chain c))
  | .canReach c goal avoid => do return .set (← lift ((← chain c).canReach goal avoid))
  | .reach c goal forbidden steps settings => do
    let o ← options settings
    return .numbers (← lift ((← chain c).reachability goal forbidden steps o))
  | .cancel name => do
    let before := (← get).signalled name
    modify fun s => s.giveSignal name 0
    return .signal before true
  | .cancelAfter name polls => do
    modify fun s => s.giveSignal name polls
    return .done
  | .distribution c source name => do
    let target ← chain c
    let d ← lift <| match source with
      | .dense masses => Distribution.dense target masses
      | .masses masses => Distribution.ofMasses target masses
      | .point s => Distribution.point target s
    keepDistribution name d
    return .numbers d
  | .transient c steps start name => do
    let source ← chain c
    let d ← match start with
      | some n => do
        let d₀ ← distribution n
        lift (source.transient steps d₀)
      | none => lift (source.transientFromInitial steps)
    keepDistribution name d
    return .numbers d
  | .total d => return .number (← distribution d).total
  | .massOf d set => return .number ((← distribution d).massOf set)
  | .massAt d s => do return .number (← lift ((← distribution d).massAt s))
  | .formula name source => do
    let n ← makeNode source
    modify fun s => { s with formulas := s.formulas.put name n }
    return .formula n.formula
  | .check c f settings => do
    let φ ← lift (← node f).toState
    let o ← options settings
    return .set (← evaluate (← chain c) o φ)
  | .holdsInitially c f => do
    let φ ← lift (← node f).toState
    let subject ← chain c
    match subject.initial with
    | none => throw .noStates
    | some s =>
      let sat ← evaluate subject Options.default φ
      return .flag (StateSet.contains sat s)
  | .path c f settings => do
    let ψ ← lift (← node f).toPath
    let o ← options settings
    let v ← evaluate (← chain c) o ψ
    return .probabilities (!(← get).memo.computed.contains ψ.id) v
  | .pathAt c f s => do
    let ψ ← lift (← node f).toPath
    let v ← evaluate (← chain c) Options.default ψ
    match v[s]? with
    | some p => return .number p
    | none => throw (.foreignState s)
  | .cached f => do
    let n ← node f
    let memo := (← get).memo
    return match n.kind with
      | .state => (memo.find? .state n.node.id).elim .nothing fun e => .set e.value
      | .path => (memo.find? .path n.node.id).elim .nothing fun e => .numbers e.value
  | .reset f => do
    let n ← node f
    modify fun s => { s with memo := n.node.forget s.memo }
    return .done

def runAll (s : Session) : List Command → List (Except (Error Float) Reply)
  | [] => []
  | command :: rest =>
    let (reply, s') := (run command).run s
    reply :: s'.runAll rest

end Session

end MarkovCheck
