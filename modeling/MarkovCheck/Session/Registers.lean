import MarkovCheck.Session.Table
import MarkovCheck.StateSet.Basic

/-!
# Calculating with sets in registers

Registers are named sets of states, empty until something is stored in them. A command reads
registers, stores a result, or inspects.
-/

namespace MarkovCheck

inductive SetExpr where
  | empty
  | withCapacity (n : Nat)
  | full (n : Nat)
  | ofList (ids : List Nat)
  | extend (a : String) (ids : List Nat)
  | union (a b : String)
  | inter (a b : String)
  | diff (a b : String)
  | complement (a : String) (n : Nat)

inductive SetCommand where
  | store (target : String) (e : SetExpr)
  | insert (a : String) (id : Nat)
  | contains (a : String) (ids : List Nat)
  | equal (a b : String)
  | text (a : String)
  | taggedText (a : String)

inductive SetReply where
  | set (s : StateSet)
  | inserted (fresh : Bool) (s : StateSet)
  | flags (bs : List Bool)
  | flag (b : Bool)
  | text (s : String)

abbrev Registers := Table StateSet

namespace Registers

def read (r : Registers) (name : String) : StateSet := (r.find? name).getD StateSet.empty

def value (r : Registers) : SetExpr → StateSet
  | .empty => StateSet.empty
  | .withCapacity n => StateSet.withCapacity n
  | .full n => StateSet.full n
  | .ofList ids => StateSet.ofList ids
  | .extend a ids => (r.read a).extend ids
  | .union a b => (r.read a).union (r.read b)
  | .inter a b => (r.read a).inter (r.read b)
  | .diff a b => (r.read a).diff (r.read b)
  | .complement a n => (r.read a).complement n

def run (r : Registers) : SetCommand → SetReply × Registers
  | .store target e =>
    let s := r.value e
    (.set s, r.put target s)
  | .insert a id =>
    let (fresh, s) := (r.read a).insertNew id
    (.inserted fresh s, r.put a s)
  | .contains a ids => (.flags (ids.map (r.read a).contains), r)
  | .equal a b => (.flag (r.read a == r.read b), r)
  | .text a => (.text (r.read a).text, r)
  | .taggedText a => (.text (r.read a).taggedText, r)

/-- Carries out commands in order, starting with empty registers. -/
def runAll (commands : List SetCommand) : List SetReply :=
  go Table.empty commands
where
  /-- Continues from the given registers. -/
  go (r : Registers) : List SetCommand → List SetReply
    | [] => []
    | command :: rest =>
      let (reply, r') := r.run command
      reply :: go r' rest

end Registers

end MarkovCheck
