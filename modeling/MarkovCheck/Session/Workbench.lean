import MarkovCheck.Matrix.Elimination

/-!
# Calculating with a matrix

A workbench holds one matrix. Commands inspect it, combine it with others, or change an entry; a
command that fails leaves it as it is.

Here indices and sizes come from outside, so they may be too large for a machine. A row ends where
the next one begins, so the next index has to stay below `indexLimit`; a matrix or a vector has to
hold fewer than `entryLimit` numbers. To ask for anything else is a misuse.
-/

namespace MarkovCheck

/-- The first number that is too large for an index of 64 bits. -/
def indexLimit : Nat := 18446744073709551616

/-- The first number of 64-bit entries that do not fit in 2^63 - 1 bytes. -/
def entryLimit : Nat := 1152921504606846976

/-- Where the matrix on the workbench comes from. -/
inductive MatrixSource where
  | rows (entries : List (List Float))
  | identity (n : Nat)
  | zeros (r c : Nat)

def MatrixSource.matrix : MatrixSource → Except (Error Float) (Matrix Float)
  | rows entries => Matrix.ofRows entries
  | identity n => if n * n < entryLimit then .ok (Matrix.identity n) else .error .misuse
  | zeros r c => if r * c < entryLimit then .ok (Matrix.zeros r c) else .error .misuse

inductive MatrixCommand where
  | get (i j : Nat)
  | set (i j : Nat) (a : Float)
  | row (i : Nat)
  | vecMul (v : Array Float)
  | mulVec (v : Array Float)
  | mul (other : List (List Float))
  | pow (k : Nat)
  | submatrix (rows cols : Array Nat)
  | solve (b : Array Float)
  | equal (other : List (List Float))
  | text

inductive MatrixReply where
  | matrix (m : Matrix Float)
  | vector (v : List Float)
  | number (a : Float)
  | flag (b : Bool)
  | text (s : String)

namespace Workbench

/-- Carries out a command on a matrix; the second component is the matrix afterwards. -/
def run (m : Matrix Float) : MatrixCommand → Except (Error Float) MatrixReply × Matrix Float
  | .get i j => (MatrixReply.number <$> m.get i j, m)
  | .set i j a =>
    match m.set i j a with
    | .ok m' => (.ok (.matrix m'), m')
    | .error e => (.error e, m)
  | .row i =>
    (if i + 1 < indexLimit then MatrixReply.vector <$> m.row i else .error .misuse, m)
  | .vecMul v =>
    (if m.cols < entryLimit then (fun w => .vector w.toList) <$> m.vecMul v
      else .error .misuse, m)
  | .mulVec v => ((fun w => .vector w.toList) <$> m.mulVec v, m)
  | .mul other => (Matrix.ofRows other >>= fun k => MatrixReply.matrix <$> m.mul k, m)
  | .pow k => (MatrixReply.matrix <$> m.pow k, m)
  | .submatrix rows cols => (MatrixReply.matrix <$> m.submatrix rows cols, m)
  | .solve b => ((fun x => .vector x.toList) <$> m.solve b, m)
  | .equal other => ((fun k => .flag (m.equal k)) <$> Matrix.ofRows other, m)
  | .text => (.ok (.text m.text), m)

def runAll (m : Matrix Float) : List MatrixCommand → List (Except (Error Float) MatrixReply)
  | [] => []
  | command :: rest =>
    let (reply, m') := run m command
    reply :: runAll m' rest

end Workbench

end MarkovCheck
