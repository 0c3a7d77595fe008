import Mathlib.Data.Rat.Defs

/-!
# `NodeTestDist`: the measured distances between NUMA nodes

Following `node_test_dist.cpp`. A distance is measured by running `microbench` with its cpus
bound to one node and its memory to another; the figure is ten times the time taken, relative
to the row's local access time. The parameters of the benchmark can be configured, and the
matrix of one measurement is kept and returned again while they stay the same.

What the calls out of the library give (`NodeCpu::get_node_num`, `popen` and what the command
prints) is a `Bench`, one for each measurement.
-/

namespace LibVsf

/-! ## Parameters -/

/-- `struct MicroParam`, with the defaults of its default constructor. -/
structure MicroParam where
  path : String := "."
  sizeInMb : Int := 20
  type : Char := 'r'
  loop : Int := 200
deriving DecidableEq, Repr, Inhabited

/-- The command line of one measurement. -/
def MicroParam.command (p : MicroParam) (cpu mem : Nat) : String :=
  "numactl --cpunodebind=" ++ toString cpu ++ " --membind=" ++ toString mem ++ " " ++ p.path ++
    "/microbench -wb " ++ toString p.sizeInMb ++ "m -wt " ++ p.type.toString ++ " -l " ++
    toString p.loop

/-! ## Measurements -/

/-- The outside world during one measurement. -/
structure Bench where
  /-- `NodeCpu::get_node_num`, or `none` if it throws. -/
  nodeNum : Option Nat
  /-- The time a command line prints, or `none` if `popen` gives `NULL`. -/
  popen : String → Option ℚ
  /-- What the variable `base_time` of a row holds before it is assigned. -/
  baseTime : Nat → ℚ

abbrev Matrix := List (List Int)

/-- `(int)`, of a `double`. -/
def truncate (q : ℚ) : Int := q.num.tdiv q.den

/-- One row, from the entry `mem` on: `base_time` is assigned when the loop meets the diagonal.
`none` is the early `return` on a failed `popen`. -/
def Bench.row (b : Bench) (p : MicroParam) (cpu : Nat) :
    List Nat → ℚ → List Int → Option (List Int)
  | [], _, row => some row
  | mem :: mems, baseTime, row =>
    match b.popen (p.command cpu mem) with
    | none => none
    | some time =>
      let baseTime := if mem = cpu then time else baseTime
      b.row p cpu mems baseTime (row ++ [truncate (time / baseTime * 10)])

/-- The rows from `cpus` on; a failed row ends the measurement with the rows so far. -/
def Bench.rows (b : Bench) (p : MicroParam) (nodeSize : Nat) : List Nat → Matrix → Matrix
  | [], dist => dist
  | cpu :: cpus, dist =>
    match b.row p cpu (List.range nodeSize) (b.baseTime cpu) [] with
    | none => dist
    | some row => b.rows p nodeSize cpus (dist ++ [row])

/-- What a measurement under `p` leaves in `node_test_dist_`. -/
def Bench.measure (b : Bench) (p : MicroParam) : Matrix :=
  match b.nodeNum with
  | none => []
  | some nodeSize => b.rows p nodeSize (List.range nodeSize) []

/-! ## The class -/

structure NodeTestDist where
  nodeTestDist : Matrix := []
  hasData : Bool := false
  param : MicroParam := {}
  lastParam : MicroParam := {}
deriving DecidableEq, Inhabited

namespace NodeTestDist

def setParam (s : NodeTestDist) (p : MicroParam) : NodeTestDist :=
  { s with lastParam := s.param, param := p }

def clearParam (s : NodeTestDist) : NodeTestDist := { s with param := {} }

def clear (s : NodeTestDist) : NodeTestDist := { s with nodeTestDist := [], hasData := false }

/-- The test of `get_node_test_dist` under the shared lock: the stored matrix can be returned. -/
def Cached (s : NodeTestDist) : Prop := s.hasData = true ∧ s.lastParam = s.param

instance (s : NodeTestDist) : Decidable s.Cached := by unfold Cached; infer_instance

/-- The state in which a call that has to measure leaves the object, also if it throws. -/
def remeasure (s : NodeTestDist) (b : Bench) : NodeTestDist :=
  { s with hasData := true, lastParam := s.param, nodeTestDist := b.measure s.param }

/-- `get_node_test_dist()`. The returned matrix is `none` if the call throws. -/
def getNodeTestDist (s : NodeTestDist) (b : Bench) : NodeTestDist × Option Matrix :=
  if s.Cached then (s, some s.nodeTestDist)
  else (s.remeasure b, b.nodeNum.map fun _ => b.measure s.param)

/-- `refresh`, which drops the matrix. -/
def refresh (s : NodeTestDist) (b : Bench) : NodeTestDist := (s.getNodeTestDist b).1

/-! ## Operations -/

/-- The operations of the class. `getNodeTestDist` also stands for the overload that returns one
entry of the matrix. -/
inductive Op where
  | setParam (p : MicroParam)
  | clearParam
  | clear
  | refresh (b : Bench)
  | getNodeTestDist (b : Bench)

def step (s : NodeTestDist) : Op → NodeTestDist
  | .setParam p => s.setParam p
  | .clearParam => s.clearParam
  | .clear => s.clear
  | .refresh b => s.refresh b
  | .getNodeTestDist b => (s.getNodeTestDist b).1

/-- The bench of an operation that may measure. -/
def Op.bench? : Op → Option Bench
  | .refresh b | .getNodeTestDist b => some b
  | _ => none

end NodeTestDist

end LibVsf
