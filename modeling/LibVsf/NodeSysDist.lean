import LibVsf.NodeTestDist
import LibVsf.StrTools

/-!
# `NodeSysDist`: the distances between NUMA nodes that the system states

`host/static/node_sys_dist.cpp`. The distances are those of `numactl --hardware`, which prints them
after a line `node distances:`, one line for each node. They are kept by position and looked up by
position.

What the command prints is read by `fgets` into a buffer of 1024 bytes, and each part is then used
as a string. What is kept is taken apart by `StrTools.split`, so that fewer than 2³¹ characters are
assumed.
-/

namespace LibVsf

/-- `matrix[i][j]`; `none` out of range. -/
def Matrix.entry (matrix : Matrix) (i j : Int) : Option Int :=
  if 0 ≤ i ∧ 0 ≤ j then do
    let row ← matrix[i.toNat]?
    row[j.toNat]?
  else none

structure NodeSysDist where
  nodeSysDist : Matrix := []
  hasData : Bool := false
deriving DecidableEq, Inhabited

namespace NodeSysDist

def bufSize : Nat := 1024

/-- The line after which what is read belongs to the distances. -/
def distLine : List Char := "node distances:".toList

/-- The loop over the strings that `fgets` leaves in the buffer. -/
def readDist : List (List Char) → Bool → List Char → List Char
  | [], _, res => res
  | buf :: bufs, distFlag, res =>
    readDist bufs (distFlag || buf = distLine ++ ['\n']) (if distFlag then res ++ buf else res)

/-- A line of the distances, which starts with the id of its node. -/
def distRow (line : List Char) : List Int := ((StrTools.split line ' ').drop 1).map Text.atoi

/-- The rows after the first line. Without one the iterator over the lines is moved past their end,
which is undefined: `none`. -/
def parseDist (res : List Char) : Option Matrix :=
  match StrTools.split res '\n' with
  | [] => none
  | _ :: lines => some (lines.map distRow)

/-- `get_node_sys_dist()`, with what `numactl --hardware` prints, or `none` if `popen` gives
`NULL`. -/
def getNodeSysDist (s : NodeSysDist) (numactl : Option (List Char)) :
    Option (NodeSysDist × Matrix) :=
  if s.hasData then some (s, s.nodeSysDist)
  else
    match numactl with
    | none => some ({ nodeSysDist := [], hasData := true }, [])
    | some text => do
      let dist ← parseDist (readDist ((Text.buffered bufSize text).map Text.cString) false [])
      return ({ nodeSysDist := dist, hasData := true }, dist)

/-- The overload that returns one entry. -/
def getNodeSysDistOf (s : NodeSysDist) (numactl : Option (List Char)) (nodeId₀ nodeId₁ : Int) :
    Option Int := do
  let (_, dist) ← s.getNodeSysDist numactl
  dist.entry nodeId₀ nodeId₁

def clear (_ : NodeSysDist) : NodeSysDist := {}

/-- `refresh`, which drops the matrix. -/
def refresh (s : NodeSysDist) (numactl : Option (List Char)) : Option NodeSysDist :=
  (s.getNodeSysDist numactl).map Prod.fst

end NodeSysDist

end LibVsf
