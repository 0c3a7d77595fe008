import LibVsf.VmNodeInfo
import Mathlib.Data.Fintype.Pi

/-!
# `NUMAMaps`: the memory of a process on the nodes

`vm/dynamic/vm_numa_info.cpp`. A line of `/proc/<tgid>/numa_maps` describes a block of memory: its
address and policy, and items that are words or have a key and a value. A count of pages of a node
that is not given is `-1`.

A sum is an `Int` where the program's `int` is not checked for overflow by anything that is proved,
and is reduced to 32 bits for `pages_sum`.
-/

namespace LibVsf

def maxNodeNum : Nat := 8

/-- `enum class NUMAPolicy`. -/
inductive NumaPolicy where
  | default
  | prefer
deriving DecidableEq, Repr

/-- `enum class MemType`. -/
inductive MemType where
  | stack
  | heap
  | wtf
deriving DecidableEq, Repr

/-- `int [MAX_NODE_NUM]`. -/
abbrev PagesOnNode := Fin maxNodeNum → Int

/-- `struct MemBlock`, with the values of its constructor. -/
structure MemBlock where
  address : Nat := 0
  numaPolicy : NumaPolicy := .default
  memType : MemType := .wtf
  file : List Char := []
  anon : Int := 0
  dirty : Int := 0
  active : Int := 0
  mapped : Int := 0
  mapmax : Int := 0
  pagesSum : Int := 0
  preferNode : Int := -1
  numPagesOnNode : PagesOnNode := fun _ => -1
deriving DecidableEq

namespace NumaMaps

/-! ## Counts -/

/-- Pages on other nodes, of stacks and heaps. -/
def countPageExceptNode (memBlocks : List MemBlock) (nodeid : Int) : Int :=
  memBlocks.foldl (fun pages memBlock =>
    (List.finRange maxNodeNum).foldl (fun pages (i : Fin maxNodeNum) =>
      if ((i : Nat) : Int) = nodeid ∨
          (memBlock.memType ≠ .stack ∧ memBlock.memType ≠ .heap) then pages
      else pages + memBlock.numPagesOnNode i) pages) 0

/-- The loop for the node with the most pages, with what it has found. -/
def maxNodeFrom (pagesOnNode : PagesOnNode) : List (Fin maxNodeNum) → Int × Int → Int × Int
  | [], found => found
  | i :: is, (maxPage, maxNode) =>
    if maxPage < pagesOnNode i then maxNodeFrom pagesOnNode is (pagesOnNode i, (i : Nat))
    else maxNodeFrom pagesOnNode is (maxPage, maxNode)

def maxNode (pagesOnNode : PagesOnNode) : Int :=
  (maxNodeFrom pagesOnNode (List.finRange maxNodeNum) (0, -1)).2

/-- The sums that `node_with_max_weighted_mem` compares. -/
def weightedPages (memBlocks : List MemBlock) : PagesOnNode :=
  memBlocks.foldl (fun pagesOnNode memBlock =>
    if memBlock.memType ≠ .stack ∧ memBlock.memType ≠ .heap then pagesOnNode
    else fun i => pagesOnNode i + memBlock.numPagesOnNode i) fun _ => 0

def nodeWithMaxWeightedMem (memBlocks : List MemBlock) : Int := maxNode (weightedPages memBlocks)

def countPagesOnNodes (memBlocks : List MemBlock) : PagesOnNode :=
  memBlocks.foldl (fun pagesOnNode memBlock i =>
    if 0 < memBlock.numPagesOnNode i then pagesOnNode i + memBlock.numPagesOnNode i
    else pagesOnNode i) fun _ => 0

def nodeWithMaxMem (memBlocks : List MemBlock) : Int := maxNode (countPagesOnNodes memBlocks)

/-! ## Lines -/

/-- What ends `get_mem_blocks`. -/
inductive Failure where
  | conversionFailed (failure : Text.ConversionFailure)
  | assertionFailed
deriving DecidableEq, Repr

def preferText : List Char := "prefer".toList

def preferColon : List Char := "prefer:".toList

/-- `get_numa_policy`. All but `prefer` is the default. -/
def getNumaPolicy (numaPolicyStr : List Char) : NumaPolicy :=
  if numaPolicyStr = "DEFAULT".toList then .default
  else if VmNodeInfo.find preferText numaPolicyStr 0 ≠ none then .prefer
  else .default

def preferedNode (numaPolicyStr : List Char) : Except Text.ConversionFailure Int :=
  match VmNodeInfo.find preferColon numaPolicyStr 0 with
  | none => .ok (-1)
  | some pos => Text.stoi (numaPolicyStr.drop (pos + preferColon.length))

def stackText : List Char := "stack".toList

def heapText : List Char := "heap".toList

def getMemType (str : List Char) : MemType :=
  if str = stackText then .stack else if str = heapText then .heap else .wtf

/-- The keys with a number. -/
inductive NumberKey where
  | anon
  | dirty
  | active
  | mapped
  | mapmax
deriving DecidableEq

def NumberKey.text : NumberKey → List Char
  | anon => "anon".toList
  | dirty => "dirty".toList
  | active => "active".toList
  | mapped => "mapped".toList
  | mapmax => "mapmax".toList

def NumberKey.set (memBlock : MemBlock) (n : Int) : NumberKey → MemBlock
  | anon => { memBlock with anon := n }
  | dirty => { memBlock with dirty := n }
  | active => { memBlock with active := n }
  | mapped => { memBlock with mapped := n }
  | mapmax => { memBlock with mapmax := n }

def fileKey : List Char := "file".toList

/-- An assignment of a number of a block. -/
def setNumber (memBlock : MemBlock) (value : List Char) (key : NumberKey) :
    Except Failure MemBlock :=
  match Text.stoi value with
  | .error failure => .error (.conversionFailed failure)
  | .ok n => .ok (key.set memBlock n)

/-- The branch for `N<i>`, with the assertion. -/
def setNode (memBlock : MemBlock) (attrName value : List Char) : Except Failure MemBlock :=
  match Text.stoi (attrName.drop 1) with
  | .error failure => .error (.conversionFailed failure)
  | .ok nodeNum =>
    if h : 0 ≤ nodeNum ∧ nodeNum < maxNodeNum then
      match Text.stoi value with
      | .error failure => .error (.conversionFailed failure)
      | .ok n => .ok { memBlock with
          numPagesOnNode := Function.update memBlock.numPagesOnNode
            ⟨nodeNum.toNat, (Int.toNat_lt h.1).2 h.2⟩ n }
    else .error .assertionFailed

/-- `set_attributes`, of a text with `=`. -/
def setAttributes (memBlock : MemBlock) (str : List Char) : Except Failure MemBlock :=
  let eqPos := str.idxOf '='
  let attrName := str.take eqPos
  let value := str.drop (eqPos + 1)
  if attrName = fileKey then .ok { memBlock with file := value }
  else if attrName = NumberKey.anon.text then setNumber memBlock value .anon
  else if attrName = NumberKey.dirty.text then setNumber memBlock value .dirty
  else if attrName = NumberKey.active.text then setNumber memBlock value .active
  else if attrName = NumberKey.mapped.text then setNumber memBlock value .mapped
  else if attrName = NumberKey.mapmax.text then setNumber memBlock value .mapmax
  else if attrName.head? = some 'N' then setNode memBlock attrName value
  else .ok memBlock

/-- The body of the loop over the attributes and types. -/
def readItem (memBlock : MemBlock) (str : List Char) : Except Failure MemBlock :=
  if '=' ∈ str then setAttributes memBlock str
  else .ok { memBlock with memType := getMemType str }

/-- A sum as an `int`. -/
def addInt (a b : Int) : Int := (a + b).bmod 4294967296

def sumPages (pagesOnNode : PagesOnNode) : Int :=
  (List.finRange maxNodeNum).foldl (fun sum i =>
    if 0 < pagesOnNode i then addInt sum (pagesOnNode i) else sum) 0

/-- What `while (linein)` reads after the policy: the stream is tested before a word is read from
it, and a read that fails leaves the word before. -/
def loopWords (policy : List Char) (items : List (List Char)) : List (List Char) :=
  items ++ [items.getLast?.getD policy]

/-- The node of a policy that has one. -/
def readPreferNode (tmp : List Char) : Except Failure Int :=
  if getNumaPolicy tmp = .prefer then (preferedNode tmp).mapError Failure.conversionFailed
  else .ok (-1)

/-- The body of the loop over the lines. Where no address is read, the stream fails. -/
def lineBlock (line : List Char) : Except Failure MemBlock :=
  match Text.scanHex line with
  | (address, none) => .ok { address := address }
  | (address, some rest) =>
    match Text.words rest with
    | [] => .ok { address := address }
    | tmp :: items => do
      let preferNode ← readPreferNode tmp
      let memBlock ← (loopWords tmp items).foldlM readItem
        { address := address, numaPolicy := getNumaPolicy tmp, preferNode := preferNode }
      return { memBlock with pagesSum := sumPages memBlock.numPagesOnNode }

/-- A line that throws leaves the blocks of the lines before it. -/
def readLine (memBlocks : List MemBlock) (line : List Char) :
    Except (Failure × List MemBlock) (List MemBlock) :=
  match lineBlock line with
  | .error failure => .error (failure, memBlocks)
  | .ok memBlock => .ok (memBlocks ++ [memBlock])

/-- `get_mem_blocks`, of the file if it can be opened. -/
def getMemBlocks (numaMaps : Option (List Char)) (memBlocks : List MemBlock) :
    Except (Failure × List MemBlock) (List MemBlock) :=
  match numaMaps with
  | none => .ok memBlocks
  | some text => (Text.lines text).foldlM readLine memBlocks

end NumaMaps

end LibVsf
