import LibVsf.VmNumaInfoMaps

/-!
# `NUMAMaps`: the node of a process

`vm/dynamic/vm_numa_info.cpp`. The functions that are given a process read its `numa_maps` and count
the blocks. `get_prefered_node` asks the first block for its policy, and counts only if the word of
that one does not contain "prefer".

**Theorem (`getPreferedNode_iff`).** Given a text of lines, `get_prefered_node` returns exactly if
the numbers of each line fit. Where the policy of the first line contains "prefer", it returns the
number behind "prefer:", or `-1` if that is not in the word (as in `prefer=static:1`), whatever the
pages are. Otherwise it returns the first of the nodes with the most pages over all lines, and `-1`
if no line has a page.

**Theorem (`pageCounts_iff`).** `pages_num4nodes` and `get_proc_numa_dist` return for the same
texts, and then the pages of all lines on each node.

The sums of the pages are those of `int`s that do not overflow.
-/

namespace LibVsf

namespace NumaMaps

/-! ## Functions of a process -/

/-- `has_prefer_block`: of the first block only. -/
def hasPreferBlock : List MemBlock → Bool
  | [] => false
  | memBlock :: _ => memBlock.numaPolicy = .prefer

def topPreferNode : List MemBlock → Int
  | [] => -1
  | memBlock :: _ => memBlock.preferNode

/-- A function of the blocks, for the process with this `numa_maps`. -/
def ofProcess {α : Type} (f : List MemBlock → α) (numaMaps : Option (List Char)) :
    Except Failure α :=
  match getMemBlocks numaMaps [] with
  | .ok memBlocks => .ok (f memBlocks)
  | .error (failure, _) => .error failure

def getPreferedNode : Option (List Char) → Except Failure Int :=
  ofProcess fun memBlocks =>
    if hasPreferBlock memBlocks then topPreferNode memBlocks else nodeWithMaxMem memBlocks

/-- `pages_num4nodes`, which appends to `ret`. -/
def pagesNum4nodes (ret : List Int) : Option (List Char) → Except Failure (List Int) :=
  ofProcess fun memBlocks => ret ++ (List.finRange maxNodeNum).map (countPagesOnNodes memBlocks)

/-- The loops of `get_proc_numa_dist`, for a node. -/
def procPages (memBlocks : List MemBlock) (i : Fin maxNodeNum) : UInt64 :=
  memBlocks.foldl (fun pages block =>
    if 0 ≤ block.numPagesOnNode i then pages + UInt64.ofNat (block.numPagesOnNode i).toNat
    else pages) 0

/-- `get_proc_numa_dist`, for no more nodes than a block has counts. -/
def getProcNumaDist (nnodes : Fin (maxNodeNum + 1)) :
    Option (List Char) → Except Failure (List UInt64) :=
  ofProcess fun memBlocks => ((List.finRange maxNodeNum).take nnodes).map (procPages memBlocks)

end NumaMaps

/-! ## What the lines say -/

namespace NumaLine

open NumaMaps

variable (l : NumaLine)

/-- The count that a line has for a node. -/
def pagesOn (i : Fin maxNodeNum) : Nat :=
  ((l.items.find? fun item => item.node? = some (i : Nat)).map NumaItem.pages).getD 0

/-- What is to be read of a line does not throw. -/
structure Readable : Prop where
  policy : l.policy.Fits
  items : ∀ item ∈ l.items, item.Fits

/-- The block has the count of the line, or none. -/
theorem max_numPagesOnNode (i : Fin maxNodeNum) :
    max 0 (l.block.numPagesOnNode i) = (l.pagesOn i : Int) := by
  show max 0 ((l.items.foldl NumaItem.apply l.start).numPagesOnNode i) = _
  rw [pagesOn]
  cases hfind : l.items.find? fun item => item.node? = some (i : Nat) with
  | none =>
    have hno : ∀ n, .node i n ∉ l.items := fun n hmem =>
      of_decide_eq_false (Bool.eq_false_iff.2 (List.find?_eq_none.1 hfind _ hmem)) rfl
    rw [numPages_of_no_count hno]
    rfl
  | some item =>
    have hmem := List.mem_of_find?_eq_some hfind
    have hnode : item.node? = some (i : Nat) := by simpa using List.find?_some hfind
    cases item with
    | node j n =>
      obtain rfl : j = i := Option.some.inj hnode
      rw [numPages_of_count l.node_nodup hmem]
      exact max_eq_right (Int.natCast_nonneg _)
    | word | file | number | other => cases hnode

end NumaLine

namespace NumaMaps

/-- The pages of all lines on a node. -/
def totalPages (lines : List NumaLine) (i : Fin maxNodeNum) : Nat :=
  (lines.map fun l => l.pagesOn i).sum

theorem countPagesOnNodes_lines (lines : List NumaLine) (i : Fin maxNodeNum) :
    countPagesOnNodes (lines.map NumaLine.block) i = (totalPages lines i : Int) := by
  rw [countPagesOnNodes_eq, totalPages]
  induction lines with
  | nil => rfl
  | cons l lines ih =>
    simp only [List.map_cons, List.sum_cons, Nat.cast_add] at ih ⊢
    rw [ih, l.max_numPagesOnNode]

/-- The loops of `get_proc_numa_dist` add up the same, in 64 bits. -/
theorem procPages_lines (lines : List NumaLine) (i : Fin maxNodeNum) :
    procPages (lines.map NumaLine.block) i = UInt64.ofNat (totalPages lines i) := by
  suffices h : ∀ pages : UInt64, (lines.map NumaLine.block).foldl (fun pages block =>
      if 0 ≤ block.numPagesOnNode i then pages + UInt64.ofNat (block.numPagesOnNode i).toNat
      else pages) pages = pages + UInt64.ofNat (totalPages lines i) by
    simpa [procPages] using h 0
  induction lines with
  | nil => simp [totalPages]
  | cons l lines ih =>
    intro pages
    have hcount := l.max_numPagesOnNode i
    have hstep : (if 0 ≤ l.block.numPagesOnNode i then
        pages + UInt64.ofNat (l.block.numPagesOnNode i).toNat else pages) =
          pages + UInt64.ofNat (l.pagesOn i) := by
      split_ifs with hpos
      · rw [max_eq_right hpos] at hcount
        rw [hcount, Int.toNat_natCast]
      · rw [max_eq_left (not_le.1 hpos).le] at hcount
        have hnone : l.pagesOn i = 0 := Int.natCast_eq_zero.1 hcount.symm
        rw [hnone]
        exact (UInt64.add_zero pages).symm
    rw [List.map_cons, List.foldl_cons, hstep, ih, UInt64.add_assoc, ← UInt64.ofNat_add]
    rfl

/-! ## The blocks of a text -/

theorem lineBlock_ok {l : NumaLine} (haddress : Text.hexadecimal l.address ≤ 18446744073709551615)
    (b : MemBlock) : lineBlock l.text = .ok b ↔ l.Readable ∧ b = l.block := by
  rw [l.lineBlock_text]
  constructor
  · rintro (⟨hlarge, -⟩ | ⟨-, hpolicy, hitems, hb⟩)
    · exact absurd haddress (not_le.2 hlarge)
    · exact ⟨⟨hpolicy, hitems⟩, hb⟩
  · rintro ⟨⟨hpolicy, hitems⟩, hb⟩
    exact Or.inr ⟨haddress, hpolicy, hitems, hb⟩

theorem forall₂_lineBlock {lines : List NumaLine}
    (haddress : ∀ l ∈ lines, Text.hexadecimal l.address ≤ 18446744073709551615)
    (bs : List MemBlock) :
    List.Forall₂ (fun l b => lineBlock (NumaLine.text l) = .ok b) lines bs ↔
      (∀ l ∈ lines, l.Readable) ∧ bs = lines.map NumaLine.block := by
  induction lines generalizing bs with
  | nil => simp
  | cons l lines ih =>
    rw [List.forall_mem_cons] at haddress
    obtain ⟨hl, hlines⟩ := haddress
    simp only [List.forall₂_cons_left_iff, lineBlock_ok hl, ih hlines, List.forall_mem_cons,
      List.map_cons]
    constructor
    · rintro ⟨b, bs, ⟨hreadable, rfl⟩, ⟨hall, rfl⟩, rfl⟩
      exact ⟨⟨hreadable, hall⟩, rfl⟩
    · rintro ⟨⟨hreadable, hall⟩, rfl⟩
      exact ⟨_, _, ⟨hreadable, rfl⟩, ⟨hall, rfl⟩, rfl⟩

/-- **The blocks of a text** are those of its lines, if each can be read. -/
theorem getMemBlocks_lines {lines : List NumaLine}
    (haddress : ∀ l ∈ lines, Text.hexadecimal l.address ≤ 18446744073709551615)
    (ret : List MemBlock) :
    getMemBlocks (some (Text.unlines (lines.map NumaLine.text))) [] = .ok ret ↔
      (∀ l ∈ lines, l.Readable) ∧ ret = lines.map NumaLine.block := by
  have hlines : Text.lines (Text.unlines (lines.map NumaLine.text)) = lines.map NumaLine.text := by
    refine Text.lines_unlines fun line hline => ?_
    obtain ⟨l, -, rfl⟩ := List.mem_map.1 hline
    exact l.newline_notMem_text
  rw [getMemBlocks]
  simp only [hlines, foldlM_readLine, List.forall₂_map_left_iff, List.nil_append,
    forall₂_lineBlock haddress, exists_eq_left']

/-- What a function of a process returns. -/
theorem ofProcess_lines {α : Type} (f : List MemBlock → α) {lines : List NumaLine}
    (haddress : ∀ l ∈ lines, Text.hexadecimal l.address ≤ 18446744073709551615) (a : α) :
    ofProcess f (some (Text.unlines (lines.map NumaLine.text))) = .ok a ↔
      (∀ l ∈ lines, l.Readable) ∧ a = f (lines.map NumaLine.block) := by
  have hblocks := getMemBlocks_lines haddress
  rw [ofProcess]
  cases hread : getMemBlocks (some (Text.unlines (lines.map NumaLine.text))) [] with
  | ok memBlocks =>
    obtain ⟨hreadable, rfl⟩ := (hblocks memBlocks).1 hread
    refine ⟨fun h => ⟨hreadable, (Except.ok.inj h).symm⟩, fun h => congrArg Except.ok h.2.symm⟩
  | error e =>
    refine iff_of_false nofun fun h => ?_
    have hok := (hblocks _).2 ⟨h.1, rfl⟩
    rw [hread] at hok
    cases hok

/-- **The counts of a process** are those of its lines. -/
theorem pageCounts_iff {lines : List NumaLine}
    (haddress : ∀ l ∈ lines, Text.hexadecimal l.address ≤ 18446744073709551615)
    (ret counts : List Int) (nnodes : Fin (maxNodeNum + 1)) (pages : List UInt64) :
    (pagesNum4nodes ret (some (Text.unlines (lines.map NumaLine.text))) = .ok counts ↔
        (∀ l ∈ lines, l.Readable) ∧
          counts = ret ++ (List.finRange maxNodeNum).map fun i => (totalPages lines i : Int)) ∧
      (getProcNumaDist nnodes (some (Text.unlines (lines.map NumaLine.text))) = .ok pages ↔
        (∀ l ∈ lines, l.Readable) ∧
          pages = ((List.finRange maxNodeNum).take nnodes).map fun i =>
            UInt64.ofNat (totalPages lines i)) := by
  rw [pagesNum4nodes, getProcNumaDist, ofProcess_lines _ haddress, ofProcess_lines _ haddress,
    funext (countPagesOnNodes_lines lines), funext (procPages_lines lines)]
  exact ⟨Iff.rfl, Iff.rfl⟩

/-- A line with pages on the second node. -/
def secondNode : NumaLine where
  address := ['7', 'f']
  policy := .word defaultWord
  items := [.node 1 (.ofNat 5)]
  address_ne := List.cons_ne_nil _ _
  address_hex := List.forall_mem_cons.2 ⟨by decide, List.forall_mem_singleton.2 (by decide)⟩
  policy_valid := otherWord_default
  items_valid := by simp [NumaItem.Valid]
  node_nodup := by decide
  one_type := by decide

theorem readable_secondNode : ∀ l ∈ [secondNode], l.Readable :=
  List.forall_mem_singleton.2 ⟨trivial, List.forall_mem_singleton.2 ⟨by decide, by decide⟩⟩

theorem pageCounts_iff_secondNode :
    pagesNum4nodes [7] (some (Text.unlines ([secondNode].map NumaLine.text))) =
        .ok [7, 0, 5, 0, 0, 0, 0, 0, 0] ∧
      getProcNumaDist 2 (some (Text.unlines ([secondNode].map NumaLine.text))) = .ok [0, 5] := by
  have h := @pageCounts_iff [secondNode] (by decide) [7] [7, 0, 5, 0, 0, 0, 0, 0, 0] 2 [0, 5]
  exact ⟨h.1.2 ⟨readable_secondNode, by decide⟩, h.2.2 ⟨readable_secondNode, by decide⟩⟩

/-! ## The preferred node -/

theorem foldl_apply_preferNode (items : List NumaItem) (b : MemBlock) :
    (items.foldl NumaItem.apply b).preferNode = b.preferNode := by
  induction items generalizing b with
  | nil => rfl
  | cons item items ih =>
    rw [List.foldl_cons, ih]
    cases item with
    | number key n => cases key <;> rfl
    | _ => rfl

/-- The node that the first line gives (`-1` without "prefer:"), or one with the most pages. -/
structure Chooses (lines : List NumaLine) (node : Int) : Prop where
  prefers : ∀ l ∈ lines.head?, l.policy.numaPolicy = .prefer → node = l.policy.preferNode
  most : (∀ l ∈ lines.head?, l.policy.numaPolicy ≠ .prefer) →
    (node = -1 ∧ ∀ i, totalPages lines i = 0) ∨
      ∃ m : Fin maxNodeNum, node = ((m : Nat) : Int) ∧
        IsMost (fun i => (totalPages lines i : Int)) m

theorem nodeWithMaxMem_lines (lines : List NumaLine) (node : Int) :
    node = nodeWithMaxMem (lines.map NumaLine.block) ↔
      (node = -1 ∧ ∀ i, totalPages lines i = 0) ∨
        ∃ m : Fin maxNodeNum, node = ((m : Nat) : Int) ∧
          IsMost (fun i => (totalPages lines i : Int)) m := by
  have hsums : countPagesOnNodes (lines.map NumaLine.block) = fun i => (totalPages lines i : Int) :=
    funext (countPagesOnNodes_lines lines)
  rw [nodeWithMaxMem, hsums]
  constructor
  · rintro rfl
    rcases maxNode_cases fun i => (totalPages lines i : Int) with ⟨hnone, hall⟩ | hmost
    · refine Or.inl ⟨hnone, fun i => ?_⟩
      have hi := hall i
      omega
    · exact Or.inr hmost
  · rintro (⟨rfl, hall⟩ | ⟨m, rfl, hmost⟩)
    · exact (maxNode_eq_neg_one_iff.2 fun i => by rw [hall i, Nat.cast_zero]).symm
    · exact (maxNode_eq_iff.2 hmost).symm

/-- **The preferred node** of a text. -/
theorem getPreferedNode_iff {lines : List NumaLine}
    (haddress : ∀ l ∈ lines, Text.hexadecimal l.address ≤ 18446744073709551615) (node : Int) :
    getPreferedNode (some (Text.unlines (lines.map NumaLine.text))) = .ok node ↔
      (∀ l ∈ lines, l.Readable) ∧ Chooses lines node := by
  rw [getPreferedNode, ofProcess_lines _ haddress]
  refine and_congr_right fun _ => ?_
  cases lines with
  | nil =>
    rw [show hasPreferBlock ([].map NumaLine.block) = false from rfl, if_neg Bool.false_ne_true,
      nodeWithMaxMem_lines]
    exact ⟨fun h => ⟨nofun, fun _ => h⟩, fun h => h.most nofun⟩
  | cons l lines =>
    have hpolicy : hasPreferBlock ((l :: lines).map NumaLine.block) =
        decide (l.policy.numaPolicy = .prefer) := by
      show decide ((l.items.foldl NumaItem.apply l.start).numaPolicy = .prefer) = _
      rw [foldl_apply_numaPolicy]
      rfl
    have hnode : topPreferNode ((l :: lines).map NumaLine.block) = l.policy.preferNode :=
      foldl_apply_preferNode l.items l.start
    rw [hpolicy, hnode]
    by_cases hprefer : l.policy.numaPolicy = .prefer
    · rw [if_pos (decide_eq_true hprefer)]
      refine ⟨fun h => ⟨?_, fun hnot => absurd hprefer (hnot l rfl)⟩, fun h => ?_⟩
      · intro l' hl' _
        cases hl'
        exact h
      · exact h.prefers l rfl hprefer
    · rw [if_neg (by simpa using hprefer), nodeWithMaxMem_lines]
      refine ⟨fun h => ⟨fun l' hl' hprefer' => ?_, fun _ => h⟩, fun h => h.most fun l' hl' => ?_⟩
      · cases hl'
        exact absurd hprefer' hprefer
      · cases hl'
        exact hprefer

theorem getPreferedNode_iff_secondNode :
    getPreferedNode (some (Text.unlines ([secondNode].map NumaLine.text))) = .ok 1 := by
  refine (getPreferedNode_iff (by decide) 1).2 ⟨?_, ?_⟩
  · exact readable_secondNode
  · refine ⟨?_, fun _ => Or.inr ⟨⟨1, by decide⟩, rfl, by decide, by decide, by decide⟩⟩
    rintro l ⟨⟩ hprefer
    exact absurd hprefer (by decide +kernel)

end NumaMaps

end LibVsf
