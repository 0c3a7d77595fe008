import LibVsf.VmNumaInfo
import Mathlib.Algebra.BigOperators.Fin
import Mathlib.Algebra.Order.BigOperators.Group.Finset
import Mathlib.Tactic.Ring

/-!
# `NUMAMaps`: sums with counts that are not given

Three loops sum the pages of blocks on the nodes. One leaves out the `-1` of a count that is not
given, the two for stacks and heaps add it.

* `weightedPages_eq`: the sums are too small by the number of blocks without a count (`absent`).
* `maxNode_eq_iff`: what the scan for the node with the most pages finds.
* `countsAgree_iff`: the loops agree exactly when no other node is without a count, and the node
  with the most pages is the same after the numbers of absent counts are taken off.
-/

namespace LibVsf

/-- A stack or a heap. -/
def MemBlock.Weighted (b : MemBlock) : Prop := b.memType = .stack ∨ b.memType = .heap

instance (b : MemBlock) : Decidable b.Weighted :=
  inferInstanceAs (Decidable (_ ∨ _))

/-- For each node there is a count of pages, or `-1`. -/
def MemBlock.Counted (b : MemBlock) : Prop :=
  ∀ i, b.numPagesOnNode i = -1 ∨ 0 ≤ b.numPagesOnNode i

instance (b : MemBlock) : Decidable b.Counted :=
  inferInstanceAs (Decidable (∀ _, _ ∨ _))

namespace NumaMaps

/-! ## The node with the most pages -/

/-- The first of the nodes with the most pages, if there are any. -/
structure IsMost (pages : PagesOnNode) (m : Fin maxNodeNum) : Prop where
  pos : 0 < pages m
  before : ∀ i < m, pages i < pages m
  after : ∀ i, m < i → pages i ≤ pages m

theorem IsMost.unique {pages : PagesOnNode} {m m' : Fin maxNodeNum} (h : IsMost pages m)
    (h' : IsMost pages m') : m = m' := by
  rcases lt_trichotomy m m' with hlt | heq | hgt
  · exact absurd (h'.before m hlt) (not_lt.2 (h.after m' hlt))
  · exact heq
  · exact absurd (h.before m' hgt) (not_lt.2 (h'.after m hgt))

/-- What the loop has found among these nodes. -/
def Found (pages : PagesOnNode) (is : List (Fin maxNodeNum)) (found : Int × Int) : Prop :=
  (found = (0, -1) ∧ ∀ i ∈ is, pages i ≤ 0) ∨
    ∃ m ∈ is, found = (pages m, ((m : Nat) : Int)) ∧ 0 < pages m ∧
      (∀ i ∈ is, i < m → pages i < pages m) ∧ ∀ i ∈ is, m < i → pages i ≤ pages m

/-- A further node, behind those before. -/
theorem Found.step {pages : PagesOnNode} {is : List (Fin maxNodeNum)} {maxPage maxNode : Int}
    (h : Found pages is (maxPage, maxNode)) {j : Fin maxNodeNum} (hj : ∀ i ∈ is, i < j) :
    Found pages (is ++ [j])
      (if maxPage < pages j then (pages j, ((j : Nat) : Int)) else (maxPage, maxNode)) := by
  split_ifs with hlt
  · refine .inr ⟨j, by simp, rfl, ?_, fun i hi hij => ?_, fun i hi hji => ?_⟩
    · rcases h with ⟨hfound, -⟩ | ⟨m, -, hfound, hpos, -⟩
      · cases hfound
        exact hlt
      · cases hfound
        exact hpos.trans hlt
    · rcases List.mem_append.1 hi with hi | hi
      · rcases h with ⟨hfound, hall⟩ | ⟨m, -, hfound, -, hbefore, hafter⟩
        · cases hfound
          exact (hall i hi).trans_lt hlt
        · cases hfound
          rcases lt_trichotomy i m with him | rfl | hmi
          · exact (hbefore i hi him).trans hlt
          · exact hlt
          · exact (hafter i hi hmi).trans_lt hlt
      · exact absurd hij (List.mem_singleton.1 hi ▸ lt_irrefl j)
    · rcases List.mem_append.1 hi with hi | hi
      · exact absurd (hj i hi) hji.asymm
      · exact absurd hji (List.mem_singleton.1 hi ▸ lt_irrefl j)
  · rcases h with ⟨hfound, hall⟩ | ⟨m, hm, hfound, hpos, hbefore, hafter⟩
    · refine .inl ⟨hfound, fun i hi => ?_⟩
      cases hfound
      rcases List.mem_append.1 hi with hi | hi
      · exact hall i hi
      · rw [List.mem_singleton.1 hi]
        exact not_lt.1 hlt
    · cases hfound
      refine .inr ⟨m, List.mem_append_left _ hm, rfl, hpos, fun i hi him => ?_, fun i hi hmi => ?_⟩
      · rcases List.mem_append.1 hi with hi | hi
        · exact hbefore i hi him
        · rw [List.mem_singleton.1 hi] at him
          exact absurd (hj m hm) him.asymm
      · rcases List.mem_append.1 hi with hi | hi
        · exact hafter i hi hmi
        · rw [List.mem_singleton.1 hi]
          exact not_lt.1 hlt

/-- The loop over the nodes that are left. -/
theorem found_maxNodeFrom {pages : PagesOnNode} {before is : List (Fin maxNodeNum)}
    {found : Int × Int} (h : Found pages before found) (hsorted : (before ++ is).Pairwise (· < ·)) :
    Found pages (before ++ is) (maxNodeFrom pages is found) := by
  induction is generalizing before found with
  | nil => simpa [maxNodeFrom] using h
  | cons j is ih =>
    obtain ⟨maxPage, maxNode⟩ := found
    have hj : ∀ i ∈ before, i < j := fun i hi =>
      (List.pairwise_append.1 hsorted).2.2 i hi j List.mem_cons_self
    have hstep := h.step hj
    have hsplit : before ++ j :: is = (before ++ [j]) ++ is := by simp
    rw [hsplit] at hsorted ⊢
    rw [maxNodeFrom]
    split_ifs with hlt
    · rw [if_pos hlt] at hstep
      exact ih hstep hsorted
    · rw [if_neg hlt] at hstep
      exact ih hstep hsorted

/-- **What the scan finds.** -/
theorem maxNode_cases (pages : PagesOnNode) :
    (maxNode pages = -1 ∧ ∀ i, pages i ≤ 0) ∨
      ∃ m : Fin maxNodeNum, maxNode pages = ((m : Nat) : Int) ∧ IsMost pages m := by
  have hnone : Found pages [] (0, -1) := .inl ⟨rfl, by simp⟩
  have hfound := found_maxNodeFrom hnone (List.pairwise_lt_finRange maxNodeNum)
  rw [List.nil_append] at hfound
  rcases hfound with ⟨hfound, hall⟩ | ⟨m, -, hfound, hpos, hbefore, hafter⟩
  · exact .inl ⟨congrArg Prod.snd hfound, fun i => hall i (List.mem_finRange i)⟩
  · exact .inr ⟨m, congrArg Prod.snd hfound, hpos, fun i => hbefore i (List.mem_finRange i),
      fun i => hafter i (List.mem_finRange i)⟩

theorem maxNode_eq_iff {pages : PagesOnNode} {m : Fin maxNodeNum} :
    maxNode pages = ((m : Nat) : Int) ↔ IsMost pages m := by
  rcases maxNode_cases pages with ⟨hnone, hall⟩ | ⟨m', hm', hmost⟩
  · refine iff_of_false (by omega) fun h => ?_
    exact absurd h.pos (not_lt.2 (hall m))
  · rw [hm']
    constructor
    · intro heq
      obtain rfl : m' = m := Fin.ext (by exact_mod_cast heq)
      exact hmost
    · intro h
      rw [hmost.unique h]

theorem maxNode_eq_neg_one_iff {pages : PagesOnNode} :
    maxNode pages = -1 ↔ ∀ i, pages i ≤ 0 := by
  rcases maxNode_cases pages with ⟨hnone, hall⟩ | ⟨m, hm, hmost⟩
  · exact iff_of_true hnone hall
  · refine iff_of_false (by omega) fun h => ?_
    exact absurd hmost.pos (not_lt.2 (h m))

/-! ## Sums -/

/-- The blocks that the loops for stacks and heaps read. -/
def stackHeap (memBlocks : List MemBlock) : List MemBlock := memBlocks.filter (·.Weighted)

/-- The pages on a node that stacks and heaps give a count of. -/
def given (memBlocks : List MemBlock) : PagesOnNode :=
  fun i => ((stackHeap memBlocks).map fun b => max 0 (b.numPagesOnNode i)).sum

/-- The number of stacks and heaps without a count of pages on a node. -/
def absent (memBlocks : List MemBlock) (i : Fin maxNodeNum) : Nat :=
  (stackHeap memBlocks).countP fun b => b.numPagesOnNode i = -1

/-- All nodes but this one. -/
def otherNodes (nodeid : Int) : Finset (Fin maxNodeNum) :=
  Finset.univ.filter fun i => ((i : Nat) : Int) ≠ nodeid

theorem stackHeap_cons (b : MemBlock) (bs : List MemBlock) :
    stackHeap (b :: bs) = if b.Weighted then b :: stackHeap bs else stackHeap bs := by
  simp only [stackHeap, List.filter_cons, decide_eq_true_eq]

/-- The guard of the loops for stacks and heaps. -/
theorem not_stack_and_not_heap {b : MemBlock} :
    (b.memType ≠ .stack ∧ b.memType ≠ .heap) ↔ ¬ b.Weighted := by
  simp only [MemBlock.Weighted, not_or, ne_eq]

/-- A loop that adds what does not depend on the sum. -/
theorem foldl_eq_add {α : Type*} (step : Int → α → Int) (f : α → Int)
    (hstep : ∀ s a, step s a = s + f a) (s : Int) (as : List α) :
    as.foldl step s = s + (as.map f).sum := by
  induction as generalizing s with
  | nil => simp
  | cons a as ih =>
    rw [List.foldl_cons, ih, hstep, List.map_cons, List.sum_cons, add_assoc]

theorem countPagesOnNodes_eq (memBlocks : List MemBlock) (i : Fin maxNodeNum) :
    countPagesOnNodes memBlocks i = (memBlocks.map fun b => max 0 (b.numPagesOnNode i)).sum := by
  suffices h : ∀ pages : PagesOnNode,
      memBlocks.foldl (fun pagesOnNode memBlock j =>
        if 0 < memBlock.numPagesOnNode j then pagesOnNode j + memBlock.numPagesOnNode j
        else pagesOnNode j) pages i
      = pages i + (memBlocks.map fun b => max 0 (b.numPagesOnNode i)).sum by
    simpa [countPagesOnNodes] using h fun _ => 0
  induction memBlocks with
  | nil => simp
  | cons b bs ih =>
    intro pages
    rw [List.foldl_cons, ih, List.map_cons, List.sum_cons, ← add_assoc]
    congr 1
    split_ifs with hpos
    · rw [max_eq_right hpos.le]
    · rw [max_eq_left (not_lt.1 hpos), add_zero]

theorem countPagesOnNodes_stackHeap (memBlocks : List MemBlock) :
    countPagesOnNodes (stackHeap memBlocks) = given memBlocks :=
  funext (countPagesOnNodes_eq _)

theorem given_nonneg (memBlocks : List MemBlock) (i : Fin maxNodeNum) : 0 ≤ given memBlocks i := by
  refine List.sum_nonneg fun x hx => ?_
  obtain ⟨b, -, rfl⟩ := List.mem_map.1 hx
  exact le_max_left _ _

/-- The sums of `node_with_max_weighted_mem`, with every `-1`. -/
theorem weightedPages_eq_sum (memBlocks : List MemBlock) (i : Fin maxNodeNum) :
    weightedPages memBlocks i = ((stackHeap memBlocks).map fun b => b.numPagesOnNode i).sum := by
  suffices h : ∀ pages : PagesOnNode,
      memBlocks.foldl (fun pagesOnNode memBlock =>
        if memBlock.memType ≠ .stack ∧ memBlock.memType ≠ .heap then pagesOnNode
        else fun i => pagesOnNode i + memBlock.numPagesOnNode i) pages i
      = pages i + ((stackHeap memBlocks).map fun b => b.numPagesOnNode i).sum by
    simpa [weightedPages] using h fun _ => 0
  induction memBlocks with
  | nil => simp [stackHeap]
  | cons b bs ih =>
    intro pages
    rw [List.foldl_cons, ih, stackHeap_cons]
    by_cases hb : b.Weighted
    · rw [if_neg (fun h => not_stack_and_not_heap.1 h hb), if_pos hb, List.map_cons,
        List.sum_cons, add_assoc]
    · rw [if_pos (not_stack_and_not_heap.2 hb), if_neg hb]

/-- **The sums with every `-1` are too small by the number of absent counts.** -/
theorem weightedPages_eq {memBlocks : List MemBlock} (h : ∀ b ∈ memBlocks, b.Counted)
    (i : Fin maxNodeNum) :
    weightedPages memBlocks i = given memBlocks i - absent memBlocks i := by
  rw [weightedPages_eq_sum, given, absent]
  have hcounted : ∀ b ∈ stackHeap memBlocks, b.Counted := fun b hb => h b (List.mem_filter.1 hb).1
  generalize stackHeap memBlocks = bs at hcounted
  induction bs with
  | nil => simp
  | cons b bs ih =>
    rw [List.map_cons, List.sum_cons, List.map_cons, List.sum_cons, List.countP_cons,
      ih fun b' hb' => hcounted b' (List.mem_cons_of_mem _ hb')]
    rcases hcounted b List.mem_cons_self i with hnone | hcount
    · simp only [hnone, decide_true, if_true]
      push_cast
      omega
    · have hne : b.numPagesOnNode i ≠ -1 := by omega
      simp only [hne, decide_false, max_eq_right hcount, Bool.false_eq_true, if_false]
      push_cast
      ring

/-- `count_page_except_node` sums the same as `node_with_max_weighted_mem`. -/
theorem countPageExceptNode_eq_sum (memBlocks : List MemBlock) (nodeid : Int) :
    countPageExceptNode memBlocks nodeid
      = ∑ i ∈ otherNodes nodeid, weightedPages memBlocks i := by
  have hinner : ∀ (pages : Int) (b : MemBlock),
      (List.finRange maxNodeNum).foldl (fun pages (i : Fin maxNodeNum) =>
        if ((i : Nat) : Int) = nodeid ∨ (b.memType ≠ .stack ∧ b.memType ≠ .heap) then pages
        else pages + b.numPagesOnNode i) pages
      = pages + if b.Weighted then ∑ i ∈ otherNodes nodeid, b.numPagesOnNode i
          else 0 := by
    intro pages b
    rw [foldl_eq_add _ (fun i : Fin maxNodeNum => if b.Weighted then
      if ((i : Nat) : Int) ≠ nodeid then b.numPagesOnNode i else 0 else 0), ← Fin.sum_univ_def]
    · split_ifs with hb
      · rw [otherNodes, Finset.sum_filter]
      · rw [Finset.sum_const_zero]
    · intro s i
      simp only [not_stack_and_not_heap]
      by_cases hi : ((i : Nat) : Int) = nodeid <;> by_cases hb : b.Weighted <;> simp [hi, hb]
  rw [countPageExceptNode, foldl_eq_add _ _ hinner, zero_add]
  simp only [weightedPages_eq_sum]
  induction memBlocks with
  | nil => simp [stackHeap]
  | cons b bs ih =>
    rw [List.map_cons, List.sum_cons, ih, stackHeap_cons]
    split_ifs with hb
    · simp only [List.map_cons, List.sum_cons, Finset.sum_add_distrib]
    · rw [zero_add]

/-! ## The three loops -/

/-- What the loops that add the `-1`s have in common with the loop that leaves them out. -/
structure CountsAgree (memBlocks : List MemBlock) (nodeid : Int) : Prop where
  except : countPageExceptNode memBlocks nodeid
    = ∑ i ∈ otherNodes nodeid, countPagesOnNodes (stackHeap memBlocks) i
  weighted : nodeWithMaxWeightedMem memBlocks = nodeWithMaxMem (stackHeap memBlocks)
  nonneg : 0 ≤ countPageExceptNode memBlocks nodeid
  no_pages : nodeWithMaxWeightedMem memBlocks = -1 →
    ∀ b ∈ memBlocks, b.Weighted → ∀ i, b.numPagesOnNode i ≤ 0

theorem no_pages_of_given {memBlocks : List MemBlock} (h : ∀ i, given memBlocks i ≤ 0) :
    ∀ b ∈ memBlocks, b.Weighted → ∀ i, b.numPagesOnNode i ≤ 0 := by
  intro b hb hweighted i
  have hmem : max 0 (b.numPagesOnNode i)
      ∈ (stackHeap memBlocks).map fun b => max 0 (b.numPagesOnNode i) :=
    List.mem_map_of_mem (List.mem_filter.2 ⟨hb, decide_eq_true hweighted⟩)
  have hle := List.single_le_sum (fun x hx => by
    obtain ⟨b', -, rfl⟩ := List.mem_map.1 hx
    exact le_max_left 0 (b'.numPagesOnNode i)) _ hmem
  exact (le_max_right _ _).trans (hle.trans (h i))

/-- The node with the most pages is found in both sums, or in neither. -/
theorem nodeWithMaxWeightedMem_eq_iff {memBlocks : List MemBlock}
    (h : ∀ b ∈ memBlocks, b.Counted) :
    nodeWithMaxWeightedMem memBlocks = nodeWithMaxMem (stackHeap memBlocks) ↔
      ∀ m, IsMost (given memBlocks) m →
        IsMost (fun i => given memBlocks i - absent memBlocks i) m := by
  rw [nodeWithMaxWeightedMem, nodeWithMaxMem, countPagesOnNodes_stackHeap,
    funext (weightedPages_eq h)]
  rcases maxNode_cases (given memBlocks) with ⟨hnone, hall⟩ | ⟨m, hm, hmost⟩
  · rw [hnone]
    refine iff_of_true (maxNode_eq_neg_one_iff.2 fun i => ?_) fun m hmost => ?_
    · have hi := hall i
      omega
    · exact absurd hmost.pos (not_lt.2 (hall m))
  · rw [hm, maxNode_eq_iff]
    exact ⟨fun hstays m' hmost' => hmost.unique hmost' ▸ hstays, fun hstays => hstays m hmost⟩

/-- **When the loops agree**: every stack and heap has a count for every other node, and the node
with the most pages that are given is not overtaken when the absent counts are taken off. -/
theorem countsAgree_iff {memBlocks : List MemBlock} (h : ∀ b ∈ memBlocks, b.Counted)
    (nodeid : Int) :
    CountsAgree memBlocks nodeid ↔
      (∀ i : Fin maxNodeNum, ((i : Nat) : Int) ≠ nodeid → absent memBlocks i = 0) ∧
        ∀ m, IsMost (given memBlocks) m →
          IsMost (fun i => given memBlocks i - absent memBlocks i) m := by
  have hexcept : countPageExceptNode memBlocks nodeid
      = ∑ i ∈ otherNodes nodeid, given memBlocks i
        - ∑ i ∈ otherNodes nodeid, (absent memBlocks i : Int) := by
    rw [countPageExceptNode_eq_sum, funext (weightedPages_eq h), Finset.sum_sub_distrib]
  constructor
  · intro hagree
    refine ⟨fun i hi => ?_, (nodeWithMaxWeightedMem_eq_iff h).1 hagree.weighted⟩
    have hsum := hagree.except
    rw [countPagesOnNodes_stackHeap, hexcept] at hsum
    have hzero : ∑ i ∈ otherNodes nodeid, (absent memBlocks i : Int) = 0 := by omega
    have hall := (Finset.sum_eq_zero_iff_of_nonneg fun j _ => Int.natCast_nonneg _).1 hzero
    exact_mod_cast hall i (Finset.mem_filter.2 ⟨Finset.mem_univ i, hi⟩)
  · rintro ⟨habsent, hmost⟩
    have hzero : ∑ i ∈ otherNodes nodeid, (absent memBlocks i : Int) = 0 :=
      Finset.sum_eq_zero fun i hi => by rw [habsent i (Finset.mem_filter.1 hi).2, Nat.cast_zero]
    have hweighted := (nodeWithMaxWeightedMem_eq_iff h).2 hmost
    rw [hzero, sub_zero] at hexcept
    refine ⟨by rw [hexcept, countPagesOnNodes_stackHeap], hweighted, ?_, fun hnone => ?_⟩
    · rw [hexcept]
      exact Finset.sum_nonneg fun i _ => given_nonneg memBlocks i
    · rw [hweighted, nodeWithMaxMem, countPagesOnNodes_stackHeap] at hnone
      exact no_pages_of_given (maxNode_eq_neg_one_iff.1 hnone)

/-- A heap with pages on the first node only. -/
def heapOnFirst : MemBlock :=
  { memType := .heap, numPagesOnNode := fun i => if (i : Nat) = 0 then 5 else -1 }

/-- A stack with a count for every node. -/
def stackOnAll : MemBlock := { memType := .stack, numPagesOnNode := fun i => (i : Nat) }

theorem countsAgree_iff_stackOnAll : CountsAgree [stackOnAll] 3 := by
  refine (countsAgree_iff (by decide) 3).2 ⟨by decide, ?_⟩
  have habsent : ∀ i, absent [stackOnAll] i = 0 := by decide
  intro m hmost
  simpa only [habsent, Nat.cast_zero, sub_zero] using hmost

/-- A heap without a count for a node counts as a page less. -/
theorem not_countsAgree_heapOnFirst :
    ¬ ∀ (memBlocks : List MemBlock) (nodeid : Int), (∀ b ∈ memBlocks, b.Counted) →
      CountsAgree memBlocks nodeid := by
  intro h
  have hagree := h [heapOnFirst] 0 (by decide)
  have hneg : countPageExceptNode [heapOnFirst] 0 = -7 := by decide
  have := hagree.nonneg
  omega

end NumaMaps

end LibVsf
