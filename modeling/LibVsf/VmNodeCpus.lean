import LibVsf.NodeCpuList
import LibVsf.VmNodeInfoInstance
import LibVsf.VmNodeInfoProof
import Mathlib.Data.Int.Range

/-!
# The cpus of virtual nodes

A list of cpus is copied without an end, and `strtok` reads the copy up to the first `NUL` after it.
A virtual node without a list has a part of the vcpus of the VM: as many as the quotient of the
number of vcpus and the number of virtual nodes, which is cut off.

* `parses_memory_iff`: a list is parsed to its expansion, whatever the memory holds, exactly when
  the byte after the copy happens to be `NUL` and the numbers fit in an `int`.
* `splits_iff`: the vcpus are split among the virtual nodes, and no division is by zero, exactly
  when the number of virtual nodes divides theirs.
-/

namespace LibVsf

open CpuItem

/-! ## Lists of cpus -/

/-- Numbers and ranges, in any order. -/
structure CpuString where
  items : List CpuItem
  first_le_last : ∀ i ∈ items, i.first ≤ i.last

namespace CpuString

variable (l : CpuString)

def text : List Char := [','].intercalate (l.items.map CpuItem.text)

/-- The numbers, and those of the ranges. -/
def expansion : List Int :=
  l.items.flatMap fun i =>
    (List.range (i.last + 1 - i.first)).map fun k => ((i.first + k : Nat) : Int)

end CpuString

namespace VmNodeInfo

/-- What `strtok` reads. -/
def tokensOf (memory : Memory) (cpuStr : List Char) : List (List Char) :=
  Text.pieces (fun c => c = ',') (Text.cString (cpuStr ++ memory.afterCpus cpuStr))

/-- `atoi(token2)`, for a token with a `-`. -/
def tokenLast (token : List Char) : Int := Text.atoi (token.drop (token.idxOf '-' + 1))

/-- The body of the loop over the tokens. -/
def cpusOfToken (token : List Char) : List Int :=
  if '-' ∈ token then Int.range (Text.atoi (token.take (token.idxOf '-'))) (tokenLast token + 1)
  else [Text.atoi token]

theorem parseCpuString_eq (memory : Memory) (cpuStr : List Char) :
    parseCpuString memory cpuStr = (tokensOf memory cpuStr).flatMap cpusOfToken := rfl

/-- Each loop over a range ends: its `int` does not overflow when it goes past the last number. -/
def LoopsEnd (memory : Memory) (cpuStr : List Char) : Prop :=
  ∀ token ∈ tokensOf memory cpuStr, '-' ∈ token → tokenLast token < maxInt

/-! ### Tokens -/

theorem atoi_le (text : List Char) : Text.atoi text ≤ maxInt := by
  rw [Text.atoi]
  cases Text.toInteger text with
  | error failure => exact Int.natCast_nonneg maxInt
  | ok n =>
    have hlt := Int.bmod_lt (x := max (-9223372036854775808) (min n 9223372036854775807))
      (show 0 < 4294967296 by decide)
    simp only [maxInt]
    omega

theorem le_of_mem_cpusOfToken {token : List Char} {n : Int} (h : n ∈ cpusOfToken token) :
    n ≤ maxInt := by
  rw [cpusOfToken] at h
  split_ifs at h
  · obtain ⟨-, hlt⟩ := Int.mem_range_iff.1 h
    have hle : tokenLast token ≤ maxInt := atoi_le _
    omega
  · obtain rfl := List.mem_singleton.1 h
    exact atoi_le token

theorem atoi_digits {n : Nat} (h : n ≤ maxInt) : Text.atoi (digits n) = n := Text.atoi_toDigits h

theorem dash_not_mem_digits (n : Nat) : '-' ∉ digits n := not_mem_digits rfl

/-- The token of an item. -/
theorem cpusOfToken_one {x : Nat} (h : x ≤ maxInt) :
    cpusOfToken (CpuItem.one x).text = [(x : Int)] := by
  rw [cpusOfToken, text, if_neg (dash_not_mem_digits x), atoi_digits h]

theorem idxOf_dash (a : Nat) (rest : List Char) : (digits a ++ '-' :: rest).idxOf '-' =
    (digits a).length := by
  rw [List.idxOf_append_of_notMem (dash_not_mem_digits a), List.idxOf_cons_self, Nat.add_zero]

theorem tokenLast_range {a b : Nat} (h : b ≤ maxInt) :
    tokenLast (CpuItem.range a b).text = b := by
  rw [tokenLast, text, idxOf_dash, ← List.drop_drop, List.drop_left, List.drop_one, List.tail_cons,
    atoi_digits h]

theorem cpusOfToken_range {a b : Nat} (ha : a ≤ maxInt) (hb : b ≤ maxInt) :
    cpusOfToken (CpuItem.range a b).text = Int.range a (b + 1) := by
  have hdash : '-' ∈ (CpuItem.range a b).text := by simp [text]
  rw [cpusOfToken, if_pos hdash, tokenLast_range hb, text, idxOf_dash, List.take_left,
    atoi_digits ha]

/-- An item that fits in an `int` is expanded. -/
theorem cpusOfToken_text {i : CpuItem} (hle : i.first ≤ i.last) (hfits : i.FitsInt) :
    cpusOfToken i.text =
      (List.range (i.last + 1 - i.first)).map fun k => ((i.first + k : Nat) : Int) := by
  cases i with
  | one x =>
    rw [cpusOfToken_one hfits]
    simp [first, last]
  | range a b =>
    have hb : b ≤ maxInt := Nat.le_of_lt hfits
    have hab : a ≤ b := hle
    have hlength : ((b : Int) + 1 - a).toNat = b + 1 - a := by omega
    rw [cpusOfToken_range (hab.trans hb) hb, Int.range, hlength]
    simp [first, last]

end VmNodeInfo

namespace CpuString

open VmNodeInfo

variable (l : CpuString)

/-- The list is parsed to its expansion, and the program goes on. -/
structure Parses (memory : Memory) : Prop where
  loopsEnd : LoopsEnd memory l.text
  expansion : parseCpuString memory l.text = l.expansion

theorem nul_not_mem_text : '\x00' ∉ l.text := by
  have hdigits (n : Nat) : '\x00' ∉ digits n := not_mem_digits rfl
  have hitem (i : CpuItem) : '\x00' ∉ i.text := by cases i <;> simp [CpuItem.text, hdigits]
  intro hmem
  rcases Text.mem_intercalate hmem with h | ⟨part, hpart, h⟩
  · exact absurd h (by decide)
  · obtain ⟨i, -, rfl⟩ := List.mem_map.1 hpart
    exact hitem i h

theorem pieces_text : Text.pieces (fun c => c = ',') l.text = l.items.map CpuItem.text := by
  refine Text.pieces_joined (decide_eq_true rfl) fun part hpart => ?_
  obtain ⟨i, -, rfl⟩ := List.mem_map.1 hpart
  exact ⟨i.text_ne, fun c hc => decide_eq_false fun heq => i.comma_not_mem_text (heq ▸ hc)⟩

/-- With a `NUL` behind the copy, the tokens are the items. -/
theorem tokensOf_nul {memory : Memory} (h : (memory.afterCpus l.text).head? = some '\x00') :
    tokensOf memory l.text = l.items.map CpuItem.text := by
  obtain ⟨rest, hrest⟩ := List.head?_eq_some_iff.1 h
  rw [tokensOf, hrest, Text.cString_append l.nul_not_mem_text, l.pieces_text]

/-- **The list is expanded** if a `NUL` is behind the copy and the numbers fit in an `int`. -/
theorem parses_of_nul (hfits : ∀ i ∈ l.items, i.FitsInt) {memory : Memory}
    (h : (memory.afterCpus l.text).head? = some '\x00') : l.Parses memory where
  loopsEnd := by
    rw [LoopsEnd, l.tokensOf_nul h]
    intro token htoken hdash
    obtain ⟨i, hi, rfl⟩ := List.mem_map.1 htoken
    cases i with
    | one x => exact absurd hdash (dash_not_mem_digits x)
    | range a b =>
      have hb : b < maxInt := hfits _ hi
      rw [tokenLast_range hb.le]
      exact_mod_cast hb
  expansion := by
    rw [parseCpuString_eq, l.tokensOf_nul h, List.flatMap_map, CpuString.expansion]
    exact List.flatMap_congr fun i hi => cpusOfToken_text (l.first_le_last i hi) (hfits i hi)

/-- The last number of an item is expanded. -/
theorem last_mem_expansion {i : CpuItem} (hi : i ∈ l.items) : (i.last : Int) ∈ l.expansion := by
  have hle := l.first_le_last i hi
  refine List.mem_flatMap.2 ⟨i, hi, List.mem_map.2 ⟨i.last - i.first, ?_, ?_⟩⟩
  · rw [List.mem_range]
    omega
  · rw [Nat.add_sub_cancel' hle]

theorem fitsInt_of_parses {memory : Memory} (hparses : l.Parses memory)
    (h : (memory.afterCpus l.text).head? = some '\x00') : ∀ i ∈ l.items, i.FitsInt := by
  intro i hi
  have hle : i.last ≤ maxInt := by
    have hmem := l.last_mem_expansion hi
    rw [← hparses.expansion, parseCpuString_eq] at hmem
    obtain ⟨token, -, htoken⟩ := List.mem_flatMap.1 hmem
    exact_mod_cast le_of_mem_cpusOfToken htoken
  cases i with
  | one x => exact hle
  | range a b =>
    have htoken : (CpuItem.range a b).text ∈ tokensOf memory l.text := by
      rw [l.tokensOf_nul h]
      exact List.mem_map_of_mem hi
    have hlt := hparses.loopsEnd _ htoken (by simp [CpuItem.text])
    rw [tokenLast_range (b := b) hle] at hlt
    exact_mod_cast hlt

/-- Memory with these bytes after the copy. -/
def memoryOf (bytes : List Char) : Memory :=
  { ArgVector.zeroMemory with afterCpus := fun _ => bytes }

/-- A further token in the memory is read. -/
theorem parseCpuString_further {c : Char} (hc : c ≠ '\x00') {d : Char} (hd : d.isDigit = true) :
    parseCpuString (memoryOf [c, ',', d, '\x00']) l.text =
      (Text.pieces (fun c => c = ',') (l.text ++ [c])).flatMap cpusOfToken ++ [Text.atoi [d]] := by
  have hdigit (e : Char) (he : e.isDigit = false) : d ≠ e := by
    rintro rfl
    rw [hd] at he
    cases he
  have hnul : '\x00' ∉ (l.text ++ [c]) ++ [',', d] := by
    simp [l.nul_not_mem_text, Ne.symm hc, Ne.symm (hdigit '\x00' rfl)]
  have hstring : l.text ++ [c, ',', d, '\x00'] = ((l.text ++ [c]) ++ [',', d]) ++ ['\x00'] := by
    simp
  have hlast : Text.pieces (fun c => c = ',') [d] = [[d]] :=
    Text.pieces_single (List.cons_ne_nil _ _) (by simp [hdigit ',' rfl])
  have htoken : cpusOfToken [d] = [Text.atoi [d]] := by
    rw [cpusOfToken, if_neg (by simp [Ne.symm (hdigit '-' rfl)])]
  rw [parseCpuString_eq, tokensOf, memoryOf, hstring, Text.cString_append hnul,
    Text.pieces_append (decide_eq_true rfl), hlast, List.flatMap_append]
  simp [htoken]

/-- **A list is parsed to its expansion, whatever is behind the buffer, exactly when the byte of the
buffer that is not written is `NUL` and the numbers fit in an `int`.** -/
theorem parses_memory_iff (c : Char) :
    (∀ memory : Memory, (memory.afterCpus l.text).head? = some c → l.Parses memory) ↔
      c = '\x00' ∧ ∀ i ∈ l.items, i.FitsInt := by
  constructor
  · intro h
    have hc : c = '\x00' := by
      by_contra hne
      -- Two memories that differ in a further token would give the same list.
      have hone := (h (memoryOf [c, ',', '1', '\x00']) rfl).expansion
      have htwo := (h (memoryOf [c, ',', '2', '\x00']) rfl).expansion
      rw [l.parseCpuString_further hne rfl] at hone htwo
      have heq := List.append_cancel_left (hone.trans htwo.symm)
      exact absurd heq (by decide)
    subst hc
    exact ⟨rfl, l.fitsInt_of_parses (h (memoryOf ['\x00']) rfl) rfl⟩
  · rintro ⟨rfl, hfits⟩ memory hmemory
    exact l.parses_of_nul hfits hmemory

def three : CpuString := ⟨[.one 3], by simp [first, last]⟩

/-- Of `3` before a `7` in the memory the cpu 37 is parsed. -/
theorem not_parses_seven : ¬ ∀ (l : CpuString) (memory : Memory), l.Parses memory := by
  intro h
  have hexpansion := (h three (memoryOf ['7', '\x00'])).expansion
  exact absurd hexpansion (by decide)

end CpuString

/-! ## The parts of virtual nodes -/

namespace VmNodeInfo

/-- The virtual nodes are numbered from `0` on, and have no cpus of their own. -/
structure Numbered (s : VmNodeInfo) : Prop where
  ids : s.getVnodeIds.Perm ((List.range s.vnodeInfo.length).map fun i : Nat => (i : Int))
  no_cpus : ∀ vnode ∈ s.vnodeInfo, vnode.cpus = []

/-- A vcpu is of a virtual node. -/
def IsOf (s : VmNodeInfo) (vcpuNum vcpu : Int) (vnodeId : Nat) : Prop :=
  ∃ ids, s.getVcpuIds vnodeId vcpuNum = some ids ∧ vcpu ∈ ids

/-- The queries return, and each vcpu, and nothing else, is of one virtual node. Without virtual
nodes the query returns, for any id. -/
structure Splits (s : VmNodeInfo) (vcpuNum : Int) : Prop where
  none_returns : s.vnodeInfo = [] → ∀ vnodeId : Int, (s.getVcpuIds vnodeId vcpuNum).isSome
  returns : ∀ i < s.vnodeInfo.length, (s.getVcpuIds i vcpuNum).isSome
  vcpu : ∀ i < s.vnodeInfo.length, ∀ vcpu, s.IsOf vcpuNum vcpu i → 0 ≤ vcpu ∧ vcpu < vcpuNum
  one : s.vnodeInfo ≠ [] → ∀ vcpu, 0 ≤ vcpu → vcpu < vcpuNum →
    ∃! i, i < s.vnodeInfo.length ∧ s.IsOf vcpuNum vcpu i

/-- Each entry that is read is counted. -/
theorem vnodeSize_eq_length (memory : Memory) (tokens : List (List Char))
    {ret : VmVnodeReturnStructure} (h : ret.vnodeSize = ret.vnodeInfo.length) :
    (readVnodes memory tokens ret).vnodeSize = (readVnodes memory tokens ret).vnodeInfo.length := by
  fun_induction readVnodes memory tokens ret with
  | case1 ret => exact h
  | case2 ret => exact h
  | case3 ret value tokens ih =>
    refine ih ?_
    rw [List.length_append, h]
    rfl
  | case4 ret token tokens hne ih => exact ih h

theorem vnodeNum_of_update {memory : Memory} {s t : VmNodeInfo}
    {cmdline : Nat → Option (List Char)} (h : s.update memory cmdline = some t) :
    t.vnodeNum = t.vnodeInfo.length := by
  simp only [update, Option.bind_eq_bind, Option.bind_eq_some_iff] at h
  obtain ⟨text, -, ht⟩ := h
  cases ht
  exact vnodeSize_eq_length memory (Text.words text) rfl

theorem Numbered.cpus_eq {s : VmNodeInfo} (h : s.Numbered) (vnodeId : Int) :
    ((s.vnodeInfo.find? fun vnode => vnode.vnodeId = vnodeId).map
      VmVnodeStaticInfo.cpus).getD [] = [] := by
  cases hfind : s.vnodeInfo.find? fun vnode => vnode.vnodeId = vnodeId with
  | none => rfl
  | some vnode => exact h.no_cpus vnode (List.mem_of_find?_eq_some hfind)

/-- The part of a virtual node without cpus. -/
theorem Numbered.getVcpuIds_eq {s : VmNodeInfo} (h : s.Numbered) {vcpuNum : Int}
    (hpos : 0 < vcpuNum) (vnodeId : Int) : s.getVcpuIds vnodeId vcpuNum =
      if s.vnodeNum = 0 then none
      else some (Int.range (vnodeId * vcpuNum.tdiv s.vnodeNum)
        ((vnodeId + 1) * vcpuNum.tdiv s.vnodeNum)) := by
  rw [getVcpuIds, h.cpus_eq vnodeId]
  simp only [hpos, and_self, if_true]
  rfl

/-- The vcpus of a virtual node, by the quotient. -/
theorem Numbered.isOf_iff {s : VmNodeInfo} (h : s.Numbered) (hnum : s.vnodeNum = s.vnodeInfo.length)
    (hne : s.vnodeInfo ≠ []) {vcpuNum : Nat} (hpos : 0 < vcpuNum) {vcpu : Int} {i : Nat} :
    s.IsOf vcpuNum vcpu i ↔ ((i * (vcpuNum / s.vnodeInfo.length) : Nat) : Int) ≤ vcpu ∧
      vcpu < (((i + 1) * (vcpuNum / s.vnodeInfo.length) : Nat) : Int) := by
  have hsome : s.vnodeNum ≠ 0 := by
    rw [hnum]
    exact_mod_cast List.length_pos_iff.2 hne |>.ne'
  rw [IsOf, h.getVcpuIds_eq (by exact_mod_cast hpos), if_neg hsome, hnum, ← Int.ofNat_tdiv]
  simp only [Option.some.injEq, exists_eq_left', Int.mem_range_iff]
  push_cast
  rfl

/-- Without virtual nodes, the division is by zero. -/
theorem Numbered.not_splits_nil {s : VmNodeInfo} (h : s.Numbered)
    (hnum : s.vnodeNum = s.vnodeInfo.length) (hnil : s.vnodeInfo = []) {vcpuNum : Nat}
    (hpos : 0 < vcpuNum) : ¬ s.Splits vcpuNum := by
  intro hsplits
  have hzero : s.vnodeNum = 0 := by simp [hnum, hnil]
  have hreturns := hsplits.none_returns hnil 0
  rw [h.getVcpuIds_eq (by exact_mod_cast hpos), if_pos hzero] at hreturns
  cases hreturns

theorem Numbered.splits_iff_dvd {s : VmNodeInfo} (h : s.Numbered)
    (hnum : s.vnodeNum = s.vnodeInfo.length) (hne : s.vnodeInfo ≠ []) {vcpuNum : Nat}
    (hpos : 0 < vcpuNum) : s.Splits vcpuNum ↔ s.vnodeInfo.length ∣ vcpuNum := by
  have hof (vcpu : Int) (i : Nat) : s.IsOf vcpuNum vcpu i ↔ _ := h.isOf_iff hnum hne hpos
  generalize hn : s.vnodeInfo.length = n at hof ⊢
  constructor
  · intro hsplits
    -- The last vcpu is of a virtual node, so that the parts reach to the end.
    obtain ⟨i, ⟨hi, hlast⟩, -⟩ := hsplits.one hne ((vcpuNum : Int) - 1) (by omega) (by omega)
    have hlt : vcpuNum - 1 < (i + 1) * (vcpuNum / n) := by
      have hint := ((hof _ i).1 hlast).2
      omega
    have hle : (i + 1) * (vcpuNum / n) ≤ n * (vcpuNum / n) :=
      Nat.mul_le_mul_right _ (hn ▸ hi)
    have hmul := Nat.mul_div_le vcpuNum n
    exact ⟨vcpuNum / n, by omega⟩
  · intro hdvd
    have hmul : n * (vcpuNum / n) = vcpuNum := Nat.mul_div_cancel' hdvd
    have hq : 0 < vcpuNum / n := by
      refine Nat.pos_of_ne_zero fun hzero => ?_
      rw [hzero, Nat.mul_zero] at hmul
      omega
    have hsome : s.vnodeNum ≠ 0 := by
      rw [hnum]
      exact_mod_cast (List.length_pos_iff.2 hne).ne'
    refine ⟨fun hnil => absurd hnil hne, fun i _ => ?_, fun i hi vcpu hvcpu => ?_,
      fun _ vcpu hlow hhigh => ?_⟩
    · rw [h.getVcpuIds_eq (by exact_mod_cast hpos), if_neg hsome]
      rfl
    · obtain ⟨hlow, hhigh⟩ := (hof vcpu i).1 hvcpu
      have hle : (i + 1) * (vcpuNum / n) ≤ n * (vcpuNum / n) :=
        Nat.mul_le_mul_right _ (hn ▸ hi)
      omega
    · obtain ⟨vcpu, rfl⟩ := Int.eq_ofNat_of_zero_le hlow
      have hpart (i : Nat) : s.IsOf vcpuNum vcpu i ↔ vcpu / (vcpuNum / n) = i := by
        rw [hof, Nat.div_eq_iff hq, Nat.succ_mul]
        omega
      refine ⟨vcpu / (vcpuNum / n), ⟨?_, (hpart _).2 rfl⟩, fun i hi => ((hpart i).1 hi.2).symm⟩
      rw [hn, Nat.div_lt_iff_lt_mul hq, hmul]
      omega

/-- **The vcpus are split among the virtual nodes, and each query returns, exactly when the number
of virtual nodes divides theirs.** -/
theorem splits_iff {m : Machine} {pid : Nat} {s : VmNodeInfo}
    (h : ensure m.memory { pid := pid } m.cmdline = some s) (hnumbered : s.Numbered) {vcpuNum : Int}
    (hpos : 0 < vcpuNum) : s.Splits vcpuNum ↔ (s.vnodeInfo.length : Int) ∣ vcpuNum := by
  have hnum : s.vnodeNum = s.vnodeInfo.length := vnodeNum_of_update h
  obtain ⟨vcpuNum, rfl⟩ := Int.eq_ofNat_of_zero_le hpos.le
  have hpos : 0 < vcpuNum := by exact_mod_cast hpos
  rw [Int.natCast_dvd_natCast]
  by_cases hnil : s.vnodeInfo = []
  · refine iff_of_false (hnumbered.not_splits_nil hnum hnil hpos) ?_
    rw [hnil, List.length_nil, Nat.zero_dvd]
    exact hpos.ne'
  · exact hnumbered.splits_iff_dvd hnum hnil hpos

/-- A VM with two virtual nodes. -/
def twoVnodes : Machine where
  memory := ArgVector.zeroMemory
  cmdline _ := some
    "-numa\x00node,nodeid=0,mem=64\x00-numa\x00node,nodeid=1,mem=64\x00".toList

def twoVnodesRead : VmNodeInfo where
  vnodeNum := 2
  vnodeInfo := [⟨0, [], 64, 0⟩, ⟨1, [], 64, 0⟩]
  init := true
  pid := 7

theorem ensure_twoVnodes :
    ensure twoVnodes.memory { pid := 7 } twoVnodes.cmdline = some twoVnodesRead := by
  decide +kernel

theorem numbered_twoVnodes : twoVnodesRead.Numbered := ⟨by decide, by decide⟩

theorem splits_iff_twoVnodes : twoVnodesRead.Splits 4 ↔ (2 : Int) ∣ 4 :=
  splits_iff ensure_twoVnodes numbered_twoVnodes (by decide)

/-- The last of three vcpus is of neither of two virtual nodes. -/
theorem not_splits_three : ¬ ∀ (m : Machine) (pid : Nat) (s : VmNodeInfo),
    ensure m.memory { pid := pid } m.cmdline = some s → s.Numbered →
      ∀ vcpuNum : Int, 0 < vcpuNum → s.Splits vcpuNum := by
  intro h
  have hsplits := h twoVnodes 7 twoVnodesRead ensure_twoVnodes numbered_twoVnodes 3 (by decide)
  have hdvd := (numbered_twoVnodes.splits_iff_dvd rfl (List.cons_ne_nil _ _)
    (show 0 < 3 by decide)).1 hsplits
  exact absurd hdvd (by decide)

end VmNodeInfo

end LibVsf
