import LibVsf.VmNodeInfo
import Mathlib.Tactic.Linarith

/-!
# What is read of a command line

The kernel gives the arguments of a process, each ended by `NUL`. They are joined with spaces, and
taken apart again at all blanks.

* `readCmdLine_iff`: the arguments are joined if there is one, and the size fits in an `int`.
* `words_intercalate`: the words of the joined arguments are those of the arguments.
* `numaCount_le_and_eq_iff`: where each `-numa` that is read as an option is an argument, no more is
  counted than there is, and all of it exactly if no `-numa` is itself a value and followed by an
  argument.
* `pairsOf_worded`: arguments without words hide a pair only behind the last `-numa`.
-/

namespace LibVsf

/-- The arguments of a process. -/
structure ArgVector where
  args : List (List Char)
  args_string : ∀ arg ∈ args, '\x00' ∉ arg

namespace ArgVector

variable (v : ArgVector)

/-- The file that the kernel gives. -/
def file : List Char := v.args.flatMap fun arg => arg ++ ['\x00']

/-- The arguments, joined by single spaces. -/
def joined : List Char := [' '].intercalate v.args

end ArgVector

namespace VmNodeInfo

/-! ## Blocks -/

theorem bufSize_eq : bufSize = 10240 := rfl

/-- The blocks are put together, if their number of bytes fits: `buf` holds whole blocks, and of the
next one `read` has been read. -/
theorem readBlocks_blocksFrom (text read buf : List Char) (hbuf : buf.length % 10240 = 0)
    (hfit : buf.length ≤ 2147481600) (hread : read.length < bufSize) :
    readBlocks buf (Text.blocksFrom bufSize read text) =
      if (buf ++ read ++ text).length ≤ 2147481600 then some (buf ++ read ++ text) else none := by
  have hsize := bufSize_eq
  induction text generalizing read buf with
  | nil =>
    simp only [Text.blocksFrom, List.append_nil]
    by_cases hnil : read = []
    · simp [hnil, readBlocks, hfit]
    · have hpos := List.length_pos_iff.2 hnil
      rw [if_neg hnil, readBlocks, readBlocks, List.length_append]
      by_cases hmax : 2147483647 < buf.length + bufSize
      · rw [if_pos hmax, if_neg (by omega)]
      · rw [if_neg hmax, if_pos (by omega)]
  | cons c text ih =>
    have hcons : buf ++ read ++ c :: text = buf ++ (read ++ [c]) ++ text := by simp
    have hlength : (read ++ [c]).length = read.length + 1 := List.length_append
    rw [Text.blocksFrom, hcons]
    by_cases hfull : read.length + 1 = bufSize
    · rw [if_pos hfull, readBlocks]
      by_cases hmax : 2147483647 < buf.length + bufSize
      · rw [if_pos hmax, if_neg (by simp only [List.length_append, hlength]; omega)]
      · have hnext := ih [] (buf ++ (read ++ [c])) (by rw [List.length_append, hlength]; omega)
          (by rw [List.length_append, hlength]; omega) (by rw [List.length_nil]; omega)
        rw [List.append_nil] at hnext
        rw [if_neg hmax, hnext]
    · rw [if_neg hfull]
      exact ih (read ++ [c]) buf hbuf hfit (by omega)

/-- **A file is read whole**, if its size fits. -/
theorem readBlocks_blocks (file : List Char) :
    readBlocks [] (Text.blocks bufSize file) =
      if file.length ≤ 2147481600 then some file else none := by
  have hread := readBlocks_blocksFrom file [] [] (by simp) (by simp) (by simp [bufSize])
  simpa [Text.blocks] using hread

/-! ## Arguments -/

end VmNodeInfo

namespace ArgVector

variable (v : ArgVector)

theorem file_eq (hne : v.args ≠ []) : v.file = ['\x00'].intercalate v.args ++ ['\x00'] := by
  obtain ⟨args, hargs⟩ := v
  simp only [file] at hne ⊢
  induction args with
  | nil => exact absurd rfl hne
  | cons arg args ih =>
    obtain ⟨-, hargs⟩ := List.forall_mem_cons.1 hargs
    cases args with
    | nil => simp [List.intercalate_singleton]
    | cons arg' args =>
      rw [List.flatMap_cons, ih hargs (List.cons_ne_nil _ _), List.intercalate_cons_cons]
      simp

/-- The bytes between the arguments are made spaces. -/
theorem map_intercalate {args : List (List Char)} (h : ∀ arg ∈ args, '\x00' ∉ arg) :
    (['\x00'].intercalate args).map (fun c => if c = '\x00' then ' ' else c) =
      [' '].intercalate args := by
  induction args with
  | nil => rfl
  | cons arg args ih =>
    obtain ⟨harg, hargs⟩ := List.forall_mem_cons.1 h
    have hkept : arg.map (fun c => if c = '\x00' then ' ' else c) = arg := by
      refine (List.map_congr_left fun c hc => if_neg ?_).trans (List.map_id' arg)
      rintro rfl
      exact harg hc
    cases args with
    | nil => simpa [List.intercalate_singleton] using hkept
    | cons arg' args =>
      rw [List.intercalate_cons_cons, List.intercalate_cons_cons, List.map_append,
        List.map_append, ih hargs, hkept]
      simp

theorem nulToSpace_file (hne : v.args ≠ []) :
    VmNodeInfo.nulToSpace v.file = v.joined ++ ['\x00'] := by
  rw [v.file_eq hne, VmNodeInfo.nulToSpace]
  simp [joined, map_intercalate v.args_string]

theorem joined_string : '\x00' ∉ v.joined := by
  intro hmem
  rw [joined, ← map_intercalate v.args_string, List.mem_map] at hmem
  obtain ⟨c, -, hc⟩ := hmem
  split_ifs at hc with heq
  · revert hc
    decide
  · exact heq hc

theorem file_eq_nil_iff : v.file = [] ↔ v.args = [] := by
  rw [file]
  cases v.args <;> simp

/-- **The arguments come back joined** exactly when there is one, and the size fits. -/
theorem readCmdLine_iff (memory : Memory) :
    VmNodeInfo.readCmdLine memory (some v.file) = some v.joined ↔
      v.args ≠ [] ∧ v.file.length ≤ 2147481600 := by
  simp only [VmNodeInfo.readCmdLine, VmNodeInfo.readBlocks_blocks]
  by_cases hfits : v.file.length ≤ 2147481600
  · by_cases hnil : v.args = []
    · simp [hnil, v.file_eq_nil_iff.2 hnil]
    · have hfile : v.file ≠ [] := fun heq => hnil (v.file_eq_nil_iff.1 heq)
      have hstring : Text.cString (VmNodeInfo.nulToSpace v.file ++ memory.afterCmdline) =
          v.joined := by
        rw [v.nulToSpace_file hnil, List.append_assoc]
        exact Text.cString_append v.joined_string memory.afterCmdline
      simp [hfits, hnil, hfile, hstring]
  · simp [hfits]

/-! ## Words -/

/-- **The words of the joined arguments** are those of the arguments. -/
theorem words_intercalate (args : List (List Char)) :
    Text.words ([' '].intercalate args) = args.flatMap Text.words :=
  Text.pieces_intercalate rfl args

end ArgVector

namespace VmNodeInfo

/-- How many virtual nodes are read of words. -/
def numaCount : List (List Char) → Nat
  | [] => 0
  | token :: tokens =>
    if token = numaOption then
      match tokens with
      | [] => 0
      | _ :: tokens => numaCount tokens + 1
    else numaCount tokens

theorem vnodeSize_readVnodes (memory : Memory) (tokens : List (List Char))
    (ret : VmVnodeReturnStructure) :
    (readVnodes memory tokens ret).vnodeSize = ret.vnodeSize + numaCount tokens := by
  fun_induction numaCount tokens generalizing ret with
  | case1 => simp [readVnodes]
  | case2 => simp [readVnodes]
  | case3 token tokens ih =>
    rw [readVnodes, if_pos rfl, ih, Nat.cast_add, Nat.cast_one]
    dsimp only
    omega
  | case4 token tokens hne ih =>
    rw [readVnodes.eq_def]
    dsimp only
    rw [if_neg hne, ih]

theorem numaCount_cons {token : List Char} (h : token ≠ numaOption) (tokens : List (List Char)) :
    numaCount (token :: tokens) = numaCount tokens := by
  rw [numaCount.eq_def]
  exact if_neg h

theorem words_numaOption : Text.words numaOption = [numaOption] := by decide

end VmNodeInfo

namespace ArgVector

open VmNodeInfo

/-! ## Pairs -/

/-- The number of the pairs of `-numa` and the argument after it. -/
def pairsOf (args : List (List Char)) : Nat :=
  (args.zip args.tail).countP fun p => p.1 = numaOption

/-- The words of the line, each with whether its argument is `-numa`. -/
def marked (args : List (List Char)) : List (List Char × Bool) :=
  args.flatMap fun arg => (Text.words arg).map (·, decide (arg = numaOption))

/-- Each `-numa` that is read as an option is an argument. It is read as one if a word comes after
it, and the word before it is not an option. -/
def OptionsAlone : List (List Char × Bool) → Prop
  | [] => True
  | (word, alone) :: rest =>
    if word = numaOption then
      match rest with
      | [] => True
      | _ :: rest => alone = true ∧ OptionsAlone rest
    else OptionsAlone rest

/-- No `-numa` inside an argument is read as an option. -/
def Whole (args : List (List Char)) : Prop := OptionsAlone (marked args)

/-- The arguments that have words. -/
def worded (args : List (List Char)) : List (List Char) :=
  args.filter fun arg => Text.words arg ≠ []

/-- Arguments come after a `-numa`, but no word. -/
def Dangling (args : List (List Char)) : Prop :=
  ∃ after, numaOption :: after <:+ args ∧ after ≠ [] ∧ worded after = []

/-- A `-numa` is a value, and an argument comes after it. -/
def Overlapping (args : List (List Char)) : Prop := [numaOption, numaOption] <:+: args.dropLast

theorem pairsOf_cons (arg arg' : List Char) (args : List (List Char)) :
    pairsOf (arg :: arg' :: args) =
      pairsOf (arg' :: args) + if arg = numaOption then 1 else 0 := by
  simp [pairsOf, List.countP_cons]

theorem pairsOf_cons_ne {arg : List Char} (h : arg ≠ numaOption) (args : List (List Char)) :
    pairsOf (arg :: args) = pairsOf args := by
  cases args with
  | nil => rfl
  | cons arg' args => simp [pairsOf_cons, h]

/-- An argument that is not `-numa` neither counts nor overlaps. -/
theorem overlapping_cons {arg : List Char} (h : arg ≠ numaOption) (args : List (List Char)) :
    Overlapping (arg :: args) ↔ Overlapping args := by
  cases args with
  | nil => simp [Overlapping]
  | cons arg' args =>
    rw [Overlapping, List.dropLast_cons_cons, List.infix_cons_iff, Overlapping]
    simp [List.cons_prefix_cons, h.symm]

/-- A `-numa` and its value overlap if the value is a `-numa` and not the last. -/
theorem overlapping_numa (value : List Char) (args : List (List Char)) :
    Overlapping (numaOption :: value :: args) ↔
      (value = numaOption ∧ args ≠ []) ∨ Overlapping (value :: args) := by
  cases args with
  | nil =>
    have hshort : ¬ [numaOption, numaOption] <:+: [numaOption] :=
      fun hinfix => absurd hinfix.length_le (by decide)
    simp [Overlapping, hshort]
  | cons arg args =>
    rw [Overlapping, List.dropLast_cons_cons, List.infix_cons_iff, Overlapping,
      List.dropLast_cons_cons]
    simp [List.cons_prefix_cons, eq_comm]

/-- The words inside an argument do not count. -/
theorem numaCount_inner {words : List (List Char)} {rest : List (List Char × Bool)}
    (h : OptionsAlone (words.map (·, false) ++ rest)) :
    numaCount (words ++ rest.map Prod.fst) = numaCount (rest.map Prod.fst) ∧
      OptionsAlone rest := by
  induction words with
  | nil => exact ⟨rfl, h⟩
  | cons word words ih =>
    rw [List.map_cons, List.cons_append, OptionsAlone.eq_def] at h
    by_cases hword : word = numaOption
    · -- It is the last word, or it would be read as an option.
      simp only [if_pos hword] at h
      subst hword
      cases words with
      | nil =>
        cases rest with
        | nil => exact ⟨rfl, trivial⟩
        | cons next rest => exact absurd h.1 Bool.false_ne_true
      | cons next words => exact absurd h.1 Bool.false_ne_true
    · simp only [if_neg hword] at h
      rw [List.cons_append, numaCount_cons hword]
      exact ih h

theorem marked_cons (arg : List Char) (args : List (List Char)) :
    marked (arg :: args) = (Text.words arg).map (·, decide (arg = numaOption)) ++ marked args :=
  List.flatMap_cons

theorem map_fst_marked (args : List (List Char)) :
    (marked args).map Prod.fst = args.flatMap Text.words := by
  induction args with
  | nil => rfl
  | cons arg args ih =>
    rw [marked_cons, List.map_append, List.map_map, ih, List.flatMap_cons]
    exact congrArg (· ++ _) (List.map_id _)

/-- An argument that is not `-numa` is passed over. -/
theorem numaCount_arg {arg : List Char} (harg : arg ≠ numaOption) {args : List (List Char)}
    {words : List (List Char)}
    (h : OptionsAlone (words.map (·, decide (arg = numaOption)) ++ marked args)) :
    numaCount (words ++ args.flatMap Text.words) = numaCount (args.flatMap Text.words) ∧
      Whole args := by
  rw [decide_eq_false harg] at h
  rw [← map_fst_marked]
  exact numaCount_inner h

/-- **No more is counted than there is**, and all of it exactly if nothing overlaps. By one or two
arguments, as the words are read. -/
theorem numaCount_le_and_eq_iff : ∀ args : List (List Char), (∀ arg ∈ args, Text.words arg ≠ []) →
    Whole args → numaCount (args.flatMap Text.words) ≤ pairsOf args ∧
      (numaCount (args.flatMap Text.words) = pairsOf args ↔ ¬ Overlapping args)
  | [], _, _ => by simp [numaCount, pairsOf, Overlapping]
  | [arg], _, h => by
    have hcount : numaCount (Text.words arg) = 0 := by
      by_cases harg : arg = numaOption
      · rw [harg, words_numaOption]
        rfl
      · rw [Whole, marked_cons] at h
        have hrest := (numaCount_arg harg h).1
        rwa [List.flatMap_nil, List.append_nil] at hrest
    simp [hcount, pairsOf, Overlapping]
  | arg :: value :: args, hwords, h => by
    rw [List.forall_mem_cons, List.forall_mem_cons] at hwords
    obtain ⟨-, hvalue, hargs⟩ := hwords
    rw [Whole, marked_cons] at h
    by_cases harg : arg = numaOption
    · subst harg
      obtain ⟨word, words, hword⟩ := List.exists_cons_of_ne_nil hvalue
      have hcount : numaCount ((numaOption :: value :: args).flatMap Text.words) =
          numaCount (words ++ args.flatMap Text.words) + 1 := by
        rw [List.flatMap_cons, List.flatMap_cons, words_numaOption, hword]
        rfl
      have hrest : OptionsAlone (words.map (·, decide (value = numaOption)) ++ marked args) := by
        rw [words_numaOption, marked_cons, hword] at h
        exact h.2
      rw [hcount, pairsOf_cons, if_pos rfl, overlapping_numa]
      by_cases hnuma : value = numaOption
      · -- The second `-numa` is read as the value of the first, and not as an option.
        subst hnuma
        obtain ⟨-, rfl⟩ := List.cons.inj (words_numaOption.symm.trans hword)
        obtain ⟨hle, -⟩ := numaCount_le_and_eq_iff args hargs hrest
        cases args with
        | nil => simp [numaCount, pairsOf, Overlapping]
        | cons arg args =>
          rw [pairsOf_cons, if_pos rfl, List.nil_append]
          refine ⟨by omega, iff_of_false (by omega) fun hno => ?_⟩
          exact hno (.inl ⟨rfl, List.cons_ne_nil _ _⟩)
      · obtain ⟨hpassed, hwhole⟩ := numaCount_arg hnuma hrest
        obtain ⟨hle, heq⟩ := numaCount_le_and_eq_iff args hargs hwhole
        rw [hpassed, pairsOf_cons_ne hnuma, overlapping_cons hnuma]
        simp only [hnuma, false_and, false_or, ← heq]
        omega
    · obtain ⟨hpassed, hwhole⟩ := numaCount_arg harg h
      obtain ⟨hle, heq⟩ :=
        numaCount_le_and_eq_iff (value :: args) (List.forall_mem_cons.2 ⟨hvalue, hargs⟩) hwhole
      rw [List.flatMap_cons, hpassed, pairsOf_cons_ne harg, overlapping_cons harg]
      exact ⟨hle, heq⟩

/-! ## Arguments without words -/

theorem worded_cons (arg : List Char) (args : List (List Char)) :
    worded (arg :: args) = if Text.words arg ≠ [] then arg :: worded args else worded args := by
  simp only [worded, List.filter_cons, decide_eq_true_eq]

theorem marked_worded (args : List (List Char)) : marked (worded args) = marked args := by
  induction args with
  | nil => rfl
  | cons arg args ih =>
    rw [worded_cons, marked_cons]
    split_ifs with hwords
    · rw [marked_cons, ih]
    · rw [not_not.1 hwords, ih]
      rfl

theorem dangling_cons (arg : List Char) (args : List (List Char)) :
    Dangling (arg :: args) ↔
      (arg = numaOption ∧ args ≠ [] ∧ worded args = []) ∨ Dangling args := by
  simp only [Dangling, List.suffix_cons_iff, List.cons.injEq, or_and_right, exists_or]
  refine or_congr ⟨?_, ?_⟩ Iff.rfl
  · rintro ⟨after, ⟨rfl, rfl⟩, hne, hnone⟩
    exact ⟨rfl, hne, hnone⟩
  · rintro ⟨rfl, hne, hnone⟩
    exact ⟨args, ⟨rfl, rfl⟩, hne, hnone⟩

/-- A `-numa` has words. -/
theorem not_dangling_of_worded {args : List (List Char)} (h : worded args = []) :
    ¬ Dangling args := by
  rintro ⟨after, hsuffix, -, -⟩
  have hmem : numaOption ∈ worded args :=
    List.mem_filter.2 ⟨hsuffix.subset List.mem_cons_self, by decide⟩
  rw [h] at hmem
  cases hmem

/-- A pair is lost where no word comes after a `-numa`. -/
theorem pairsOf_worded (args : List (List Char)) :
    (Dangling args → pairsOf args = pairsOf (worded args) + 1) ∧
      (¬ Dangling args → pairsOf args = pairsOf (worded args)) := by
  induction args with
  | nil => exact ⟨fun h => absurd h (not_dangling_of_worded rfl), fun _ => rfl⟩
  | cons arg args ih =>
    rw [dangling_cons, worded_cons]
    by_cases harg : arg = numaOption
    · subst harg
      rw [if_pos (by decide)]
      cases args with
      | nil => exact ⟨fun h => absurd h (by simp [Dangling]), fun _ => rfl⟩
      | cons next args =>
        rw [pairsOf_cons, if_pos rfl]
        cases hrest : worded (next :: args) with
        | nil =>
          have hsame := ih.2 (not_dangling_of_worded hrest)
          rw [hrest] at hsame
          exact ⟨fun _ => congrArg (· + 1) hsame, fun h => absurd h (by simp)⟩
        | cons value rest =>
          rw [pairsOf_cons, if_pos rfl, ← hrest]
          simp only [hrest, List.cons_ne_nil, and_false, false_or]
          rw [← hrest]
          exact ⟨fun h => congrArg (· + 1) (ih.1 h), fun h => congrArg (· + 1) (ih.2 h)⟩
    · have hsame : pairsOf (if Text.words arg ≠ [] then arg :: worded args else worded args) =
          pairsOf (worded args) := by
        split_ifs
        · exact pairsOf_cons_ne harg _
        · rfl
      rw [hsame, pairsOf_cons_ne harg]
      simpa only [harg, false_and, false_or] using ih

/-- **The command line of a process.** The arguments are read, joined by single spaces, exactly when
there is one, and the size fits. Where each `-numa` that is read as an option is an argument, the
virtual nodes are as many as the pairs of `-numa` and a value, exactly if, among the arguments that
have words, no `-numa` is a value and followed by an argument, and a word comes after each `-numa`
that arguments come after. -/
theorem readCmdLine_vnodeSize_iff (v : ArgVector) (memory : Memory) :
    (readCmdLine memory (some v.file) = some v.joined ↔
      v.args ≠ [] ∧ v.file.length ≤ 2147481600) ∧
    (Whole v.args → ((getVmVnodeStaticInfoFromCmdline memory v.joined).vnodeSize = pairsOf v.args ↔
      ¬ Overlapping (worded v.args) ∧ ¬ Dangling v.args)) := by
  refine ⟨v.readCmdLine_iff memory, fun hwhole => ?_⟩
  rw [Whole, ← marked_worded] at hwhole
  obtain ⟨hle, heq⟩ := numaCount_le_and_eq_iff (worded v.args)
    (fun arg harg => of_decide_eq_true (List.mem_filter.1 harg).2) hwhole
  obtain ⟨hlost, hsame⟩ := pairsOf_worded v.args
  rw [getVmVnodeStaticInfoFromCmdline, vnodeSize_readVnodes, joined, words_intercalate,
    ← map_fst_marked, ← marked_worded, map_fst_marked, ← heq]
  show (0 : Int) + _ = _ ↔ _
  by_cases hdangling : Dangling v.args
  · have hpairs := hlost hdangling
    exact iff_of_false (by omega) fun h => h.2 hdangling
  · have hpairs := hsame hdangling
    simp only [hdangling, not_false_eq_true, and_true]
    omega

/-- A process without arguments, such as a thread of the kernel. -/
def noArgs : ArgVector := ⟨[], by simp⟩

/-- A VM without virtual nodes, whose name has a `-numa` in it. -/
def named : ArgVector := ⟨["-name".toList, "a -numa b".toList], by decide⟩

def zeroMemory : Memory where
  afterCmdline := []
  afterCpus := fun _ => ['\x00']
  vnodeId := fun _ => 0
  memSizeMb := fun _ => 0
  staticBind := fun _ => 0

/-- An empty file is not read as the empty string, and the name is counted as a virtual node. -/
theorem not_read_back :
    readCmdLine zeroMemory (some noArgs.file) ≠ some noArgs.joined ∧
      (getVmVnodeStaticInfoFromCmdline zeroMemory named.joined).vnodeSize = 1 ∧
        pairsOf named.args = 0 := by
  decide +kernel

end ArgVector

end LibVsf
