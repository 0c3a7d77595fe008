import LibVsf.NodeSysDist
import Mathlib.Data.List.Nodup

/-!
# What is read of the printed distances

A layout of the output of `numactl --hardware` (`NumactlHardware`) says what stands before the
distances, which nodes there are, and how the table is spaced. With a distance function it gives the
text.

* `readDist_text`: if no line before the table reads as `node distances:`, then exactly the table is
  kept.
* `parseDist_text`: the matrix has a row for each node, after the rows that other lines left.
* `answers_iff`: a lookup by node ids gives the distance, for all distances, exactly when the
  nodes are `0`, `1`, … in this order and no earlier line reads as `node distances:`. As everywhere
  with `StrTools.split`, the texts have fewer than 2³¹ characters.
-/

namespace LibVsf

/-- The output of `numactl --hardware`, but for the distances. -/
structure NumactlHardware where
  preamble : List (List Char)
  header : List Char
  ids : List Nat
  /-- The blanks before a row, before each of its numbers (one more than this) and at its end. -/
  lead : Nat → Nat
  gap : Nat → Nat → Nat
  trail : Nat → Nat
  preamble_line : ∀ line ∈ preamble, '\n' ∉ line
  header_ne : header ≠ []
  header_line : '\n' ∉ header
  header_string : '\x00' ∉ header
  ids_nodup : ids.Nodup

/-- A distance is an `int`. -/
def Fits (d : Nat → Nat → Nat) : Prop := ∀ a b, d a b ≤ 2147483647

namespace NumactlHardware

variable (h : NumactlHardware) (d : Nat → Nat → Nat)

/-- The line of the node `a`. -/
def row (a : Nat) : List Char :=
  Text.spaced (h.lead a) (Nat.toDigits 10 a ++ [':'])
    (h.ids.map fun b => (h.gap a b, Nat.toDigits 10 (d a b))) (h.trail a)

/-- What is printed after `node distances:`. -/
def table : List Char := Text.unlines (h.header :: h.ids.map (h.row d))

def text : List Char := Text.unlines h.preamble ++ (NodeSysDist.distLine ++ '\n' :: h.table d)

/-- No part of a line before the table reads as `node distances:`. -/
def Clean : Prop :=
  ∀ line ∈ h.preamble, NodeSysDist.distLine ++ ['\n'] ∉
    (Text.buffered NodeSysDist.bufSize (line ++ ['\n'])).map Text.cString

/-- The matrix of the distances. -/
def matrix : Matrix := h.ids.map fun a => h.ids.map fun b => (d a b : Int)

end NumactlHardware

namespace NodeSysDist

open NumactlHardware

/-! ## Reading -/

theorem readDist_true (bufs : List (List Char)) (res : List Char) :
    readDist bufs true res = res ++ bufs.flatten := by
  induction bufs generalizing res with
  | nil => simp [readDist]
  | cons buf bufs ih => simp [readDist, ih]

/-- Before the line nothing is kept. -/
theorem readDist_before {bufs : List (List Char)} (hnone : distLine ++ ['\n'] ∉ bufs)
    (rest : List (List Char)) :
    readDist (bufs ++ rest) false [] = readDist rest false [] := by
  induction bufs with
  | nil => rfl
  | cons buf bufs ih =>
    obtain ⟨hbuf, hbufs⟩ := List.ne_and_not_mem_of_not_mem_cons hnone
    simpa [readDist, hbuf.symm] using ih hbufs

theorem readDist_line (rest : List (List Char)) :
    readDist ((distLine ++ ['\n']) :: rest) false [] = rest.flatten := by
  simp [readDist, readDist_true]

/-- After the first such line everything is kept. -/
theorem readDist_after {bufs : List (List Char)} (hmem : distLine ++ ['\n'] ∈ bufs) :
    ∃ kept, ∀ rest, readDist (bufs ++ rest) false [] = kept ++ rest.flatten := by
  obtain ⟨before, after, rfl, hnone⟩ := List.eq_append_cons_of_mem hmem
  refine ⟨after.flatten, fun rest => ?_⟩
  rw [List.append_assoc, readDist_before hnone, List.cons_append, readDist_line,
    List.flatten_append]

/-- The strings read of lines. -/
theorem buffered_unlines {ls : List (List Char)} (hls : ∀ l ∈ ls, '\n' ∉ l) (rest : List Char) :
    Text.buffered bufSize (Text.unlines ls ++ rest) =
      (ls.flatMap fun l => Text.buffered bufSize (l ++ ['\n'])) ++ Text.buffered bufSize rest := by
  induction ls with
  | nil => rfl
  | cons l ls ih =>
    obtain ⟨hl, hls⟩ := List.forall_mem_cons.1 hls
    have hcons : Text.unlines (l :: ls) ++ rest = l ++ '\n' :: (Text.unlines ls ++ rest) := by
      simp [Text.unlines]
    rw [hcons, Text.buffered_line bufSize hl, ih hls, List.flatMap_cons, List.append_assoc]

theorem distLine_line : '\n' ∉ distLine := by decide

theorem buffered_distLine :
    (Text.buffered bufSize (distLine ++ ['\n'])).map Text.cString = [distLine ++ ['\n']] := by
  decide

end NodeSysDist

namespace NumactlHardware

open NodeSysDist

variable (h : NumactlHardware) (d : Nat → Nat → Nat)

/-! ## The printed table -/

/-- The characters of a row. -/
theorem mem_row {a : Nat} {c : Char} (hc : c ∈ h.row d a) :
    c = ' ' ∨ c = ':' ∨ c.isDigit = true := by
  simp only [row, Text.spaced, List.mem_append, List.mem_flatMap, List.mem_map,
    List.mem_replicate, List.mem_singleton] at hc
  rcases hc with ⟨-, rfl⟩ | ((hid | rfl) | (⟨p, ⟨b, -, rfl⟩, hc⟩ | ⟨-, rfl⟩))
  · exact .inl rfl
  · exact .inr (.inr (Text.isDigit_toDigits hid))
  · exact .inr (.inl rfl)
  · rcases hc with ⟨-, rfl⟩ | hnum
    · exact .inl rfl
    · exact .inr (.inr (Text.isDigit_toDigits hnum))
  · exact .inl rfl

/-- The numbers of a row. -/
theorem words_row (a : Nat) : StrTools.split (h.row d a) ' ' =
    (Nat.toDigits 10 a ++ [':']) :: h.ids.map fun b => Nat.toDigits 10 (d a b) := by
  have hblank {n : Nat} : ' ' ∉ Nat.toDigits 10 n := Text.not_mem_toDigits rfl n
  have hwords : ∀ w ∈ (Nat.toDigits 10 a ++ [':']) ::
      (h.ids.map fun b => (h.gap a b, Nat.toDigits 10 (d a b))).map Prod.snd,
      w ≠ [] ∧ ' ' ∉ w := by
    intro w hw
    rcases List.mem_cons.1 hw with rfl | hw
    · simp [hblank]
    · simp only [List.map_map, List.mem_map, Function.comp_apply] at hw
      obtain ⟨b, -, rfl⟩ := hw
      exact ⟨Nat.toDigits_ne_nil, hblank⟩
  have hpieces := Text.pieces_spaced hwords (h.lead a) (h.trail a)
  rw [List.map_map] at hpieces
  exact hpieces

theorem distRow_row (hd : Fits d) (a : Nat) :
    distRow (h.row d a) = h.ids.map fun b => (d a b : Int) := by
  rw [distRow, words_row, List.drop_one, List.tail_cons, List.map_map]
  refine List.map_congr_left fun b _ => ?_
  have hnum := (Text.Numeral.ofNat (d a b) (hd a b)).atoi_text
  rwa [Text.Numeral.value_ofNat] at hnum

theorem row_ne (a : Nat) : h.row d a ≠ [] := by
  simp [row, Text.spaced]

/-- Its lines. -/
theorem table_line : ∀ line ∈ h.header :: h.ids.map (h.row d), '\n' ∉ line := by
  intro line hline
  rcases List.mem_cons.1 hline with rfl | hline
  · exact h.header_line
  · obtain ⟨a, -, rfl⟩ := List.mem_map.1 hline
    intro hmem
    rcases h.mem_row d hmem with heq | heq | heq <;> revert heq <;> decide

theorem split_table : StrTools.split (h.table d) '\n' = h.header :: h.ids.map (h.row d) := by
  rw [StrTools.split, table, Text.pieces_unlines (h.table_line d)]
  refine List.filter_eq_self.2 fun line hline => decide_eq_true ?_
  rcases List.mem_cons.1 hline with rfl | hline
  · exact h.header_ne
  · obtain ⟨a, -, rfl⟩ := List.mem_map.1 hline
    exact h.row_ne d a

theorem table_string : '\x00' ∉ h.table d := by
  intro hmem
  simp only [table, Text.unlines, List.mem_flatMap, List.mem_append, List.mem_singleton] at hmem
  obtain ⟨line, hline, hmem | hend⟩ := hmem
  · rcases List.mem_cons.1 hline with rfl | hline
    · exact h.header_string hmem
    · obtain ⟨a, -, rfl⟩ := List.mem_map.1 hline
      rcases h.mem_row d hmem with heq | heq | heq <;> revert heq <;> decide
  · revert hend
    decide

theorem map_distRow (hd : Fits d) : (h.ids.map (h.row d)).map distRow = h.matrix d := by
  rw [List.map_map]
  exact List.map_congr_left fun a _ => h.distRow_row d hd a

/-! ## What is kept of the text -/

/-- The strings read before the line. -/
def before : List (List Char) :=
  (h.preamble.flatMap fun line => Text.buffered bufSize (line ++ ['\n'])).map Text.cString

theorem clean_iff : h.Clean ↔ distLine ++ ['\n'] ∉ h.before := by
  simp only [Clean, before, List.map_flatMap, List.mem_flatMap]
  grind

/-- The strings read of the text. -/
theorem buffered_text : (Text.buffered bufSize (h.text d)).map Text.cString =
    h.before ++ (distLine ++ ['\n']) ::
      (Text.buffered bufSize (h.table d)).map Text.cString := by
  rw [text, buffered_unlines h.preamble_line, Text.buffered_line bufSize distLine_line,
    List.map_append, List.map_append, buffered_distLine]
  rfl

/-- **The table is kept**, and nothing else. -/
theorem readDist_text (hclean : h.Clean) :
    readDist ((Text.buffered bufSize (h.text d)).map Text.cString) false [] = h.table d := by
  rw [buffered_text, readDist_before (h.clean_iff.1 hclean), readDist_line,
    Text.flatten_cString_buffered bufSize (h.table_string d)]

/-- After an earlier line that reads as `node distances:`, more is kept. -/
theorem readDist_marked (hclean : ¬ h.Clean) : ∃ kept, ∀ d,
    readDist ((Text.buffered bufSize (h.text d)).map Text.cString) false [] =
      (kept ++ distLine) ++ '\n' :: h.table d := by
  have hmem : distLine ++ ['\n'] ∈ h.before := by
    by_contra hnone
    exact hclean (h.clean_iff.2 hnone)
  obtain ⟨kept, hkept⟩ := readDist_after hmem
  refine ⟨kept, fun d => ?_⟩
  rw [buffered_text, hkept, List.flatten_cons,
    Text.flatten_cString_buffered bufSize (h.table_string d)]
  simp

/-- **What a measurement keeps**: rows that the distances have no part in, if an earlier line reads
as `node distances:`, and then a row for each node. -/
theorem parseDist_text : ∃ rows : Matrix, (rows = [] ↔ h.Clean) ∧ ∀ d, Fits d →
    parseDist (readDist ((Text.buffered bufSize (h.text d)).map Text.cString) false []) =
      some (rows ++ h.matrix d) := by
  by_cases hclean : h.Clean
  · refine ⟨[], by simp [hclean], fun d hd => ?_⟩
    rw [h.readDist_text d hclean, parseDist, split_table]
    exact congrArg some (h.map_distRow d hd)
  · obtain ⟨kept, hkept⟩ := h.readDist_marked hclean
    have hne : StrTools.split (kept ++ distLine) '\n' ≠ [] :=
      Text.pieces_ne_nil (List.mem_append_right kept (List.mem_cons_self (a := 'n'))) rfl
    obtain ⟨line, lines, hlines⟩ := List.exists_cons_of_ne_nil hne
    refine ⟨(lines ++ [h.header]).map distRow, by simp [hclean], fun d hd => ?_⟩
    have hsplit : StrTools.split ((kept ++ distLine) ++ '\n' :: h.table d) '\n' =
        line :: ((lines ++ [h.header]) ++ h.ids.map (h.row d)) := by
      have happend : StrTools.split ((kept ++ distLine) ++ '\n' :: h.table d) '\n' =
          StrTools.split (kept ++ distLine) '\n' ++ StrTools.split (h.table d) '\n' :=
        Text.pieces_append (decide_eq_true rfl) (kept ++ distLine) (h.table d)
      rw [happend, hlines, split_table]
      simp
    rw [hkept, parseDist, hsplit, ← h.map_distRow d hd, ← List.map_append]

/-! ## Lookups -/

/-- Every lookup by node ids in an object without data gives the distance. -/
def Answers : Prop :=
  ∀ s : NodeSysDist, s.hasData = false → ∀ a ∈ h.ids, ∀ b ∈ h.ids,
    s.getNodeSysDistOf (some (h.text d)) a b = some (d a b)

theorem getNodeSysDistOf_text {rows : Matrix}
    (hparse : parseDist (readDist ((Text.buffered bufSize (h.text d)).map Text.cString) false []) =
      some (rows ++ h.matrix d)) {s : NodeSysDist} (hs : s.hasData = false) (a b : Nat) :
    s.getNodeSysDistOf (some (h.text d)) a b = (rows ++ h.matrix d).entry a b := by
  simp [getNodeSysDistOf, getNodeSysDist, hs, hparse]

theorem entry_natCast (matrix : Matrix) (i j : Nat) :
    matrix.entry i j = matrix[i]?.bind (·[j]?) := by
  simp [Matrix.entry]

/-- An entry of the matrix. -/
theorem entry_matrix (i j : Nat) : (h.matrix d)[i]?.bind (·[j]?) =
    h.ids[i]?.bind fun a => h.ids[j]?.map fun b => (d a b : Int) := by
  rw [matrix, List.getElem?_map]
  cases h.ids[i]? <;> simp

/-- Every entry by node ids is the distance, for all distances. -/
def Placed (rows : Matrix) : Prop :=
  ∀ d, Fits d → ∀ a ∈ h.ids, ∀ b ∈ h.ids, (rows ++ h.matrix d).entry a b = some (d a b : Int)

/-- The entries of the first rows are the same for all distances. -/
theorem Placed.length_le {rows : Matrix} (hplaced : h.Placed rows) {a : Nat} (ha : a ∈ h.ids) :
    rows.length ≤ a := by
  by_contra hlt
  rw [not_le] at hlt
  have hzero := hplaced (fun _ _ => 0) (fun _ _ => Nat.zero_le _) a ha a ha
  have hone := hplaced (fun _ _ => 1) (fun _ _ => Nat.le_of_ble_eq_true rfl) a ha a ha
  rw [entry_natCast, List.getElem?_append_left hlt] at hzero hone
  rw [hzero] at hone
  exact absurd hone (by decide)

/-- The distance of two nodes alone is found where they stand in the list. -/
theorem Placed.getElem?_ids {rows : Matrix} (hplaced : h.Placed rows) {a b : Nat}
    (ha : a ∈ h.ids) (hb : b ∈ h.ids) :
    h.ids[a - rows.length]? = some a ∧ h.ids[b]? = some b := by
  have hentry := hplaced (fun x y => if x = a ∧ y = b then 1 else 0)
    (fun _ _ => by dsimp only; split_ifs <;> decide) a ha b hb
  rw [entry_natCast, List.getElem?_append_right (hplaced.length_le h ha), entry_matrix] at hentry
  simp only [and_self, if_true, Option.bind_eq_some_iff, Option.map_eq_some_iff] at hentry
  obtain ⟨x, hx, y, hy, hxy⟩ := hentry
  split_ifs at hxy with hboth
  · exact ⟨hboth.1 ▸ hx, hboth.2 ▸ hy⟩
  · exact absurd hxy (by decide)

theorem placed_iff (rows : Matrix) :
    h.Placed rows ↔ h.ids = [] ∨ h.ids = List.range h.ids.length ∧ rows = [] := by
  constructor
  · intro hplaced
    have hat : ∀ a ∈ h.ids, h.ids[a]? = some a :=
      fun a ha => (hplaced.getElem?_ids h ha ha).2
    have hinj {i j a : Nat} (hi : h.ids[i]? = some a) (hj : h.ids[j]? = some a) : i = j :=
      (List.getElem?_inj (List.getElem?_eq_some_iff.1 hi).1 h.ids_nodup).1 (hi.trans hj.symm)
    refine or_iff_not_imp_left.2 fun hne => ⟨?_, ?_⟩
    · refine List.ext_getElem (by simp) fun i hi _ => ?_
      rw [List.getElem_range]
      exact (hinj (List.getElem?_eq_getElem hi) (hat _ (List.getElem_mem hi))).symm
    · obtain ⟨a, ha⟩ := List.exists_mem_of_ne_nil h.ids hne
      have hle := hplaced.length_le h ha
      have heq := hinj (hplaced.getElem?_ids h ha ha).1 (hat a ha)
      exact List.length_eq_zero_iff.1 (by omega)
  · rintro (hnil | ⟨hids, rfl⟩) d - a ha b hb
    · rw [hnil] at ha
      cases ha
    · have hat {c : Nat} (hc : c ∈ h.ids) : h.ids[c]? = some c := by
        rw [hids] at hc ⊢
        exact List.getElem?_range (List.mem_range.1 hc)
      rw [List.nil_append, entry_natCast, entry_matrix, hat ha, hat hb]
      rfl

/-- **Node ids as positions.** Whatever the distances are, a lookup by node ids gives the distance
exactly when there is no node, or the nodes are `0`, `1`, … in this order and no line before the
table reads as `node distances:`. -/
theorem answers_iff : (∀ d, Fits d → h.Answers d) ↔
    h.ids = [] ∨ h.ids = List.range h.ids.length ∧ h.Clean := by
  obtain ⟨rows, hrows, hparse⟩ := h.parseDist_text
  have hplaced : (∀ d, Fits d → h.Answers d) ↔ h.Placed rows := by
    constructor
    · intro hanswers d hd a ha b hb
      rw [← h.getNodeSysDistOf_text d (hparse d hd) (s := {}) rfl]
      exact hanswers d hd {} rfl a ha b hb
    · intro hplaced d hd s hs a ha b hb
      rw [h.getNodeSysDistOf_text d (hparse d hd) hs]
      exact hplaced d hd a ha b hb
  rw [hplaced, placed_iff, hrows]

/-- A machine with the nodes `0` and `2`. -/
def twoNodes : NumactlHardware where
  preamble := ["available: 2 nodes (0,2)".toList]
  header := "node   0   2 ".toList
  ids := [0, 2]
  lead := fun _ => 2
  gap := fun _ _ => 1
  trail := fun _ => 1
  preamble_line := by decide
  header_ne := by decide
  header_line := by decide
  header_string := by decide
  ids_nodup := by decide

def twoNodesDist (a b : Nat) : Nat := if a = b then 10 else 20

/-- The distance of the second node to itself is looked for in a third row. -/
theorem not_answers_twoNodes : ¬ twoNodes.Answers twoNodesDist := by
  intro hanswers
  have hnone : NodeSysDist.getNodeSysDistOf {} (some (twoNodes.text twoNodesDist)) 2 2 = none := by
    decide +kernel
  have hsome := hanswers {} rfl 2 (by decide) 2 (by decide)
  rw [show ((2 : Nat) : Int) = 2 from rfl, hnone] at hsome
  cases hsome

end NumactlHardware

end LibVsf
