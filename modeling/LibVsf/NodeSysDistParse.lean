import LibVsf.NodeSysDistProof

/-!
# `NodeSysDist`: whatever `numactl` prints

The loop over the lines starts after the first of them, without a test that there is one.

* `loopLines_eq_some_iff`: the loop ends, with the rows after the first line, exactly when there is
  a first line.
* `parses_iff`: a text is read without moving the iterator past the end, and without a table gives
  no rows, exactly when something other than ends of lines is printed after `node distances:`
  (with fewer than 2³¹ characters, which `StrTools.split` counts in an `int`).
-/

namespace LibVsf

namespace NodeSysDist

/-! ## The loop over the lines -/

/-- `for (; i != res_in_line.end(); i++)`, for a number of rounds: `none` if it has not ended by
then, or the iterator is read past the end. -/
def loopLines (lines : List (List Char)) : Nat → Nat → Matrix → Option Matrix
  | 0, _, _ => none
  | rounds + 1, i, dist =>
    if i = lines.length then some dist
    else do
      let line ← lines[i]?
      loopLines lines rounds (i + 1) (dist ++ [distRow line])

theorem loopLines_eq {lines : List (List Char)} {rounds i : Nat} (hi : i ≤ lines.length)
    (hrounds : lines.length < rounds + i) (dist : Matrix) :
    loopLines lines rounds i dist = some (dist ++ (lines.drop i).map distRow) := by
  induction rounds generalizing i dist with
  | zero => omega
  | succ rounds ih =>
    rw [loopLines]
    split_ifs with hend
    · simp [hend]
    · have hlt : i < lines.length := by omega
      rw [List.getElem?_eq_getElem hlt]
      simp only [Option.bind_eq_bind, Option.bind_some]
      rw [ih (by omega) (by omega), List.drop_eq_getElem_cons hlt, List.map_cons,
        List.append_assoc]
      rfl

/-- Past the end the loop does not end. -/
theorem loopLines_past {lines : List (List Char)} {i : Nat} (hi : lines.length < i) (rounds : Nat)
    (dist : Matrix) : loopLines lines rounds i dist = none := by
  cases rounds with
  | zero => rfl
  | succ rounds =>
    rw [loopLines, if_neg (by omega), List.getElem?_eq_none (by omega)]
    rfl

/-- The rounds do not matter once they suffice: the result is that of `parseDist`. -/
theorem loopLines_parseDist {res : List Char} {rounds : Nat}
    (hrounds : (StrTools.split res '\n').length < rounds + 1) :
    loopLines (StrTools.split res '\n') rounds 1 [] = parseDist res := by
  rw [parseDist]
  cases hlines : StrTools.split res '\n' with
  | nil => exact loopLines_past Nat.one_pos rounds []
  | cons line lines =>
    rw [hlines] at hrounds
    rw [loopLines_eq (by simp) hrounds]
    rfl

/-- There is a first line when there is something other than ends of lines. -/
theorem split_eq_nil_iff {res : List Char} :
    StrTools.split res '\n' = [] ↔ ¬ ∃ c ∈ res, c ≠ '\n' := by
  rw [StrTools.split, Text.pieces_eq_nil_iff]
  simp

/-- **The loop ends exactly when there is a first line.** -/
theorem loopLines_eq_some_iff {res : List Char} :
    (∃ rounds dist, loopLines (StrTools.split res '\n') rounds 1 [] = some dist) ↔
      ∃ c ∈ res, c ≠ '\n' := by
  rw [← not_iff_not, ← split_eq_nil_iff]
  cases StrTools.split res '\n' with
  | nil =>
    have hpast (rounds : Nat) : loopLines [] rounds 1 [] = none :=
      loopLines_past Nat.one_pos rounds []
    simp [hpast]
  | cons line lines =>
    refine iff_of_false (not_not.2 ?_) (List.cons_ne_nil _ _)
    exact ⟨_, _, loopLines_eq (by simp) (Nat.lt_succ_self _) []⟩

/-! ## What is printed -/

/-- The strings that `fgets` leaves of what is printed. -/
def strings (text : List Char) : List (List Char) :=
  (Text.buffered bufSize text).map Text.cString

/-- What is printed after the first line `node distances:`. -/
def afterDistLine (text : List Char) : List Char :=
  ((strings text).dropWhile fun buf => buf ≠ distLine ++ ['\n']).tail.flatten

theorem readDist_eq (bufs : List (List Char)) : readDist bufs false [] =
    (bufs.dropWhile fun buf => buf ≠ distLine ++ ['\n']).tail.flatten := by
  induction bufs with
  | nil => rfl
  | cons buf bufs ih =>
    by_cases hbuf : buf = distLine ++ ['\n']
    · rw [hbuf, readDist_line]
      simp
    · simp only [readDist, hbuf, decide_false, Bool.or_self, Bool.false_eq_true, if_false, ih]
      simp [hbuf]

/-- There is a table: a line of headings and a row. -/
def HasTable (text : List Char) : Prop :=
  2 ≤ (StrTools.split (afterDistLine text) '\n').length

/-- The loop over the lines ends, its rows are the matrix, and there are none without a table. -/
def Parses (s : NodeSysDist) (text : List Char) : Prop :=
  ∃ rounds dist,
    loopLines (StrTools.split (readDist (strings text) false []) '\n') rounds 1 [] = some dist ∧
    s.getNodeSysDist (some text) = some ({ nodeSysDist := dist, hasData := true }, dist) ∧
    (¬ HasTable text → dist = [])

/-- **The text is read exactly when something is printed after the line `node distances:`**, other
than ends of lines. -/
theorem parses_iff {s : NodeSysDist} (hs : s.hasData = false) (text : List Char) :
    Parses s text ↔ ∃ c ∈ afterDistLine text, c ≠ '\n' := by
  have hres : readDist (strings text) false [] = afterDistLine text := readDist_eq (strings text)
  rw [← loopLines_eq_some_iff, Parses, hres]
  constructor
  · intro h
    obtain ⟨rounds, dist, hloop, -⟩ := h
    exact ⟨rounds, dist, hloop⟩
  · intro h
    obtain ⟨rounds, dist, hloop⟩ := h
    cases hlines : StrTools.split (afterDistLine text) '\n' with
    | nil =>
      rw [hlines, loopLines_past Nat.one_pos] at hloop
      cases hloop
    | cons line lines =>
      have hparse : parseDist (afterDistLine text) = some (lines.map distRow) := by
        rw [parseDist, hlines]
      refine ⟨_, _, loopLines_eq (by simp) (Nat.lt_succ_self _) [], ?_, fun hshort => ?_⟩
      · rw [← hres, strings] at hparse
        simp [getNodeSysDist, hs, hparse]
      · rw [HasTable, hlines] at hshort
        cases lines with
        | nil => rfl
        | cons row rows => exact absurd (Nat.le_add_left 2 rows.length) hshort

/-! ### No output -/

/-- A command that prints nothing. -/
theorem not_parses_nil : ¬ Parses {} [] := by
  intro h
  obtain ⟨rounds, dist, -, hget, -⟩ := h
  cases hget

/-- A line of headings and no row. -/
theorem parses_iff_headings : Parses {} (distLine ++ "\nnode   0 \n".toList) ↔
    ∃ c ∈ afterDistLine (distLine ++ "\nnode   0 \n".toList), c ≠ '\n' :=
  parses_iff rfl _

end NodeSysDist

end LibVsf
