import LibVsf.Lib.Spans
import LibVsf.StrTools

/-!
# `str_tools`: the loops

The functions of `utils/str_tools.cpp` as their loops compute them: with the positions they read,
the bounds they compute, and what happens where a position is not in the string or a character not
in the array. `split_eq`, `strip_eq` and `getDirs_eq`: they compute what `StrTools` says of them.
-/

namespace LibVsf

namespace StrTools

namespace Loops

/-- `std::out_of_range`. -/
inductive Failure where
  | outOfRange
deriving DecidableEq, Repr

/-! ## `split` -/

/-- The conversion of a `size_t` to an `int`. -/
def intOfSize (n : Nat) : Int := (n : Int).bmod 4294967296

/-- The loop at `i`, when `left` characters are left. `subStr` is what has been read since the last
delimiter; behind the loop it is flushed. -/
def splitFrom (s : List Char) (delim : Char) :
    Nat → Nat → List Char → List (List Char) → Except Failure (List (List Char))
  | 0, _, subStr, ret => .ok (if subStr ≠ [] then ret ++ [subStr] else ret)
  | left + 1, i, subStr, ret =>
    match s[i]? with
    | none => .error .outOfRange
    | some c =>
      if c = delim then
        if subStr ≠ [] then splitFrom s delim left (i + 1) [] (ret ++ [subStr])
        else splitFrom s delim left (i + 1) subStr ret
      else splitFrom s delim left (i + 1) (subStr ++ [c]) ret

/-- `split`: `ret` as the call leaves it. There is no iteration where `len` is negative. -/
def split (s : List Char) (delim : Char) (ret : List (List Char)) :
    Except Failure (List (List Char)) :=
  splitFrom s delim (intOfSize s.length).toNat 0 [] ret

/-- The loop at the end of what it has read. -/
theorem splitFrom_eq {s rest : List Char} {delim : Char} {i : Nat} (h : s.drop i = rest)
    (subStr : List Char) (ret : List (List Char)) :
    splitFrom s delim rest.length i subStr ret =
      .ok (ret ++ Text.piecesFrom (fun c => c = delim) subStr rest) := by
  induction rest generalizing i subStr ret with
  | nil =>
    simp only [List.length_nil, splitFrom, Text.piecesFrom]
    by_cases hsub : subStr = [] <;> simp [hsub]
  | cons c rest ih =>
    have hc : s[i]? = some c := by
      rw [← Nat.add_zero i, ← List.getElem?_drop, h]
      rfl
    have hrest : s.drop (i + 1) = rest := by
      rw [← List.drop_drop, h]
      rfl
    simp only [List.length_cons, splitFrom, hc, Text.piecesFrom, decide_eq_true_eq]
    by_cases hdelim : c = delim
    · by_cases hsub : subStr = []
      · simp [hdelim, hsub, ih hrest]
      · simp [hdelim, hsub, ih hrest]
    · simp [hdelim, ih hrest]

theorem intOfSize_eq {n : Nat} (h : n < 2147483648) : intOfSize n = n :=
  Int.bmod_eq_of_le (by omega) (by omega)

/-- **The loop appends the pieces.** -/
theorem split_eq {s : List Char} (h : s.length < 2147483648) (delim : Char)
    (ret : List (List Char)) : split s delim ret = .ok (ret ++ StrTools.split s delim) := by
  have hdrop : s.drop 0 = s := List.drop_zero
  rw [split, intOfSize_eq h, Int.toNat_natCast, splitFrom_eq hdrop]
  rfl

/-! ## `strip` -/

/-- The first loop, from the position `i` on: `beg` is `0` where it finds nothing. -/
def begFrom (i : Nat) : List Char → Nat
  | [] => 0
  | c :: cs => if isBlank c then begFrom (i + 1) cs else i

/-- The second loop, from before the position `i` down: `end` is `0` where it finds nothing. -/
def endFrom (s : List Char) : (i : Nat) → i ≤ s.length → Nat
  | 0, _ => 0
  | i + 1, h =>
    if isBlank (s.get ⟨i, h⟩) then endFrom s i (Nat.le_of_succ_le h) else i + 1

def begOf (s : List Char) : Nat := begFrom 0 s

def endOf (s : List Char) : Nat := endFrom s s.length (Nat.le_refl _)

/-- The difference of two `size_t`s. -/
def sizeSub (a b : Nat) : Nat := if b ≤ a then a - b else 18446744073709551616 - (b - a)

def substr (s : List Char) (pos count : Nat) : Except Failure (List Char) :=
  if s.length < pos then .error .outOfRange else .ok ((s.drop pos).take count)

def strip (s : List Char) : Except Failure (List Char) :=
  substr s (begOf s) (sizeSub (endOf s) (begOf s))

theorem begFrom_of_all {s : List Char} (h : ∀ c ∈ s, isBlank c = true) (i : Nat) :
    begFrom i s = 0 := by
  induction s generalizing i with
  | nil => rfl
  | cons c s ih =>
    obtain ⟨hc, hs⟩ := List.forall_mem_cons.1 h
    rw [begFrom, if_pos hc, ih hs]

theorem begFrom_eq {s : List Char} (h : ∃ c ∈ s, isBlank c = false) (i : Nat) :
    begFrom i s = i + (s.takeWhile isBlank).length := by
  induction s generalizing i with
  | nil =>
    obtain ⟨c, hc, -⟩ := h
    cases hc
  | cons c s ih =>
    by_cases hc : isBlank c = true
    · have hs : ∃ c ∈ s, isBlank c = false := by
        obtain ⟨b, hb, hblank⟩ := h
        rcases List.mem_cons.1 hb with rfl | hb
        · rw [hc] at hblank
          cases hblank
        · exact ⟨b, hb, hblank⟩
      rw [begFrom, if_pos hc, ih hs, List.takeWhile_cons_of_pos hc, List.length_cons]
      omega
    · rw [begFrom, if_neg hc, List.takeWhile_cons_of_neg hc]
      rfl

theorem endFrom_eq (s : List Char) (i : Nat) (h : i ≤ s.length) :
    endFrom s i h = ((s.take i).rdropWhile isBlank).length := by
  induction i with
  | zero => rfl
  | succ i ih =>
    have htake : s.take (i + 1) = s.take i ++ [s.get ⟨i, h⟩] := List.take_succ_eq_append_getElem h
    rw [endFrom, ih, htake]
    by_cases hc : isBlank (s.get ⟨i, h⟩) = true
    · rw [if_pos hc, List.rdropWhile_concat_pos _ _ _ hc]
    · rw [if_neg hc, List.rdropWhile_concat_neg _ _ _ hc, List.length_append, List.length_take,
        Nat.min_eq_left (Nat.le_of_succ_le h)]
      rfl

theorem endOf_eq (s : List Char) : endOf s = (s.rdropWhile isBlank).length := by
  rw [endOf, endFrom_eq, List.take_length]

/-- Where the loops find something, the bounds are those of what is trimmed. -/
theorem bounds_eq {s : List Char} (h : ∃ c ∈ s, isBlank c = false) :
    begOf s = (s.takeWhile isBlank).length ∧
      endOf s = (s.takeWhile isBlank).length + (StrTools.strip s).length := by
  have hbeg : begOf s = 0 + (s.takeWhile isBlank).length := begFrom_eq h 0
  rw [Nat.zero_add] at hbeg
  refine ⟨hbeg, ?_⟩
  have hparts := congrArg List.length (Spans.trim_decomposition h)
  have happend : s.rdropWhile isBlank ++ s.rtakeWhile isBlank = s :=
    List.rdropWhile_append_rtakeWhile
  have hends := congrArg List.length happend
  rw [List.length_append] at hends
  rw [List.length_append, List.length_append] at hparts
  change _ = _ + (StrTools.strip s).length + _ at hparts
  rw [endOf_eq]
  omega

/-- **The bounds are in order**, and in the string. -/
theorem bounds_le (s : List Char) : begOf s ≤ endOf s ∧ endOf s ≤ s.length := by
  have hend : endOf s ≤ s.length := by
    rw [endOf_eq]
    exact (List.rdropWhile_prefix isBlank s).length_le
  by_cases h : ∃ c ∈ s, isBlank c = false
  · obtain ⟨hbeg, hstop⟩ := bounds_eq h
    exact ⟨by omega, hend⟩
  · have hall : ∀ c ∈ s, isBlank c = true := by simpa using h
    have hbeg : begOf s = 0 := begFrom_of_all hall 0
    exact ⟨by omega, hend⟩

/-- **The loops strip.** -/
theorem strip_eq (s : List Char) : strip s = .ok (StrTools.strip s) := by
  obtain ⟨hle, hlength⟩ := bounds_le s
  have hin : ¬ s.length < begOf s := by omega
  have hsub : sizeSub (endOf s) (begOf s) = endOf s - begOf s := if_pos hle
  rw [strip, substr, if_neg hin, hsub]
  congr 1
  by_cases h : ∃ c ∈ s, isBlank c = false
  · obtain ⟨hbeg, hstop⟩ := bounds_eq h
    have hcount : endOf s - begOf s = (StrTools.strip s).length := by omega
    have hparts : s = s.takeWhile isBlank ++ (StrTools.strip s ++ s.rtakeWhile isBlank) := by
      rw [← List.append_assoc]
      exact Spans.trim_decomposition h
    have hdrop : s.drop (begOf s) = StrTools.strip s ++ s.rtakeWhile isBlank := by
      rw [hbeg]
      nth_rewrite 2 [hparts]
      exact List.drop_left
    rw [hcount, hdrop, List.take_left]
  · have hall : ∀ c ∈ s, isBlank c = true := by simpa using h
    have hend : endOf s = 0 := by
      rw [endOf_eq, List.rdropWhile_eq_nil_iff.2 hall]
      rfl
    rw [hend, strip_eq_nil hall, Nat.zero_sub, List.take_zero]

/-! ## `prefix_and_digits` and its siblings -/

/-- `struct dirent`: an array of characters that holds a name, and a `NUL` behind it. -/
structure Dirent where
  dName : List Char
  terminated : '\x00' ∈ dName

namespace Dirent

/-- The name: the characters before the first `NUL`, whose offset is the length of the name. -/
def name (dptr : Dirent) : List Char := Text.cString dptr.dName

end Dirent

/-- A scanner that has returned: what it returned, and the last offset that it has read. -/
structure Scan where
  accepted : Bool
  lastRead : Nat
deriving DecidableEq, Repr

/-- `do { if (!std::isdigit(*p++)) return 0; } while (*p != '\0');` for the memory at `p`. None if
the end of the array is read. -/
def scanDigits : List Char → Nat → Option Scan
  | [], _ => none
  | c :: mem, p =>
    if c.isDigit = false then some ⟨false, p⟩
    else
      match mem.head? with
      | none => none
      | some c' => if c' = '\x00' then some ⟨true, p + 1⟩ else scanDigits mem (p + 1)

/-- `if (*p++ != c) return 0;` for the characters of the prefix, before the digits. -/
def scanPrefix : List Char → List Char → Nat → Option Scan
  | [], mem, p => scanDigits mem p
  | _ :: _, [], _ => none
  | c :: cs, c' :: mem, p => if c' ≠ c then some ⟨false, p⟩ else scanPrefix cs mem (p + 1)

def prefixAndDigits (dptr : Dirent) : Option Scan := scanDigits dptr.dName 0

def prefixAndDigitsNode (dptr : Dirent) : Option Scan :=
  scanPrefix ['n', 'o', 'd', 'e'] dptr.dName 0

def prefixAndDigitsVcpu (dptr : Dirent) : Option Scan :=
  scanPrefix ['v', 'c', 'p', 'u'] dptr.dName 0

/-- `scandir`: the entries that the filter accepts. -/
def scandir (entries : List Dirent) (filter : Dirent → Option Scan) : List Dirent :=
  entries.filter fun dptr => (filter dptr).any Scan.accepted

/-- The filter that `get_dirs` passes to `scandir`. -/
def filterOf (dirPrefix : List Char) : Option (Dirent → Option Scan) :=
  if dirPrefix = [] then some prefixAndDigits
  else if dirPrefix = "node".toList then some prefixAndDigitsNode
  else if dirPrefix = "vcpu".toList then some prefixAndDigitsVcpu
  else none

/-- `get_dirs`, for a directory with the given entries, or one that cannot be scanned. -/
def getDirs (dir : String) (dirPrefix : List Char) (entries : Option (List Dirent)) :
    Except ReadFailure (List (List Char)) :=
  match filterOf dirPrefix with
  | none => .error (.scandirFailed ("Undefine dir prefix: " ++ String.ofList dirPrefix))
  | some filter =>
    match entries with
    | none => .error (.scandirFailed ("To scan directory: " ++ dir))
    | some es => .ok ((scandir es filter).map Dirent.name)

/-- The name, the `NUL`, and what is in the array behind it. -/
theorem Dirent.dName_eq (dptr : Dirent) :
    ∃ rest, dptr.dName = dptr.name ++ '\x00' :: rest ∧ '\x00' ∉ dptr.name := by
  obtain ⟨before, rest, hdName, hnot⟩ := List.eq_append_cons_of_mem dptr.terminated
  have hname : dptr.name = before := by
    rw [Dirent.name, hdName]
    exact Text.cString_append hnot rest
  exact ⟨rest, by rw [hname, hdName], by rwa [hname]⟩

theorem prefixAndDigits_digits (c : Char) (name : List Char) :
    StrTools.prefixAndDigits [] (c :: name) = (c.isDigit && name.all Char.isDigit) := rfl

theorem prefixAndDigits_cons (c c' : Char) (cs name : List Char) :
    StrTools.prefixAndDigits (c :: cs) (c' :: name) =
      (c == c' && StrTools.prefixAndDigits cs name) := by
  simp [StrTools.prefixAndDigits, List.isPrefixOf, Bool.and_assoc]

/-- **The digits are read to the `NUL` at most**, whatever is behind it. -/
theorem scanDigits_eq {name : List Char} (h : '\x00' ∉ name) (rest : List Char) (p : Nat) :
    ∃ n ≤ name.length, scanDigits (name ++ '\x00' :: rest) p =
      some ⟨StrTools.prefixAndDigits [] name, p + n⟩ := by
  induction name generalizing p with
  | nil =>
    have hnul : '\x00'.isDigit = false := by decide
    refine ⟨0, Nat.le_refl 0, ?_⟩
    rw [List.nil_append, scanDigits, if_pos hnul]
    rfl
  | cons c name ih =>
    obtain ⟨-, hname⟩ := List.ne_and_not_mem_of_not_mem_cons h
    by_cases hc : c.isDigit = true
    · have hgo : ¬ c.isDigit = false := by simp [hc]
      cases name with
      | nil =>
        refine ⟨1, Nat.le_refl 1, ?_⟩
        simp [scanDigits, prefixAndDigits_digits, hc]
      | cons c' name =>
        obtain ⟨hc', -⟩ := List.ne_and_not_mem_of_not_mem_cons hname
        obtain ⟨n, hn, hscan⟩ := ih hname (p + 1)
        refine ⟨n + 1, Nat.succ_le_succ hn, ?_⟩
        have hhead : (c' :: name ++ '\x00' :: rest).head? = some c' := rfl
        rw [List.cons_append, scanDigits, if_neg hgo, hhead]
        simp only [if_neg (Ne.symm hc')]
        rw [hscan, prefixAndDigits_digits c, hc, Bool.true_and, Nat.add_assoc, Nat.add_comm 1 n]
        rfl
    · refine ⟨0, Nat.zero_le _, ?_⟩
      rw [Bool.not_eq_true] at hc
      rw [List.cons_append, scanDigits, if_pos hc, prefixAndDigits_digits, hc, Bool.false_and,
        Nat.add_zero]

/-- **So is the prefix**: where it is longer than the name, the `NUL` is not in it. -/
theorem scanPrefix_eq {dirPrefix name : List Char} (hdir : '\x00' ∉ dirPrefix)
    (h : '\x00' ∉ name) (rest : List Char) (p : Nat) :
    ∃ n ≤ name.length, scanPrefix dirPrefix (name ++ '\x00' :: rest) p =
      some ⟨StrTools.prefixAndDigits dirPrefix name, p + n⟩ := by
  induction dirPrefix generalizing name p with
  | nil => exact scanDigits_eq h rest p
  | cons c cs ih =>
    obtain ⟨hc, hcs⟩ := List.ne_and_not_mem_of_not_mem_cons hdir
    cases name with
    | nil =>
      refine ⟨0, Nat.le_refl 0, ?_⟩
      rw [List.nil_append, scanPrefix, if_pos hc]
      rfl
    | cons c' name =>
      obtain ⟨-, hname⟩ := List.ne_and_not_mem_of_not_mem_cons h
      rw [List.cons_append, scanPrefix, prefixAndDigits_cons]
      by_cases heq : c' = c
      · obtain ⟨n, hn, hscan⟩ := ih hcs hname (p + 1)
        refine ⟨n + 1, Nat.succ_le_succ hn, ?_⟩
        rw [if_neg (not_not.2 heq), hscan, heq, beq_self_eq_true, Bool.true_and, Nat.add_assoc,
          Nat.add_comm 1 n]
      · refine ⟨0, Nat.zero_le _, ?_⟩
        have hbeq : (c == c') = false := beq_eq_false_iff_ne.2 (Ne.symm heq)
        rw [if_pos heq, hbeq, Bool.false_and, Nat.add_zero]

/-- **A scanner** with its prefix. -/
theorem scan_eq {dirPrefix : List Char} (hdir : '\x00' ∉ dirPrefix) (dptr : Dirent) :
    ∃ n ≤ dptr.name.length, scanPrefix dirPrefix dptr.dName 0 =
      some ⟨StrTools.prefixAndDigits dirPrefix dptr.name, n⟩ := by
  obtain ⟨rest, hdName, hname⟩ := dptr.dName_eq
  obtain ⟨n, hn, hscan⟩ := scanPrefix_eq hdir hname rest 0
  rw [Nat.zero_add] at hscan
  exact ⟨n, hn, by rw [hdName, hscan]⟩

/-- What `scandir` leaves of the entries, by their names. -/
theorem names_scandir {dirPrefix : List Char} (hdir : '\x00' ∉ dirPrefix) (entries : List Dirent) :
    (scandir entries fun dptr => scanPrefix dirPrefix dptr.dName 0).map Dirent.name =
      (entries.map Dirent.name).filter (StrTools.prefixAndDigits dirPrefix) := by
  rw [scandir, List.filter_map]
  congr 1
  refine List.filter_congr fun dptr _ => ?_
  obtain ⟨n, -, hscan⟩ := scan_eq hdir dptr
  rw [hscan]
  rfl

/-- Each filter scans its prefix, in which there is no `NUL`. -/
theorem filterOf_eq (dirPrefix : List Char) :
    if dirPrefix = [] ∨ dirPrefix = "node".toList ∨ dirPrefix = "vcpu".toList then
      '\x00' ∉ dirPrefix ∧
        filterOf dirPrefix = some fun dptr => scanPrefix dirPrefix dptr.dName 0
    else filterOf dirPrefix = none := by
  split_ifs with h
  · rcases h with rfl | rfl | rfl
    · exact ⟨List.not_mem_nil, rfl⟩
    · exact ⟨by decide, rfl⟩
    · exact ⟨by decide, rfl⟩
  · obtain ⟨hany, hother⟩ := not_or.1 h
    obtain ⟨hnode, hvcpu⟩ := not_or.1 hother
    rw [filterOf, if_neg hany, if_neg hnode, if_neg hvcpu]

/-- **The scanners select** what `get_dirs` is to return. -/
theorem getDirs_eq (dir : String) (dirPrefix : List Char) (entries : Option (List Dirent)) :
    getDirs dir dirPrefix entries =
      StrTools.getDirs dir dirPrefix (entries.map fun es => es.map Dirent.name) := by
  have hfilter := filterOf_eq dirPrefix
  split_ifs at hfilter with h
  · obtain ⟨hnul, hfilter⟩ := hfilter
    rw [StrTools.getDirs.eq_def, getDirs, if_pos h, hfilter]
    cases entries with
    | none => rfl
    | some es => exact congrArg Except.ok (names_scandir hnul es)
  · rw [StrTools.getDirs.eq_def, getDirs, if_neg h, hfilter]

end Loops

end StrTools

end LibVsf
