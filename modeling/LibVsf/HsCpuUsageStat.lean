import LibVsf.HsCpuUsage

/-!
# `hsCpuUsage`: `/proc/stat`

The lines of counters of `/proc/stat` are printed by the kernel: the name, then the counters, of
which the fourth is the idle time. They fit in the buffer with which the file is read; other lines
need not.

**Theorem (`getPhyCpu_text`).** The file is read, unless a sum of counters overflows: the sums and
idle times of the total and of the CPUs that are listed.
-/

namespace LibVsf

open VmBase (longLong maxLongLong IsLongLong longLong_eq_some)

namespace HsCpuUsage

/-! ## The format -/

/-- The counters of a line. -/
structure Counters where
  fields : List Nat
  four_le : 4 ≤ fields.length

namespace Counters

def sum (c : Counters) : Nat := c.fields.sum

def idle (c : Counters) : Nat := c.fields.get ⟨3, c.four_le⟩

def text (name : List Char) (c : Counters) : List Char :=
  name ++ c.fields.flatMap fun n => ' ' :: Nat.toDigits 10 n

end Counters

/-- The line of one CPU. -/
structure CpuLine where
  id : Nat
  counters : Counters
  id_le : id ≤ 2147483647
  short : (counters.text (cpuName ++ Nat.toDigits 10 id)).length + 1 < bufSize

def CpuLine.text (l : CpuLine) : List Char := l.counters.text (cpuName ++ Nat.toDigits 10 l.id)

/-- Another line. What is read of it at once does not look like a CPU. -/
structure OtherLine where
  text : List Char
  no_newline : '\n' ∉ text
  not_cpu : ∀ buf ∈ Text.buffered bufSize (text ++ ['\n']), ¬ cpuName <+: buf

inductive Line where
  | cpu (l : CpuLine)
  | other (l : OtherLine)

def Line.text : Line → List Char
  | .cpu l => l.text
  | .other l => l.text

def Line.cpu? : Line → Option CpuLine
  | .cpu l => some l
  | .other _ => none

/-- `/proc/stat`. The name of the total is followed by one more blank. -/
structure Stat where
  total : Counters
  lines : List Line
  short : (total.text (cpuName ++ [' '])).length + 1 < bufSize
  /-- A CPU has one line. -/
  nodup : ((lines.filterMap Line.cpu?).map CpuLine.id).Nodup

namespace Stat

def cpus (a : Stat) : List CpuLine := a.lines.filterMap Line.cpu?

def text (a : Stat) : List Char :=
  Text.unlines (a.total.text (cpuName ++ [' ']) :: a.lines.map Line.text)

/-- All the counters. -/
def counters (a : Stat) : List Counters := a.total :: a.cpus.map CpuLine.counters

/-- No sum of counters overflows. -/
def Fits (a : Stat) : Prop := ∀ c ∈ a.counters, (c.sum : Int) ≤ maxLongLong

instance (a : Stat) : Decidable a.Fits :=
  inferInstanceAs (Decidable (∀ c ∈ a.counters, (c.sum : Int) ≤ maxLongLong))

end Stat

/-! ## Numbers -/

theorem longLong_of_le {n : Nat} (h : (n : Int) ≤ maxLongLong) : longLong n = some (n : Int) := by
  refine longLong_eq_some.2 ⟨⟨?_, h⟩, rfl⟩
  simp only [maxLongLong]
  omega

theorem longLong_of_lt {n : Nat} (h : maxLongLong < n) : longLong n = none := by
  rw [longLong, if_neg]
  exact fun hn => absurd hn.2 (Int.not_le.2 h)

/-- Neither number is negative. -/
theorem longLong_sub {n m : Nat} (hn : (n : Int) ≤ maxLongLong) (hm : (m : Int) ≤ maxLongLong) :
    longLong ((n : Int) - m) = some ((n : Int) - m) := by
  refine longLong_eq_some.2 ⟨⟨?_, ?_⟩, rfl⟩
  · simp only [maxLongLong] at hm ⊢
    omega
  · omega

/-- **Digits** are read, if nothing overflows. -/
theorem digitsFrom_digits {digits rest : List Char} (h : ∀ c ∈ digits, c.isDigit = true)
    (hrest : ∀ c ∈ rest.head?, c.isDigit = false) {n : Nat} (hn : (n : Int) ≤ maxLongLong) :
    digitsFrom n (digits ++ rest) =
      longLong (digits.foldl (fun n c => 10 * n + (c.toNat - 48)) n : Nat) := by
  induction digits generalizing n with
  | nil =>
    rw [List.nil_append, List.foldl_nil, longLong_of_le hn]
    cases rest with
    | nil => rfl
    | cons c rest =>
      have hc : c.isDigit = false := hrest c rfl
      simp [digitsFrom, hc]
  | cons c digits ih =>
    obtain ⟨hc, hdigits⟩ := List.forall_mem_cons.1 h
    rw [List.cons_append, List.foldl_cons]
    simp only [digitsFrom, hc, if_true]
    have hten : (n : Int) * 10 = ((10 * n : Nat) : Int) := by omega
    have hnext : ((10 * n : Nat) : Int) + ((c.toNat - 48 : Nat) : Int) =
        ((10 * n + (c.toNat - 48) : Nat) : Int) := by omega
    rw [hten]
    by_cases hfits : ((10 * n + (c.toNat - 48) : Nat) : Int) ≤ maxLongLong
    · have hfits' : ((10 * n : Nat) : Int) ≤ maxLongLong := by omega
      rw [longLong_of_le hfits', Option.bind_eq_bind, Option.bind_some, hnext,
        longLong_of_le hfits, Option.bind_some, ih hdigits hfits]
    · -- A value that overflows is not made smaller by the digits left.
      have hle := Text.le_foldl_decimal (10 * n + (c.toNat - 48)) digits
      rw [longLong_of_lt (n := List.foldl _ _ digits) (by omega)]
      cases hten' : longLong ((10 * n : Nat) : Int) with
      | none => rfl
      | some r =>
        obtain ⟨-, rfl⟩ := longLong_eq_some.1 hten'
        rw [Option.bind_eq_bind, Option.bind_some, hnext, longLong_of_lt (by omega)]
        rfl

/-- **A number that was printed.** -/
theorem atoll_toDigits (n : Nat) {rest : List Char}
    (hrest : ∀ c ∈ rest.head?, c.isDigit = false) :
    atoll (Nat.toDigits 10 n ++ rest) = longLong n := by
  have hdigits : ∀ c ∈ Nat.toDigits 10 n, c.isDigit = true := fun _ hc => Text.isDigit_toDigits hc
  have hminus : (Nat.toDigits 10 n ++ rest).head? ≠ some '-' := Text.head?_toDigits_ne rfl n rest
  have hzero : ((0 : Nat) : Int) ≤ maxLongLong := by decide
  rw [atoll, if_neg hminus]
  exact (digitsFrom_digits hdigits hrest hzero).trans
    (congrArg (fun n : Nat => longLong n) (Text.decimal_toDigits n))

/-! ## Lines of counters -/

/-- What is left of a line after its name: its end comes with the last number. -/
def fieldTokens : List Nat → List (List Char)
  | [] => []
  | [n] => [Nat.toDigits 10 n ++ ['\n']]
  | n :: ns => Nat.toDigits 10 n :: fieldTokens ns

theorem pieces_fields {ns : List Nat} (h : ns ≠ []) :
    Text.pieces (fun c => c = ' ') ((ns.flatMap fun n => ' ' :: Nat.toDigits 10 n) ++ ['\n']) =
      fieldTokens ns := by
  have hblank : (fun c : Char => decide (c = ' ')) ' ' = true := by decide
  induction ns with
  | nil => exact absurd rfl h
  | cons n ns ih =>
    have hdigits : ∀ c ∈ Nat.toDigits 10 n, (fun c : Char => decide (c = ' ')) c = false := by
      intro c hc
      refine decide_eq_false fun heq => ?_
      exact Text.not_mem_toDigits rfl n (heq ▸ hc)
    rw [List.flatMap_cons, List.cons_append, List.cons_append, Text.pieces_delim hblank]
    cases ns with
    | nil =>
      have hne : Nat.toDigits 10 n ++ ['\n'] ≠ [] := by simp
      rw [List.flatMap_nil, List.append_nil]
      refine Text.pieces_single hne fun c hc => ?_
      rcases List.mem_append.1 hc with hc | hc
      · exact hdigits c hc
      · obtain rfl := List.mem_singleton.1 hc
        decide
    | cons m ns =>
      have hne : Nat.toDigits 10 n ≠ [] := Nat.toDigits_ne_nil
      have hcons : fieldTokens (n :: m :: ns) = Nat.toDigits 10 n :: fieldTokens (m :: ns) := rfl
      rw [hcons, ← ih (List.cons_ne_nil _ _), List.flatMap_cons, List.append_assoc,
        List.cons_append, List.cons_append, Text.pieces_cons hne hdigits hblank,
        Text.pieces_delim hblank]

/-- The sums after a number. -/
def Sums.after (s : Sums) (n : Nat) : Sums where
  index := s.index + 1
  time := s.time + n
  idleTime := if s.index + 1 = idleTimeIndex then n else s.idleTime

theorem Sums.add_eq {s : Sums} {t : Nat} (ht : s.time = t) {token : List Char} {n : Nat}
    (htoken : atoll token = longLong n) :
    s.add token = if ((t + n : Nat) : Int) ≤ maxLongLong then some (s.after n) else none := by
  have hsum : s.time + (n : Int) = ((t + n : Nat) : Int) := by omega
  simp only [Sums.add, htoken]
  by_cases hfits : ((t + n : Nat) : Int) ≤ maxLongLong
  · rw [if_pos hfits, longLong_of_le (by omega), Option.bind_eq_bind, Option.bind_some, hsum,
      longLong_of_le hfits, ← hsum]
    rfl
  · rw [if_neg hfits]
    cases hn : longLong (n : Int) with
    | none => rfl
    | some r =>
      obtain ⟨-, rfl⟩ := longLong_eq_some.1 hn
      rw [Option.bind_eq_bind, Option.bind_some, hsum, longLong_of_lt (by omega)]
      rfl

theorem foldlM_add {s : Sums} {t : Nat} (ht : s.time = t) (hfits : (t : Int) ≤ maxLongLong)
    (ns : List Nat) : (fieldTokens ns).foldlM Sums.add s =
      if ((t + ns.sum : Nat) : Int) ≤ maxLongLong then some (ns.foldl Sums.after s) else none := by
  induction ns generalizing s t with
  | nil =>
    rw [List.sum_nil, Nat.add_zero, if_pos hfits]
    rfl
  | cons n ns ih =>
    have hafter : (s.after n).time = ((t + n : Nat) : Int) := by
      simp only [Sums.after]
      omega
    have hnil : ∀ c ∈ ([] : List Char).head?, c.isDigit = false := by simp
    have hend : ∀ c ∈ ['\n'].head?, c.isDigit = false := by
      rintro c hc
      obtain rfl : '\n' = c := Option.some.inj hc
      decide
    have hlast : atoll (Nat.toDigits 10 n ++ ['\n']) = longLong n := atoll_toDigits n hend
    have hmid : atoll (Nat.toDigits 10 n) = longLong n := by
      rw [← atoll_toDigits n hnil, List.append_nil]
    cases ns with
    | nil =>
      rw [fieldTokens, List.foldlM_cons, Sums.add_eq ht hlast, List.sum_singleton]
      split_ifs <;> rfl
    | cons m ns =>
      have hcons : fieldTokens (n :: m :: ns) = Nat.toDigits 10 n :: fieldTokens (m :: ns) := rfl
      rw [hcons, List.foldlM_cons, Sums.add_eq ht hmid, List.foldl_cons, List.sum_cons,
        ← Nat.add_assoc]
      by_cases hn : ((t + n : Nat) : Int) ≤ maxLongLong
      · rw [if_pos hn, Option.bind_eq_bind, Option.bind_some, ih hafter hn]
      · rw [if_neg hn, if_neg (by omega)]
        rfl

theorem foldl_after {s : Sums} (h : idleTimeIndex ≤ s.index) (ns : List Nat) :
    ns.foldl Sums.after s =
      { index := s.index + ns.length, time := s.time + ns.sum, idleTime := s.idleTime } := by
  induction ns generalizing s with
  | nil => simp
  | cons n ns ih =>
    have hafter : s.after n = ⟨s.index + 1, s.time + n, s.idleTime⟩ := by
      rw [Sums.after, if_neg (by omega)]
    rw [List.foldl_cons, ih (by rw [hafter]; exact Nat.le_succ_of_le h), hafter]
    simp only [List.length_cons, List.sum_cons, Sums.mk.injEq, and_true]
    omega

/-- **The sums of a line**: of its counters, and the fourth. -/
theorem sumFields_counters (c : Counters) : sumFields (fieldTokens c.fields) =
    if (c.sum : Int) ≤ maxLongLong then some ⟨c.fields.length, c.sum, c.idle⟩ else none := by
  have hzero : ((0 : Nat) : Int) ≤ maxLongLong := by decide
  have hfinal : c.fields.foldl Sums.after {} = ⟨c.fields.length, c.sum, c.idle⟩ := by
    obtain ⟨fields, hfour⟩ := c
    match fields, hfour with
    | n₁ :: n₂ :: n₃ :: n₄ :: ns, hfour =>
      simp only [List.foldl_cons, Counters.sum, Counters.idle]
      have hindex : idleTimeIndex ≤
          ((((({} : Sums).after n₁).after n₂).after n₃).after n₄).index := Nat.le_refl 4
      rw [foldl_after hindex]
      simp [Sums.after, idleTimeIndex]
      omega
  rw [sumFields, foldlM_add rfl hzero, hfinal, Nat.zero_add]
  rfl

theorem fields_ne_nil (c : Counters) : c.fields ≠ [] := by
  intro hnil
  have hfour := c.four_le
  rw [hnil] at hfour
  cases hfour

/-- A character of a line of counters. -/
theorem mem_text {c : Counters} {name : List Char} {d : Char} (h : d ∈ c.text name) :
    d ∈ name ∨ d = ' ' ∨ d.isDigit = true := by
  rcases List.mem_append.1 h with h | h
  · exact .inl h
  · obtain ⟨n, -, hd⟩ := List.mem_flatMap.1 h
    rcases List.mem_cons.1 hd with hd | hd
    · exact .inr (.inl hd)
    · exact .inr (.inr (Text.isDigit_toDigits hd))

/-- What is neither a blank nor a digit is in the name. -/
theorem not_mem_text {c : Counters} {name : List Char} {d : Char} (hname : d ∉ name)
    (hblank : d ≠ ' ') (hdigit : d.isDigit = false) : d ∉ c.text name := by
  intro hd
  obtain h | h | h := mem_text hd
  · exact hname h
  · exact hblank h
  · rw [hdigit] at h
    cases h

/-- A line of counters is a string. -/
theorem nul_not_mem {name : List Char} (h : '\x00' ∉ name) (c : Counters) :
    '\x00' ∉ c.text name ++ ['\n'] := by
  rw [List.mem_append, not_or]
  exact ⟨not_mem_text h (by decide) rfl, by decide⟩

theorem strtok_text {name : List Char} (hne : name ≠ []) (hblank : ' ' ∉ name)
    (hnul : '\x00' ∉ name) (c : Counters) :
    strtok (c.text name ++ ['\n']) = name :: fieldTokens c.fields := by
  have hno : ∀ d ∈ name, (fun d : Char => decide (d = ' ')) d = false :=
    fun d hd => decide_eq_false fun heq => hblank (heq ▸ hd)
  have hfields := pieces_fields (fields_ne_nil c)
  rw [strtok, Text.cString_eq (nul_not_mem hnul c), Counters.text, List.append_assoc]
  cases hns : c.fields with
  | nil => exact absurd hns (fields_ne_nil c)
  | cons n ns =>
    rw [hns, List.flatMap_cons, List.cons_append, List.cons_append,
      Text.pieces_delim (by decide)] at hfields
    rw [List.flatMap_cons, List.cons_append, List.cons_append,
      Text.pieces_cons hne hno (by decide), hfields]

/-- The line of the total. -/
theorem strtok_total (c : Counters) :
    strtok (c.text (cpuName ++ [' ']) ++ ['\n']) = cpuName :: fieldTokens c.fields := by
  have hno : ∀ d ∈ cpuName, (fun d : Char => decide (d = ' ')) d = false := by
    refine fun d hd => decide_eq_false ?_
    rintro rfl
    exact absurd hd (by decide)
  have hnul : '\x00' ∉ cpuName ++ [' '] := by decide
  rw [strtok, Text.cString_eq (nul_not_mem hnul c), Counters.text, List.append_assoc,
    List.append_assoc, List.singleton_append, Text.pieces_cons (by decide) hno (by decide),
    pieces_fields (fields_ne_nil c)]

/-! ## The file -/

namespace CpuLine

/-- What is read of the line. -/
def info (l : CpuLine) : CpuTimeInfo where
  cpuId := l.id
  cpuTime := l.counters.sum
  cpuIdleTime := l.counters.idle

theorem not_mem_name {d : Char} (hname : d ∉ cpuName) (hdigit : d.isDigit = false) (id : Nat) :
    d ∉ cpuName ++ Nat.toDigits 10 id := by
  rw [List.mem_append, not_or]
  exact ⟨hname, Text.not_mem_toDigits hdigit id⟩

theorem newline_not_mem (l : CpuLine) : '\n' ∉ l.text :=
  not_mem_text (not_mem_name (by decide) rfl l.id) (by decide) rfl

theorem strtok_eq (l : CpuLine) : strtok (l.text ++ ['\n']) =
    (cpuName ++ Nat.toDigits 10 l.id) :: fieldTokens l.counters.fields :=
  strtok_text (List.append_ne_nil_of_left_ne_nil (by decide) _) (not_mem_name (by decide) rfl l.id)
    (not_mem_name (by decide) rfl l.id) l.counters

theorem cpuName_isPrefix (l : CpuLine) : cpuName <+: Text.cString (l.text ++ ['\n']) := by
  have hnul := nul_not_mem (not_mem_name (by decide) rfl l.id) l.counters
  rw [text, Text.cString_eq hnul, Counters.text, List.append_assoc, List.append_assoc]
  exact List.prefix_append _ _

end CpuLine

/-- A line of a CPU. -/
theorem readInfos_cpu (l : CpuLine) (bufs : List (List Char)) :
    readInfos ((l.text ++ ['\n']) :: bufs) =
      if (l.counters.sum : Int) ≤ maxLongLong then (readInfos bufs).map (l.info :: ·)
      else none := by
  have hnil : ∀ c ∈ ([] : List Char).head?, c.isDigit = false := by simp
  have hmax := l.id_le
  have hid : atoll ((cpuName ++ Nat.toDigits 10 l.id).drop 3) = some (l.id : Int) := by
    have hfits : (l.id : Int) ≤ maxLongLong := by
      simp only [maxLongLong]
      omega
    have hdrop : (cpuName ++ Nat.toDigits 10 l.id).drop 3 = Nat.toDigits 10 l.id := rfl
    rw [hdrop, ← longLong_of_le hfits, ← atoll_toDigits l.id hnil, List.append_nil]
  have hint : (l.id : Int).bmod 4294967296 = l.id := Int.bmod_eq_of_le (by omega) (by omega)
  rw [readInfos, if_pos l.cpuName_isPrefix, l.strtok_eq]
  simp only [hid, sumFields_counters, Option.bind_eq_bind, Option.bind_some, hint]
  split_ifs
  · rw [Option.bind_some]
    cases readInfos bufs <;> rfl
  · rfl

/-- Another line. -/
theorem readInfos_other {parts : List (List Char)} (h : ∀ buf ∈ parts, ¬ cpuName <+: buf)
    (bufs : List (List Char)) : readInfos (parts ++ bufs) = readInfos bufs := by
  induction parts with
  | nil => rfl
  | cons buf parts ih =>
    obtain ⟨hbuf, hparts⟩ := List.forall_mem_cons.1 h
    have hno : ¬ cpuName <+: Text.cString buf :=
      fun hcpu => hbuf (hcpu.trans (List.takeWhile_prefix _))
    rw [List.cons_append, readInfos, if_neg hno, ih hparts]

/-- **The CPUs of lines.** -/
theorem readInfos_lines (lines : List Line) :
    readInfos (lines.flatMap fun line => Text.buffered bufSize (line.text ++ ['\n'])) =
      if ∀ l ∈ lines.filterMap Line.cpu?, (l.counters.sum : Int) ≤ maxLongLong
      then some ((lines.filterMap Line.cpu?).map CpuLine.info) else none := by
  induction lines with
  | nil => simp [readInfos]
  | cons line lines ih =>
    rw [List.flatMap_cons]
    cases line with
    | other l =>
      have hother : ∀ buf ∈ Text.buffered bufSize ((Line.other l).text ++ ['\n']),
          ¬ cpuName <+: buf := l.not_cpu
      rw [readInfos_other hother, ih, List.filterMap_cons_none rfl]
    | cpu l =>
      have hbuf : Text.buffered bufSize ((Line.cpu l).text ++ ['\n']) = [l.text ++ ['\n']] :=
        Text.buffered_short l.newline_not_mem l.short
      have hcpus : (Line.cpu l :: lines).filterMap Line.cpu? = l :: lines.filterMap Line.cpu? := rfl
      rw [hbuf, List.singleton_append, readInfos_cpu, ih, hcpus]
      simp only [List.forall_mem_cons, List.map_cons]
      by_cases hl : (l.counters.sum : Int) ≤ maxLongLong
      · rw [if_pos hl]
        split_ifs with hall hboth hboth
        · rfl
        · exact absurd ⟨hl, hall⟩ hboth
        · exact absurd hboth.2 hall
        · rfl
      · rw [if_neg hl, if_neg fun hboth => hl hboth.1]

namespace Stat

/-- What is read of the file. -/
def ret (a : Stat) : PhyCpuInfoRet where
  cpuNum := a.cpus.length
  totalCpuTime := a.total.sum
  totalCpuIdleTime := a.total.idle
  cpuTimeInfos := a.cpus.map CpuLine.info

theorem newline_not_mem (a : Stat) :
    ∀ line ∈ a.total.text (cpuName ++ [' ']) :: a.lines.map Line.text, '\n' ∉ line := by
  refine List.forall_mem_cons.2
    ⟨not_mem_text (by decide) (by decide) (by decide), fun line hline => ?_⟩
  obtain ⟨l, -, rfl⟩ := List.mem_map.1 hline
  cases l with
  | cpu l => exact l.newline_not_mem
  | other l => exact l.no_newline

theorem fits_iff (a : Stat) : a.Fits ↔ (a.total.sum : Int) ≤ maxLongLong ∧
    ∀ l ∈ a.cpus, (l.counters.sum : Int) ≤ maxLongLong := by
  rw [Fits, counters, List.forall_mem_cons, List.forall_mem_map]

/-- **The file is read**, if nothing overflows. -/
theorem getPhyCpu_text (a : Stat) :
    getPhyCpu a.text = if a.Fits then .ok a.ret else .error .undefined := by
  have hnewline := a.newline_not_mem
  obtain ⟨htotal, -⟩ := List.forall_mem_cons.1 hnewline
  rw [getPhyCpu, text, Text.buffered_lines bufSize hnewline, List.flatMap_cons,
    Text.buffered_short htotal a.short, List.flatMap_map]
  simp only [List.singleton_append, strtok_total, sumFields_counters, readInfos_lines,
    ne_eq, not_true_eq_false, if_false]
  by_cases hfits : a.Fits
  · obtain ⟨hsum, hcpus⟩ := a.fits_iff.1 hfits
    rw [cpus] at hcpus
    rw [if_pos hfits, if_pos hsum, if_pos hcpus]
    simp only [List.length_map]
    rfl
  · rw [if_neg hfits]
    split_ifs with hsum hcpus
    · exact absurd (a.fits_iff.2 ⟨hsum, hcpus⟩) hfits
    all_goals rfl

end Stat

end HsCpuUsage

end LibVsf
