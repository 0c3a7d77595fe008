import LibVsf.Microbench
import LibVsf.NodeTestDist
import Mathlib.Data.Nat.Digits.Defs

/-!
# `NodeTestDist` and `microbench`: the command line

A measurement is a command that is printed to a buffer, split by a shell, and run by `numactl`,
which takes the words that begin with a dash to be its own. What is left are the arguments of
`microbench`. The shell and `numactl` are any that do what they are documented to do.

Main result, `agrees_iff`: the command fits the buffer and its arguments are the parameters again
exactly when the path is short enough, and does not begin with a dash. The numbers are `int`s, so
that no size in bytes overflows.
-/

namespace LibVsf

namespace NodeTestDist

/-! ## From the command to the arguments -/

def bufSize : Nat := 1024

/-- What a shell does not take as it is. -/
def metacharacters : List Char := "|&;<>()$`\\\"'*?[#~=% \t\n\x00".toList

/-- A word that a shell takes as it is, after the name of a command: `=` matters only before it. -/
structure IsPlain (word : List Char) : Prop where
  ne : word ≠ []
  plain : ∀ c ∈ word, c ∈ metacharacters → c = '='

def numactlName : List Char := "numactl".toList

def cpunodebind (cpu : Nat) : List Char := "--cpunodebind=".toList ++ Nat.toDigits 10 cpu

def membind (mem : Nat) : List Char := "--membind=".toList ++ Nat.toDigits 10 mem

/-- The words after the options, with the numbers `size` and `loop`. -/
def benchWords (p : MicroParam) (size loop : Nat) : List (List Char) :=
  [p.path.toList ++ "/microbench".toList, "-wb".toList, Nat.toDigits 10 size ++ ['m'],
    "-wt".toList, [p.type], "-l".toList, Nat.toDigits 10 loop]

/-- The words of a command, after its name. -/
def argWords (p : MicroParam) (cpu mem : Nat) : List (List Char) :=
  cpunodebind cpu :: membind mem :: benchWords p p.sizeInMb.toNat p.loop.toNat

end NodeTestDist

open NodeTestDist

/-- What stands between a command line and the benchmark. -/
structure Launcher where
  /-- The words of a command line, by the shell. -/
  shellWords : List Char → List (List Char)
  /-- The command that `numactl` runs, with its arguments, if it runs one. -/
  numactl : List (List Char) → Option (List (List Char))

/-- What is documented of a shell and of `numactl`, for a command whose nodes are there. -/
structure Launcher.Documented (l : Launcher) (p : MicroParam) (cpu mem : Nat) : Prop where
  shell : (∀ word ∈ argWords p cpu mem, IsPlain word) →
    l.shellWords ([' '].intercalate (numactlName :: argWords p cpu mem)) =
      numactlName :: argWords p cpu mem
  runs : (p.path.toList ++ "/microbench".toList).head? ≠ some '-' →
    l.numactl (numactlName :: argWords p cpu mem) =
      some (benchWords p p.sizeInMb.toNat p.loop.toNat)
  /-- What begins with a dash is an option. -/
  command : ∀ args, l.numactl (numactlName :: argWords p cpu mem) = some args →
    args <:+ argWords p cpu mem ∧ ∀ command ∈ args.head?, command.head? ≠ some '-'

/-- Parameters of a measurement. -/
structure MicroParam.WellFormed (p : MicroParam) : Prop where
  path : ∀ c ∈ p.path.toList, c ∉ metacharacters
  one_le_size : 1 ≤ p.sizeInMb
  size_le : p.sizeInMb ≤ 2147483647
  one_le_loop : 1 ≤ p.loop
  loop_le : p.loop ≤ 2147483647
  type : p.type = 'r' ∨ p.type = 's'

namespace NodeTestDist

/-- The settings with which a measurement runs. -/
def decoded (l : Launcher) (command : String) :
    Option (Except Microbench.Failure Microbench.Settings) :=
  (l.numactl (l.shellWords command.toList)).map Microbench.readMain

def workloadType (type : Char) : Nat :=
  if type = 'r' then Microbench.randomType else Microbench.streamType

/-- The encoder and the decoder agree. -/
structure Agrees (l : Launcher) (p : MicroParam) (cpu mem : Nat) : Prop where
  /-- With the `NUL` at the end. -/
  fits : (p.command cpu mem).utf8ByteSize + 1 ≤ bufSize
  decodes : ∃ s, decoded l (p.command cpu mem) = some (.ok s) ∧
    (s.workingSetSize : Int) = p.sizeInMb * 1048576 / 8 ∧
    s.workloadType = workloadType p.type ∧ (s.loopNum : Int) = p.loop

/-! ## The words of a command -/

theorem argWords_eq {p : MicroParam} {size loop : Nat} (hsize : p.sizeInMb = size)
    (hloop : p.loop = loop) (cpu mem : Nat) :
    argWords p cpu mem = cpunodebind cpu :: membind mem :: benchWords p size loop := by
  rw [argWords, hsize, hloop, Int.toNat_natCast, Int.toNat_natCast]

theorem toList_toString (n : Nat) : (toString n).toList = Nat.toDigits 10 n := by
  rw [Nat.toString_eq_ofList_toDigits, String.toList_ofList]

theorem command_toList {p : MicroParam} {size loop : Nat} (hsize : p.sizeInMb = size)
    (hloop : p.loop = loop) (cpu mem : Nat) :
    (p.command cpu mem).toList =
      [' '].intercalate (numactlName :: argWords p cpu mem) := by
  have hint (n : Nat) : toString (n : Int) = toString n := rfl
  have hstart : "numactl --cpunodebind=".toList =
      "numactl".toList ++ ([' '] ++ "--cpunodebind=".toList) := by decide
  have hmembind : " --membind=".toList = [' '] ++ "--membind=".toList := by decide
  have hbytes : "/microbench -wb ".toList =
      "/microbench".toList ++ ([' '] ++ ("-wb".toList ++ [' '])) := by decide
  have htype : "m -wt ".toList = ['m'] ++ ([' '] ++ ("-wt".toList ++ [' '])) := by decide
  have hflag : " -l ".toList = [' '] ++ ("-l".toList ++ [' ']) := by decide
  have hblank : " ".toList = [' '] := by decide
  rw [argWords_eq hsize hloop]
  delta MicroParam.command numactlName cpunodebind membind benchWords
  rw [hsize, hloop, hint, hint]
  simp only [String.toList_append, toList_toString, Char.toString, String.toList_singleton, hstart,
    hmembind, hbytes, htype, hflag, hblank, List.intercalate_cons_cons,
    List.intercalate_singleton, List.append_assoc]

/-- Characters that are not metacharacters, as it is computed. -/
theorem not_metacharacter {chars : List Char}
    (h : (chars.all fun c => !metacharacters.contains c) = true) :
    ∀ c ∈ chars, c ∉ metacharacters := by
  intro c hc hmeta
  have hnot := List.all_eq_true.1 h c hc
  rw [List.contains_iff_mem.2 hmeta] at hnot
  cases hnot

theorem digit_not_metacharacter {c : Char} (h : c.isDigit = true) : c ∉ metacharacters := by
  have hnone : (metacharacters.all fun c => !c.isDigit) = true := by decide
  intro hc
  have hnot := List.all_eq_true.1 hnone c hc
  rw [h] at hnot
  cases hnot

theorem isPlain_of_not_metacharacter {word : List Char} (hne : word ≠ [])
    (h : ∀ c ∈ word, c ∉ metacharacters) : IsPlain word :=
  ⟨hne, fun c hc hmeta => absurd hmeta (h c hc)⟩

theorem isPlain_digits (n : Nat) : IsPlain (Nat.toDigits 10 n) :=
  isPlain_of_not_metacharacter Nat.toDigits_ne_nil fun _ hc =>
    digit_not_metacharacter (Text.isDigit_toDigits hc)

theorem IsPlain.append {word word' : List Char} (h : IsPlain word) (h' : IsPlain word') :
    IsPlain (word ++ word') := by
  refine ⟨List.append_ne_nil_of_left_ne_nil h.ne _, fun c hc => ?_⟩
  rcases List.mem_append.1 hc with hc | hc
  · exact h.plain c hc
  · exact h'.plain c hc

/-- An option, up to its value. -/
theorem isPlain_option {name : List Char}
    (h : (name.all fun c => !metacharacters.contains c) = true) : IsPlain (name ++ ['=']) := by
  refine ⟨List.append_ne_nil_of_right_ne_nil _ (List.cons_ne_nil _ _), fun c hc hmeta => ?_⟩
  rcases List.mem_append.1 hc with hc | hc
  · exact absurd hmeta (not_metacharacter h c hc)
  · exact List.mem_singleton.1 hc

/-- **All words of a command are plain.** -/
theorem isPlain_words {p : MicroParam} (h : p.WellFormed) (cpu mem : Nat) :
    ∀ word ∈ argWords p cpu mem, IsPlain word := by
  have hpath : IsPlain (p.path.toList ++ "/microbench".toList) := by
    have hbench : ∀ c ∈ "/microbench".toList, c ∉ metacharacters := not_metacharacter (by decide)
    refine isPlain_of_not_metacharacter (List.append_ne_nil_of_right_ne_nil _ (by decide)) ?_
    intro c hc
    rcases List.mem_append.1 hc with hc | hc
    · exact h.path c hc
    · exact hbench c hc
  have htype : IsPlain [p.type] := by
    refine isPlain_of_not_metacharacter (List.cons_ne_nil _ _) (not_metacharacter ?_)
    rcases h.type with htype | htype
    · rw [htype]
      decide
    · rw [htype]
      decide
  have hflag {flag : List Char} (hne : flag ≠ [])
      (hall : (flag.all fun c => !metacharacters.contains c) = true) : IsPlain flag :=
    isPlain_of_not_metacharacter hne (not_metacharacter hall)
  have hunit : IsPlain ['m'] := hflag (List.cons_ne_nil _ _) (by decide)
  have hcpu : IsPlain "--cpunodebind=".toList := @isPlain_option "--cpunodebind".toList (by decide)
  have hmem : IsPlain "--membind=".toList := @isPlain_option "--membind".toList (by decide)
  simp only [argWords, benchWords, List.forall_mem_cons]
  exact ⟨hcpu.append (isPlain_digits cpu), hmem.append (isPlain_digits mem), hpath,
    hflag (by decide) (by decide), (isPlain_digits _).append hunit,
    hflag (by decide) (by decide), htype, hflag (by decide) (by decide), isPlain_digits _,
    List.forall_mem_nil _⟩

/-- **The shell's words** of a command. -/
theorem shellWords_command {l : Launcher} {p : MicroParam} {cpu mem : Nat}
    (hl : l.Documented p cpu mem) (h : p.WellFormed) {size loop : Nat} (hsize : p.sizeInMb = size)
    (hloop : p.loop = loop) :
    l.shellWords (p.command cpu mem).toList = numactlName :: argWords p cpu mem := by
  rw [command_toList hsize hloop]
  exact hl.shell (isPlain_words h cpu mem)

/-! ## The arguments of a command -/

theorem parseTypes_type {p : MicroParam} (h : p.WellFormed) :
    Microbench.parseTypes [p.type] = workloadType p.type := by
  rcases h.type with htype | htype
  · rw [htype]
    rfl
  · rw [htype]
    rfl

theorem readArgs_typeLoop {p : MicroParam} (h : p.WellFormed) {loop : Nat} (hone : 1 ≤ loop)
    (hmax : loop ≤ 2147483647) (s : Microbench.Settings) :
    Microbench.readArgs ["-wt".toList, [p.type], "-l".toList, Nat.toDigits 10 loop] s =
      .ok { s with workloadType := workloadType p.type, loopNum := loop } := by
  have hloop : Microbench.uint64 (Text.atoi (Nat.toDigits 10 loop)) = loop :=
    Microbench.uint64_atoi hmax
  have hne : Microbench.uint64 (Text.atoi (Nat.toDigits 10 loop)) ≠ 0 := by omega
  rw [Microbench.readArgs_type, Microbench.readArgs_loop hne, hloop, parseTypes_type h]
  rfl

/-- **The settings are the parameters.** -/
theorem decoded_command {l : Launcher} {p : MicroParam} {cpu mem : Nat}
    (hl : l.Documented p cpu mem) (h : p.WellFormed) {size loop : Nat} (hsize : p.sizeInMb = size)
    (hloop : p.loop = loop) (hpath : p.path.toList.head? ≠ some '-') :
    decoded l (p.command cpu mem) =
      some (.ok {
        workingSetSize := size * 131072
        workloadType := workloadType p.type
        loopNum := loop }) := by
  have honeSize := h.one_le_size
  have hsizeMax := h.size_le
  have honeLoop := h.one_le_loop
  have hloopMax := h.loop_le
  have helements : Microbench.elements (Nat.toDigits 10 size ++ ['m']) = some (size * 131072) :=
    Microbench.elements_megabytes (by omega) (by omega)
  have hfirst : (p.path.toList ++ "/microbench".toList).head? ≠ some '-' := by
    cases hchars : p.path.toList with
    | nil => decide
    | cons c cs => rwa [hchars] at hpath
  rw [decoded, shellWords_command hl h hsize hloop, hl.runs hfirst, Option.map_some, hsize, hloop,
    Int.toNat_natCast, Int.toNat_natCast, benchWords]
  simp only [Microbench.readMain]
  rw [Microbench.readArgs_bytes helements, readArgs_typeLoop h (by omega) (by omega)]

/-- A command that `numactl` finds behind the size leaves the size as it is. -/
theorem workingSetSize_of_suffix {p : MicroParam} (h : p.WellFormed) {size loop : Nat}
    (hloop : p.loop = loop) {args : List (List Char)}
    (hsuffix : args <:+ [Nat.toDigits 10 size ++ ['m'], "-wt".toList, [p.type], "-l".toList,
      Nat.toDigits 10 loop])
    (hcommand : ∀ command ∈ args.head?, command.head? ≠ some '-') {s : Microbench.Settings}
    (hs : Microbench.readMain args = .ok s) : s.workingSetSize = 10000 := by
  have honeLoop := h.one_le_loop
  have hloopMax := h.loop_le
  have hnum : Microbench.uint64 (Text.atoi (Nat.toDigits 10 loop)) = loop :=
    Microbench.uint64_atoi (by omega)
  simp only [List.suffix_cons_iff, List.suffix_nil] at hsuffix
  obtain rfl | rfl | rfl | rfl | rfl | rfl := hsuffix
  · simp only [Microbench.readMain] at hs
    rw [readArgs_typeLoop h (by omega) (by omega)] at hs
    cases hs
    rfl
  · exact absurd rfl (hcommand _ rfl)
  · simp only [Microbench.readMain] at hs
    rw [Microbench.readArgs_loop (by omega)] at hs
    cases hs
    rfl
  · exact absurd rfl (hcommand _ rfl)
  · cases hs
  · cases hs

/-- **A path with a dash loses the size**, whatever `numactl` takes to be the command. -/
theorem workingSetSize_of_dash {l : Launcher} {p : MicroParam} {cpu mem : Nat}
    (hl : l.Documented p cpu mem) (h : p.WellFormed) {size loop : Nat} (hsize : p.sizeInMb = size)
    (hloop : p.loop = loop) (hpath : p.path.toList.head? = some '-') {s : Microbench.Settings}
    (hs : decoded l (p.command cpu mem) = some (.ok s)) : s.workingSetSize = 10000 := by
  rw [decoded, shellWords_command hl h hsize hloop] at hs
  obtain ⟨args, hargs, hread⟩ := Option.map_eq_some_iff.1 hs
  obtain ⟨hsuffix, hcommand⟩ := hl.command _ hargs
  have hfirst : (p.path.toList ++ "/microbench".toList).head? = some '-' := by
    obtain ⟨cs, hcs⟩ := List.head?_eq_some_iff.1 hpath
    rw [hcs]
    rfl
  rw [argWords_eq hsize hloop, benchWords, List.suffix_cons_iff, List.suffix_cons_iff,
    List.suffix_cons_iff, List.suffix_cons_iff] at hsuffix
  obtain rfl | rfl | rfl | rfl | hsuffix := hsuffix
  · exact absurd rfl (hcommand _ rfl)
  · exact absurd rfl (hcommand _ rfl)
  · exact absurd hfirst (hcommand _ rfl)
  · exact absurd rfl (hcommand _ rfl)
  · exact workingSetSize_of_suffix h hloop hsuffix hcommand hread

/-! ## The size of a command -/

/-- The bytes of what a command is printed with. -/
def printedSize (p : MicroParam) (cpu mem : Nat) : Nat :=
  p.path.utf8ByteSize + (toString p.sizeInMb).utf8ByteSize + (toString p.loop).utf8ByteSize +
    (toString cpu).utf8ByteSize + (toString mem).utf8ByteSize

theorem utf8ByteSize_command {p : MicroParam} (h : p.WellFormed) (cpu mem : Nat) :
    (p.command cpu mem).utf8ByteSize = printedSize p cpu mem + 61 := by
  have hstart : "numactl --cpunodebind=".utf8ByteSize = 22 := by decide
  have hmembind : " --membind=".utf8ByteSize = 11 := by decide
  have hblank : " ".utf8ByteSize = 1 := by decide
  have hbytes : "/microbench -wb ".utf8ByteSize = 16 := by decide
  have htype : "m -wt ".utf8ByteSize = 6 := by decide
  have hflag : " -l ".utf8ByteSize = 4 := by decide
  have hchar : p.type.toString.utf8ByteSize = 1 := by
    rcases h.type with htype | htype <;> rw [htype] <;> decide
  delta MicroParam.command
  simp only [String.utf8ByteSize_append, hstart, hmembind, hblank, hbytes, htype, hflag, hchar,
    printedSize]
  omega

/-- **Encoder and decoder agree** on the parameters whose path is short enough, and does not begin
with a dash. -/
theorem agrees_iff {l : Launcher} {p : MicroParam} {cpu mem : Nat} (hl : l.Documented p cpu mem)
    (h : p.WellFormed) :
    Agrees l p cpu mem ↔ printedSize p cpu mem ≤ 962 ∧ p.path.toList.head? ≠ some '-' := by
  have honeSize := h.one_le_size
  have honeLoop := h.one_le_loop
  obtain ⟨size, hsize⟩ := Int.eq_ofNat_of_zero_le (by omega : 0 ≤ p.sizeInMb)
  obtain ⟨loop, hloop⟩ := Int.eq_ofNat_of_zero_le (by omega : 0 ≤ p.loop)
  have hbytes := utf8ByteSize_command h cpu mem
  constructor
  · intro hagrees
    obtain ⟨s, hs, hworking, -, -⟩ := hagrees.decodes
    have hfits := hagrees.fits
    refine ⟨?_, fun hpath => ?_⟩
    · rw [hbytes, bufSize] at hfits
      omega
    · have hdefault := workingSetSize_of_dash hl h hsize hloop hpath hs
      omega
  · intro hshort
    obtain ⟨hfits, hpath⟩ := hshort
    refine ⟨?_, _, decoded_command hl h hsize hloop hpath, ?_, rfl, hloop.symm⟩
    · rw [hbytes, bufSize]
      omega
    · rw [hsize]
      simp only
      omega

/-! ## A shell and `numactl` -/

/-- The words between blanks, and the command after the words with a dash. -/
def plainLauncher : Launcher where
  shellWords := Text.pieces fun c => c = ' '
  numactl words := some (words.tail.dropWhile fun word => word.head? = some '-')

theorem plainLauncher_documented (p : MicroParam) (cpu mem : Nat) :
    plainLauncher.Documented p cpu mem where
  shell := by
    intro hwords
    have hblank : (fun c : Char => decide (c = ' ')) ' ' = true := by decide
    have hname : IsPlain numactlName :=
      isPlain_of_not_metacharacter (by decide) (not_metacharacter (by decide))
    refine Text.pieces_joined hblank fun word hword => ?_
    have hplain : IsPlain word := by
      rcases List.mem_cons.1 hword with rfl | hword
      · exact hname
      · exact hwords word hword
    refine ⟨hplain.ne, fun c hc => decide_eq_false fun heq => ?_⟩
    have hmeta : ' ' ∈ metacharacters := by decide
    rw [heq] at hc
    exact absurd (hplain.plain ' ' hc hmeta) (by decide)
  runs := by
    intro hcommand
    have hcpu : (cpunodebind cpu).head? = some '-' := rfl
    have hmem : (membind mem).head? = some '-' := rfl
    simp only [plainLauncher, argWords, benchWords, List.tail_cons, List.dropWhile_cons, hcpu, hmem,
      hcommand, decide_true, decide_false, if_true, Bool.false_eq_true, if_false]
  command := by
    intro args hargs
    obtain rfl := Option.some.inj hargs
    refine ⟨List.dropWhile_suffix _, fun command hhead => ?_⟩
    have hnot := List.head?_dropWhile_not (fun word : List Char => word.head? = some '-')
      (numactlName :: argWords p cpu mem).tail
    rw [Option.mem_def.1 hhead] at hnot
    simpa using hnot

theorem utf8ByteSize_replicate (n : Nat) :
    (String.ofList (List.replicate n 'a')).utf8ByteSize = n := by
  induction n with
  | zero => rfl
  | succ n ih =>
    have hcons : String.ofList (List.replicate (n + 1) 'a') =
        String.singleton 'a' ++ String.ofList (List.replicate n 'a') := by
      rw [← String.toList_inj, String.toList_append, String.toList_ofList, String.toList_singleton,
        String.toList_ofList]
      rfl
    rw [hcons, String.utf8ByteSize_append, ih, String.utf8ByteSize_singleton]
    exact Nat.add_comm 1 n

def longPath : MicroParam where
  path := String.ofList (List.replicate 1000 'a')

theorem wellFormed_default : ({} : MicroParam).WellFormed where
  path := not_metacharacter (by decide)
  one_le_size := by decide
  size_le := by decide
  one_le_loop := by decide
  loop_le := by decide
  type := by decide

theorem agrees_iff_default : Agrees plainLauncher {} 0 1 :=
  (agrees_iff (plainLauncher_documented {} 0 1) wellFormed_default).2 ⟨by decide, by decide⟩

/-- A path that is longer than the rest of the buffer. -/
theorem not_agrees_longPath : longPath.WellFormed ∧ ¬ Agrees plainLauncher longPath 0 0 := by
  have hwell : longPath.WellFormed := by
    refine { wellFormed_default with path := fun c hc => ?_ }
    have hchars : longPath.path.toList = List.replicate 1000 'a' := String.toList_ofList
    rw [hchars] at hc
    rw [List.eq_of_mem_replicate hc]
    decide
  refine ⟨hwell, fun hagrees => ?_⟩
  have hpath : longPath.path.utf8ByteSize = 1000 := utf8ByteSize_replicate 1000
  have hfits := hagrees.fits
  rw [utf8ByteSize_command hwell, printedSize, hpath, bufSize] at hfits
  omega

end NodeTestDist

end LibVsf
