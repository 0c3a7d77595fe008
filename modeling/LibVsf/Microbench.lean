import LibVsf.Lib.Text
import Mathlib.Logic.Function.Basic

/-!
# `microbench`: the arguments

`utils/microbench.c`, the program that `NodeTestDist` runs. Its numbers are `uint64_t`s, to which
those that are read are converted: a negative one is large, and never less than zero.
-/

namespace LibVsf

namespace Microbench

def uint64 (n : Int) : Nat := (n % 18446744073709551616).toNat

def maxCpus : Nat := 256

def streamType : Nat := 1

def randomType : Nat := 0

/-- The variables that the arguments set, with their defaults. -/
structure Settings where
  workingSetSize : Nat := 10000
  sharedSize : Nat := 0
  loopNum : Nat := 10000
  threadNum : Nat := 1
  workloadType : Nat := 0
  cpuBindings : Nat → Nat := fun _ => 0

/-- Why the arguments are not used. -/
inductive Failure where
  /-- `show_help`, which exits. -/
  | exited
  /-- An index beyond `cpu_bindings`. -/
  | undefined
deriving DecidableEq, Repr

def toLower (c : Char) : Char := if 'A' ≤ c ∧ c ≤ 'Z' then Char.ofNat (c.toNat + 32) else c

def parseBytes (tar : List Char) : Nat :=
  if tar = [] ∨ (tar.headD ' ').isDigit = false then 0
  else
    let number := uint64 (Text.atoll tar)
    if number = 0 then 0
    else
      let unit := tar.getLastD ' '
      if toLower unit = 'm' then number * 1024 * 1024 % 18446744073709551616
      else if toLower unit = 'k' then number * 1024 % 18446744073709551616
      else if toLower unit = 'b' then number
      else 0

def parseTypes (tar : List Char) : Nat :=
  if tar.head? = some 'r' then randomType
  else if tar.head? = some 's' then streamType
  else uint64 (-1)

/-- `parse_bytes` as an `int64_t`, in elements of eight bytes; none if it is negative. -/
def elements (tar : List Char) : Option Nat :=
  if 9223372036854775808 ≤ parseBytes tar then none else some (parseBytes tar / 8)

/-- An argument is one of these two. -/
def isOption (arg : List Char) (long short : String) : Prop :=
  arg = long.toList ∨ arg = short.toList

instance (arg : List Char) (long short : String) : Decidable (isOption arg long short) :=
  inferInstanceAs (Decidable (_ ∨ _))

/-- The arguments that are compared with. -/
inductive Flag where
  | workingSetSize
  | workingSetBytes
  | sharedSize
  | sharedBytes
  | workloadType
  | loop
  | threads
  | binding
  | help
deriving DecidableEq, Repr

def flag (arg : List Char) : Option Flag :=
  if isOption arg "--working_set_size" "-w" then some .workingSetSize
  else if isOption arg "--working_set_bytes" "-wb" then some .workingSetBytes
  else if isOption arg "--shared_size" "-s" then some .sharedSize
  else if isOption arg "--shared_bytes" "-sb" then some .sharedBytes
  else if isOption arg "--workload_type" "-wt" then some .workloadType
  else if isOption arg "--loop" "-l" then some .loop
  else if isOption arg "--threads" "-t" then some .threads
  else if isOption arg "--binding" "-b" then some .binding
  else if isOption arg "--help" "-h" then some .help
  else none

/-- The loop over the arguments. Others are skipped; where values are missing, help is shown. -/
def readArgs : List (List Char) → Settings → Except Failure Settings
  | [], s => .ok s
  | arg :: rest, s =>
    match flag arg, rest with
    | none, rest => readArgs rest s
    | some .help, _ => .error .exited
    | some .workingSetSize, value :: rest =>
      readArgs rest { s with workingSetSize := uint64 (Text.atoi value) }
    | some .workingSetBytes, value :: rest =>
      match elements value with
      | none => .error .exited
      | some n => readArgs rest { s with workingSetSize := n }
    | some .sharedSize, value :: rest =>
      readArgs rest { s with sharedSize := uint64 (Text.atoi value) }
    | some .sharedBytes, value :: rest =>
      match elements value with
      | none => .error .exited
      | some n => readArgs rest { s with sharedSize := n }
    | some .workloadType, value :: rest =>
      readArgs rest { s with workloadType := parseTypes value }
    | some .loop, value :: rest =>
      if uint64 (Text.atoi value) = 0 then .error .exited
      else readArgs rest { s with loopNum := uint64 (Text.atoi value) }
    | some .threads, value :: rest =>
      if uint64 (Text.atoi value) = 0 then .error .exited
      else readArgs rest { s with threadNum := uint64 (Text.atoi value) }
    | some .binding, cpuid :: bindNum :: rest =>
      let cpuid := uint64 (Text.atoi cpuid)
      let bindNum := uint64 (Text.atoi bindNum)
      if bindNum = 0 then .error .exited
      else if maxCpus ≤ cpuid then .error .undefined
      else readArgs rest { s with cpuBindings := Function.update s.cpuBindings cpuid bindNum }
    | some _, _ => .error .exited

/-- The argument loop of `main`. -/
def readMain (argv : List (List Char)) : Except Failure Settings :=
  match argv with
  | _ :: arg :: args => readArgs (arg :: args) {}
  | _ => .error .exited

theorem flag_bytes : flag "-wb".toList = some .workingSetBytes := by decide

theorem flag_type : flag "-wt".toList = some .workloadType := by decide

theorem flag_loop : flag "-l".toList = some .loop := by decide

theorem readArgs_bytes {value : List Char} {n : Nat} (h : elements value = some n)
    (rest : List (List Char)) (s : Settings) :
    readArgs ("-wb".toList :: value :: rest) s =
      readArgs rest { s with workingSetSize := n } := by
  simp only [readArgs, flag_bytes, h]

theorem readArgs_type (value : List Char) (rest : List (List Char)) (s : Settings) :
    readArgs ("-wt".toList :: value :: rest) s =
      readArgs rest { s with workloadType := parseTypes value } := by
  simp only [readArgs, flag_type]

theorem readArgs_loop {value : List Char} (h : uint64 (Text.atoi value) ≠ 0)
    (rest : List (List Char)) (s : Settings) :
    readArgs ("-l".toList :: value :: rest) s =
      readArgs rest { s with loopNum := uint64 (Text.atoi value) } := by
  simp only [readArgs, flag_loop, if_neg h]

theorem uint64_natCast {n : Nat} (h : n < 18446744073709551616) : uint64 n = n := by
  rw [uint64]
  omega

/-- An `int` in megabytes. -/
theorem elements_megabytes {n : Nat} (hone : 1 ≤ n) (hmax : n ≤ 2147483647) :
    elements (Nat.toDigits 10 n ++ ['m']) = some (n * 131072) := by
  have hdigits : ∀ c ∈ Nat.toDigits 10 n, c.isDigit = true := fun _ hc => Text.isDigit_toDigits hc
  have hscan : Text.scanNumber ([] ++ (Nat.toDigits 10 n ++ ['m'])) = some ((n : Int), ['m']) := by
    have hrest : ∀ c ∈ ['m'].head?, c.isDigit = false := by
      rintro c hc
      obtain rfl : 'm' = c := Option.some.inj hc
      decide
    rw [Text.scanNumber_digits (List.forall_mem_nil _) Nat.toDigits_ne_nil hdigits hrest,
      Text.decimal_toDigits]
  rw [List.nil_append] at hscan
  have hatoll : Text.atoll (Nat.toDigits 10 n ++ ['m']) = n := by
    simp only [Text.atoll, Text.toInteger_eq, hscan, Option.elim_some]
    omega
  have hfirst : ((Nat.toDigits 10 n ++ ['m']).headD ' ').isDigit = true := by
    obtain ⟨c, hhead, hc⟩ := Text.exists_head?_toDigits n ['m']
    rwa [List.headD_eq_head?_getD, hhead]
  have hparse : parseBytes (Nat.toDigits 10 n ++ ['m']) = n * 1048576 := by
    have hunit : toLower ((Nat.toDigits 10 n ++ ['m']).getLastD ' ') = 'm' := by
      rw [List.getLastD_concat]
      decide
    have hstart : ¬ (Nat.toDigits 10 n ++ ['m'] = [] ∨
        ((Nat.toDigits 10 n ++ ['m']).headD ' ').isDigit = false) := by
      rw [hfirst]
      simp
    rw [parseBytes, if_neg hstart, hatoll, uint64_natCast (by omega)]
    simp only [hunit, if_true, if_neg (Nat.ne_of_gt hone)]
    omega
  rw [elements, hparse, if_neg (by omega)]
  congr 1
  omega

theorem uint64_atoi {n : Nat} (hmax : n ≤ 2147483647) :
    uint64 (Text.atoi (Nat.toDigits 10 n)) = n := by
  rw [Text.atoi_toDigits hmax, uint64_natCast (by omega)]

end Microbench

end LibVsf
