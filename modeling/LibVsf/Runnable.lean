import LibVsf.Lib.Runs

/-!
# `Runnable`: a module and its thread

`utils/runnable.cpp`. `start` makes a thread that runs the `run` of a module, a loop that tests
`stop_`, refreshes and sleeps, and clears the module's data when it is left. `stop` sets `stop_` and
waits for the thread.

The calls are those of one owner: they are made one after the other, under the mutex of `init_vms`
and in the destructors. The thread takes its turns in between, and so do the getters of the module,
which refresh by themselves when they find that it is not joinable. The setters do not ask.

A `std::thread` that is destroyed while it is joinable ends the process, and so does an exception
that leaves `run`. Its constructor does not throw here, so that `start` leaves a thread where it has
reset `stop_`.
-/

namespace LibVsf

/-- What is done to the data of a module. A refresh is some parts, each under the mutex of the data;
an exception in a part leaves what it had changed. -/
structure RunLoop (σ η π : Type) where
  parts : List (σ → η → Except σ σ)
  clear : σ → σ
  assign : σ → π → σ

/-- What a part leaves, also if it throws. -/
def RunLoop.left {σ η : Type} (part : σ → η → Except σ σ) (data : σ) (env : η) : σ :=
  match part data env with
  | .ok data => data
  | .error data => data

def RunLoop.throws {σ η : Type} (part : σ → η → Except σ σ) (data : σ) (env : η) : Bool :=
  match part data env with
  | .ok _ => false
  | .error _ => true

/-- Where a thread is in `run`. -/
inductive Place where
  /-- Before a test of `stop_`. -/
  | test
  /-- In a refresh, before this part; after the last it sleeps. -/
  | body (k : Nat)
  /-- After the loop. -/
  | leave
  | ended
deriving DecidableEq, Repr

/-- What `thread_` points to: a thread, by its number, that may have been joined. -/
structure ThreadPtr where
  thread : Nat
  joined : Bool := false
deriving DecidableEq, Repr

/-- What ends the process. -/
inductive Termination where
  /-- The destructor of a `std::thread` that is joinable. -/
  | joinableDestroyed
  /-- A `join` where `thread_` is null. -/
  | nullThread
  /-- An exception that leaves `run`. -/
  | uncaught
deriving DecidableEq, Repr

/-- Who works on the data: threads and getters, by their numbers. -/
inductive Worker where
  | thread (i : Nat)
  | getter (g : Nat)
deriving DecidableEq, Repr

inductive Work (η : Type) where
  | part (k : Nat) (env : η)
  | clear

/-- The members of `Runnable`, the data of the module, and what the threads do. -/
structure Runnable (σ η : Type) where
  data : σ
  stop : Bool := true
  thread : Option ThreadPtr := none
  /-- The threads that have been made. -/
  places : List Place := []
  /-- The owner waits in a `join`. -/
  waits : Bool := false
  /-- The refreshes of getters that have found the module not joinable, by their next part. -/
  passed : Nat → Option Nat := fun _ => none
  terminated : Option Termination := none
  /-- The work on the data. -/
  log : List (Worker × Work η) := []

namespace Runnable

variable {σ η π : Type}

/-! ## The calls -/

def joinable (t : Runnable σ η) : Bool := t.thread.any fun p => !p.joined

/-- `start`. The old thread is destroyed first. -/
def startCall (t : Runnable σ η) : Runnable σ η :=
  if t.stop then
    if t.joinable then { t with terminated := some .joinableDestroyed }
    else { t with
      stop := false
      thread := some { thread := t.places.length }
      places := t.places ++ [.test] }
  else t

/-- `stop`, up to the `join`. -/
def stopCall (t : Runnable σ η) : Runnable σ η :=
  if t.stop then t else { t with stop := true, waits := t.joinable }

/-- `join`, up to that of the thread, which throws if the thread has been joined. -/
def joinCall (t : Runnable σ η) : Runnable σ η :=
  match t.thread with
  | none => { t with terminated := some .nullThread }
  | some p => { t with waits := !p.joined }

/-- The return from a `join`, when the thread has ended. -/
def returns (t : Runnable σ η) : Runnable σ η :=
  match t.thread with
  | none => t
  | some p =>
    if t.waits ∧ t.places[p.thread]? = some .ended then
      { t with waits := false, thread := some { p with joined := true } }
    else t

/-! ## The threads and the getters -/

/-- Work on the data. -/
def work (t : Runnable σ η) (who : Worker) (what : Work η) (data : σ) : Runnable σ η :=
  { t with data := data, log := t.log ++ [(who, what)] }

def goTo (t : Runnable σ η) (i : Nat) (place : Place) : Runnable σ η :=
  { t with places := t.places.set i place }

/-- The next step of a thread in `run`. -/
def turn (m : RunLoop σ η π) (t : Runnable σ η) (i : Nat) (env : η) : Runnable σ η :=
  match t.places[i]? with
  | some .test => t.goTo i (if t.stop then .leave else .body 0)
  | some (.body k) =>
    match m.parts[k]? with
    | some part =>
      let data := RunLoop.left part t.data env
      let t' := (t.work (.thread i) (.part k env) data).goTo i (.body (k + 1))
      if RunLoop.throws part t.data env then { t' with terminated := some .uncaught } else t'
    | none => t.goTo i .test
  | some .leave => (t.work (.thread i) .clear (m.clear t.data)).goTo i .ended
  | some .ended => t
  | none => t

/-- The next part of a getter's refresh. -/
def passTo (t : Runnable σ η) (g : Nat) (next : Option Nat) : Runnable σ η :=
  { t with passed := fun g' => if g' = g then next else t.passed g' }

/-- A getter asks whether the module is joinable. One that refreshes twice is two that ask. -/
def check (t : Runnable σ η) (g : Nat) : Runnable σ η :=
  if t.joinable ∨ (t.passed g).isSome then t else t.passTo g (some 0)

/-- A getter that has found it not joinable refreshes; the caller may catch what this throws. -/
def getterTurn (m : RunLoop σ η π) (t : Runnable σ η) (g : Nat) (env : η) : Runnable σ η :=
  match t.passed g with
  | some k =>
    match m.parts[k]? with
    | some part =>
      (t.work (.getter g) (.part k env) (RunLoop.left part t.data env)).passTo g
        (if RunLoop.throws part t.data env then none else some (k + 1))
    | none => t.passTo g none
  | none => t

/-! ## Events -/

/-- The owner's calls, and the steps of the others. -/
inductive Event (η π : Type) where
  | start
  | stop
  | join
  | returns
  | turn (i : Nat) (env : η)
  | check (g : Nat)
  | getterTurn (g : Nat) (env : η)
  | assign (param : π)

/-- The owner makes no call while it waits. -/
def act (m : RunLoop σ η π) (t : Runnable σ η) : Event η π → Runnable σ η
  | .start => if t.waits then t else t.startCall
  | .stop => if t.waits then t else t.stopCall
  | .join => if t.waits then t else t.joinCall
  | .returns => t.returns
  | .turn i env => t.turn m i env
  | .check g => t.check g
  | .getterTurn g env => t.getterTurn m g env
  | .assign param => { t with data := m.assign t.data param }

def step (m : RunLoop σ η π) (t : Runnable σ η) (e : Event η π) : Runnable σ η :=
  if t.terminated.isSome then t else t.act m e

/-- The state after events, from a new instance with these data. -/
def after (m : RunLoop σ η π) (data : σ) (es : List (Event η π)) : Runnable σ η :=
  Runs.run (step m) { data := data } es

/-- The work of the threads, in order. -/
def threadLog (t : Runnable σ η) : List (Nat × Work η) :=
  t.log.filterMap fun x =>
    match x.1 with
    | .thread i => some (i, x.2)
    | .getter _ => none

end Runnable

end LibVsf
