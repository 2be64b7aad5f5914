import Smash.Lib.CString
import Smash.Model.Spec

/-!
# The report of a deadlock (`spec.c`)

`explore_dfs` has a buffer of 256 characters on its stack and lets `smash_check_circular_wait` write the cycle
into it, or `smash_check_no_deadlock` the list of blocked threads when there is none. Here the two write as the
code does, `snprintf` after `snprintf`; `checkCircularWait` of `Model.Spec` is the verdict with the whole text.
-/

set_option autoImplicit false

namespace Smash

open CString

/-! ## `smash_check_no_deadlock` -/

/-- The first line. -/
def deadlockLine (sc : Scenario) (w : World) : String :=
  let blocked := sc.threadIds.countP fun i => (w.threads i).blocked
  s!"DEADLOCK: no runnable threads, {blocked}/{sc.threadCount} threads blocked"

/-- The line of a blocked thread. -/
def blockedLine (w : World) (i : Int) : String :=
  let t := w.threads i
  let kind := if t.state = .blockedMutex then "mutex" else "sem"
  s!"\n  T{i} blocked on {kind} {t.blockedOn}"

/-- The loop that says who is blocked on what. -/
def reportBlocked (w : World) (len : Nat) : List Int → Nat → Memory → Memory
  | [], _, msg => msg
  | i :: rest, off, msg =>
    if (w.threads i).blocked = false then reportBlocked w len rest off msg
    else
      let line := (blockedLine w i).toList
      let written := snprintf msg off (len - off) line
      if len ≤ off + line.length then written else reportBlocked w len rest (off + line.length) written

/-- `smash_check_no_deadlock`: the buffer and what is returned. -/
def checkNoDeadlock (sc : Scenario) (w : World) (len : Nat) (msg : Memory) : Memory × Bool :=
  if allDone sc w then (msg, true)
  else if 0 < (collectRunnable sc w smashMaxThreads).length then (msg, true)
  else
    let first := snprintf msg 0 len (deadlockLine sc w).toList
    (reportBlocked w len sc.threadIds (strlen first len) first, false)

/-! ## `smash_check_circular_wait` -/

/-- `(size_t)(msg_len - off)`: wraps around when `off` has passed `msg_len`. -/
def sizeLeft (len off : Nat) : Nat := if off ≤ len then len - off else 0x10000000000000000 - (off - len)

def cycleHead : String := "CIRCULAR WAIT (deadlock): "

def cycleArrow (t : Int) : String := s!"T{t} -> "

def cycleEnd (path : List Int) (next : Int) : String := s!"T{next} (blocks on T{path.headD 0})"

/-- The message of a back edge. The last `snprintf` stands outside the loop and its guard. -/
def writeCycle (len : Nat) (path : List Int) (next : Int) (msg : Memory) : Memory :=
  let looped := append len (path.map fun t => (cycleArrow t).toList) cycleHead.toList.length
    (snprintf msg 0 len cycleHead.toList)
  snprintf looped.1 looped.2 (sizeLeft len looped.2) (cycleEnd path next).toList

/-- `smash_check_circular_wait` with its buffer. -/
def writeCircularWait (sc : Scenario) (w : World) (len : Nat) (msg : Memory) : Memory × Bool :=
  match circularWait sc w with
  | .cycle path next => (writeCycle len path next msg, false)
  | .clear _ | .stuck => (msg, true)

/-- The `msg` of the deadlock branch of `explore_dfs`. -/
def deadlockReport (sc : Scenario) (w : World) (msg : Memory) : Memory :=
  let circular := writeCircularWait sc w 256 msg
  if circular.2 then (checkNoDeadlock sc w 256 circular.1).1 else circular.1

end Smash
