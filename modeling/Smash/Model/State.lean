import Smash.Lib.Packed
import Smash.Model.Engine

/-!
# State hashing (`state.c`, and `smash_capture_state` of `engine.c`)

The snapshot's fields are the C byte types, so every capture goes through the cast the C
assignment makes. Arrays are functions of the index, zero where `memset` left them.
-/

set_option autoImplicit false

namespace Smash

/-- `smash_state_snapshot_t`. -/
structure Snapshot where
  threadStates : Int → UInt8
  threadPcs : Int → UInt8
  threadPriorities : Int → UInt8
  threadExecCtx : Int → UInt8
  threadSysLockDepth : Int → UInt8
  mutexOwners : Int → Int8
  semCounts : Int → Int8
  resourceAlive : Int → UInt8
  threadCount : Int
  resourceCount : Int

/-- `smash_capture_state`. -/
def captureState (sc : Scenario) (w : World) : Snapshot :=
  let thr (f : Thread → UInt8) (i : Int) : UInt8 := if sc.IsThread i then f (w.threads i) else 0
  { threadStates := thr fun t => UInt8.ofNat t.state.code
    threadPcs := thr fun t => UInt8.ofNat t.pc
    threadPriorities := thr fun t => UInt8.ofInt t.priority
    threadExecCtx := thr fun t => UInt8.ofNat t.execCtx.code
    threadSysLockDepth := thr fun t => UInt8.ofInt t.sysLockDepth
    mutexOwners := fun i => if sc.IsResource i then Int8.ofInt (w.resources i).owner else 0
    semCounts := fun i => if sc.IsResource i then Int8.ofInt (w.resources i).count else 0
    resourceAlive := fun i => if sc.IsResource i ∧ (w.resources i).alive = true then 1 else 0
    threadCount := sc.threadCount
    resourceCount := sc.resourceCount }

/-- `fnv1a`: 64-bit FNV-1a, with zero replaced by one. -/
def fnv1a (data : List UInt8) : UInt64 :=
  let h := data.foldl (fun h b => (h ^^^ b.toUInt64) * 0x100000001b3) 0xcbf29ce484222325
  if h = 0 then 1 else h

/-- The bytes `smash_state_hash` copies out of a snapshot. -/
def Snapshot.bytes (snap : Snapshot) : List UInt8 :=
  let ts := upTo snap.threadCount
  let rs := upTo snap.resourceCount
  ts.map snap.threadStates ++ ts.map snap.threadPcs ++ ts.map snap.threadPriorities
    ++ ts.map snap.threadExecCtx ++ ts.map snap.threadSysLockDepth
    ++ rs.map (fun i => (snap.mutexOwners i).toUInt8) ++ rs.map (fun i => (snap.semCounts i).toUInt8)
    ++ rs.map snap.resourceAlive

/-- `sizeof(smash_state_snapshot_t)`: eight arrays of bytes, and two `int`s at the end. -/
abbrev sizeofSnapshot : Nat := 5 * smashMaxThreads + 3 * smashMaxResources + 2 * 4

/-- What the calls of `memcpy` in `smash_state_hash` copy, in their order. -/
def Snapshot.copies (snap : Snapshot) : List (Packed.Field UInt8) :=
  let thr (src : Int → UInt8) : Packed.Field UInt8 := ⟨fun i => src i, snap.threadCount.toNat⟩
  let res (src : Int → UInt8) : Packed.Field UInt8 := ⟨fun i => src i, snap.resourceCount.toNat⟩
  [thr snap.threadStates, thr snap.threadPcs, thr snap.threadPriorities, thr snap.threadExecCtx,
    thr snap.threadSysLockDepth, res fun i => (snap.mutexOwners i).toUInt8,
    res fun i => (snap.semCounts i).toUInt8, res snap.resourceAlive]

/-- `buf` and `off` of `smash_state_hash` after the first `k` copies. The buffer is not initialised. -/
def Snapshot.hashBuf (snap : Snapshot) (stale : Nat → UInt8) (k : Nat) : Packed.Buf UInt8 :=
  Packed.pack stale (snap.copies.take k)

/-- The `off` bytes of `buf` that `smash_state_hash` passes to `fnv1a`. -/
def Snapshot.hashed (snap : Snapshot) (stale : Nat → UInt8) : List UInt8 :=
  (snap.hashBuf stale snap.copies.length).data

/-- `smash_state_hash`. -/
def stateHash (snap : Snapshot) : UInt64 := fnv1a snap.bytes

/-- `smash_state_equal`. -/
def stateEqual (a b : Snapshot) : Bool :=
  a.threadCount = b.threadCount && a.resourceCount = b.resourceCount
    && (upTo a.threadCount).all (fun i =>
      a.threadStates i = b.threadStates i && a.threadPcs i = b.threadPcs i
        && a.threadPriorities i = b.threadPriorities i && a.threadExecCtx i = b.threadExecCtx i
        && a.threadSysLockDepth i = b.threadSysLockDepth i)
    && (upTo a.resourceCount).all (fun i =>
      a.mutexOwners i = b.mutexOwners i && a.semCounts i = b.semCounts i
        && a.resourceAlive i = b.resourceAlive i)

/-! ## The visited table -/

/-- The slot probed at turn `i` for a hash. -/
def htIndex (hash : UInt64) (i : Nat) : Nat := (hash.toNat + i) % smashStateHtSize

/-- The probe loop of `smash_state_visited`, with `left` turns to go. -/
def visitedFrom (ht : Nat → UInt64) (hash : UInt64) : Nat → Bool
  | 0 => false
  | left + 1 =>
    let idx := htIndex hash (smashStateHtSize - (left + 1))
    if ht idx = 0 then false
    else if ht idx = hash then true
    else visitedFrom ht hash left

/-- `smash_state_visited`. -/
def StateTable.visited (table : StateTable) (hash : UInt64) : Bool :=
  visitedFrom table.stateHt hash smashStateHtSize

/-- The probe loop of `smash_state_mark_visited`. -/
def markFrom (table : StateTable) (hash : UInt64) : Nat → StateTable × Bool
  | 0 => (table, false)
  | left + 1 =>
    let idx := htIndex hash (smashStateHtSize - (left + 1))
    if table.stateHt idx = 0 then
      ({ stateHt := Function.update table.stateHt idx hash
         stateHashCount := table.stateHashCount + 1 }, true)
    else if table.stateHt idx = hash then (table, true)
    else markFrom table hash left

/-- `smash_state_mark_visited`, with the value it returns. -/
def StateTable.markVisited (table : StateTable) (hash : UInt64) : StateTable × Bool :=
  if smashMaxStates ≤ table.stateHashCount then (table, false)
  else markFrom table hash smashStateHtSize

end Smash
