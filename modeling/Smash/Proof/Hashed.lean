import Smash.Model.State

/-!
# Hashing and equality see the same state

`smash_state_hash` copies eight array prefixes into a buffer, at an offset it counts up by hand;
`smash_state_equal` compares the fields of two snapshots one by one. The copying is `Packed.pack`, so what is
hashed is the prefixes one after the other (`hashed_eq_bytes`), and of snapshots with the same counts it is
the same exactly when the comparison finds no difference (`bytes_eq_iff`). `hashed_eq_iff` adds that the
buffer is long enough.
-/

set_option autoImplicit false

namespace Smash

variable {a b snap : Snapshot}

/-- The bytes that are hashed, whatever the buffer held. -/
theorem hashed_eq_bytes (snap : Snapshot) (stale : Nat → UInt8) : snap.hashed stale = snap.bytes := by
  rw [Snapshot.hashed, Snapshot.hashBuf, List.take_length, Packed.data_pack]
  simp only [Snapshot.copies, Snapshot.bytes, Packed.Field.toList, upTo, List.map_map, List.flatMap_cons,
    List.flatMap_nil, List.append_nil, List.append_assoc]
  rfl

/-- `smash_state_hash` is `fnv1a` of the buffer, up to the offset. -/
theorem stateHash_eq (snap : Snapshot) (stale : Nat → UInt8) : stateHash snap = fnv1a (snap.hashed stale) := by
  rw [hashed_eq_bytes]
  rfl

theorem lens_copies (snap : Snapshot) : snap.copies.map Packed.Field.len =
    List.replicate 5 snap.threadCount.toNat ++ List.replicate 3 snap.resourceCount.toNat := rfl

/-- The offset stays inside the buffer. -/
theorem off_hashBuf_le (ht : snap.threadCount ≤ smashMaxThreads) (hr : snap.resourceCount ≤ smashMaxResources)
    (stale : Nat → UInt8) (k : Nat) : (snap.hashBuf stale k).off ≤ sizeofSnapshot := by
  refine (Packed.off_pack_take_le stale snap.copies k).trans ?_
  rw [lens_copies, List.sum_append_nat, List.sum_replicate_nat, List.sum_replicate_nat]
  have ht' : snap.threadCount ≤ 16 := ht
  have hr' : snap.resourceCount ≤ 16 := hr
  show 5 * snap.threadCount.toNat + 3 * snap.resourceCount.toNat ≤ 136
  omega

theorem forall_mem_upTo {n : Int} {p : Int → Prop} : (∀ i ∈ upTo n, p i) ↔ ∀ i < n.toNat, p (i : Nat) := by
  simp only [upTo, List.forall_mem_map, List.mem_range]
  exact Iff.rfl

/-- The fields that are copied are those that are compared. -/
theorem copies_eq_iff (hts : a.threadCount = b.threadCount) (hrs : a.resourceCount = b.resourceCount) :
    a.copies.map Packed.Field.toList = b.copies.map Packed.Field.toList ↔ stateEqual a b = true := by
  have hfield {n : Nat} {f g : Nat → UInt8} : (⟨f, n⟩ : Packed.Field UInt8).toList
      = (⟨g, n⟩ : Packed.Field UInt8).toList ↔ ∀ i < n, f i = g i := Packed.Field.toList_inj rfl
  have hbyte {x y : Int8} : x.toUInt8 = y.toUInt8 ↔ x = y :=
    ⟨fun h => by rw [← x.toInt8_toUInt8, h, y.toInt8_toUInt8], congrArg _⟩
  simp only [Snapshot.copies, List.map_cons, List.map_nil, List.cons.injEq, hts, hrs, hfield, hbyte,
    stateEqual, Bool.and_eq_true, decide_eq_true_eq, List.all_eq_true, forall_mem_upTo, true_and, and_true,
    imp_and, forall_and, and_assoc]

theorem bytes_eq_iff (hts : a.threadCount = b.threadCount) (hrs : a.resourceCount = b.resourceCount) :
    a.bytes = b.bytes ↔ stateEqual a b = true := by
  have hlen : a.copies.map Packed.Field.len = b.copies.map Packed.Field.len := by
    rw [lens_copies, lens_copies, hts, hrs]
  rw [← hashed_eq_bytes a fun _ => 0, ← hashed_eq_bytes b fun _ => 0, ← copies_eq_iff hts hrs]
  simp only [Snapshot.hashed, Snapshot.hashBuf, List.take_length]
  exact Packed.data_pack_inj hlen _ _

/-- **Snapshots of the same counts are hashed as the same bytes if and only if they compare equal**, whatever
the cells beyond the counts and the buffer hold, and no copy goes past the end of the buffer. -/
theorem hashed_eq_iff (hts : a.threadCount = b.threadCount) (hrs : a.resourceCount = b.resourceCount)
    (ht : 1 ≤ a.threadCount ∧ a.threadCount ≤ smashMaxThreads)
    (hr : 0 ≤ a.resourceCount ∧ a.resourceCount ≤ smashMaxResources) (stale stale' : Nat → UInt8) :
    (a.hashed stale = b.hashed stale' ↔ stateEqual a b = true) ∧
      (∀ k, (a.hashBuf stale k).off ≤ sizeofSnapshot) ∧ ∀ k, (b.hashBuf stale' k).off ≤ sizeofSnapshot := by
  refine ⟨?_, off_hashBuf_le ht.2 hr.2 stale, off_hashBuf_le (hts ▸ ht.2) (hrs ▸ hr.2) stale'⟩
  rw [hashed_eq_bytes, hashed_eq_bytes]
  exact bytes_eq_iff hts hrs

/-- A thread at step 3 that owns the one mutex, in arrays whose other cells hold `unused`. -/
def ownerSnapshot (unused : UInt8) : Snapshot :=
  let first (x : UInt8) (i : Int) : UInt8 := if i = 0 then x else unused
  { threadStates := first 0
    threadPcs := first 3
    threadPriorities := first 10
    threadExecCtx := first 0
    threadSysLockDepth := first 0
    mutexOwners := fun i => (first 0 i).toInt8
    semCounts := fun i => (first 0 i).toInt8
    resourceAlive := first 1
    threadCount := 1
    resourceCount := 1 }

def freedSnapshot : Snapshot := { ownerSnapshot 7 with mutexOwners := fun _ => -1 }

/-- Two of them are hashed alike, and one whose mutex is free is not. -/
theorem hashed_eq_iff_owner :
    (ownerSnapshot 0).hashed (fun _ => 0) = (ownerSnapshot 7).hashed (fun _ => 5) ∧
      (ownerSnapshot 0).hashed (fun _ => 0) ≠ freedSnapshot.hashed fun _ => 5 := by
  have hsame := hashed_eq_iff (a := ownerSnapshot 0) (b := ownerSnapshot 7) rfl rfl (by decide) (by decide)
    (fun _ => 0) fun _ => 5
  have hother := hashed_eq_iff (a := ownerSnapshot 0) (b := freedSnapshot) rfl rfl (by decide) (by decide)
    (fun _ => 0) fun _ => 5
  exact ⟨hsame.1.mpr (by decide), fun h => absurd (hother.1.mp h) (by decide)⟩

end Smash
