import Smash.Proof.Accounts
import Smash.Proof.Caching

/-!
# State caching does no work twice

The table holds the hashes of the first `SMASH_MAX_STATES` states that the search went on from (`Recalls`). So no two
of these have the same hash, and what is skipped is what has been seen. Where the states of a scenario have few
hashes, this bounds the whole search, however many schedules there are: `caching_bounds_search`.
-/

set_option autoImplicit false

namespace Smash

variable {sc : Scenario} {cfg : Config}

/-- The states of the clean runs have these hashes. -/
def HashesIn (sc : Scenario) (hashes : Finset UInt64) : Prop :=
  ∀ s w, CleanRun sc s w → stateHash (captureState sc w) ∈ hashes

/-- Every state that is looked up is that of a clean run. -/
theorem hash_mem_of_expanded (hv : sc.Valid) {hashes : Finset UInt64} (h : HashesIn sc hashes) {v : Visit}
    (hmem : v ∈ (exploreLedger sc cfg).visits) (hk : v.kind = .expanded) : v.hash sc ∈ hashes := by
  have hok := exploreLedger_visitOk hv cfg v hmem
  rw [VisitOk, hk] at hok
  exact h _ _ hok.1

/-- The last state that the search went on from, and what it had visited before. -/
theorem exists_last_expanded {visits : List Visit} (h : expandedIn visits ≠ []) :
    ∃ before v after, visits = before ++ v :: after ∧ v.kind = .expanded ∧
      expandedIn visits = expandedIn before ++ [v] := by
  obtain ⟨es, v, hes⟩ := (List.eq_nil_or_concat (expandedIn visits)).resolve_left h
  rw [List.concat_eq_append] at hes
  obtain ⟨front, back, rfl, hfront, hback⟩ := List.filter_eq_append_iff.mp hes
  obtain ⟨skipped, after, rfl, hskipped, hv, -⟩ := List.filter_eq_cons_iff.mp hback
  refine ⟨front ++ skipped, v, after, by rw [List.append_assoc], of_decide_eq_true hv, ?_⟩
  have hnone : expandedIn skipped = [] := List.filter_eq_nil_iff.mpr hskipped
  rw [hes, ← hfront]
  show _ = List.filter _ (front ++ skipped) ++ [v]
  rw [List.filter_append]
  show _ = _ ++ expandedIn skipped ++ [v]
  rw [hnone, List.append_nil]

/-- The search goes on from no more states than they have hashes, if these fit into the table. -/
theorem Recalls.length_le {l : Ledger} (h : Recalls sc l) {hashes : Finset UInt64}
    (hin : ∀ v ∈ l.visits, v.kind = .expanded → v.hash sc ∈ hashes) (hroom : hashes.card ≤ smashMaxStates) :
    (expandedIn l.visits).length ≤ hashes.card := by
  have hsub : stored sc l.visits ⊆ hashes := by
    intro hash hmem
    obtain ⟨u, hu, rfl⟩ := mem_stored.mp hmem
    obtain ⟨humem, huk⟩ := List.mem_filter.mp (List.mem_of_mem_take hu)
    exact hin u humem (of_decide_eq_true huk)
  have hle := Finset.card_le_card hsub
  rw [h.card] at hle
  by_contra hmore
  have hfull : hashes.card = smashMaxStates := by omega
  -- The table is full of them, so there is none left for the last state.
  have hall : stored sc l.visits = hashes :=
    Finset.eq_of_subset_of_card_le hsub (by rw [h.card, hfull]; omega)
  obtain ⟨before, v, after, hsplit, hk, hexp⟩ := @exists_last_expanded l.visits
    (List.ne_nil_of_length_pos (by omega))
  have hlen : smashMaxStates ≤ (expandedIn before).length := by
    rw [hexp, List.length_append, List.length_singleton] at hmore
    omega
  have hsame : stored sc before = stored sc l.visits := by
    rw [stored, stored, hexp, List.take_append_of_le_length hlen]
  refine (h.past before v after hsplit).2 hk ?_
  rw [hsame, hall]
  exact hin v (hsplit ▸ List.mem_append_right _ List.mem_cons_self) hk

/-- No state offers more threads than there are. -/
theorem offered_le (visits : List Visit) : offered sc visits ≤ smashMaxThreads * (expandedIn visits).length := by
  induction visits with
  | nil => exact Nat.zero_le _
  | cons v visits ih =>
    have hone : v.offers sc ≤ if v.kind = .expanded then smashMaxThreads else 0 := by
      unfold Visit.offers
      split
      · exact List.length_take_le _ _
      · exact Nat.le_refl _
    have hcons : offered sc (v :: visits) = v.offers sc + offered sc visits := rfl
    rw [hcons]
    by_cases hk : v.kind = .expanded
    · have hexp : expandedIn (v :: visits) = v :: expandedIn visits := List.filter_cons_of_pos (by simp [hk])
      rw [if_pos hk] at hone
      rw [hexp, List.length_cons, Nat.mul_succ]
      omega
    · have hexp : expandedIn (v :: visits) = expandedIn visits := List.filter_cons_of_neg (by simp [hk])
      rw [if_neg hk] at hone
      rw [hexp]
      omega

/-- **With caching, a state is gone on from once.** Among the first `SMASH_MAX_STATES` states that the search goes
on from, no two have the same hash, and each one that it skips has the hash of an earlier one. So, where the states
of the clean runs have no more hashes than the table can hold, it goes on from one state a hash at most, and what it
does in all is bounded by that, whatever the number of schedules. -/
theorem caching_bounds_search (hv : sc.Valid) (henable : cfg.enableStateCaching = true) (stack : Nat → Saved) :
    (((expandedIn (exploreSearch sc cfg stack).visits).take smashMaxStates).map (Visit.hash sc)).Nodup ∧
      (∀ before v after, (exploreSearch sc cfg stack).visits = before ++ v :: after → v.kind = .cached →
        ∃ u ∈ expandedIn before, u.hash sc = v.hash sc) ∧
      ∀ hashes : Finset UInt64, HashesIn sc hashes → hashes.card ≤ smashMaxStates →
        (explore sc cfg stack).states ≤ hashes.card ∧
          (explore sc cfg stack).total ≤ 1 + smashMaxThreads * hashes.card := by
  have h : Recalls sc (exploreLedger sc cfg) := exploreLedger_recalls hv henable
  rw [exploreSearch_visits hv]
  refine ⟨h.nodup, fun before v after hsplit hk => ?_, fun hashes hin hroom => ?_⟩
  · obtain ⟨u, hu, heq⟩ := mem_stored.mp ((h.past before v after hsplit).1 hk)
    exact ⟨u, List.mem_of_mem_take hu, heq⟩
  · have hlen : (expandedIn (exploreLedger sc cfg).visits).length ≤ hashes.card :=
      h.length_le (fun v hmem hk => hash_mem_of_expanded hv hin hmem hk) hroom
    have hstates : (explore sc cfg stack).states = (expandedIn (exploreLedger sc cfg).visits).length := by
      rw [explore_eq hv, expandedIn, ← List.countP_eq_length_filter]
      exact (exploreLedger_booked hv cfg).states
    have htotal : (explore sc cfg stack).total = (exploreLedger sc cfg).result.total := by
      rw [explore_eq hv]
      rfl
    have hoffered := @offered_le sc (exploreLedger sc cfg).visits
    have hbooked := (exploreLedger_accounted hv cfg).1
    have hmul : smashMaxThreads * (expandedIn (exploreLedger sc cfg).visits).length
        ≤ smashMaxThreads * hashes.card := Nat.mul_le_mul_left _ hlen
    rw [hstates, htotal]
    exact ⟨hlen, by omega⟩

/-- The hashes of the clean runs can be read off the visits of plain search. -/
theorem hashesIn_of_visits (hv : sc.Valid) (hp : cfg.Plain) (hshort : RunsShorter sc cfg.bound) :
    HashesIn sc ((exploreLedger sc cfg).visits.map (Visit.hash sc)).toFinset := by
  intro s w hrun
  obtain ⟨v, hmem, -, rfl, -⟩ := (untruncated_of_short hv hp hshort).followed s w hrun
  exact List.mem_toFinset.mpr (List.mem_map_of_mem hmem)

/-- Two threads that take two mutexes in opposite orders: plain search comes to 217 nodes, whose states have 37
hashes, so with caching the search goes on from 37 states at most. -/
theorem caching_bounds_search_abba :
    (exploreLedger abbaDeadlock ⟨false, false, 16, none, false⟩).visits.length = 217 ∧
      (explore abbaDeadlock ⟨false, true, 16, none, false⟩ fun _ => rootNode abbaDeadlock).states ≤ 37 ∧
      (explore abbaDeadlock ⟨false, true, 16, none, false⟩ fun _ => rootNode abbaDeadlock).total
        ≤ 1 + smashMaxThreads * 37 := by
  have hv : abbaDeadlock.Valid := by decide
  have hp : Config.Plain ⟨false, false, 16, none, false⟩ := ⟨rfl, rfl, .inl rfl, rfl⟩
  have hcard : ((exploreLedger abbaDeadlock ⟨false, false, 16, none, false⟩).visits.map
      (Visit.hash abbaDeadlock)).toFinset.card = 37 := by decide +kernel
  have hbounds := (@caching_bounds_search _ ⟨false, true, 16, none, false⟩ hv rfl
    fun _ => rootNode abbaDeadlock).2.2 _ (hashesIn_of_visits hv hp abbaDeadlock_short)
  rw [hcard] at hbounds
  exact ⟨by decide +kernel, hbounds (by decide)⟩

end Smash
