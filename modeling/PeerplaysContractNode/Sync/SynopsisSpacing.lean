import Mathlib.Data.Nat.Log
import PeerplaysContractNode.Sync.SynopsisContent

/-!
# How a synopsis is spaced

The synopsis is meant to cost a peer `O(log n)` ids: at each step the cursor halves the stretch
of blocks left between it and `true_high`. Write `D = true_high - c + 1` for the blocks from the
cursor `c` to `true_high`. One step, `c + ⌊(true_high - c + 2) / 2⌋`, leaves `⌊D / 2⌋` of them
(`nextSample_add_half`). So the `i`-th sample is `true_high + 1 - ⌊D₀ / 2 ^ i⌋`, and the loop, which
goes on while the cursor stays at most `high`, takes `⌊log₂ (D₀ / (true_high - high + 1))⌋ + 1`
samples (`sampleNumbers_eq_halving`). The gap a step makes, `⌈D / 2⌉`, is at most one more than
the stretch it leaves, and the gaps shrink with the stretches (`sampleNumbers_gapsShrink`).

`getBlockchainSynopsis_logarithmic` takes this to the `uint32_t` loop, on any ledger. Whenever
`get_blockchain_synopsis` returns a list, with `high + extra` below `2 ^ 32` and a fork segment,
if any, that does not run past block `2 ^ 32 - 1`, the list was read at these samples from
`c₀ ≤ high`. It has at most `⌊log₂ (high + extra - c₀ + 1)⌋ + 1` entries, exactly that many when
`extra = 0`. A fork segment that runs past block `2 ^ 32 - 1` can start the cursor above `high`
and wrap it back below, and then the bound fails.
-/

namespace PeerplaysContractNode

/-! ## The samples over naturals -/

/-- One step leaves half the stretch: of the `D = t - c + 1` blocks from `c` to `t`, `⌊D / 2⌋`
lie from the next sample to `t`. -/
theorem nextSample_add_half {trueHigh c : Nat} (hc : c ≤ trueHigh) :
    nextSample trueHigh c + (trueHigh - c + 1) / 2 = trueHigh + 1 := by
  unfold nextSample
  omega

/-- The samples halve their distance to `true_high + 1`. From a cursor `c ≤ high ≤ true_high`,
with `D = true_high - c + 1`, the `i`-th sample is `true_high + 1 - ⌊D / 2 ^ i⌋`, and there are
`⌊log₂ (D / (true_high - high + 1))⌋ + 1` samples. -/
theorem sampleNumbers_eq_halving {trueHigh high c : Nat} (hhigh : high ≤ trueHigh)
    (hc : c ≤ high) :
    sampleNumbers trueHigh high c =
      (List.range (Nat.log 2 ((trueHigh - c + 1) / (trueHigh - high + 1)) + 1)).map
        fun i => trueHigh + 1 - (trueHigh - c + 1) / 2 ^ i := by
  induction c using sampleNumbers.induct trueHigh high with
  | case1 c hnext ih =>
    have hhalf := nextSample_add_half (hc.trans hhigh)
    have hD : trueHigh - nextSample trueHigh c + 1 = (trueHigh - c + 1) / 2 := by omega
    have hlog : Nat.log 2 ((trueHigh - c + 1) / (trueHigh - high + 1)) =
        Nat.log 2 ((trueHigh - nextSample trueHigh c + 1) / (trueHigh - high + 1)) + 1 := by
      rw [Nat.log_of_one_lt_of_le Nat.one_lt_two ((Nat.le_div_iff_mul_le (by omega)).2 (by omega)),
        hD, Nat.div_div_eq_div_mul, Nat.div_div_eq_div_mul, Nat.mul_comm 2]
    rw [hlog, List.range_succ_eq_map, List.map_cons, List.map_map, sampleNumbers_of_le hnext,
      ih hnext]
    congr 1
    · rw [pow_zero, Nat.div_one]
      omega
    · refine List.map_congr_left fun i _ => ?_
      rw [Function.comp_apply, hD, Nat.div_div_eq_div_mul, ← Nat.pow_succ']
  | case2 c hnext =>
    have hhalf := nextSample_add_half (hc.trans hhigh)
    have hlog : Nat.log 2 ((trueHigh - c + 1) / (trueHigh - high + 1)) = 0 :=
      Nat.log_of_lt ((Nat.div_lt_iff_lt_mul (by omega)).2 (by omega))
    rw [sampleNumbers_of_lt (by omega), hlog, show List.range (0 + 1) = [0] from rfl,
      List.map_singleton, pow_zero, Nat.div_one]
    congr 1
    omega

theorem length_sampleNumbers {trueHigh high c : Nat} (hhigh : high ≤ trueHigh) (hc : c ≤ high) :
    (sampleNumbers trueHigh high c).length =
      Nat.log 2 ((trueHigh - c + 1) / (trueHigh - high + 1)) + 1 := by
  rw [sampleNumbers_eq_halving hhigh hc, List.length_map, List.length_range]

/-- At most `⌊log₂ (true_high - c + 1)⌋ + 1` samples, whatever `high`. -/
theorem length_sampleNumbers_le_log {trueHigh high c : Nat} (hhigh : high ≤ trueHigh)
    (hc : c ≤ high) :
    (sampleNumbers trueHigh high c).length ≤ Nat.log 2 (trueHigh - c + 1) + 1 := by
  rw [length_sampleNumbers hhigh hc]
  exact Nat.succ_le_succ (Nat.log_mono_right (Nat.div_le_self _ _))

/-- The spacing a synopsis is meant to have, for samples `cs` up to `true_high`: the gap between
consecutive samples never grows, and each gap is at most two more than the distance from its
later sample to `true_high`. -/
structure GapsShrink (trueHigh : Nat) (cs : List Nat) : Prop where
  nonincreasing : ∀ i (h : i + 2 < cs.length), cs[i + 2] - cs[i + 1] ≤ cs[i + 1] - cs[i]
  le_distance : ∀ i (h : i + 1 < cs.length), cs[i + 1] - cs[i] ≤ trueHigh - cs[i + 1] + 2

theorem sampleNumbers_gapsShrink {trueHigh high c : Nat} (hhigh : high ≤ trueHigh)
    (hc : c ≤ high) : GapsShrink trueHigh (sampleNumbers trueHigh high c) := by
  have hpow : ∀ i k, (trueHigh - c + 1) / 2 ^ (i + k) = (trueHigh - c + 1) / 2 ^ i / 2 ^ k :=
    fun i k => by rw [Nat.pow_add, Nat.div_div_eq_div_mul]
  have hle : ∀ i, (trueHigh - c + 1) / 2 ^ i ≤ trueHigh + 1 :=
    fun i => (Nat.div_le_self _ _).trans (by omega)
  rw [sampleNumbers_eq_halving hhigh hc]
  constructor
  · intro i _
    simp only [List.getElem_map, List.getElem_range, hpow i 1, hpow i 2]
    have := hle i
    omega
  · intro i _
    simp only [List.getElem_map, List.getElem_range, hpow i 1]
    have := hle i
    omega

/-! ## The synopsis `get_blockchain_synopsis` returns -/

namespace Database

variable {db : Database}

/-- When `get_blockchain_synopsis` returns a list, on any ledger, with `high + extra` below
`2 ^ 32` and a fork segment, if any, that does not run past block `2 ^ 32 - 1`: the list is what
the loop read over naturals reads, one id per sample, from a first sample `c₀ ≤ high`. -/
theorem getBlockchainSynopsis_eq_overNat_of_ok {R : BlockId} {r : SynopsisRange}
    (hr : db.synopsisRange R = .ok (some r))
    (hfork : r.nonForkHighBlockNum.toNat + r.forkHistory.length < 2 ^ 32) {e : UInt32}
    (he : r.highBlockNum.toNat + e.toNat < 2 ^ 32) {ids : List BlockId}
    (hids : db.getBlockchainSynopsis R e = .ok ids) :
    db.synopsisLoopOverNat r.forkHistory r.nonForkHighBlockNum r.highBlockNum.toNat
        (r.highBlockNum.toNat + e.toNat) r.loopStart.toNat = .ok ids ∧
      r.loopStart.toNat ≤ r.highBlockNum.toNat ∧
      ids.length = (sampleNumbers (r.highBlockNum.toNat + e.toNat) r.highBlockNum.toNat
        r.loopStart.toNat).length := by
  obtain ⟨hpos, hle⟩ := loopStart_le_highBlockNum_of_ok hr hfork hids
  have htrue : (r.highBlockNum + e).toNat = r.highBlockNum.toNat + e.toNat := by
    rw [UInt32.toNat_add]
    exact Nat.mod_eq_of_lt he
  have hloop : db.synopsisLoop r.forkHistory r.nonForkHighBlockNum r.highBlockNum
      (r.highBlockNum + e) (2 ^ 32) r.loopStart = .ok ids := by
    rw [← hids, getBlockchainSynopsis, hr, except_ok_bind]
  have hnat := synopsisLoop_eq_overNat_of_ok _ _ _ _ (by omega) _ _ _ hpos hle hloop
  rw [htrue] at hnat
  exact ⟨hnat, hle, length_eq_of_mapM_eq_ok hnat⟩

/-- The synopsis is sampled logarithmically. On any ledger, for a reference point placed with a
fork segment, if any, that does not run past block `2 ^ 32 - 1`, and for
`number_of_blocks_after_reference_point = e` with `high + e < 2 ^ 32`: whenever
`get_blockchain_synopsis` returns a list, the list is read at the samples of the cursor over
naturals, the first `c₀` at most `high`. It has at most `⌊log₂ (high + e - c₀ + 1)⌋ + 1` entries,
exactly that many when `e = 0`, and the gaps between samples never grow, each at most two more
than the distance from its later sample to `high + e`. -/
theorem getBlockchainSynopsis_logarithmic {R : BlockId} {r : SynopsisRange}
    (hr : db.synopsisRange R = .ok (some r))
    (hfork : r.nonForkHighBlockNum.toNat + r.forkHistory.length < 2 ^ 32) {e : UInt32}
    (he : r.highBlockNum.toNat + e.toNat < 2 ^ 32) {ids : List BlockId}
    (hids : db.getBlockchainSynopsis R e = .ok ids) :
    db.synopsisLoopOverNat r.forkHistory r.nonForkHighBlockNum r.highBlockNum.toNat
        (r.highBlockNum.toNat + e.toNat) r.loopStart.toNat = .ok ids ∧
      r.loopStart.toNat ≤ r.highBlockNum.toNat ∧
      ids.length ≤ Nat.log 2 (r.highBlockNum.toNat + e.toNat - r.loopStart.toNat + 1) + 1 ∧
      (e = 0 →
        ids.length = Nat.log 2 (r.highBlockNum.toNat + e.toNat - r.loopStart.toNat + 1) + 1) ∧
      GapsShrink (r.highBlockNum.toNat + e.toNat)
        (sampleNumbers (r.highBlockNum.toNat + e.toNat) r.highBlockNum.toNat
          r.loopStart.toNat) := by
  obtain ⟨hnat, hle, hlen⟩ := getBlockchainSynopsis_eq_overNat_of_ok hr hfork he hids
  have hhigh := Nat.le_add_right r.highBlockNum.toNat e.toNat
  refine ⟨hnat, hle, hlen ▸ length_sampleNumbers_le_log hhigh hle, fun he0 => ?_,
    sampleNumbers_gapsShrink hhigh hle⟩
  subst he0
  rw [hlen, length_sampleNumbers hhigh hle,
    show r.highBlockNum.toNat + (0 : UInt32).toNat - r.highBlockNum.toNat + 1 = 1 by simp,
    Nat.div_one]

theorem getBlockchainSynopsis_logarithmic_from_eighty :
    (Database.ofHead 100 80 [] fun _ => none).getBlockchainSynopsis BlockId.zero 0 =
        .ok [⟨80, 0⟩, ⟨91, 0⟩, ⟨96, 0⟩, ⟨99, 0⟩, ⟨100, 0⟩] ∧
      [(⟨80, 0⟩ : BlockId), ⟨91, 0⟩, ⟨96, 0⟩, ⟨99, 0⟩, ⟨100, 0⟩].length =
        Nat.log 2 (100 + 0 - 80 + 1) + 1 ∧
      GapsShrink (100 + 0) (sampleNumbers (100 + 0) 100 80) :=
  have hr : (Database.ofHead 100 80 [] fun _ => none).synopsisRange BlockId.zero =
      .ok (some ⟨80, 100, 100, []⟩) := rfl
  have hids : (Database.ofHead 100 80 [] fun _ => none).getBlockchainSynopsis BlockId.zero 0 =
      .ok [⟨80, 0⟩, ⟨91, 0⟩, ⟨96, 0⟩, ⟨99, 0⟩, ⟨100, 0⟩] := rfl
  have h := getBlockchainSynopsis_logarithmic hr (by decide) (by decide) hids
  ⟨hids, h.2.2.2.1 rfl, h.2.2.2.2⟩

/-- The synopsis has exactly `⌊log₂ (D / (e + 1))⌋ + 1` entries, for every `e`: under the bounds of
`getBlockchainSynopsis_logarithmic`, with `D = high + e - c₀ + 1`, it is read at the blocks
`high + e + 1 - ⌊D / 2 ^ i⌋` for `i` below that count, so the distance of its samples to
`high + e + 1` halves at each step. -/
theorem getBlockchainSynopsis_samples_halve {R : BlockId} {r : SynopsisRange}
    (hr : db.synopsisRange R = .ok (some r))
    (hfork : r.nonForkHighBlockNum.toNat + r.forkHistory.length < 2 ^ 32) {e : UInt32}
    (he : r.highBlockNum.toNat + e.toNat < 2 ^ 32) {ids : List BlockId}
    (hids : db.getBlockchainSynopsis R e = .ok ids) :
    db.synopsisLoopOverNat r.forkHistory r.nonForkHighBlockNum r.highBlockNum.toNat
        (r.highBlockNum.toNat + e.toNat) r.loopStart.toNat = .ok ids ∧
      sampleNumbers (r.highBlockNum.toNat + e.toNat) r.highBlockNum.toNat r.loopStart.toNat =
        (List.range
          (Nat.log 2 ((r.highBlockNum.toNat + e.toNat - r.loopStart.toNat + 1) / (e.toNat + 1)) +
            1)).map
          (fun i => r.highBlockNum.toNat + e.toNat + 1 -
            (r.highBlockNum.toNat + e.toNat - r.loopStart.toNat + 1) / 2 ^ i) ∧
      ids.length =
        Nat.log 2 ((r.highBlockNum.toNat + e.toNat - r.loopStart.toNat + 1) / (e.toNat + 1)) +
          1 := by
  obtain ⟨hnat, hle, hlen⟩ := getBlockchainSynopsis_eq_overNat_of_ok hr hfork he hids
  have hhigh := Nat.le_add_right r.highBlockNum.toNat e.toNat
  have hE : r.highBlockNum.toNat + e.toNat - r.highBlockNum.toNat + 1 = e.toNat + 1 := by omega
  exact ⟨hnat, by rw [sampleNumbers_eq_halving hhigh hle, hE],
    by rw [hlen, length_sampleNumbers hhigh hle, hE]⟩

theorem getBlockchainSynopsis_samples_halve_four_after :
    (Database.ofHead 100 80 [] fun _ => none).getBlockchainSynopsis BlockId.zero 4 =
        .ok [⟨80, 0⟩, ⟨93, 0⟩, ⟨99, 0⟩] ∧
      sampleNumbers (100 + 4) 100 80 =
        (List.range (Nat.log 2 ((100 + 4 - 80 + 1) / (4 + 1)) + 1)).map
          (fun i => 100 + 4 + 1 - (100 + 4 - 80 + 1) / 2 ^ i) ∧
      [(⟨80, 0⟩ : BlockId), ⟨93, 0⟩, ⟨99, 0⟩].length =
        Nat.log 2 ((100 + 4 - 80 + 1) / (4 + 1)) + 1 :=
  have hr : (Database.ofHead 100 80 [] fun _ => none).synopsisRange BlockId.zero =
      .ok (some ⟨80, 100, 100, []⟩) := rfl
  have hids : (Database.ofHead 100 80 [] fun _ => none).getBlockchainSynopsis BlockId.zero 4 =
      .ok [⟨80, 0⟩, ⟨93, 0⟩, ⟨99, 0⟩] := rfl
  have h := getBlockchainSynopsis_samples_halve hr (by decide) (by decide) hids
  ⟨hids, h.2.1, h.2.2⟩

/-- A fork segment that runs past block `2 ^ 32 - 1` breaks the bound. The head and the undo
horizon are at block `2 ^ 32 - 1`, and `⟨3, 5⟩` heads the fork of `wrappedForkHistory`, numbered
`0` to `3` above the ancestor `2 ^ 32 - 1`. It is placed with `high = 3`, and the loop starts at
`c₀ = 2 ^ 32 - 1`, above `high`. The first step wraps the cursor to block `2`, and the synopsis has
three entries, where `⌊log₂ (high - c₀ + 1)⌋ + 1` is `1` even with the subtraction cut at `0`. -/
theorem getBlockchainSynopsis_wrapped_fork_exceeds_bound :
    (Database.ofHead 4294967295 4294967295 [] wrappedForkHistory).synopsisRange ⟨3, 5⟩ =
        .ok (some ⟨4294967295, 3, 4294967295, [⟨0, 5⟩, ⟨1, 5⟩, ⟨2, 5⟩, ⟨3, 5⟩]⟩) ∧
      ¬ ((4294967295 : UInt32).toNat + [(⟨0, 5⟩ : BlockId), ⟨1, 5⟩, ⟨2, 5⟩, ⟨3, 5⟩].length <
        2 ^ 32) ∧
      (Database.ofHead 4294967295 4294967295 [] wrappedForkHistory).getBlockchainSynopsis
        ⟨3, 5⟩ 0 = .ok [⟨4294967295, 0⟩, ⟨2, 0⟩, ⟨3, 0⟩] ∧
      Nat.log 2 (3 + 0 - 4294967295 + 1) + 1 = 1 :=
  ⟨by decide, by decide, rfl, by rw [Nat.log_of_lt (by decide)]⟩

end Database

end PeerplaysContractNode
