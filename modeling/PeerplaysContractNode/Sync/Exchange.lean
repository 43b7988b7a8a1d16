import Mathlib.Data.List.Nodup
import Mathlib.Data.List.Perm.Subperm
import PeerplaysContractNode.Sync.SynopsisContent

/-!
# One synopsis exchange between two nodes

Node `A` sends `get_blockchain_synopsis(zero id, 0)` and node `B` answers it with
`get_block_ids`. When the two main chains agree exactly on blocks `1..m` (`AgreeUpTo`), `B`'s
reverse scan stops at the newest block `A` sampled at or below `m`, and the halving step puts that
block no further below `m` than `m` lies below `A`'s head. So `B` returns or counts every block of
its own above `m`, and repeats at most `head_A - m + 1` blocks of `A`'s main chain.

`B`'s scan looks each entry it knows up on its own main chain, and that lookup fails for an entry
`B` holds in its fork database above its head; such ledgers are left out.
-/

namespace PeerplaysContractNode

/-- Scanned newest first, the samples from `c0 ≤ m` first meet `m` or below at a sample `c` from
which one more step passes `m`; `p` tells the samples at most `m` from the others. -/
theorem find?_reverse_sampleNumbers {trueHigh high m : Nat} (p : Nat → Bool) (hm : m ≤ high) :
    ∀ c0, c0 ≤ m → (∀ c ∈ sampleNumbers trueHigh high c0, p c = decide (c ≤ m)) →
      ∃ c ∈ sampleNumbers trueHigh high c0, c ≤ m ∧ m < nextSample trueHigh c ∧
        (sampleNumbers trueHigh high c0).reverse.find? p = some c := by
  intro c0
  induction c0 using sampleNumbers.induct trueHigh high with
  | case1 c0 h ih =>
    intro h0 hp
    rw [sampleNumbers_of_le h] at hp ⊢
    rw [List.reverse_cons, List.find?_append]
    by_cases hn : nextSample trueHigh c0 ≤ m
    · obtain ⟨c, hc, hcm, hnext, hfind⟩ := ih hn fun c hc => hp c (List.mem_cons_of_mem _ hc)
      exact ⟨c, List.mem_cons_of_mem _ hc, hcm, hnext, by rw [hfind]; rfl⟩
    · have hnone : (sampleNumbers trueHigh high (nextSample trueHigh c0)).reverse.find? p = none :=
        List.find?_eq_none.2 fun x hx => by
          have hx' := List.mem_reverse.1 hx
          have := (mem_sampleNumbers hx').1
          rw [hp x (List.mem_cons_of_mem _ hx')]
          simpa using Nat.lt_of_lt_of_le (Nat.lt_of_not_le hn) this
      refine ⟨c0, List.mem_cons_self _ _, h0, by omega, ?_⟩
      rw [hnone]
      simp [hp c0 (List.mem_cons_self _ _), h0]
  | case2 c0 h =>
    intro h0 hp
    rw [sampleNumbers_of_lt (by omega)] at hp ⊢
    exact ⟨c0, List.mem_singleton_self _, h0, by omega,
      by simp [hp c0 (List.mem_singleton_self _), h0]⟩

namespace Database

/-- Two ledgers whose main chains agree exactly on blocks `1..m`: the same ids up to `m`, and
different ids at every number above `m` that both chains reach. -/
structure AgreeUpTo (A B : Database) (m : Nat) : Prop where
  agree : ∀ n, 0 < n → n ≤ m → A.blockIdForNum (UInt32.ofNat n) = B.blockIdForNum (UInt32.ofNat n)
  differ : ∀ n, m < n → n ≤ A.headBlockNum.toNat → n ≤ B.headBlockNum.toNat →
    A.blockIdForNum (UInt32.ofNat n) ≠ B.blockIdForNum (UInt32.ofNat n)

section Exchange

variable {A B : Database} {m : Nat}

theorem AgreeUpTo.symm (h : AgreeUpTo A B m) : AgreeUpTo B A m :=
  ⟨fun n h0 hn => (h.agree n h0 hn).symm, fun n hm hB hA => (h.differ n hm hA hB).symm⟩

theorem blockIdForNum_ofNat_num (db : Database) (c : Nat) (hc : c < 2 ^ 32) :
    (db.blockIdForNum (UInt32.ofNat c)).num.toNat = c := by
  rw [db.blockIdForNum_num, UInt32.toNat_ofNat_of_lt hc]

/-- A block of `A`'s main chain is on `B`'s exactly when its number is at most `m`. -/
theorem onMainChain_iff (hAB : AgreeUpTo A B m) (hmB : m ≤ B.headBlockNum.toNat) (c : Nat)
    (hc0 : 0 < c) (hcA : c ≤ A.headBlockNum.toNat) :
    B.OnMainChain (A.blockIdForNum (UInt32.ofNat c)) ↔ c ≤ m := by
  have hc32 : c < 2 ^ 32 := by have := A.headBlockNum.toNat_lt; omega
  have hnum := A.blockIdForNum_ofNat_num c hc32
  rw [OnMainChain, uint32_lt_iff, uint32_le_iff, hnum, A.blockIdForNum_num]
  constructor
  · rintro ⟨-, hcB, heq⟩
    by_contra hcm
    exact hAB.differ c (by omega) hcA hcB heq.symm
  · intro hcm
    exact ⟨hc0, by omega, (hAB.agree c hc0 hcm).symm⟩

/-- `B`'s scan of `A`'s synopsis stops at the newest block `A` sampled at or below `m`. -/
theorem find?_synopsis (hAB : AgreeUpTo A B m) (hmA : m ≤ A.headBlockNum.toNat)
    (hmB : m ≤ B.headBlockNum.toNat) {c0 : Nat} (hc0 : 0 < c0) (hc0m : c0 ≤ m) :
    ∃ c ∈ sampleNumbers A.headBlockNum.toNat A.headBlockNum.toNat c0, c ≤ m ∧
      m < nextSample A.headBlockNum.toNat c ∧
      ((sampleNumbers A.headBlockNum.toNat A.headBlockNum.toNat c0).map
          fun c => A.blockIdForNum (UInt32.ofNat c)).reverse.find?
          (fun id => decide (B.CommonPoint id)) = some (A.blockIdForNum (UInt32.ofNat c)) := by
  obtain ⟨c, hc, hcm, hnext, hfind⟩ := find?_reverse_sampleNumbers
    (fun c => decide (B.CommonPoint (A.blockIdForNum (UInt32.ofNat c)))) hmA c0 hc0m
    fun c hc => by
      obtain ⟨h1, h2 | h2⟩ := mem_sampleNumbers hc
      all_goals
        have hcA : c ≤ A.headBlockNum.toNat := by omega
        have hz : A.blockIdForNum (UInt32.ofNat c) ≠ BlockId.zero := fun hz => by
          have := A.blockIdForNum_ofNat_num c (by have := A.headBlockNum.toNat_lt; omega)
          rw [hz] at this
          simp at this
          omega
        simp only [CommonPoint, hz, false_or, onMainChain_iff hAB hmB c (by omega) hcA]
  refine ⟨c, hc, hcm, hnext, ?_⟩
  rw [← List.map_reverse, List.find?_map]
  exact congrArg (Option.map _) hfind

/-- Of `B`'s main-chain ids numbered `c, c + 1, …`, at most `m + 1 - c` lie on `A`'s main chain. -/
theorem length_filter_onMainChain_le (hAB : AgreeUpTo A B m) (hmA : m ≤ A.headBlockNum.toNat)
    (c k : Nat) (hc : 0 < c) (hk : c + k ≤ B.headBlockNum.toNat + 1) :
    (((List.range' c k).map fun i => B.blockIdForNum (UInt32.ofNat i)).filter
      fun id => decide (A.OnMainChain id)).length ≤ m + 1 - c := by
  rw [List.filter_map, List.length_map]
  have hsub : (List.range' c k).filter ((fun id => decide (A.OnMainChain id)) ∘
      fun i => B.blockIdForNum (UInt32.ofNat i)) ⊆ List.range' c (m + 1 - c) := fun i hi => by
    rw [List.mem_filter, List.mem_range'_1] at hi
    have := (onMainChain_iff hAB.symm hmA i (by omega) (by omega)).1
      (of_decide_eq_true hi.2)
    rw [List.mem_range'_1]
    omega
  simpa using (((List.nodup_range' c k).filter _).subperm hsub).length_le

theorem pos_le_of_mem_sampleNumbers {trueHigh high c0 x : Nat} (hc0 : 0 < c0) (hle : c0 ≤ high)
    (hx : x ∈ sampleNumbers trueHigh high c0) : 0 < x ∧ x ≤ high := by
  obtain ⟨h1, h2 | h2⟩ := mem_sampleNumbers hx <;> omega

/-- The main-chain ids of samples that include a positive block are neither no id nor the zero
id alone, the two synopses `get_block_ids` reads as an empty peer. -/
theorem map_sampled_ne_trivial (db : Database) {S : List Nat} {c : Nat} (hc : c ∈ S) (hc0 : 0 < c)
    (hc32 : c < 2 ^ 32) :
    ¬ (S.map (fun c => db.blockIdForNum (UInt32.ofNat c)) = [] ∨
      S.map (fun c => db.blockIdForNum (UInt32.ofNat c)) = [BlockId.zero]) := fun h => by
  have hmem : db.blockIdForNum (UInt32.ofNat c) ∈ S.map (fun c => db.blockIdForNum (UInt32.ofNat c)) :=
    List.mem_map_of_mem _ hc
  have hnum := db.blockIdForNum_ofNat_num c hc32
  rcases h with h | h <;> rw [h] at hmem
  · exact List.not_mem_nil _ hmem
  · rw [List.mem_singleton.1 hmem] at hnum
    exact absurd hnum (by simp only [BlockId.zero_num, UInt32.toNat_zero]; omega)

/-- When `B` holds no block of `A`'s main chain above its own head in its fork database, its scan
of `A`'s sampled blocks stays in range. -/
theorem scanStaysInRange_of_sampled {S : List Nat} (hS : ∀ c ∈ S, 0 < c ∧ c ≤ A.headBlockNum.toNat)
    (hfork : ∀ n, B.headBlockNum.toNat < n → n ≤ A.headBlockNum.toNat →
      B.inForkDatabase (A.blockIdForNum (UInt32.ofNat n)) = false) :
    B.ScanStaysInRange (S.map fun c => A.blockIdForNum (UInt32.ofNat c)) := fun id hid hfd => by
  obtain ⟨c, hc, rfl⟩ := List.mem_map.1 (List.mem_reverse.1 (List.takeWhile_subset _ hid))
  have hA32 := A.headBlockNum.toNat_lt
  rw [uint32_lt_iff, uint32_le_iff, A.blockIdForNum_ofNat_num c (by have := (hS c hc).2; omega)]
  by_cases hcB : c ≤ B.headBlockNum.toNat
  · exact ⟨(hS c hc).1, hcB⟩
  · rw [hfork c (by omega) (hS c hc).2] at hfd
    exact absurd hfd Bool.false_ne_true

/-- One exchange between ledgers whose main chains agree exactly on blocks `1..m`, with `m` at
least `A`'s undo horizon and `1` and at most both heads, both heads below `2 ^ 32 - 1`, and no
block of `A`'s main chain above `B`'s head in `B`'s fork database. `A`'s synopsis is computed; its
newest block `c` at or below `m` is no further below `m` than `m` is below `A`'s head; `B` answers
with its main-chain ids from `c` up, counting the rest; every block of `B` above `m` is returned
or counted; and at most `head_A - m + 1` returned ids are on `A`'s main chain. -/
theorem getBlockIds_of_getBlockchainSynopsis (hAB : AgreeUpTo A B m)
    (hLm : max A.lastNonUndoableBlockNum.toNat 1 ≤ m) (hmA : m ≤ A.headBlockNum.toNat)
    (hmB : m ≤ B.headBlockNum.toNat) (hA : A.headBlockNum.toNat < 2 ^ 32 - 1)
    (hB : B.headBlockNum.toNat < 2 ^ 32 - 1)
    (hfork : ∀ n, B.headBlockNum.toNat < n → n ≤ A.headBlockNum.toNat →
      B.inForkDatabase (A.blockIdForNum (UInt32.ofNat n)) = false)
    (limit : UInt32) (hlimit : 0 < limit) :
    ∃ syn c, A.getBlockchainSynopsis BlockId.zero 0 = .ok syn ∧
      c ∈ syn.map (fun id => id.num.toNat) ∧ c ≤ m ∧
      (∀ id ∈ syn, id.num.toNat ≤ m → id.num.toNat ≤ c) ∧
      m - c ≤ A.headBlockNum.toNat - m ∧
      B.getBlockIds syn limit =
        .ok ((B.replyFrom c limit.toNat).1, UInt32.ofNat (B.replyFrom c limit.toNat).2) ∧
      (∀ n, m < n → n ≤ B.headBlockNum.toNat →
        B.blockIdForNum (UInt32.ofNat n) ∈ (B.replyFrom c limit.toNat).1 ∨
          min B.headBlockNum.toNat (c + limit.toNat - 1) < n) ∧
      ((B.replyFrom c limit.toNat).1.filter fun id => decide (A.OnMainChain id)).length ≤
        A.headBlockNum.toNat - m + 1 := by
  have hA32 := A.headBlockNum.toNat_lt
  have hL : A.lastNonUndoableBlockNum ≤ A.headBlockNum := uint32_le_iff.2 (by omega)
  have hA0 : A.headBlockNum ≠ 0 := fun h => by rw [h] at hmA; simp at hmA; omega
  have hB0 : B.headBlockNum ≠ 0 := fun h => by rw [h] at hmB; simp at hmB; omega
  have hsyn := getBlockchainSynopsis_zero hL 0 hA0 (by simpa using hA)
  rw [UInt32.toNat_zero, Nat.add_zero] at hsyn
  obtain ⟨c, hcS, hcm, hnext, hfind⟩ := find?_synopsis hAB hmA hmB (by omega) hLm
  set S := sampleNumbers A.headBlockNum.toNat A.headBlockNum.toNat
    (max A.lastNonUndoableBlockNum.toNat 1)
  have hS : ∀ c' ∈ S, 0 < c' ∧ c' ≤ A.headBlockNum.toNat :=
    fun c' hc' => pos_le_of_mem_sampleNumbers (by omega) (by omega) hc'
  have hnum : ∀ c' ∈ S, (A.blockIdForNum (UInt32.ofNat c')).num.toNat = c' :=
    fun c' hc' => A.blockIdForNum_ofNat_num c' (by have := (hS c' hc').2; omega)
  have hreply := B.getBlockIds_of_find?_eq_some limit hlimit hB hB0
    (A.map_sampled_ne_trivial hcS (hS c hcS).1 (by have := (hS c hcS).2; omega))
    (scanStaysInRange_of_sampled hS hfork) hfind
  rw [hnum c hcS] at hreply
  have hids := B.replyFrom_fst c limit.toNat
  rw [max_eq_left (hS c hcS).1] at hids
  refine ⟨_, c, hsyn, List.mem_map.2 ⟨_, List.mem_map_of_mem _ hcS, hnum c hcS⟩, hcm, ?_, ?_, hreply,
    ?_, ?_⟩
  · intro id hid hidm
    obtain ⟨c', hc', rfl⟩ := List.mem_map.1 hid
    rw [hnum c' hc'] at hidm ⊢
    by_contra hlt
    have := nextSample_le_of_mem hcS hc' (by omega)
    omega
  · unfold nextSample at hnext
    omega
  · intro n hn hnB
    by_cases hhi : n ≤ min B.headBlockNum.toNat (c + limit.toNat - 1)
    · exact .inl (hids ▸ List.mem_map_of_mem _ (List.mem_range'_1.2 ⟨by omega, by omega⟩))
    · exact .inr (by omega)
  · rw [hids]
    have := length_filter_onMainChain_le hAB hmA c
      (min (B.headBlockNum.toNat + 1 - c) limit.toNat) (hS c hcS).1 (by omega)
    unfold nextSample at hnext
    omega

/-- A ledger for worked cases like `ofHead`, whose main-chain blocks above `m` carry digest `1`:
its chain agrees with an `ofHead` chain exactly on blocks `1..m`. -/
def forkedAbove (head low m : UInt32) (forks : List BlockId) : Database where
  headBlockNum := head
  blockIdForNum n := ⟨n, if n ≤ m then 0 else 1⟩
  blockIdForNum_num _ := rfl
  inForkDatabase id := forks.contains id
  lastNonUndoableBlockNum := low
  getBlockIdsOnFork _ := none
  isKnownTransaction _ := false

theorem agreeUpTo_forkedAbove (headA lowA headB lowB m : UInt32) (forksA forksB : List BlockId)
    (forkHistory : BlockId → Option (List BlockId)) :
    AgreeUpTo (ofHead headA lowA forksA forkHistory) (forkedAbove headB lowB m forksB) m.toNat := by
  refine ⟨fun n _ hn => ?_, fun n hn hA _ => ?_⟩
  · have : UInt32.ofNat n ≤ m :=
      uint32_le_iff.2 (by rw [UInt32.toNat_ofNat_of_lt (lt_of_le_of_lt hn m.toNat_lt)]; exact hn)
    simp [ofHead, forkedAbove, this]
  · have hn32 : n < 2 ^ 32 := lt_of_le_of_lt hA headA.toNat_lt
    have : ¬ UInt32.ofNat n ≤ m := by
      rw [uint32_le_iff, UInt32.toNat_ofNat_of_lt hn32]
      omega
    simp [ofHead, forkedAbove, this]

theorem getBlockIds_of_getBlockchainSynopsis_at_three :
    ∃ syn c, (ofHead 5 0 [] fun _ => none).getBlockchainSynopsis BlockId.zero 0 = .ok syn ∧
      c ≤ 3 ∧ (forkedAbove 6 0 3 []).getBlockIds syn 2 =
        .ok (((forkedAbove 6 0 3 []).replyFrom c 2).1,
          UInt32.ofNat ((forkedAbove 6 0 3 []).replyFrom c 2).2) := by
  obtain ⟨syn, c, hsyn, -, hc, -, -, hreply, -⟩ := getBlockIds_of_getBlockchainSynopsis
    (agreeUpTo_forkedAbove 5 0 6 0 3 [] [] fun _ => none) (by decide) (by decide) (by decide)
    (by decide) (by decide) (fun n h1 h2 => absurd (h1.trans_le h2) (by decide)) 2 (by decide)
  exact ⟨syn, c, hsyn, hc, hreply⟩

/-- The exchange needs its three bounds. With `A`'s block 3 in the fork database of a `B` whose head
is block 2, `B`'s scan looks block 3 up and fails. With `A`'s head and undo horizon at
`2 ^ 32 - 1`, `A`'s synopsis cursor wraps to block `0` and fails. With `B`'s head at `2 ^ 32 - 1`,
`B`'s loop counter wraps and the reply runs on to block `1` and miscounts the rest, where the
reply from block `2 ^ 32 - 2` would stop at `B`'s head. -/
theorem getBlockIds_of_getBlockchainSynopsis_past_bounds :
    AgreeUpTo (ofHead 3 0 [] fun _ => none) (forkedAbove 2 0 1 [⟨3, 0⟩]) (1 : UInt32).toNat ∧
      (ofHead 3 0 [] fun _ => none).getBlockchainSynopsis BlockId.zero 0 =
        .ok [⟨1, 0⟩, ⟨3, 0⟩] ∧
      (forkedAbove 2 0 1 [⟨3, 0⟩]).getBlockIds [⟨1, 0⟩, ⟨3, 0⟩] 1 =
        .error (.blockNumberNotFound 3) ∧
    AgreeUpTo (ofHead 4294967295 4294967295 [] fun _ => none)
        (forkedAbove 4294967295 0 4294967295 []) (4294967295 : UInt32).toNat ∧
      (ofHead 4294967295 4294967295 [] fun _ => none).getBlockchainSynopsis BlockId.zero 0 =
        .error (.blockNumberNotFound 0) ∧
    AgreeUpTo (ofHead 4294967294 4294967294 [] fun _ => none)
        (forkedAbove 4294967295 0 4294967294 []) (4294967294 : UInt32).toNat ∧
      (ofHead 4294967294 4294967294 [] fun _ => none).getBlockchainSynopsis BlockId.zero 0 =
        .ok [⟨4294967294, 0⟩] ∧
      (forkedAbove 4294967295 0 4294967294 []).getBlockIds [⟨4294967294, 0⟩] 3 =
        .ok ([⟨4294967294, 0⟩, ⟨4294967295, 1⟩, ⟨1, 0⟩], 4294967294) ∧
      (forkedAbove 4294967295 0 4294967294 []).replyFrom 4294967294 3 =
        ([⟨4294967294, 0⟩, ⟨4294967295, 1⟩], 0) :=
  ⟨agreeUpTo_forkedAbove _ _ _ _ _ _ _ _, rfl, rfl, agreeUpTo_forkedAbove _ _ _ _ _ _ _ _, rfl,
    agreeUpTo_forkedAbove _ _ _ _ _ _ _ _, rfl, rfl, rfl⟩

end Exchange

end Database

end PeerplaysContractNode
