import Mathlib.Data.List.Chain
import PeerplaysContractNode.Sync.BlockIds

/-!
# `get_blockchain_synopsis`: the sampled summary of our chain

`P2pHandler::NodeInterface::get_blockchain_synopsis` first places the reference point: on the
main chain (`blockIsInOurChain`), on a fork (`get_block_ids_on_fork`), or at the head when the
reference point is the zero id. That gives `low`, `high` and `non_fork_high`, kept here in a
`SynopsisRange`. A `do`/`while` loop then pushes the id of block `low` and advances `low` by
`(true_high - low + 2) / 2`, where `true_high = high + number_of_blocks_after_reference_point`.

Every one of these numbers is a `uint32_t`, and so is every intermediate result; the loop is
`synopsisLoop` over `UInt32`. Its cursor has `2 ^ 32` values and the loop's control flow
depends on the cursor alone, so a run that has not ended after `2 ^ 32` iterations never ends;
that is `loopDoesNotTerminate`. Read over unbounded naturals the cursor visits
`sampleNumbers`; `synopsisLoop_eq_overNat` says when the two readings agree, and
`synopsisLoop_eq_overNat_of_ok` that they agree whenever the `uint32_t` loop returns.
-/

namespace PeerplaysContractNode

/-- One step of the synopsis cursor over unbounded naturals: `c + ⌊(t - c + 2) / 2⌋`. -/
def nextSample (trueHigh c : Nat) : Nat := c + (trueHigh - c + 2) / 2

theorem lt_nextSample (trueHigh c : Nat) : c < nextSample trueHigh c := by
  unfold nextSample
  omega

/-- The block numbers the synopsis samples over unbounded naturals: `c`, then `nextSample` of
it, and so on while the number stays at most `high`. The first number is always taken, as in
the source's `do`/`while`. -/
def sampleNumbers (trueHigh high c : Nat) : List Nat :=
  if nextSample trueHigh c ≤ high then c :: sampleNumbers trueHigh high (nextSample trueHigh c)
  else [c]
termination_by high + 1 - c
decreasing_by have := lt_nextSample trueHigh c; omega

theorem sampleNumbers_of_le {trueHigh high c : Nat} (h : nextSample trueHigh c ≤ high) :
    sampleNumbers trueHigh high c = c :: sampleNumbers trueHigh high (nextSample trueHigh c) := by
  rw [sampleNumbers, if_pos h]

theorem sampleNumbers_of_lt {trueHigh high c : Nat} (h : high < nextSample trueHigh c) :
    sampleNumbers trueHigh high c = [c] := by
  rw [sampleNumbers, if_neg (by omega)]

/-- The spec's worked case, read with the source's rounding: from block 80 to a head at 100
the steps are 11, 5, 3 and 1. -/
example : sampleNumbers 100 100 80 = [80, 91, 96, 99, 100] := by
  simp [sampleNumbers_of_le, sampleNumbers_of_lt, nextSample]

theorem sampleNumbers_head (trueHigh high c : Nat) :
    (sampleNumbers trueHigh high c).head? = some c := by
  rw [sampleNumbers]
  split <;> rfl

/-- Every sampled number lies between the first one and `high`, or is the first one. -/
theorem mem_sampleNumbers {trueHigh high c x : Nat} (hx : x ∈ sampleNumbers trueHigh high c) :
    c ≤ x ∧ (x = c ∨ x ≤ high) := by
  induction c using sampleNumbers.induct trueHigh high with
  | case1 c h ih =>
    rw [sampleNumbers_of_le h, List.mem_cons] at hx
    rcases hx with rfl | hx
    · exact ⟨le_rfl, .inl rfl⟩
    · have := lt_nextSample trueHigh c
      obtain ⟨h1, h2 | h2⟩ := ih hx <;> omega
  | case2 c h =>
    rw [sampleNumbers_of_lt (by omega), List.mem_singleton] at hx
    exact ⟨hx.ge, .inl hx⟩

theorem sampleNumbers_chain (trueHigh high c : Nat) :
    (sampleNumbers trueHigh high c).Chain' (· < ·) := by
  induction c using sampleNumbers.induct trueHigh high with
  | case1 c h ih =>
    rw [sampleNumbers_of_le h, List.chain'_cons', sampleNumbers_head]
    exact ⟨fun _ hy => (Option.mem_some_iff.1 hy) ▸ lt_nextSample trueHigh c, ih⟩
  | case2 c h =>
    rw [sampleNumbers_of_lt (by omega)]
    exact List.chain'_singleton c

theorem length_sampleNumbers_le {trueHigh high c : Nat} (hc : c ≤ high) :
    (sampleNumbers trueHigh high c).length ≤ high + 1 - c := by
  induction c using sampleNumbers.induct trueHigh high with
  | case1 c h ih =>
    rw [sampleNumbers_of_le h, List.length_cons]
    have := ih h
    have := lt_nextSample trueHigh c
    omega
  | case2 c h =>
    rw [sampleNumbers_of_lt (by omega)]
    simp
    omega

/-- Between two samples lies at least one full step: a sample above `c` is at least
`nextSample c`. -/
theorem nextSample_le_of_mem {trueHigh high c0 c c' : Nat}
    (hc : c ∈ sampleNumbers trueHigh high c0) (hc' : c' ∈ sampleNumbers trueHigh high c0)
    (hlt : c < c') : nextSample trueHigh c ≤ c' := by
  induction c0 using sampleNumbers.induct trueHigh high with
  | case1 c0 h ih =>
    rw [sampleNumbers_of_le h, List.mem_cons] at hc hc'
    rcases hc with rfl | hc <;> rcases hc' with rfl | hc'
    · omega
    · exact (mem_sampleNumbers hc').1
    · have := (mem_sampleNumbers hc).1
      have := lt_nextSample trueHigh c'
      omega
    · exact ih hc hc'
  | case2 c0 h =>
    rw [sampleNumbers_of_lt (by omega), List.mem_singleton] at hc hc'
    omega

namespace Database

variable (db : Database)

/-- The id the loop pushes for block `low`: from the main chain up to `non_fork_high_block_num`,
from `fork_history[low - non_fork_high_block_num - 1]` above it. -/
def synopsisBlockId (forkHistory : List BlockId) (nonForkHighBlockNum low : UInt32) :
    Except SyncError BlockId :=
  if low ≤ nonForkHighBlockNum then db.getBlockIdForNum low
  else match forkHistory[(low - nonForkHighBlockNum - 1).toNat]? with
    | some id => .ok id
    | none => .error .forkHistoryIndexOutOfRange

/-- The `do { ... } while (low_block_num <= high_block_num)` loop, in `uint32_t` arithmetic, with
at most `fuel` iterations. -/
def synopsisLoop (forkHistory : List BlockId) (nonForkHighBlockNum highBlockNum trueHighBlockNum :
    UInt32) : Nat → UInt32 → Except SyncError (List BlockId)
  | 0, _ => .error .loopDoesNotTerminate
  | fuel + 1, lowBlockNum =>
    db.synopsisBlockId forkHistory nonForkHighBlockNum lowBlockNum >>= fun id =>
      let next := lowBlockNum + (trueHighBlockNum - lowBlockNum + 2) / 2
      if next ≤ highBlockNum then
        synopsisLoop forkHistory nonForkHighBlockNum highBlockNum trueHighBlockNum fuel next >>=
          fun rest => .ok (id :: rest)
      else .ok [id]

/-- The numbers `get_blockchain_synopsis` has fixed when its loop starts. -/
structure SynopsisRange where
  lowBlockNum : UInt32
  highBlockNum : UInt32
  nonForkHighBlockNum : UInt32
  forkHistory : List BlockId
deriving DecidableEq, Repr

/-- The cursor the loop starts from: `if (low_block_num == 0) low_block_num = 1;`. -/
def SynopsisRange.loopStart (r : SynopsisRange) : UInt32 :=
  if r.lowBlockNum = 0 then 1 else r.lowBlockNum

theorem SynopsisRange.loopStart_toNat (r : SynopsisRange) :
    r.loopStart.toNat = max r.lowBlockNum.toNat 1 := by
  simp only [SynopsisRange.loopStart, uint32_eq_iff, UInt32.toNat_zero]
  split
  · simp_all
  · omega

/-- The fork branch: `get_block_ids_on_fork` gives the ids from the reference point back to the
common ancestor; the ancestor is popped and the rest reversed, oldest first. The `assert`s are
checks here. -/
def forkSynopsisRange (referencePoint : BlockId) : Except SyncError (Option SynopsisRange) :=
  match db.getBlockIdsOnFork referencePoint with
  | none => .error (.forkHistoryUnavailable referencePoint)
  | some forkHistory =>
    if forkHistory.length < 2 ∨ forkHistory.head? ≠ some referencePoint then .error .assertionFailed
    else
      let lastNonForkBlock := forkHistory.getLast?.getD BlockId.zero
      let forkHistory := forkHistory.dropLast.reverse
      let nonForkHighBlockNum := if lastNonForkBlock = BlockId.zero then 0 else lastNonForkBlock.num
      let highBlockNum := nonForkHighBlockNum + UInt32.ofNat forkHistory.length
      if forkHistory.getLast?.map (·.num) ≠ some highBlockNum then .error .assertionFailed
      else if nonForkHighBlockNum < db.lastNonUndoableBlockNum then .error .blockOlderThanUndoHistory
      else .ok (some ⟨db.lastNonUndoableBlockNum, highBlockNum, nonForkHighBlockNum, forkHistory⟩)

/-- Everything `get_blockchain_synopsis` does before its loop; `none` is its early return of an
empty synopsis when there is no reference point and no block. -/
def synopsisRange (referencePoint : BlockId) : Except SyncError (Option SynopsisRange) :=
  if referencePoint ≠ BlockId.zero then
    db.blockIsInOurChain referencePoint >>= fun inOurChain =>
      if inOurChain then
        if referencePoint.num = 0 then .error .assertionFailed
        else .ok (some ⟨if referencePoint.num < db.lastNonUndoableBlockNum then referencePoint.num
            else db.lastNonUndoableBlockNum, referencePoint.num, referencePoint.num, []⟩)
      else db.forkSynopsisRange referencePoint
  else if db.headBlockNum = 0 then .ok none
  else .ok (some ⟨db.lastNonUndoableBlockNum, db.headBlockNum, db.headBlockNum, []⟩)

/-- `get_blockchain_synopsis(reference_point, number_of_blocks_after_reference_point)`. -/
def getBlockchainSynopsis (referencePoint : BlockId) (numberOfBlocksAfterReferencePoint : UInt32) :
    Except SyncError (List BlockId) :=
  db.synopsisRange referencePoint >>= fun range =>
    match range with
    | none => .ok []
    | some r =>
      db.synopsisLoop r.forkHistory r.nonForkHighBlockNum r.highBlockNum
        (r.highBlockNum + numberOfBlocksAfterReferencePoint) (2 ^ 32) r.loopStart

/-- The synopsis loop read over unbounded naturals: the ids of the cursor values the loop visits
when nothing wraps, fetched in order and stopping at the first failure. -/
def synopsisLoopOverNat (forkHistory : List BlockId) (nonForkHighBlockNum : UInt32)
    (highBlockNum trueHighBlockNum lowBlockNum : Nat) : Except SyncError (List BlockId) :=
  (sampleNumbers trueHighBlockNum highBlockNum lowBlockNum).mapM fun c =>
    db.synopsisBlockId forkHistory nonForkHighBlockNum (UInt32.ofNat c)

/-! ## The loop against its reading over naturals -/

/-- One `uint32_t` step of a cursor at most `true_high`, in naturals: `true_high - low` does not
wrap, and `+ 2` and the final sum are taken modulo `2 ^ 32`. -/
theorem synopsisStep_toNat_mod {trueHigh low : UInt32} (hle : low.toNat ≤ trueHigh.toNat) :
    (low + (trueHigh - low + 2) / 2).toNat =
      (low.toNat + (trueHigh.toNat - low.toNat + 2) % 2 ^ 32 / 2) % 2 ^ 32 := by
  rw [UInt32.toNat_add, UInt32.toNat_div, UInt32.toNat_add, UInt32.toNat_sub_of_le _ _ hle]
  rfl

theorem synopsisStep_toNat_of_lt {trueHigh low : UInt32} (hle : low.toNat ≤ trueHigh.toNat)
    (htwo : trueHigh.toNat - low.toNat + 2 < 2 ^ 32)
    (hsum : nextSample trueHigh.toNat low.toNat < 2 ^ 32) :
    (low + (trueHigh - low + 2) / 2).toNat = nextSample trueHigh.toNat low.toNat := by
  rw [synopsisStep_toNat_mod hle, Nat.mod_eq_of_lt htwo]
  exact Nat.mod_eq_of_lt hsum

/-- While `true_high` stays two below `2 ^ 32` and the cursor is a positive number at most
`true_high`, one `uint32_t` step of the cursor wraps nowhere and is `nextSample`. -/
theorem synopsisStep_toNat {trueHigh low : UInt32} (ht : trueHigh.toNat ≤ 2 ^ 32 - 2)
    (hlow : 0 < low.toNat) (hle : low.toNat ≤ trueHigh.toNat) :
    (low + (trueHigh - low + 2) / 2).toNat = nextSample trueHigh.toNat low.toNat :=
  synopsisStep_toNat_of_lt hle (by omega) (by unfold nextSample; omega)

variable {db}

/-- Below `true_high = 2 ^ 32 - 1`, and from a positive cursor at most `high`, the `uint32_t` loop
is its reading over naturals, given one iteration of fuel per block from `low` to `high`. -/
theorem synopsisLoop_eq_overNat (forkHistory : List BlockId) (nonForkHighBlockNum highBlockNum
    trueHighBlockNum : UInt32) (ht : trueHighBlockNum.toNat ≤ 2 ^ 32 - 2)
    (hht : highBlockNum.toNat ≤ trueHighBlockNum.toNat) :
    ∀ (fuel : Nat) (low : UInt32), 0 < low.toNat → low.toNat ≤ highBlockNum.toNat →
      highBlockNum.toNat + 1 - low.toNat ≤ fuel →
      db.synopsisLoop forkHistory nonForkHighBlockNum highBlockNum trueHighBlockNum fuel low =
        db.synopsisLoopOverNat forkHistory nonForkHighBlockNum highBlockNum.toNat
          trueHighBlockNum.toNat low.toNat
  | 0, _, _, hle, hf => absurd hf (by omega)
  | fuel + 1, low, hlow, hle, hf => by
    have hstep := synopsisStep_toNat ht hlow (hle.trans hht)
    unfold synopsisLoopOverNat
    by_cases hnext : nextSample trueHighBlockNum.toNat low.toNat ≤ highBlockNum.toNat
    · have := lt_nextSample trueHighBlockNum.toNat low.toNat
      rw [sampleNumbers_of_le hnext, List.mapM_cons, synopsisLoop, uint32_ofNat_toNat]
      simp only [if_pos (uint32_le_iff.2 (hstep ▸ hnext))]
      rw [synopsisLoop_eq_overNat forkHistory nonForkHighBlockNum highBlockNum trueHighBlockNum ht hht
        fuel _ (by omega) (by omega) (by omega), hstep]
      rfl
    · rw [sampleNumbers_of_lt (by omega), List.mapM_cons, List.mapM_nil, synopsisLoop,
        uint32_ofNat_toNat]
      simp only [if_neg (show ¬ _ ≤ highBlockNum by rw [uint32_le_iff, hstep]; exact hnext)]
      rfl

theorem synopsisLoop_of_fixed {forkHistory : List BlockId} {nonForkHighBlockNum highBlockNum
    trueHighBlockNum low : UInt32} {id : BlockId}
    (hfix : low + (trueHighBlockNum - low + 2) / 2 = low) (hle : low ≤ highBlockNum)
    (hid : db.synopsisBlockId forkHistory nonForkHighBlockNum low = .ok id) :
    ∀ fuel, db.synopsisLoop forkHistory nonForkHighBlockNum highBlockNum trueHighBlockNum fuel low =
      .error .loopDoesNotTerminate
  | 0 => rfl
  | fuel + 1 => by
    rw [synopsisLoop, hid, except_ok_bind]
    simp only [hfix, if_pos hle]
    rw [synopsisLoop_of_fixed hfix hle hid fuel]
    rfl

/-- The fork-history index `low - non_fork_high - 1` of a block above `non_fork_high` does not
wrap. -/
theorem forkIndex_toNat {nonForkHighBlockNum low : UInt32}
    (h : nonForkHighBlockNum.toNat < low.toNat) :
    (low - nonForkHighBlockNum - 1).toNat = low.toNat - nonForkHighBlockNum.toNat - 1 := by
  have hsub : (low - nonForkHighBlockNum).toNat = low.toNat - nonForkHighBlockNum.toNat :=
    UInt32.toNat_sub_of_le _ _ (uint32_le_iff.2 h.le)
  rw [UInt32.toNat_sub_of_le _ _ (uint32_le_iff.2 (show 1 ≤ _ by rw [hsub]; omega)), hsub]
  rfl

/-- A block the loop reads lies at most `|fork_history|` above `non_fork_high`. -/
theorem synopsisBlockId_le_of_ok {forkHistory : List BlockId} {nonForkHighBlockNum low : UInt32}
    {id : BlockId} (h : db.synopsisBlockId forkHistory nonForkHighBlockNum low = .ok id) :
    low.toNat ≤ nonForkHighBlockNum.toNat + forkHistory.length := by
  unfold synopsisBlockId at h
  split_ifs at h with hle
  · exact (uint32_le_iff.1 hle).trans (Nat.le_add_right _ _)
  · have hlt : nonForkHighBlockNum.toNat < low.toNat := uint32_lt_iff.1 (UInt32.not_le.1 hle)
    split at h
    · obtain ⟨hi, -⟩ := List.getElem?_eq_some_iff.1 ‹_›
      rw [forkIndex_toNat hlt] at hi
      omega
    · cases h

theorem synopsisBlockId_eq_ok_of_synopsisLoop {forkHistory : List BlockId}
    {nonForkHighBlockNum highBlockNum trueHighBlockNum : UInt32} :
    ∀ {fuel : Nat} {low : UInt32} {ids : List BlockId},
      db.synopsisLoop forkHistory nonForkHighBlockNum highBlockNum trueHighBlockNum fuel low =
        .ok ids →
      ∃ id, db.synopsisBlockId forkHistory nonForkHighBlockNum low = .ok id
  | 0, _, _, h => by cases h
  | _ + 1, _, _, h => by
    rw [synopsisLoop, except_bind_eq_ok] at h
    obtain ⟨id, hid, -⟩ := h
    exact ⟨id, hid⟩

theorem synopsisLoop_zero_ne_ok {forkHistory : List BlockId}
    {nonForkHighBlockNum highBlockNum trueHighBlockNum : UInt32} (fuel : Nat)
    (ids : List BlockId) :
    db.synopsisLoop forkHistory nonForkHighBlockNum highBlockNum trueHighBlockNum fuel 0 ≠
      .ok ids :=
  fun h => by
    obtain ⟨id, hid⟩ := synopsisBlockId_eq_ok_of_synopsisLoop h
    rw [synopsisBlockId, if_pos (uint32_le_iff.2 (Nat.zero_le _)), getBlockIdForNum_eq_ok] at hid
    exact absurd hid.1 (by decide)

/-- A loop that returns, from a cursor at most `high ≤ true_high`, took a first step that wraps
nowhere. The two steps that wrap, both at `true_high = 2 ^ 32 - 1`, never return: from block `1`
the cursor stays where it is, and from block `2 ^ 32 - 1` it goes to block `0`. -/
theorem synopsisStep_toNat_of_ok {forkHistory : List BlockId}
    {nonForkHighBlockNum highBlockNum trueHighBlockNum low : UInt32} {fuel : Nat}
    {ids : List BlockId} (hht : highBlockNum.toNat ≤ trueHighBlockNum.toNat)
    (hlow : 0 < low.toNat) (hle : low.toNat ≤ highBlockNum.toNat)
    (h : db.synopsisLoop forkHistory nonForkHighBlockNum highBlockNum trueHighBlockNum (fuel + 1)
      low = .ok ids) :
    (low + (trueHighBlockNum - low + 2) / 2).toNat =
      nextSample trueHighBlockNum.toNat low.toNat := by
  have hT := trueHighBlockNum.toNat_lt
  obtain ⟨id, hid⟩ := synopsisBlockId_eq_ok_of_synopsisLoop h
  rw [synopsisLoop, hid, except_ok_bind] at h
  by_cases hfix : trueHighBlockNum.toNat - low.toNat + 2 = 2 ^ 32
  · have hnext : low + (trueHighBlockNum - low + 2) / 2 = low := UInt32.ext (by
      rw [synopsisStep_toNat_mod (hle.trans hht), hfix, Nat.mod_self, Nat.zero_div, Nat.add_zero]
      exact Nat.mod_eq_of_lt low.toNat_lt)
    simp only [hnext, if_pos (uint32_le_iff.2 hle),
      synopsisLoop_of_fixed hnext (uint32_le_iff.2 hle) hid, except_error_bind] at h
    cases h
  have htwo : trueHighBlockNum.toNat - low.toNat + 2 < 2 ^ 32 := by omega
  by_cases hwrap : nextSample trueHighBlockNum.toNat low.toNat = 2 ^ 32
  · have hnext : low + (trueHighBlockNum - low + 2) / 2 = 0 := UInt32.ext (by
      rw [synopsisStep_toNat_mod (hle.trans hht), Nat.mod_eq_of_lt htwo]
      show nextSample _ _ % 2 ^ 32 = 0
      rw [hwrap, Nat.mod_self])
    simp only [hnext, except_bind_eq_ok,
      if_pos (show (0 : UInt32) ≤ highBlockNum from uint32_le_iff.2 (Nat.zero_le _))] at h
    obtain ⟨rest, hrest, -⟩ := h
    exact absurd hrest (synopsisLoop_zero_ne_ok fuel rest)
  exact synopsisStep_toNat_of_lt (hle.trans hht) htwo (by unfold nextSample at hwrap ⊢; omega)

/-- When the `uint32_t` loop returns, from a positive cursor at most `high ≤ true_high`, it has
returned its reading over naturals, for every `true_high`. -/
theorem synopsisLoop_eq_overNat_of_ok (forkHistory : List BlockId)
    (nonForkHighBlockNum highBlockNum trueHighBlockNum : UInt32)
    (hht : highBlockNum.toNat ≤ trueHighBlockNum.toNat) :
    ∀ (fuel : Nat) (low : UInt32) (ids : List BlockId), 0 < low.toNat →
      low.toNat ≤ highBlockNum.toNat →
      db.synopsisLoop forkHistory nonForkHighBlockNum highBlockNum trueHighBlockNum fuel low =
        .ok ids →
      db.synopsisLoopOverNat forkHistory nonForkHighBlockNum highBlockNum.toNat
        trueHighBlockNum.toNat low.toNat = .ok ids
  | 0, _, _, _, _, h => by cases h
  | fuel + 1, low, ids, hlow, hle, h => by
    have hnat := synopsisStep_toNat_of_ok hht hlow hle h
    obtain ⟨id, hid⟩ := synopsisBlockId_eq_ok_of_synopsisLoop h
    rw [synopsisLoop, hid, except_ok_bind] at h
    unfold synopsisLoopOverNat
    by_cases hnext : nextSample trueHighBlockNum.toNat low.toNat ≤ highBlockNum.toNat
    · have := lt_nextSample trueHighBlockNum.toNat low.toNat
      simp only [if_pos (uint32_le_iff.2 (hnat ▸ hnext)), except_bind_eq_ok] at h
      obtain ⟨rest, hrest, h⟩ := h
      have ih := synopsisLoop_eq_overNat_of_ok forkHistory nonForkHighBlockNum highBlockNum
        trueHighBlockNum hht fuel _ rest (by omega) (by omega) hrest
      rw [hnat, synopsisLoopOverNat] at ih
      rw [sampleNumbers_of_le hnext, List.mapM_cons, uint32_ofNat_toNat, hid, ih]
      exact h
    · simp only [if_neg (show ¬ _ ≤ highBlockNum by rw [uint32_le_iff, hnat]; exact hnext)] at h
      rw [sampleNumbers_of_lt (by omega), List.mapM_cons, List.mapM_nil, uint32_ofNat_toNat, hid]
      exact h

/-! ## Placing the reference point -/

theorem blockIsInOurChain_eq_ok_true {id : BlockId} :
    db.blockIsInOurChain id = .ok true ↔ db.OnMainChain id := by
  by_cases h : 0 < id.num ∧ id.num ≤ db.headBlockNum
  · rw [blockIsInOurChain, getBlockIdForNum_of_le h.1 h.2, except_ok_bind]
    show Except.ok (id == db.blockIdForNum id.num) = Except.ok true ↔ _
    simp only [Except.ok.injEq, beq_iff_eq, OnMainChain, h, true_and]
    exact ⟨Eq.symm, Eq.symm⟩
  · simp only [blockIsInOurChain, getBlockIdForNum, if_neg h, except_error_bind]
    exact ⟨fun h' => Except.noConfusion h', fun h' => absurd ⟨h'.1, h'.2.1⟩ h⟩

/-- The placements `synopsisRange` can end in: at the head for the zero id, at a main-chain
reference point, or through `forkSynopsisRange` off the main chain. -/
theorem synopsisRange_eq_some {R : BlockId} {r : SynopsisRange}
    (h : db.synopsisRange R = .ok (some r)) :
    (R = BlockId.zero ∧ db.headBlockNum ≠ 0 ∧
        r = ⟨db.lastNonUndoableBlockNum, db.headBlockNum, db.headBlockNum, []⟩) ∨
      (db.OnMainChain R ∧ r = ⟨if R.num < db.lastNonUndoableBlockNum then R.num
        else db.lastNonUndoableBlockNum, R.num, R.num, []⟩) ∨
      (R ≠ BlockId.zero ∧ ¬ db.OnMainChain R ∧ db.forkSynopsisRange R = .ok (some r)) := by
  unfold synopsisRange at h
  by_cases hz : R = BlockId.zero
  · subst hz
    by_cases h0 : db.headBlockNum = 0 <;> simp_all
  rw [if_pos hz] at h
  cases hb : db.blockIsInOurChain R with
  | error e => simp [hb] at h
  | ok b =>
    cases b with
    | true =>
      have hm := blockIsInOurChain_eq_ok_true.1 hb
      have h0 : R.num ≠ 0 := UInt32.ne_of_lt hm.1 |>.symm
      simp only [hb, except_ok_bind, if_true, if_neg h0, Except.ok.injEq, Option.some.injEq] at h
      exact .inr (.inl ⟨hm, h.symm⟩)
    | false =>
      have hm : ¬ db.OnMainChain R := fun hm => by
        rw [blockIsInOurChain_eq_ok_true.2 hm] at hb; cases hb
      simp only [hb, except_ok_bind, Bool.false_eq_true, if_false] at h
      exact .inr (.inr ⟨hz, hm, h⟩)

/-- What a successful fork placement has checked: the `assert`s held and the common ancestor is
not below the undo horizon. -/
theorem forkSynopsisRange_eq_some {R : BlockId} {r : SynopsisRange}
    (h : db.forkSynopsisRange R = .ok (some r)) :
    ∃ hist, db.getBlockIdsOnFork R = some hist ∧ 2 ≤ hist.length ∧
      r.forkHistory = hist.dropLast.reverse ∧
      r.highBlockNum = r.nonForkHighBlockNum + UInt32.ofNat r.forkHistory.length ∧
      db.lastNonUndoableBlockNum ≤ r.nonForkHighBlockNum ∧
      r.lowBlockNum = db.lastNonUndoableBlockNum := by
  unfold forkSynopsisRange at h
  split at h
  · cases h
  rename_i hist hhist
  refine ⟨hist, hhist, ?_⟩
  have hnf : ∀ b : BlockId, (if b = BlockId.zero then (0 : UInt32) else b.num) = b.num :=
    fun b => ite_eq_right_iff.2 fun hb => by subst hb; rfl
  simp only [hnf] at h
  split_ifs at h with h1 h2 h3
  simp only [Except.ok.injEq, Option.some.injEq] at h
  subst h
  exact ⟨by omega, rfl, rfl, UInt32.not_lt.1 h3, rfl⟩

/-- With a fork segment, if any, that does not run past block `2 ^ 32 - 1`, every placement has
`high = non_fork_high + |fork_history|`. -/
theorem highBlockNum_toNat_of_placed {R : BlockId} {r : SynopsisRange}
    (hr : db.synopsisRange R = .ok (some r))
    (hfork : r.nonForkHighBlockNum.toNat + r.forkHistory.length < 2 ^ 32) :
    r.highBlockNum.toNat = r.nonForkHighBlockNum.toNat + r.forkHistory.length := by
  rcases synopsisRange_eq_some hr with ⟨-, -, rfl⟩ | ⟨-, rfl⟩ | ⟨-, -, hf⟩
  · rfl
  · rfl
  · obtain ⟨hist, -, -, -, hhigh, -, -⟩ := forkSynopsisRange_eq_some hf
    rw [hhigh, UInt32.toNat_add, UInt32.toNat_ofNat_of_lt (by simp only [UInt32.size]; omega)]
    exact Nat.mod_eq_of_lt hfork

/-- Once the reference point is placed, with the undo horizon at most the head and a fork
segment (if any) that does not run past block `2 ^ 32 - 1`, the loop starts at a positive block
at most `high`. -/
theorem loopStart_le_highBlockNum (hL : db.lastNonUndoableBlockNum ≤ db.headBlockNum)
    {R : BlockId} {r : SynopsisRange} (hr : db.synopsisRange R = .ok (some r))
    (hfork : r.nonForkHighBlockNum.toNat + r.forkHistory.length < 2 ^ 32) :
    0 < r.loopStart.toNat ∧ r.loopStart.toNat ≤ r.highBlockNum.toNat := by
  rw [SynopsisRange.loopStart_toNat]
  refine ⟨Nat.lt_of_lt_of_le Nat.one_pos (le_max_right _ _), ?_⟩
  rw [uint32_le_iff] at hL
  rcases synopsisRange_eq_some hr with ⟨-, h0, rfl⟩ | ⟨hm, rfl⟩ | ⟨-, -, hf⟩
  · have : db.headBlockNum.toNat ≠ 0 := fun h => h0 (UInt32.ext h)
    exact max_le hL (Nat.pos_of_ne_zero this)
  · have h0 : 0 < R.num.toNat := hm.1
    dsimp only
    split
    · exact max_le le_rfl h0
    · exact max_le (Nat.not_lt.1 ‹_›) h0
  · obtain ⟨hist, -, hlen, hfh, -, hle, hlow⟩ := forkSynopsisRange_eq_some hf
    have hlenF : r.forkHistory.length = hist.length - 1 := by simp [hfh]
    rw [hlow, highBlockNum_toNat_of_placed hr hfork]
    exact max_le ((uint32_le_iff.1 hle).trans (Nat.le_add_right _ _)) (by omega)

/-- When `get_blockchain_synopsis` returns, on any ledger and with a fork segment, if any, that does
not run past block `2 ^ 32 - 1`, its loop started at a positive block at most `high`: the first
block it read lies on the main chain or in the fork history. -/
theorem loopStart_le_highBlockNum_of_ok {R : BlockId} {r : SynopsisRange}
    (hr : db.synopsisRange R = .ok (some r))
    (hfork : r.nonForkHighBlockNum.toNat + r.forkHistory.length < 2 ^ 32) {e : UInt32}
    {ids : List BlockId} (hids : db.getBlockchainSynopsis R e = .ok ids) :
    0 < r.loopStart.toNat ∧ r.loopStart.toNat ≤ r.highBlockNum.toNat := by
  have hloop : db.synopsisLoop r.forkHistory r.nonForkHighBlockNum r.highBlockNum
      (r.highBlockNum + e) (2 ^ 32) r.loopStart = .ok ids := by
    rw [← hids, getBlockchainSynopsis, hr, except_ok_bind]
  obtain ⟨id, hid⟩ := synopsisBlockId_eq_ok_of_synopsisLoop hloop
  have hread := synopsisBlockId_le_of_ok hid
  rw [highBlockNum_toNat_of_placed hr hfork, SynopsisRange.loopStart_toNat] at *
  omega

/-- Below `true_high = 2 ^ 32 - 1`, and for a placed reference point whose fork segment does not
run past block `2 ^ 32 - 1`, no addition or subtraction of the synopsis loop wraps: `true_high`
is `high + extra`, every step of the cursor is its step over naturals and moves it up, and the
`uint32_t` loop returns what the same loop over unbounded naturals returns. -/
theorem getBlockchainSynopsis_loop_no_wrap (hL : db.lastNonUndoableBlockNum ≤ db.headBlockNum)
    {R : BlockId} {r : SynopsisRange} (hr : db.synopsisRange R = .ok (some r))
    (hfork : r.nonForkHighBlockNum.toNat + r.forkHistory.length < 2 ^ 32)
    (e : UInt32) (he : r.highBlockNum.toNat + e.toNat ≤ 2 ^ 32 - 2) :
    (r.highBlockNum + e).toNat = r.highBlockNum.toNat + e.toNat ∧
      db.synopsisLoop r.forkHistory r.nonForkHighBlockNum r.highBlockNum (r.highBlockNum + e)
          (2 ^ 32) r.loopStart =
        db.synopsisLoopOverNat r.forkHistory r.nonForkHighBlockNum r.highBlockNum.toNat
          (r.highBlockNum.toNat + e.toNat) r.loopStart.toNat ∧
      ∀ c ∈ sampleNumbers (r.highBlockNum.toNat + e.toNat) r.highBlockNum.toNat r.loopStart.toNat,
        (UInt32.ofNat c + (r.highBlockNum + e - UInt32.ofNat c + 2) / 2).toNat =
          nextSample (r.highBlockNum.toNat + e.toNat) c ∧
        c < nextSample (r.highBlockNum.toNat + e.toNat) c := by
  obtain ⟨hpos, hle⟩ := loopStart_le_highBlockNum hL hr hfork
  have htrue : (r.highBlockNum + e).toNat = r.highBlockNum.toNat + e.toNat := by
    rw [UInt32.toNat_add]
    exact Nat.mod_eq_of_lt (by simp only [UInt32.size]; omega)
  refine ⟨htrue, ?_, fun c hc => ⟨?_, lt_nextSample _ c⟩⟩
  · rw [synopsisLoop_eq_overNat _ _ _ _ (by omega) (by omega) _ _ hpos hle
      (by have := r.highBlockNum.toNat_lt; omega), htrue]
  · obtain ⟨h1, h2⟩ := mem_sampleNumbers hc
    have hc32 : c < 2 ^ 32 := by omega
    have hcN : (UInt32.ofNat c).toNat = c := UInt32.toNat_ofNat_of_lt hc32
    rw [synopsisStep_toNat (by omega) (by omega) (by omega), hcN, htrue]

theorem getBlockchainSynopsis_loop_no_wrap_from_eighty :
    (Database.ofHead 100 80 [] fun _ => none).synopsisRange BlockId.zero =
        .ok (some ⟨80, 100, 100, []⟩) ∧
      (Database.ofHead 100 80 [] fun _ => none).synopsisLoop [] 100 100 (100 + 0) (2 ^ 32) 80 =
        (Database.ofHead 100 80 [] fun _ => none).synopsisLoopOverNat [] 100 100 (100 + 0) 80 :=
  have hr : (Database.ofHead 100 80 [] fun _ => none).synopsisRange BlockId.zero =
      .ok (some ⟨80, 100, 100, []⟩) := rfl
  ⟨hr, (getBlockchainSynopsis_loop_no_wrap (by decide) hr (by decide) 0 (by decide)).2.1⟩

/-- `get_block_ids_on_fork` for the wrapped case below: a fork of three blocks numbered `0` to `3`
whose common ancestor is block `2 ^ 32 - 1`. -/
def wrappedForkHistory (referencePoint : BlockId) : Option (List BlockId) :=
  if referencePoint = ⟨3, 5⟩ then some [⟨3, 5⟩, ⟨2, 5⟩, ⟨1, 5⟩, ⟨0, 5⟩, ⟨4294967295, 0⟩] else none

/-- The two readings part where `uint32_t` arithmetic wraps. With one block and
`number_of_blocks_after_reference_point = 2 ^ 32 - 1`, `true_high` wraps to `0` and the cursor
stays at block `1` for ever, while over naturals the loop returns block `1` alone. With the head
and the undo horizon at block `2 ^ 32 - 1`, the fork of `wrappedForkHistory` above it passes the
source's `assert` through a wrapped `high_block_num = 3`; the loop starts at `2 ^ 32 - 1`, where
`true_high - low + 2` wraps and the first step takes the cursor to block `2`, so that the loop
returns three ids, while over naturals it steps past `high` and returns one. -/
theorem getBlockchainSynopsis_loop_wraps :
    (Database.ofHead 1 0 [] fun _ => none).synopsisRange BlockId.zero = .ok (some ⟨0, 1, 1, []⟩) ∧
      (Database.ofHead 1 0 [] fun _ => none).getBlockchainSynopsis BlockId.zero 4294967295 =
        .error .loopDoesNotTerminate ∧
      (Database.ofHead 1 0 [] fun _ => none).synopsisLoopOverNat [] 1 1 (1 + 4294967295) 1 =
        .ok [⟨1, 0⟩] ∧
      (Database.ofHead 4294967295 4294967295 [] wrappedForkHistory).synopsisRange ⟨3, 5⟩ =
        .ok (some ⟨4294967295, 3, 4294967295, [⟨0, 5⟩, ⟨1, 5⟩, ⟨2, 5⟩, ⟨3, 5⟩]⟩) ∧
      ((4294967295 : UInt32) + ((3 : UInt32) + 0 - 4294967295 + 2) / 2).toNat = 2 ∧
      nextSample (3 + 0) 4294967295 = 4294967296 ∧
      (Database.ofHead 4294967295 4294967295 [] wrappedForkHistory).getBlockchainSynopsis
        ⟨3, 5⟩ 0 = .ok [⟨4294967295, 0⟩, ⟨2, 0⟩, ⟨3, 0⟩] ∧
      (Database.ofHead 4294967295 4294967295 [] wrappedForkHistory).synopsisLoopOverNat
        [⟨0, 5⟩, ⟨1, 5⟩, ⟨2, 5⟩, ⟨3, 5⟩] 4294967295 3 (3 + 0) 4294967295 =
        .ok [⟨4294967295, 0⟩] := by
  refine ⟨rfl, ?_, ?_, by decide, rfl, rfl, rfl, ?_⟩
  · rw [getBlockchainSynopsis, show (Database.ofHead 1 0 [] fun _ => none).synopsisRange
      BlockId.zero = .ok (some ⟨0, 1, 1, []⟩) from rfl, except_ok_bind]
    exact synopsisLoop_of_fixed (by decide) (by decide)
      (show (Database.ofHead 1 0 [] fun _ => none).synopsisBlockId [] 1 1 = .ok ⟨1, 0⟩ from rfl) _
  all_goals rw [synopsisLoopOverNat, sampleNumbers_of_lt (by decide)]; rfl

end Database

end PeerplaysContractNode
