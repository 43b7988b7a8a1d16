import PeerplaysContractNode.Chain.Database

/-!
# `get_block_ids`: the reply to a peer's synopsis

`P2pHandler::NodeInterface::get_block_ids` scans the peer's synopsis from its newest entry back
and stops at the first one that is the zero id or, by `is_known_block` and
`blockIsInOurChain`, a block of our main chain. From that block's number it lists main-chain ids
upwards, at most `limit` of them, and reports how many more lie above the last one returned.

`blockIsInOurChain` looks the entry's number up on the main chain, so the scan itself fails
when it reaches a fork-database block numbered above the head: `ScanStaysInRange` names the
synopses for which that does not happen. The loop's `uint32_t` counter wraps after block
`2 ^ 32 - 1`; below that the reply is `blockIdsReply`, the reply the protocol describes.
-/

namespace PeerplaysContractNode

namespace Database

variable (db : Database)

/-- `blockIsInOurChain`: whether `id` is the main-chain id of its number. The lookup, and so
the call, fails when no main-chain block has that number. -/
def blockIsInOurChain (id : BlockId) : Except SyncError Bool :=
  db.getBlockIdForNum id.num >>= fun blockIdInPreferredChain => pure (id == blockIdInPreferredChain)

/-- The `for` loop over `boost::adaptors::reverse(blockchain_synopsis)`, run on the reversed
synopsis: the first entry that is the zero id or a known block in our chain. -/
def findLastKnownBlock : List BlockId → Except SyncError (Option BlockId)
  | [] => .ok none
  | id :: rest =>
    if id = BlockId.zero then .ok (some id)
    else if db.isKnownBlock id then
      db.blockIsInOurChain id >>= fun inOurChain =>
        if inOurChain then .ok (some id) else findLastKnownBlock rest
    else findLastKnownBlock rest

/-- The loop `for (uint32_t num = ...; num <= head_block_num() && result.size() < limit; ++num)`:
the ids it pushes from `num` on when `count` ids are already in the result. Each call is one
test of the loop condition and `fuel` bounds the number of tests. -/
def collectBlockIds (limit : UInt32) : Nat → UInt32 → Nat → Except SyncError (List BlockId)
  | 0, _, _ => .error .loopDoesNotTerminate
  | fuel + 1, num, count =>
    if num ≤ db.headBlockNum ∧ count < limit.toNat then
      if 0 < num then
        db.getBlockIdForNum num >>= fun id =>
          collectBlockIds limit fuel (num + 1) (count + 1) >>= fun rest => .ok (id :: rest)
      else collectBlockIds limit fuel (num + 1) count
    else .ok []

/-- `remaining_item_count` after the loop: the blocks above the last id returned. -/
def remainingItemCount (result : List BlockId) : UInt32 :=
  match result.getLast? with
  | some last => if last.num < db.headBlockNum then db.headBlockNum - last.num else 0
  | none => 0

/-- `get_block_ids(blockchain_synopsis, remaining_item_count, limit)`, returning the ids and the
remaining count. Every test of the loop either pushes an id or skips block `0`, and block `0`
comes at most once between pushes, so `2 * limit + 2` tests always suffice. -/
def getBlockIds (blockchainSynopsis : List BlockId) (limit : UInt32) :
    Except SyncError (List BlockId × UInt32) :=
  if db.headBlockNum = 0 then .ok ([], 0)
  else
    let lastKnownBlockId : Except SyncError BlockId :=
      if blockchainSynopsis = [] ∨ blockchainSynopsis = [BlockId.zero] then .ok BlockId.zero
      else db.findLastKnownBlock blockchainSynopsis.reverse >>= fun found =>
        match found with
        | some id => .ok id
        | none => .error .peerIsOnAnUnreachableFork
    lastKnownBlockId >>= fun last =>
      db.collectBlockIds limit (2 * limit.toNat + 2) last.num 0 >>= fun result =>
        .ok (result, db.remainingItemCount result)

/-! ## The reply the protocol describes -/

/-- A point the reply may start after: the zero id or a main-chain block. -/
def CommonPoint (id : BlockId) : Prop := id = BlockId.zero ∨ db.OnMainChain id

instance (id : BlockId) : Decidable (db.CommonPoint id) :=
  inferInstanceAs (Decidable (_ ∨ _))

/-- The number the reply starts from: `0` for an empty synopsis or the lone zero id, otherwise
the number of the last entry that is a common point, and `none` when there is none. -/
def lastCommonNum (blockchainSynopsis : List BlockId) : Option Nat :=
  if blockchainSynopsis = [] ∨ blockchainSynopsis = [BlockId.zero] then some 0
  else (blockchainSynopsis.reverse.find? fun id => decide (db.CommonPoint id)).map (·.num.toNat)

/-- The main-chain ids numbered `max n 1` up to `min head (max n 1 + limit - 1)`, and the number
of blocks above them. -/
def replyFrom (n limit : Nat) : List BlockId × Nat :=
  let lo := max n 1
  let hi := min db.headBlockNum.toNat (lo + limit - 1)
  ((List.range' lo (hi + 1 - lo)).map fun i => db.blockIdForNum (UInt32.ofNat i),
    db.headBlockNum.toNat - hi)

/-- The reply to a synopsis as the protocol describes it. -/
def blockIdsReply (blockchainSynopsis : List BlockId) (limit : UInt32) :
    Except SyncError (List BlockId × UInt32) :=
  if db.headBlockNum = 0 then .ok ([], 0)
  else match db.lastCommonNum blockchainSynopsis with
    | none => .error .peerIsOnAnUnreachableFork
    | some n => .ok ((db.replyFrom n limit.toNat).1, UInt32.ofNat (db.replyFrom n limit.toNat).2)

/-- The entries the reverse scan passes before its first common point include no fork-database
block outside `1..head`, whose main-chain lookup would fail. -/
def ScanStaysInRange (blockchainSynopsis : List BlockId) : Prop :=
  ∀ id ∈ blockchainSynopsis.reverse.takeWhile (fun id => !decide (db.CommonPoint id)),
    db.inForkDatabase id → 0 < id.num ∧ id.num ≤ db.headBlockNum

instance (blockchainSynopsis : List BlockId) : Decidable (db.ScanStaysInRange blockchainSynopsis) :=
  inferInstanceAs (Decidable (∀ id ∈ _, _ → _))

variable {db}

/-! ## The scan -/

theorem blockIsInOurChain_of_onMainChain {id : BlockId} (h : db.OnMainChain id) :
    db.blockIsInOurChain id = .ok true := by
  simp [blockIsInOurChain, getBlockIdForNum_num_eq_ok.2 h]

theorem blockIsInOurChain_of_not_onMainChain {id : BlockId} (h : ¬ db.OnMainChain id)
    (h0 : 0 < id.num) (hle : id.num ≤ db.headBlockNum) : db.blockIsInOurChain id = .ok false := by
  have hne : (id == db.blockIdForNum id.num) = false :=
    beq_eq_false_iff_ne.2 fun heq => h ⟨h0, hle, heq.symm⟩
  simp [blockIsInOurChain, getBlockIdForNum_of_le h0 hle, hne]

/-- While no fork-database entry outside `1..head` comes first, the scan finds the first common
point of the list. -/
theorem findLastKnownBlock_eq_find : ∀ l : List BlockId,
    (∀ id ∈ l.takeWhile (fun id => !decide (db.CommonPoint id)),
      db.inForkDatabase id → 0 < id.num ∧ id.num ≤ db.headBlockNum) →
    db.findLastKnownBlock l = .ok (l.find? fun id => decide (db.CommonPoint id))
  | [], _ => rfl
  | id :: rest, h => by
    by_cases hz : id = BlockId.zero
    · subst hz
      simp [findLastKnownBlock, CommonPoint]
    by_cases hm : db.OnMainChain id
    · simp [findLastKnownBlock, hz, isKnownBlock_of_onMainChain hm,
        blockIsInOurChain_of_onMainChain hm, CommonPoint, hm]
    have hc : ¬ db.CommonPoint id := by simp [CommonPoint, hz, hm]
    have hrest := findLastKnownBlock_eq_find rest fun x hx =>
      h x (by simp [List.takeWhile_cons, hc, hx])
    have hfind : (id :: rest).find? (fun id => decide (db.CommonPoint id)) =
        rest.find? fun id => decide (db.CommonPoint id) := by simp [List.find?_cons, hc]
    rw [hfind, ← hrest]
    by_cases hf : db.inForkDatabase id
    · obtain ⟨h0, hle⟩ := h id (by simp [List.takeWhile_cons, hc]) hf
      simp [findLastKnownBlock, hz, isKnownBlock_of_not_onMainChain hm, hf,
        blockIsInOurChain_of_not_onMainChain hm h0 hle]
    · simp [findLastKnownBlock, hz, isKnownBlock_of_not_onMainChain hm, hf]

/-! ## The collecting loop -/

theorem uint32_succ_toNat {n : UInt32} (h : n.toNat < 2 ^ 32 - 1) : (n + 1).toNat = n.toNat + 1 := by
  rw [UInt32.toNat_add]
  simp only [UInt32.toNat_ofNat, UInt32.size]
  omega

theorem uint32_ofNat_toNat (n : UInt32) : UInt32.ofNat n.toNat = n :=
  UInt32.ext (UInt32.toNat_ofNat_of_lt n.toNat_lt_size)

/-- From a positive block number and below the last `uint32_t` value, the loop pushes the
main-chain ids upwards until it passes the head or fills the reply. -/
theorem collectBlockIds_eq_of_pos (limit : UInt32) (hhead : db.headBlockNum.toNat < 2 ^ 32 - 1) :
    ∀ (fuel : Nat) (num : UInt32) (count : Nat), 0 < num.toNat → count ≤ limit.toNat →
      limit.toNat - count < fuel →
      db.collectBlockIds limit fuel num count =
        .ok ((List.range' num.toNat
          (min (db.headBlockNum.toNat + 1 - num.toNat) (limit.toNat - count))).map
            fun i => db.blockIdForNum (UInt32.ofNat i)) := by
  intro fuel
  induction fuel with
  | zero => exact fun _ _ _ _ hf => absurd hf (Nat.not_lt_zero _)
  | succ fuel ih =>
    intro num count hpos hcount hf
    by_cases hrun : num ≤ db.headBlockNum ∧ count < limit.toNat
    · have hle : num.toNat ≤ db.headBlockNum.toNat := hrun.1
      have hnext : (num + 1).toNat = num.toNat + 1 := uint32_succ_toNat (by omega)
      have hk : min (db.headBlockNum.toNat + 1 - num.toNat) (limit.toNat - count) =
          min (db.headBlockNum.toNat + 1 - (num.toNat + 1)) (limit.toNat - (count + 1)) + 1 := by
        have := hrun.2
        rw [← Nat.add_min_add_right]
        congr 1 <;> omega
      rw [collectBlockIds, if_pos hrun, if_pos (show (0 : UInt32) < num from hpos),
        getBlockIdForNum_of_le (show (0 : UInt32) < num from hpos) hrun.1,
        ih (num + 1) (count + 1) (by omega) (by have := hrun.2; omega) (by omega), hnext, hk,
        List.range'_succ]
      simp only [except_ok_bind, List.map_cons, uint32_ofNat_toNat]
    · have hk : min (db.headBlockNum.toNat + 1 - num.toNat) (limit.toNat - count) = 0 := by
        rw [uint32_le_iff] at hrun; omega
      rw [collectBlockIds, if_neg hrun, hk]
      rfl

/-- From any block number below the last `uint32_t` value, with the fuel `getBlockIds` gives,
the loop returns the main-chain ids from `max num 1` on. -/
theorem collectBlockIds_eq (limit : UInt32) (hhead : db.headBlockNum.toNat < 2 ^ 32 - 1)
    (num : UInt32) :
    db.collectBlockIds limit (2 * limit.toNat + 2) num 0 =
      .ok ((List.range' (max num.toNat 1)
        (min (db.headBlockNum.toNat + 1 - max num.toNat 1) limit.toNat)).map
          fun i => db.blockIdForNum (UInt32.ofNat i)) := by
  by_cases hpos : 0 < num.toNat
  · rw [collectBlockIds_eq_of_pos limit hhead _ num 0 hpos (Nat.zero_le _) (by omega),
      max_eq_left hpos, Nat.sub_zero]
  have hnum : num = 0 := UInt32.ext (by simpa using hpos)
  subst hnum
  by_cases hlimit : 0 < limit.toNat
  · have hrun : (0 : UInt32) ≤ db.headBlockNum ∧ 0 < limit.toNat := ⟨Nat.zero_le _, hlimit⟩
    rw [show 2 * limit.toNat + 2 = (2 * limit.toNat + 1) + 1 from rfl, collectBlockIds,
      if_pos hrun, if_neg (by decide),
      collectBlockIds_eq_of_pos limit hhead _ _ 0 (by decide) (Nat.zero_le _) (by omega)]
    rfl
  · have hzero : limit.toNat = 0 := by omega
    rw [show 2 * limit.toNat + 2 = (2 * limit.toNat + 1) + 1 from rfl, collectBlockIds,
      if_neg (by omega), hzero, min_zero]
    rfl

theorem toNat_ofNat_of_le_head (db : Database) {n : Nat} (h : n ≤ db.headBlockNum.toNat) :
    (UInt32.ofNat n).toNat = n :=
  UInt32.toNat_ofNat_of_lt (Nat.lt_of_le_of_lt h db.headBlockNum.toNat_lt_size)

theorem replyFrom_fst (n limit : Nat) :
    (db.replyFrom n limit).1 = (List.range' (max n 1)
      (min (db.headBlockNum.toNat + 1 - max n 1) limit)).map
        fun i => db.blockIdForNum (UInt32.ofNat i) := by
  have hlo : 1 ≤ max n 1 := le_max_right n 1
  simp only [replyFrom]
  generalize max n 1 = lo at hlo ⊢
  congr 2
  omega

/-- Once the ids from a block `lo ≤ head` are collected, the remaining count is the number of
blocks above the last one. -/
theorem remainingItemCount_range' {lo limit : Nat} (hlo : 0 < lo) (hle : lo ≤ db.headBlockNum.toNat)
    (hlimit : 0 < limit) :
    db.remainingItemCount ((List.range' lo (min (db.headBlockNum.toNat + 1 - lo) limit)).map
        fun i => db.blockIdForNum (UInt32.ofNat i)) =
      UInt32.ofNat (db.headBlockNum.toNat - min db.headBlockNum.toNat (lo + limit - 1)) := by
  have hk : min (db.headBlockNum.toNat + 1 - lo) limit ≠ 0 := by omega
  have hlastNum : lo + min (db.headBlockNum.toNat + 1 - lo) limit - 1 =
      min db.headBlockNum.toNat (lo + limit - 1) := by omega
  have hlast : (UInt32.ofNat (lo + min (db.headBlockNum.toNat + 1 - lo) limit - 1)).toNat =
      min db.headBlockNum.toNat (lo + limit - 1) :=
    hlastNum ▸ db.toNat_ofNat_of_le_head (hlastNum ▸ Nat.min_le_left _ _)
  simp only [remainingItemCount, List.getLast?_map, List.getLast?_range', if_neg hk,
    Option.map_some', db.blockIdForNum_num]
  apply UInt32.ext
  split
  · rename_i hlt
    rw [UInt32.toNat_sub_of_le _ _ (uint32_le_iff.2 (Nat.le_of_lt (uint32_lt_iff.1 hlt))), hlast,
      db.toNat_ofNat_of_le_head (Nat.sub_le _ _)]
  · rename_i hge
    rw [uint32_lt_iff, hlast] at hge
    rw [db.toNat_ofNat_of_le_head (Nat.sub_le _ _), UInt32.toNat_zero]
    exact (Nat.sub_eq_zero_of_le (Nat.not_lt.1 hge)).symm

/-- The loop and the remaining count together give `replyFrom`, from any common point. -/
theorem collect_remaining_eq_replyFrom (limit : UInt32) (hlimit : 0 < limit.toNat)
    (hhead : db.headBlockNum.toNat < 2 ^ 32 - 1) (hne : db.headBlockNum ≠ 0) (num : UInt32)
    (hnum : num.toNat ≤ db.headBlockNum.toNat) :
    (db.collectBlockIds limit (2 * limit.toNat + 2) num 0 >>= fun result =>
        .ok (result, db.remainingItemCount result)) =
      Except.ok ((db.replyFrom num.toNat limit.toNat).1,
        UInt32.ofNat (db.replyFrom num.toNat limit.toNat).2) := by
  have hpos : 0 < db.headBlockNum.toNat := by
    rcases Nat.eq_zero_or_pos db.headBlockNum.toNat with h | h
    · exact absurd (UInt32.ext (by simpa using h)) hne
    · exact h
  rw [collectBlockIds_eq limit hhead, except_ok_bind, replyFrom_fst,
    remainingItemCount_range' (by omega) (by omega) hlimit]
  rfl

/-! ## The reply -/

/-- Once the reverse scan stops at a common point `x`, the reply runs from `x`'s number. -/
theorem getBlockIds_of_find?_eq_some {blockchainSynopsis : List BlockId} {x : BlockId}
    (limit : UInt32) (hlimit : 0 < limit.toNat) (hhead : db.headBlockNum.toNat < 2 ^ 32 - 1)
    (h0 : db.headBlockNum ≠ 0) (hs : ¬ (blockchainSynopsis = [] ∨ blockchainSynopsis = [BlockId.zero]))
    (hscan : db.ScanStaysInRange blockchainSynopsis)
    (hf : blockchainSynopsis.reverse.find? (fun id => decide (db.CommonPoint id)) = some x) :
    db.getBlockIds blockchainSynopsis limit =
      .ok ((db.replyFrom x.num.toNat limit.toNat).1,
        UInt32.ofNat (db.replyFrom x.num.toNat limit.toNat).2) := by
  have hnum : x.num.toNat ≤ db.headBlockNum.toNat := by
    have hx := List.find?_some hf
    rcases of_decide_eq_true hx with rfl | hm
    · exact Nat.zero_le _
    · exact hm.2.1
  simp only [getBlockIds, if_neg h0, if_neg hs, findLastKnownBlock_eq_find _ hscan, hf,
    except_ok_bind]
  exact collect_remaining_eq_replyFrom limit hlimit hhead h0 x.num hnum

/-- Below the last `uint32_t` block number, and when the reverse scan meets no fork-database
block outside `1..head` before a common point, `get_block_ids` gives the reply the protocol
describes: the ids from the last common point of the synopsis up, or
`peer_is_on_an_unreachable_fork` when the synopsis has none. -/
theorem getBlockIds_eq_blockIdsReply (blockchainSynopsis : List BlockId) (limit : UInt32)
    (hlimit : 0 < limit) (hhead : db.headBlockNum.toNat < 2 ^ 32 - 1)
    (hscan : db.ScanStaysInRange blockchainSynopsis) :
    db.getBlockIds blockchainSynopsis limit = db.blockIdsReply blockchainSynopsis limit := by
  by_cases h0 : db.headBlockNum = 0
  · simp only [getBlockIds, blockIdsReply, if_pos h0]
  by_cases hs : blockchainSynopsis = [] ∨ blockchainSynopsis = [BlockId.zero]
  · simp only [getBlockIds, blockIdsReply, lastCommonNum, if_neg h0, if_pos hs, except_ok_bind]
    exact collect_remaining_eq_replyFrom limit hlimit hhead h0 BlockId.zero.num (Nat.zero_le _)
  cases hf : blockchainSynopsis.reverse.find? (fun id => decide (db.CommonPoint id)) with
  | none =>
    simp only [getBlockIds, blockIdsReply, lastCommonNum, if_neg h0, if_neg hs,
      findLastKnownBlock_eq_find _ hscan, hf, except_ok_bind]
    rfl
  | some x =>
    rw [getBlockIds_of_find?_eq_some limit hlimit hhead h0 hs hscan hf]
    simp only [blockIdsReply, lastCommonNum, if_neg h0, if_neg hs, hf, Option.map_some']

theorem getBlockIds_eq_blockIdsReply_from_three :
    (0 : UInt32) < 4 ∧ (Database.ofHead 10 0 [] fun _ => none).ScanStaysInRange [⟨3, 0⟩, ⟨5, 1⟩] ∧
      (Database.ofHead 10 0 [] fun _ => none).getBlockIds [⟨3, 0⟩, ⟨5, 1⟩] 4 =
        (Database.ofHead 10 0 [] fun _ => none).blockIdsReply [⟨3, 0⟩, ⟨5, 1⟩] 4 :=
  ⟨by decide, by decide, getBlockIds_eq_blockIdsReply _ _ (by decide) (by decide) (by decide)⟩

/-- The described reply fails in two places. A fork-database block numbered above the head
makes the scan's main-chain lookup throw instead of the reply naming the unreachable fork; and
with the head at block `2 ^ 32 - 1` the `uint32_t` counter wraps to block `1`. -/
theorem getBlockIds_ne_blockIdsReply :
    (Database.ofHead 1 0 [⟨2, 7⟩] fun _ => none).getBlockIds [⟨2, 7⟩] 1 =
        .error (.blockNumberNotFound 2) ∧
      (Database.ofHead 1 0 [⟨2, 7⟩] fun _ => none).blockIdsReply [⟨2, 7⟩] 1 =
        .error .peerIsOnAnUnreachableFork ∧
      (Database.ofHead 4294967295 0 [] fun _ => none).getBlockIds [⟨4294967295, 0⟩] 2 =
        .ok ([⟨4294967295, 0⟩, ⟨1, 0⟩], 4294967294) ∧
      (Database.ofHead 4294967295 0 [] fun _ => none).blockIdsReply [⟨4294967295, 0⟩] 2 =
        .ok ([⟨4294967295, 0⟩], 0) := by
  decide

end Database

end PeerplaysContractNode
