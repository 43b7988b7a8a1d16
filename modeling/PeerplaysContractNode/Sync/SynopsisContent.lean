import PeerplaysContractNode.Sync.Synopsis

/-!
# What `get_blockchain_synopsis` returns

`Sync/Synopsis.lean` reads the synopsis loop over naturals. Here that reading is taken to the
ids it fetches: on a ledger whose fork segments are numbered one apart back to a main-chain
ancestor (`IsForkSegment`), every block the loop samples is read in bounds, and the synopsis is
`sampleNumbers` mapped to the branch that ends at the reference point (`branchBlockId`). The one
failure left is the source's `block_older_than_undo_history`.

A fork reference point has to be numbered at most the head: `blockIsInOurChain` asks
`get_block_id_for_num` for its number before anything else, and that lookup fails above the
head.
-/

namespace PeerplaysContractNode

theorem mapM_eq_ok_map {ε α β : Type} {f : α → Except ε β} {g : α → β} :
    ∀ {l : List α}, (∀ a ∈ l, f a = .ok (g a)) → l.mapM f = .ok (l.map g)
  | [], _ => rfl
  | a :: l, h => by
    rw [List.mapM_cons, h a (List.mem_cons_self a l),
      mapM_eq_ok_map fun b hb => h b (List.mem_cons_of_mem a hb)]
    rfl

theorem length_eq_of_mapM_eq_ok {ε α β : Type} {f : α → Except ε β} :
    ∀ {l : List α} {bs : List β}, l.mapM f = .ok bs → bs.length = l.length
  | [], _, h => by cases h; rfl
  | a :: l, bs, h => by
    rw [List.mapM_cons, except_bind_eq_ok] at h
    obtain ⟨b, -, h⟩ := h
    rw [except_bind_eq_ok] at h
    obtain ⟨bs', hbs', h⟩ := h
    cases h
    rw [List.length_cons, List.length_cons, length_eq_of_mapM_eq_ok hbs']

namespace Database

variable (db : Database)

/-- `F`, oldest block first, is the fork segment of `referencePoint` above its common ancestor
with the main chain, as `get_block_ids_on_fork` reports it (newest first, the ancestor last): the
segment ends at the reference point, its blocks are numbered one apart from just above the
ancestor, and the ancestor is a main-chain block or the zero id. -/
structure IsForkSegment (referencePoint ancestor : BlockId) (F : List BlockId) : Prop where
  onFork : db.getBlockIdsOnFork referencePoint = some (F.reverse ++ [ancestor])
  last : F.getLast? = some referencePoint
  nums : F.map (fun b => b.num.toNat) = List.range' (ancestor.num.toNat + 1) F.length
  ancestor : ancestor = BlockId.zero ∨ db.OnMainChain ancestor

/-- The id of block `c` on the branch a synopsis summarises: from the main chain up to
`nonForkHigh`, from the fork segment `F` above it. -/
def branchBlockId (F : List BlockId) (nonForkHigh c : Nat) : BlockId :=
  if c ≤ nonForkHigh then db.blockIdForNum (UInt32.ofNat c)
  else F.getD (c - nonForkHigh - 1) BlockId.zero

theorem branchBlockId_nil {nonForkHigh c : Nat} (h : c ≤ nonForkHigh) :
    db.branchBlockId [] nonForkHigh c = db.blockIdForNum (UInt32.ofNat c) :=
  if_pos h

variable {db}

namespace IsForkSegment

variable {R anc : BlockId} {F : List BlockId}

theorem ne_nil (h : db.IsForkSegment R anc F) : F ≠ [] := fun hF => by
  simpa [hF] using h.last

theorem num_getElem (h : db.IsForkSegment R anc F) (i : Nat) (hi : i < F.length) :
    F[i].num.toNat = anc.num.toNat + i + 1 := by
  have := congrArg (fun l => l[i]?) h.nums
  simp only [List.getElem?_map, List.getElem?_eq_getElem hi, Option.map_some',
    List.getElem?_range' _ _ hi, Option.some.injEq] at this
  omega

/-- The reference point is numbered the ancestor's number plus the length of the segment. -/
theorem referencePoint_num (h : db.IsForkSegment R anc F) :
    R.num.toNat = anc.num.toNat + F.length := by
  have hlen := List.length_pos.2 h.ne_nil
  have hR : F[F.length - 1] = R := by
    have := h.last
    rwa [List.getLast?_eq_getElem?, List.getElem?_eq_getElem (by omega), Option.some.injEq] at this
  rw [← hR, h.num_getElem _ (by omega)]
  omega

theorem ancestor_le_head (h : db.IsForkSegment R anc F) : anc.num ≤ db.headBlockNum := by
  rcases h.ancestor with rfl | hm
  · exact uint32_le_iff.2 (Nat.zero_le _)
  · exact hm.2.1

end IsForkSegment

/-! ## Placing the reference point, forwards -/

theorem synopsisRange_zero_of_head_ne_zero (h : db.headBlockNum ≠ 0) :
    db.synopsisRange BlockId.zero =
      .ok (some ⟨db.lastNonUndoableBlockNum, db.headBlockNum, db.headBlockNum, []⟩) := by
  simp [synopsisRange, h]

theorem synopsisRange_of_onMainChain {R : BlockId} (h : db.OnMainChain R) :
    db.synopsisRange R = .ok (some ⟨if R.num < db.lastNonUndoableBlockNum then R.num
      else db.lastNonUndoableBlockNum, R.num, R.num, []⟩) := by
  rw [synopsisRange, if_pos (onMainChain_ne_zero h), blockIsInOurChain_of_onMainChain h,
    except_ok_bind, if_pos rfl, if_neg (UInt32.ne_of_lt h.1).symm]

/-- On a fork segment the source's `assert`s hold; the ancestor becomes `non_fork_high`, the
reference point `high`, and the segment the fork history. -/
theorem forkSynopsisRange_of_isForkSegment {R anc : BlockId} {F : List BlockId}
    (h : db.IsForkSegment R anc F) :
    db.forkSynopsisRange R = if anc.num < db.lastNonUndoableBlockNum then
      .error .blockOlderThanUndoHistory
      else .ok (some ⟨db.lastNonUndoableBlockNum, R.num, anc.num, F⟩) := by
  have hlen := List.length_pos.2 h.ne_nil
  have hnf : (if anc = BlockId.zero then (0 : UInt32) else anc.num) = anc.num := by
    split <;> simp_all
  have hhigh : anc.num + UInt32.ofNat F.length = R.num := by
    have hR := h.referencePoint_num
    have := R.num.toNat_lt
    rw [uint32_eq_iff, UInt32.toNat_add, UInt32.toNat_ofNat_of_lt (by simp only [UInt32.size]; omega),
      hR]
    exact Nat.mod_eq_of_lt (by simp only [UInt32.size]; omega)
  have hfirst : (F.reverse ++ [anc]).head? = some R := by
    simp [List.head?_append, h.last]
  have hlast : F.getLast?.map (·.num) = some R.num := by
    rw [h.last, Option.map_some']
  unfold forkSynopsisRange
  simp only [h.onFork, hfirst, List.getLast?_concat, Option.getD_some, List.dropLast_concat,
    List.reverse_reverse, hnf, hhigh, hlast, List.length_append, List.length_reverse,
    List.length_singleton, ne_eq, not_true_eq_false, or_false, if_neg (show ¬ F.length + 1 < 2 by omega),
    if_false]

theorem synopsisRange_of_isForkSegment {R anc : BlockId} {F : List BlockId}
    (h : db.IsForkSegment R anc F) (hm : ¬ db.OnMainChain R) (hR : R.num ≤ db.headBlockNum) :
    db.synopsisRange R = db.forkSynopsisRange R := by
  have h0 : 0 < R.num := by
    rw [uint32_lt_iff, h.referencePoint_num]
    exact Nat.add_pos_right _ (List.length_pos.2 h.ne_nil)
  rw [synopsisRange, if_pos (BlockId.ne_zero_of_num_pos h0),
    blockIsInOurChain_of_not_onMainChain hm h0 hR, except_ok_bind]
  rfl

/-! ## The loop's reads -/

/-- A positive block number at most `non_fork_high + |F|`, with `non_fork_high` at most the head,
is read where `branchBlockId` reads it: on the main chain, or in bounds in the fork history. -/
theorem synopsisBlockId_eq_branchBlockId {F : List BlockId} {nonForkHigh : UInt32} {c : Nat}
    (hnf : nonForkHigh ≤ db.headBlockNum) (hc0 : 0 < c) (hc : c ≤ nonForkHigh.toNat + F.length)
    (hc32 : c < 2 ^ 32) :
    db.synopsisBlockId F nonForkHigh (UInt32.ofNat c) =
      .ok (db.branchBlockId F nonForkHigh.toNat c) := by
  have hcN : (UInt32.ofNat c).toNat = c := UInt32.toNat_ofNat_of_lt hc32
  rw [uint32_le_iff] at hnf
  unfold synopsisBlockId branchBlockId
  by_cases hle : c ≤ nonForkHigh.toNat
  · rw [if_pos (show UInt32.ofNat c ≤ nonForkHigh by rw [uint32_le_iff, hcN]; exact hle), if_pos hle,
      getBlockIdForNum_of_le (uint32_lt_iff.2 (by simp only [hcN]; exact hc0))
        (uint32_le_iff.2 (by omega))]
  · have hi : (UInt32.ofNat c - nonForkHigh - 1).toNat = c - nonForkHigh.toNat - 1 := by
      rw [forkIndex_toNat (by rw [hcN]; omega), hcN]
    have hget : F[(UInt32.ofNat c - nonForkHigh - 1).toNat]? =
        some (F.getD (c - nonForkHigh.toNat - 1) BlockId.zero) := by
      rw [hi, List.getD_eq_getElem?_getD, List.getElem?_eq_getElem (by omega)]
      rfl
    rw [if_neg (show ¬ UInt32.ofNat c ≤ nonForkHigh by rw [uint32_le_iff, hcN]; exact hle),
      if_neg hle, hget]

/-- From a positive cursor at most `high = non_fork_high + |F|`, and below
`true_high = 2 ^ 32 - 1`, the loop returns the branch ids of the sampled blocks. -/
theorem synopsisLoop_eq_branch {F : List BlockId} {nonForkHigh high trueHigh low : UInt32}
    (hnf : nonForkHigh ≤ db.headBlockNum) (hhigh : high.toNat = nonForkHigh.toNat + F.length)
    (ht : trueHigh.toNat ≤ 2 ^ 32 - 2) (hht : high.toNat ≤ trueHigh.toNat)
    (hlow : 0 < low.toNat) (hle : low.toNat ≤ high.toNat) :
    db.synopsisLoop F nonForkHigh high trueHigh (2 ^ 32) low =
      .ok ((sampleNumbers trueHigh.toNat high.toNat low.toNat).map
        (db.branchBlockId F nonForkHigh.toNat)) := by
  have := high.toNat_lt
  rw [synopsisLoop_eq_overNat F nonForkHigh high trueHigh ht hht _ low hlow hle (by omega)]
  refine mapM_eq_ok_map fun c hc => ?_
  obtain ⟨h1, h2⟩ := mem_sampleNumbers hc
  exact synopsisBlockId_eq_branchBlockId hnf (by omega) (by omega) (by omega)

/-- The same on the main chain alone: with no fork history and `high = non_fork_high`, every
sampled block is a main-chain block. -/
theorem synopsisLoop_eq_mainChain {high trueHigh low : UInt32}
    (hhead : high ≤ db.headBlockNum) (ht : trueHigh.toNat ≤ 2 ^ 32 - 2)
    (hht : high.toNat ≤ trueHigh.toNat) (hlow : 0 < low.toNat) (hle : low.toNat ≤ high.toNat) :
    db.synopsisLoop [] high high trueHigh (2 ^ 32) low =
      .ok ((sampleNumbers trueHigh.toNat high.toNat low.toNat).map
        fun c => db.blockIdForNum (UInt32.ofNat c)) := by
  rw [synopsisLoop_eq_branch hhead (Nat.add_zero _).symm ht hht hlow hle]
  refine congrArg _ (List.map_congr_left fun c hc => branchBlockId_nil db ?_)
  obtain ⟨-, h2⟩ := mem_sampleNumbers hc
  omega

/-! ## The synopsis, case by case -/

theorem getBlockchainSynopsis_of_range {R : BlockId} {low high nonForkHigh : UInt32}
    {F : List BlockId} (e : UInt32) (hr : db.synopsisRange R = .ok (some ⟨low, high, nonForkHigh, F⟩)) :
    db.getBlockchainSynopsis R e = db.synopsisLoop F nonForkHigh high (high + e) (2 ^ 32)
      (SynopsisRange.mk low high nonForkHigh F).loopStart := by
  rw [getBlockchainSynopsis, hr, except_ok_bind]

theorem add_toNat_of_lt {a b : UInt32} (h : a.toNat + b.toNat < 2 ^ 32 - 1) :
    (a + b).toNat = a.toNat + b.toNat := by
  rw [UInt32.toNat_add]
  exact Nat.mod_eq_of_lt (by simp only [UInt32.size]; omega)

theorem loopStart_toNat {low high nonForkHigh : UInt32} {F : List BlockId} :
    (SynopsisRange.mk low high nonForkHigh F).loopStart.toNat = max low.toNat 1 :=
  SynopsisRange.loopStart_toNat _

/-- With no reference point and at least one block, the synopsis samples the main chain from
`max L 1` to the head. -/
theorem getBlockchainSynopsis_zero (hL : db.lastNonUndoableBlockNum ≤ db.headBlockNum)
    (e : UInt32) (h0 : db.headBlockNum ≠ 0)
    (he : db.headBlockNum.toNat + e.toNat < 2 ^ 32 - 1) :
    db.getBlockchainSynopsis BlockId.zero e =
      .ok ((sampleNumbers (db.headBlockNum.toNat + e.toNat) db.headBlockNum.toNat
        (max db.lastNonUndoableBlockNum.toNat 1)).map fun c => db.blockIdForNum (UInt32.ofNat c)) := by
  have h0' : db.headBlockNum.toNat ≠ 0 := fun h => h0 (UInt32.ext h)
  rw [uint32_le_iff] at hL
  rw [getBlockchainSynopsis_of_range e (synopsisRange_zero_of_head_ne_zero h0),
    synopsisLoop_eq_mainChain (uint32_le_iff.2 (le_refl _)) (by rw [add_toNat_of_lt he]; omega)
      (by rw [add_toNat_of_lt he]; omega) (by rw [loopStart_toNat]; omega)
      (by rw [loopStart_toNat]; omega),
    add_toNat_of_lt he, loopStart_toNat]

/-- A main-chain reference point is sampled from `max L 1`, or from itself when it lies below
the undo horizon. -/
theorem getBlockchainSynopsis_of_onMainChain {R : BlockId} (h : db.OnMainChain R) (e : UInt32)
    (he : R.num.toNat + e.toNat < 2 ^ 32 - 1) :
    db.getBlockchainSynopsis R e =
      .ok ((sampleNumbers (R.num.toNat + e.toNat) R.num.toNat
        (if R.num < db.lastNonUndoableBlockNum then R.num.toNat
          else max db.lastNonUndoableBlockNum.toNat 1)).map
        fun c => db.blockIdForNum (UInt32.ofNat c)) := by
  have h0 : 0 < R.num.toNat := h.1
  have hstart : (SynopsisRange.mk (if R.num < db.lastNonUndoableBlockNum then R.num
      else db.lastNonUndoableBlockNum) R.num R.num []).loopStart.toNat =
      if R.num < db.lastNonUndoableBlockNum then R.num.toNat
      else max db.lastNonUndoableBlockNum.toNat 1 := by
    rw [loopStart_toNat]
    split <;> omega
  have hbounds : 0 < (if R.num < db.lastNonUndoableBlockNum then R.num.toNat
      else max db.lastNonUndoableBlockNum.toNat 1) ∧ (if R.num < db.lastNonUndoableBlockNum then
      R.num.toNat else max db.lastNonUndoableBlockNum.toNat 1) ≤ R.num.toNat := by
    split
    · omega
    · have := uint32_le_iff.1 (UInt32.not_lt.1 ‹_›)
      omega
  rw [getBlockchainSynopsis_of_range e (synopsisRange_of_onMainChain h),
    synopsisLoop_eq_mainChain h.2.1 (by rw [add_toNat_of_lt he]; omega)
      (by rw [add_toNat_of_lt he]; omega) (hstart ▸ hbounds.1) (hstart ▸ hbounds.2),
    add_toNat_of_lt he, hstart]

/-- A fork reference point whose ancestor lies below the undo horizon fails. -/
theorem getBlockchainSynopsis_of_isForkSegment_older {R anc : BlockId} {F : List BlockId}
    (h : db.IsForkSegment R anc F) (hm : ¬ db.OnMainChain R) (hR : R.num ≤ db.headBlockNum)
    (e : UInt32) (hanc : anc.num < db.lastNonUndoableBlockNum) :
    db.getBlockchainSynopsis R e = .error .blockOlderThanUndoHistory := by
  rw [getBlockchainSynopsis, synopsisRange_of_isForkSegment h hm hR,
    forkSynopsisRange_of_isForkSegment h, if_pos hanc, except_error_bind]

/-- A fork reference point whose ancestor is not below the undo horizon is sampled from
`max L 1` along its own branch. -/
theorem getBlockchainSynopsis_of_isForkSegment {R anc : BlockId} {F : List BlockId}
    (h : db.IsForkSegment R anc F) (hm : ¬ db.OnMainChain R) (hR : R.num ≤ db.headBlockNum)
    (e : UInt32) (hanc : db.lastNonUndoableBlockNum ≤ anc.num)
    (he : R.num.toNat + e.toNat < 2 ^ 32 - 1) :
    db.getBlockchainSynopsis R e =
      .ok ((sampleNumbers (R.num.toNat + e.toNat) R.num.toNat
        (max db.lastNonUndoableBlockNum.toNat 1)).map (db.branchBlockId F anc.num.toNat)) := by
  have hRn := h.referencePoint_num
  have hlen := List.length_pos.2 h.ne_nil
  rw [uint32_le_iff] at hanc
  rw [getBlockchainSynopsis_of_range e (by
      rw [synopsisRange_of_isForkSegment h hm hR, forkSynopsisRange_of_isForkSegment h,
        if_neg (UInt32.not_lt.2 hanc)]),
    synopsisLoop_eq_branch h.ancestor_le_head hRn (by rw [add_toNat_of_lt he]; omega)
      (by rw [add_toNat_of_lt he]; omega) (by rw [loopStart_toNat]; omega)
      (by rw [loopStart_toNat]; omega),
    add_toNat_of_lt he, loopStart_toNat]

/-- `get_block_ids_on_fork` for a fork of blocks 4 and 5 off main-chain block 3. -/
def forkAtThree (referencePoint : BlockId) : Option (List BlockId) :=
  if referencePoint = ⟨5, 7⟩ then some [⟨5, 7⟩, ⟨4, 7⟩, ⟨3, 0⟩] else none

/-- With the head at 5 and no undo horizon, the synopsis of fork block 5 samples blocks 1, 4
and 5: block 1 from the main chain, blocks 4 and 5 from the fork. -/
example : (Database.ofHead 5 0 [⟨4, 7⟩, ⟨5, 7⟩] forkAtThree).getBlockchainSynopsis ⟨5, 7⟩ 0 =
    .ok [⟨1, 0⟩, ⟨4, 7⟩, ⟨5, 7⟩] := rfl

/-- What the synopsis is, for each kind of reference point `R`, on a ledger whose undo horizon
`L` is at most its head, while `true_high = high + extra` stays below `2 ^ 32 - 1`. With no block,
the zero id gives the empty synopsis. The zero id (placed at the head) and a main-chain `R` give
the main-chain ids of the sampled blocks, from `max L 1`, or from `R` itself when `R` lies below
`L`. A fork block numbered at most the head, with segment `F` above ancestor `anc`, fails with
`block_older_than_undo_history` when `anc` lies below `L`, and otherwise gives the ids along its
own branch from `max L 1`, each fork index read within `F`. -/
theorem getBlockchainSynopsis_eq_sampledBranch
    (hL : db.lastNonUndoableBlockNum ≤ db.headBlockNum) (e : UInt32) :
    (db.headBlockNum = 0 → db.getBlockchainSynopsis BlockId.zero e = .ok []) ∧
    (db.headBlockNum ≠ 0 → db.headBlockNum.toNat + e.toNat < 2 ^ 32 - 1 →
      db.getBlockchainSynopsis BlockId.zero e =
        .ok ((sampleNumbers (db.headBlockNum.toNat + e.toNat) db.headBlockNum.toNat
          (max db.lastNonUndoableBlockNum.toNat 1)).map
          fun c => db.blockIdForNum (UInt32.ofNat c))) ∧
    (∀ R, db.OnMainChain R → R.num.toNat + e.toNat < 2 ^ 32 - 1 →
      db.getBlockchainSynopsis R e =
        .ok ((sampleNumbers (R.num.toNat + e.toNat) R.num.toNat
          (if R.num < db.lastNonUndoableBlockNum then R.num.toNat
            else max db.lastNonUndoableBlockNum.toNat 1)).map
          fun c => db.blockIdForNum (UInt32.ofNat c))) ∧
    (∀ R anc F, db.IsForkSegment R anc F → ¬ db.OnMainChain R → R.num ≤ db.headBlockNum →
      (anc.num < db.lastNonUndoableBlockNum →
        db.getBlockchainSynopsis R e = .error .blockOlderThanUndoHistory) ∧
      (db.lastNonUndoableBlockNum ≤ anc.num → R.num.toNat + e.toNat < 2 ^ 32 - 1 →
        db.getBlockchainSynopsis R e =
          .ok ((sampleNumbers (R.num.toNat + e.toNat) R.num.toNat
            (max db.lastNonUndoableBlockNum.toNat 1)).map (db.branchBlockId F anc.num.toNat)) ∧
        ∀ c ∈ sampleNumbers (R.num.toNat + e.toNat) R.num.toNat
            (max db.lastNonUndoableBlockNum.toNat 1),
          anc.num.toNat < c → c - anc.num.toNat - 1 < F.length)) := by
  refine ⟨fun h0 => ?_, getBlockchainSynopsis_zero hL e, fun R hm he =>
    getBlockchainSynopsis_of_onMainChain hm e he, fun R anc F h hm hR =>
    ⟨getBlockchainSynopsis_of_isForkSegment_older h hm hR e, fun hanc he =>
      ⟨getBlockchainSynopsis_of_isForkSegment h hm hR e hanc he, fun c hc hc' => ?_⟩⟩⟩
  · simp [getBlockchainSynopsis, synopsisRange, h0]
  · have hRn := h.referencePoint_num
    have := uint32_le_iff.1 hanc
    have := List.length_pos.2 h.ne_nil
    obtain ⟨-, h2 | h2⟩ := mem_sampleNumbers hc <;> omega

theorem getBlockchainSynopsis_eq_sampledBranch_on_fork :
    (Database.ofHead 5 0 [⟨4, 7⟩, ⟨5, 7⟩] forkAtThree).getBlockchainSynopsis ⟨5, 7⟩ 0 =
      .ok ((sampleNumbers (5 + 0) 5 (max 0 1)).map
        ((Database.ofHead 5 0 [⟨4, 7⟩, ⟨5, 7⟩] forkAtThree).branchBlockId [⟨4, 7⟩, ⟨5, 7⟩] 3)) :=
  (((getBlockchainSynopsis_eq_sampledBranch (by decide) 0).2.2.2 ⟨5, 7⟩ ⟨3, 0⟩ [⟨4, 7⟩, ⟨5, 7⟩]
    ⟨rfl, rfl, rfl, .inr (by decide)⟩ (by decide) (by decide)).2 (by decide) (by decide)).1

/-- `get_block_ids_on_fork` for a fork that runs two blocks past a head at block 1. -/
def forkPastHead (referencePoint : BlockId) : Option (List BlockId) :=
  if referencePoint = ⟨3, 5⟩ then some [⟨3, 5⟩, ⟨2, 5⟩, ⟨1, 0⟩] else none

/-- The two bounds of the content theorem are needed. A known fork block numbered above the head
fails in `blockIsInOurChain`, whose lookup of block 3 fails on a head at 1. At
`true_high = 2 ^ 32 - 1` the cursor steps from block `2 ^ 32 - 1` to block `0`, and the lookup of
block `0` fails. -/
theorem getBlockchainSynopsis_fails_past_bounds :
    (Database.ofHead 1 0 [⟨2, 5⟩, ⟨3, 5⟩] forkPastHead).IsForkSegment ⟨3, 5⟩ ⟨1, 0⟩
        [⟨2, 5⟩, ⟨3, 5⟩] ∧
      (Database.ofHead 1 0 [⟨2, 5⟩, ⟨3, 5⟩] forkPastHead).isKnownBlock ⟨3, 5⟩ ∧
      ¬ (Database.ofHead 1 0 [⟨2, 5⟩, ⟨3, 5⟩] forkPastHead).OnMainChain ⟨3, 5⟩ ∧
      (Database.ofHead 1 0 [⟨2, 5⟩, ⟨3, 5⟩] forkPastHead).getBlockchainSynopsis ⟨3, 5⟩ 0 =
        .error (.blockNumberNotFound 3) ∧
      (Database.ofHead 4294967295 4294967295 [] fun _ => none).getBlockchainSynopsis
        BlockId.zero 0 = .error (.blockNumberNotFound 0) :=
  ⟨⟨rfl, rfl, rfl, .inr (by decide)⟩, rfl, by decide, rfl, rfl⟩

end Database

end PeerplaysContractNode
