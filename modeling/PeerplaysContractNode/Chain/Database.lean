import Mathlib.Data.List.Sort
import Mathlib.Data.String.Basic

/-!
# Block identifiers and the ledger seen by the sync delegate

The peer-sync delegate `P2pHandler::NodeInterface` reads the ledger only through a handful of
accessors of `graphene::chain::database`, so the ledger is modelled by what those accessors
return. A block id carries the block number that `block_header::num_from_id` reads from its
first four bytes. The main chain is `blockIdForNum` on `1..head`, and `get_block_id_for_num`
fails outside that range, as graphene's block database does; `is_known_block` holds for
main-chain blocks and for the blocks of the fork database.

Block numbers, counts and limits are `uint32_t` in the source and `UInt32` here, so the
delegate's arithmetic wraps exactly where the source's does. Block validation, fork choice and
the ledger's persistence are the collaborator's and are not modelled.
-/

namespace PeerplaysContractNode

instance instDecidableEqExcept {ε α : Type} [DecidableEq ε] [DecidableEq α] :
    DecidableEq (Except ε α)
  | .ok x, .ok y => decidable_of_iff (x = y) (by simp)
  | .error x, .error y => decidable_of_iff (x = y) (by simp)
  | .ok _, .error _ => isFalse (by simp)
  | .error _, .ok _ => isFalse (by simp)

theorem uint32_le_iff {a b : UInt32} : a ≤ b ↔ a.toNat ≤ b.toNat := Iff.rfl

theorem uint32_lt_iff {a b : UInt32} : a < b ↔ a.toNat < b.toNat := Iff.rfl

theorem uint32_eq_iff {a b : UInt32} : a = b ↔ a.toNat = b.toNat :=
  ⟨congrArg _, UInt32.ext⟩

@[simp] theorem except_ok_bind {ε α β : Type} (a : α) (f : α → Except ε β) :
    (Except.ok a >>= f) = f a := rfl

@[simp] theorem except_error_bind {ε α β : Type} (e : ε) (f : α → Except ε β) :
    (Except.error e >>= f) = Except.error e := rfl

theorem except_bind_eq_ok {ε α β : Type} {x : Except ε α} {f : α → Except ε β} {b : β} :
    (x >>= f) = .ok b ↔ ∃ a, x = .ok a ∧ f a = .ok b := by
  cases x <;> simp

/-- A block identifier (`block_id_type`, which is also the network's `item_hash_t`): the block
number that `num_from_id` reads, and the rest of the digest. -/
structure BlockId where
  num : UInt32
  digest : Nat
deriving DecidableEq, Repr

namespace BlockId

/-- The default-constructed `block_id_type()`, the protocol's "no block" sentinel. -/
def zero : BlockId := ⟨0, 0⟩

@[simp] theorem zero_num : zero.num = 0 := rfl

theorem ne_zero_of_num_pos {id : BlockId} (h : 0 < id.num) : id ≠ zero := by
  rintro rfl
  exact absurd h (by decide)

end BlockId

/-- What the delegate's ledger calls can fail with. The first constructors are exceptions the
source throws or lets through; `assertionFailed` is an `assert` firing (a debug build aborts),
`forkHistoryIndexOutOfRange` a `fork_history[i]` read past the vector's end, and
`loopDoesNotTerminate` a loop whose `uint32_t` cursor has revisited a value. -/
inductive SyncError
  | blockNumberNotFound (num : UInt32)
  | forkHistoryUnavailable (referencePoint : BlockId)
  | peerIsOnAnUnreachableFork
  | blockOlderThanUndoHistory
  | assertionFailed
  | forkHistoryIndexOutOfRange
  | loopDoesNotTerminate
deriving DecidableEq, Repr

/-- The texts the source attaches to the exceptions it throws itself. -/
def SyncError.message : SyncError → String
  | .peerIsOnAnUnreachableFork =>
      "Unable to provide a list of blocks starting at any of the blocks in peer's synopsis"
  | .blockOlderThanUndoHistory => "Peer is are on a fork I'm unable to switch to"
  | .forkHistoryUnavailable _ => "Unable to construct a blockchain synopsis for reference hash"
  | _ => ""

/-- The ledger's accessors used by the delegate. `blockIdForNum n` is the main-chain id of
block `n`, read only on `1..headBlockNum`; `getBlockIdsOnFork` is `get_block_ids_on_fork`,
`none` when it throws. -/
structure Database where
  headBlockNum : UInt32
  blockIdForNum : UInt32 → BlockId
  blockIdForNum_num : ∀ n, (blockIdForNum n).num = n
  inForkDatabase : BlockId → Bool
  lastNonUndoableBlockNum : UInt32
  getBlockIdsOnFork : BlockId → Option (List BlockId)
  isKnownTransaction : BlockId → Bool

namespace Database

variable (db : Database)

/-- `get_block_id_for_num`: the main-chain id of block `n`, failing outside `1..head`. -/
def getBlockIdForNum (n : UInt32) : Except SyncError BlockId :=
  if 0 < n ∧ n ≤ db.headBlockNum then .ok (db.blockIdForNum n) else .error (.blockNumberNotFound n)

/-- `id` is the main-chain block of its number. -/
def OnMainChain (id : BlockId) : Prop :=
  0 < id.num ∧ id.num ≤ db.headBlockNum ∧ db.blockIdForNum id.num = id

instance (id : BlockId) : Decidable (db.OnMainChain id) :=
  inferInstanceAs (Decidable (_ ∧ _ ∧ _))

/-- `is_known_block`: a main-chain block or a block of the fork database. -/
def isKnownBlock (id : BlockId) : Bool :=
  decide (db.OnMainChain id) || db.inForkDatabase id

/-- `head_block_id()`: the main-chain id of the head, the zero id on an empty chain. -/
def headBlockId : BlockId :=
  if db.headBlockNum = 0 then BlockId.zero else db.blockIdForNum db.headBlockNum

variable {db}

theorem getBlockIdForNum_of_le {n : UInt32} (h0 : 0 < n) (h : n ≤ db.headBlockNum) :
    db.getBlockIdForNum n = .ok (db.blockIdForNum n) := by
  simp [getBlockIdForNum, h0, h]

theorem getBlockIdForNum_eq_ok {n : UInt32} {id : BlockId} :
    db.getBlockIdForNum n = .ok id ↔ 0 < n ∧ n ≤ db.headBlockNum ∧ db.blockIdForNum n = id := by
  unfold getBlockIdForNum
  split <;> simp_all

/-- Looking up the number of `id` gives `id` back exactly on the main chain. -/
theorem getBlockIdForNum_num_eq_ok {id : BlockId} :
    db.getBlockIdForNum id.num = .ok id ↔ db.OnMainChain id :=
  getBlockIdForNum_eq_ok

theorem onMainChain_blockIdForNum {n : UInt32} (h0 : 0 < n) (h : n ≤ db.headBlockNum) :
    db.OnMainChain (db.blockIdForNum n) := by
  simp [OnMainChain, db.blockIdForNum_num, h0, h]

theorem isKnownBlock_of_onMainChain {id : BlockId} (h : db.OnMainChain id) : db.isKnownBlock id := by
  simp [isKnownBlock, h]

theorem onMainChain_ne_zero {id : BlockId} (h : db.OnMainChain id) : id ≠ BlockId.zero :=
  BlockId.ne_zero_of_num_pos h.1

theorem isKnownBlock_of_not_onMainChain {id : BlockId} (h : ¬ db.OnMainChain id) :
    db.isKnownBlock id = db.inForkDatabase id := by
  simp [isKnownBlock, h]

/-- A small ledger for worked cases: main-chain block `n` has id `⟨n, 0⟩`, the undo horizon is
`low`, the fork database holds `forks`, and `get_block_ids_on_fork` answers `forkHistory`. -/
def ofHead (head low : UInt32) (forks : List BlockId)
    (forkHistory : BlockId → Option (List BlockId)) : Database where
  headBlockNum := head
  blockIdForNum n := ⟨n, 0⟩
  blockIdForNum_num _ := rfl
  inForkDatabase id := forks.contains id
  lastNonUndoableBlockNum := low
  getBlockIdsOnFork := forkHistory
  isKnownTransaction _ := false

end Database

end PeerplaysContractNode
