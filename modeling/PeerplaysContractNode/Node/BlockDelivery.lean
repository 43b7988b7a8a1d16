import PeerplaysContractNode.Chain.Database

/-!
# Delivering a block: `handle_block` and the `blockReceived` listener

`P2pHandler::NodeInterface::handle_block` emits `blockReceived` and reports to the network layer
the message ids of the block's transactions; the first block that arrives outside sync mode
while the handler is syncing ends the sync and fires `syncFinished`. The only listener of
`blockReceived`, connected in `ContractNode::run`, pushes a block that extends the head and
ignores every other block. A push failure is an `fc::exception`, caught and logged there, so
`handle_block` always returns normally.

The ledger's `push_block` is not in this repository: it is a parameter (`PushBlock`), the pushed
ledger or the exception it throws. What the delivery does to the ledger is then a frame fact:
the pushed ledger when the block extends the head and its push succeeds, and the ledger before
otherwise (`ledger_after_handleBlock_of_pushed`, `ledger_after_handleBlock_of_not_pushed`).
-/

namespace PeerplaysContractNode

/-- `chain::signed_block`, as far as the delegate and the listener read it; each transaction is
its serialized form. -/
structure SignedBlock where
  previous : BlockId
  id : BlockId
  transactions : List Nat
deriving DecidableEq, Repr

/-- `Net::item_id`: the item's message type and its hash. -/
structure ItemId where
  itemType : UInt32
  itemHash : BlockId
deriving DecidableEq, Repr

/-- `graphene::net::trx_message_type`. -/
def trxMessageType : UInt32 := 1000

/-- `graphene::net::block_message_type`. -/
def blockMessageType : UInt32 := 1001

/-- The ledger's `push_block`: the ledger after the push, or the `fc::exception` it throws. -/
abbrev PushBlock := Database → SignedBlock → Except String Database

namespace Database

variable (db : Database)

/-- `has_item`: blocks and transactions by the ledger's `is_known_*`; any other item type is
logged and unknown. -/
def hasItem (id : ItemId) : Bool :=
  if id.itemType = blockMessageType then db.isKnownBlock id.itemHash
  else if id.itemType = trxMessageType then db.isKnownTransaction id.itemHash
  else false

@[simp] theorem hasItem_block (hash : BlockId) :
    db.hasItem ⟨blockMessageType, hash⟩ = db.isKnownBlock hash := if_pos rfl

/-- The `blockReceived` listener of `ContractNode::run`. A block whose `previous` is the head id is
pushed; the `fc::exception` of a failed push is caught and logged and leaves the ledger as it
was. The `FC_ASSERT` that the head moved to the block throws inside the same `try`, after the
push, so it only logs. Any other block is ignored. -/
def blockReceived (pushBlock : PushBlock) (block : SignedBlock) : Database :=
  if block.previous = db.headBlockId then
    match pushBlock db block with
    | .ok pushed => pushed
    | .error _ => db
  else db

end Database

/-- The part of `P2pHandler` that `handle_block` reads and writes: the ledger, written through
the listener, and the `syncing` flag. -/
structure P2pHandler where
  db : Database
  syncing : Bool

/-- What `handle_block` leaves behind: the handler, the `contained_transaction_message_ids` it
fills, whether it fired `syncFinished`, and its result (whether it switched forks). -/
structure HandleBlockResult where
  handler : P2pHandler
  containedTransactionMessageIds : List Nat
  syncFinished : Bool
  switchedForks : Bool

namespace P2pHandler

variable (pushBlock : PushBlock) (messageId : Nat → Nat)

/-- `handle_block(blk_msg, sync_mode, contained_transaction_message_ids)`; `messageId` is
`Net::message(Net::trx_message(trx)).id()`. -/
def handleBlock (handler : P2pHandler) (block : SignedBlock) (syncMode : Bool) :
    HandleBlockResult :=
  let finished := !syncMode && handler.syncing
  { handler := ⟨handler.db.blockReceived pushBlock block, if finished then false else handler.syncing⟩
    containedTransactionMessageIds := block.transactions.map messageId
    syncFinished := finished
    switchedForks := false }

/-- `syncFrom`: the node is asked to sync from the head and the handler is syncing. -/
def syncFrom (handler : P2pHandler) : P2pHandler := { handler with syncing := true }

/-! ## What one delivery does to the ledger -/

variable {pushBlock}

theorem ledger_after_handleBlock_of_pushed (handler : P2pHandler) (block : SignedBlock)
    {pushed : Database} (syncMode : Bool) (hprev : block.previous = handler.db.headBlockId)
    (hpush : pushBlock handler.db block = .ok pushed) :
    (handler.handleBlock pushBlock messageId block syncMode).handler.db = pushed := by
  simp only [handleBlock, Database.blockReceived, if_pos hprev, hpush]

theorem ledger_after_handleBlock_of_not_pushed (handler : P2pHandler) (block : SignedBlock)
    (syncMode : Bool)
    (h : (decide (block.previous = handler.db.headBlockId) && (pushBlock handler.db block).toBool) =
      false) :
    (handler.handleBlock pushBlock messageId block syncMode).handler.db = handler.db := by
  simp only [handleBlock, Database.blockReceived]
  by_cases hprev : block.previous = handler.db.headBlockId
  · cases hp : pushBlock handler.db block with
    | ok pushed => simp [hprev, hp, Except.toBool] at h
    | error _ => simp only [if_pos hprev, hp]
  · exact if_neg hprev

theorem ledger_after_handleBlock_cases (handler : P2pHandler) (block : SignedBlock)
    (syncMode : Bool) :
    (∃ pushed, block.previous = handler.db.headBlockId ∧ pushBlock handler.db block = .ok pushed ∧
        (handler.handleBlock pushBlock messageId block syncMode).handler.db = pushed) ∨
      (decide (block.previous = handler.db.headBlockId) && (pushBlock handler.db block).toBool) =
          false ∧
        (handler.handleBlock pushBlock messageId block syncMode).handler.db = handler.db := by
  by_cases h : (decide (block.previous = handler.db.headBlockId) &&
      (pushBlock handler.db block).toBool) = false
  · exact .inr ⟨h, ledger_after_handleBlock_of_not_pushed messageId handler block syncMode h⟩
  obtain ⟨hprev, hok⟩ : block.previous = handler.db.headBlockId ∧
      (pushBlock handler.db block).toBool := by simpa using h
  cases hp : pushBlock handler.db block with
  | ok pushed =>
    exact .inl ⟨pushed, hprev, rfl,
      ledger_after_handleBlock_of_pushed messageId handler block syncMode hprev hp⟩
  | error _ => simp [hp, Except.toBool] at hok

/-- What one delivery keeps. `handle_block` returns for every block; the ledger afterwards is the
pushed ledger when the block extends the head and its push succeeds, and the ledger before
otherwise. Given a ledger whose successful push makes the block known, `has_item` of the block is
then true exactly when the block was pushed or was known before: a block off the head, or one
whose push fails, is acknowledged and dropped. -/
theorem hasItem_after_handleBlock
    (hpush : ∀ db block pushed, pushBlock db block = .ok pushed → pushed.isKnownBlock block.id)
    (handler : P2pHandler) (block : SignedBlock) (syncMode : Bool) :
    (∀ pushed, block.previous = handler.db.headBlockId → pushBlock handler.db block = .ok pushed →
        (handler.handleBlock pushBlock messageId block syncMode).handler.db = pushed) ∧
      ((decide (block.previous = handler.db.headBlockId) && (pushBlock handler.db block).toBool) =
          false →
        (handler.handleBlock pushBlock messageId block syncMode).handler.db = handler.db) ∧
      (handler.handleBlock pushBlock messageId block syncMode).handler.db.hasItem
          ⟨blockMessageType, block.id⟩ =
        (decide (block.previous = handler.db.headBlockId) && (pushBlock handler.db block).toBool ||
          handler.db.hasItem ⟨blockMessageType, block.id⟩) := by
  refine ⟨fun _ => ledger_after_handleBlock_of_pushed messageId handler block syncMode,
    ledger_after_handleBlock_of_not_pushed messageId handler block syncMode, ?_⟩
  rcases @ledger_after_handleBlock_cases pushBlock messageId handler block syncMode with
    ⟨pushed, hprev, hp, hdb⟩ | ⟨h, hdb⟩
  · simp [hdb, hprev, hp, Except.toBool, hpush _ _ _ hp]
  · rw [hdb, h, Bool.false_or]

end P2pHandler

namespace Database

/-- A `push_block` for worked cases: a block numbered one above the head, and not wrapping to
block `0`, becomes the head; any other block throws. -/
def pushOnto : PushBlock := fun db block =>
  if h : 0 < block.id.num ∧ block.id.num = db.headBlockNum + 1 then
    .ok { db with
      headBlockNum := block.id.num
      blockIdForNum := fun n => if n = block.id.num then block.id else db.blockIdForNum n
      blockIdForNum_num := fun n => by
        dsimp only
        split
        · simp_all
        · exact db.blockIdForNum_num n }
  else .error "unlinkable block"

theorem pushOnto_isKnownBlock (db : Database) (block : SignedBlock) (pushed : Database)
    (h : pushOnto db block = .ok pushed) : pushed.isKnownBlock block.id := by
  unfold pushOnto at h
  split at h
  · cases h
    exact isKnownBlock_of_onMainChain ⟨‹_ ∧ _›.1, uint32_le_iff.2 (le_refl _), if_pos rfl⟩
  · cases h

end Database

namespace P2pHandler

theorem hasItem_after_handleBlock_onto_head :
    ((⟨Database.ofHead 1 0 [] fun _ => none, true⟩ : P2pHandler).handleBlock Database.pushOnto id
        ⟨⟨1, 0⟩, ⟨2, 3⟩, []⟩ false).handler.db.hasItem ⟨blockMessageType, ⟨2, 3⟩⟩ = true :=
  (hasItem_after_handleBlock id Database.pushOnto_isKnownBlock _ _ false).2.2.trans rfl

/-- `handle_block` returns, and so acknowledges, a block it dropped: one off the head, ignored by
the listener, and one that extends the head but fails to push. -/
theorem handleBlock_acknowledges_dropped :
    ((⟨Database.ofHead 1 0 [] fun _ => none, true⟩ : P2pHandler).handleBlock Database.pushOnto id
        ⟨⟨5, 0⟩, ⟨6, 3⟩, []⟩ false).handler.db.hasItem ⟨blockMessageType, ⟨6, 3⟩⟩ = false ∧
      ((⟨Database.ofHead 1 0 [] fun _ => none, false⟩ : P2pHandler).handleBlock Database.pushOnto id
        ⟨⟨1, 0⟩, ⟨7, 3⟩, []⟩ true).handler.db.hasItem ⟨blockMessageType, ⟨7, 3⟩⟩ = false :=
  ⟨rfl, rfl⟩

/-! ## Runs of the handler -/

/-- What the handler is asked to do: `syncFrom`, or `handle_block` of a block in or out of sync
mode. -/
inductive Event
  | syncFrom
  | handleBlock (block : SignedBlock) (syncMode : Bool)

def Event.isSyncFrom : Event → Bool
  | .syncFrom => true
  | .handleBlock _ _ => false

variable (pushBlock : PushBlock) (messageId : Nat → Nat)

/-- One event: the handler after it, and whether it fired `syncFinished`. -/
def step (handler : P2pHandler) : Event → P2pHandler × Bool
  | .syncFrom => (handler.syncFrom, false)
  | .handleBlock block syncMode =>
    ((handler.handleBlock pushBlock messageId block syncMode).handler,
      (handler.handleBlock pushBlock messageId block syncMode).syncFinished)

/-- A run of events: the handler at its end, and how many times `syncFinished` fired. -/
def run (handler : P2pHandler) : List Event → P2pHandler × Nat
  | [] => (handler, 0)
  | e :: es =>
    ((run (handler.step pushBlock messageId e).1 es).1,
      (run (handler.step pushBlock messageId e).1 es).2 +
        if (handler.step pushBlock messageId e).2 then 1 else 0)

/-- The ledger `db'` is reached from `db` by pushes of blocks that each extend the head. -/
inductive PushedFrom : Database → Database → Prop
  | refl (db : Database) : PushedFrom db db
  | push {db pushed db' : Database} (block : SignedBlock) (hprev : block.previous = db.headBlockId)
      (hpush : pushBlock db block = .ok pushed) (rest : PushedFrom pushed db') : PushedFrom db db'

variable {pushBlock}

theorem step_syncFinished_le (handler : P2pHandler) (e : Event) :
    (if (handler.step pushBlock messageId e).2 then 1 else 0) +
        (if (handler.step pushBlock messageId e).1.syncing then 1 else 0) ≤
      (if handler.syncing then 1 else 0) + (if e.isSyncFrom then 1 else 0) := by
  cases e with
  | syncFrom => cases handler.syncing <;> simp [step, syncFrom, Event.isSyncFrom]
  | handleBlock block syncMode =>
    cases hs : handler.syncing <;> cases syncMode <;> simp [step, handleBlock, hs, Event.isSyncFrom]

/-- Over any run, `syncFinished` fires at most once per `syncFrom`, plus once if the handler
was syncing at the start; a sync still open at the end counts as a firing to come. -/
theorem run_syncFinished_le (handler : P2pHandler) (es : List Event) :
    (handler.run pushBlock messageId es).2 +
        (if (handler.run pushBlock messageId es).1.syncing then 1 else 0) ≤
      (if handler.syncing then 1 else 0) + es.countP Event.isSyncFrom := by
  induction es generalizing handler with
  | nil => simp [run]
  | cons e es ih =>
    have hstep := @step_syncFinished_le pushBlock messageId handler e
    have hrest := ih (handler.step pushBlock messageId e).1
    simp only [run, List.countP_cons]
    omega

theorem pushedFrom_step (handler : P2pHandler) (e : Event) :
    PushedFrom pushBlock handler.db (handler.step pushBlock messageId e).1.db := by
  cases e with
  | syncFrom => exact .refl _
  | handleBlock block syncMode =>
    rcases @ledger_after_handleBlock_cases pushBlock messageId handler block syncMode with
      ⟨pushed, hprev, hp, hdb⟩ | ⟨-, hdb⟩
    · simp only [step, hdb]
      exact .push block hprev hp (.refl _)
    · simp only [step, hdb]
      exact .refl _

theorem PushedFrom.trans {db db' db'' : Database} (h : PushedFrom pushBlock db db')
    (h' : PushedFrom pushBlock db' db'') : PushedFrom pushBlock db db'' := by
  induction h with
  | refl => exact h'
  | push block hprev hpush _ ih => exact .push block hprev hpush (ih h')

/-- Over any run of `syncFrom` calls and deliveries, the ledger only changes by successful pushes
of blocks that each extend the head of the ledger they are pushed on. -/
theorem run_pushedFrom (handler : P2pHandler) (es : List Event) :
    PushedFrom pushBlock handler.db (handler.run pushBlock messageId es).1.db := by
  induction es generalizing handler with
  | nil => exact .refl _
  | cons e es ih => exact (pushedFrom_step messageId handler e).trans (ih _)

end P2pHandler

end PeerplaysContractNode
