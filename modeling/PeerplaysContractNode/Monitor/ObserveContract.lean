import Mathlib.Data.List.Nodup
import PeerplaysContractNode.Registry.ChainHandler
import PeerplaysContractNode.Monitor.TableMonitor

/-!
# Attaching and detaching a contract's table monitors

`observeContract` constructs a `MultiTableMonitor`. Its constructor walks the tables of the
contract's object space with `inspect_all_indexes` and attaches a `TableMonitor` to each with
`add_secondary_index`; its destructor detaches them with `delete_secondary_index`. A table that
cannot be instrumented makes `add_secondary_index` throw, and the constructor's handler is
`catch (fc::exception_ptr e)`: it matches an exception thrown as an `fc::exception_ptr`, not an
`fc::exception` thrown by value, which is how `FC_ASSERT` and `FC_THROW_EXCEPTION` report errors.

`observeContract_release_restores` says that when every exception is caught, observation returns
a handle with one monitor per table that takes one, and release leaves the secondary indexes as
they were. `observeContract_throws_leaving_monitors` says what an uncaught exception does: it
leaves the constructor, so no handle exists and no destructor runs, and the monitors attached
before it stay attached. `observeContract_events_eq_describedEvents` joins this layer to the
events of `TableMonitor`: the handle's monitors sit on every table of the space that takes one, so
no callback on such a table goes unseen. The overloads by name and by space id pick the space and
the name from the registry's live map and then construct the same monitor.
-/

namespace PeerplaysContractNode

/-- What `add_secondary_index` can throw: an `fc::exception` object, or an `fc::exception_ptr`. -/
inductive Thrown
  | fcException (message : String)
  | exceptionPtr (message : String)
deriving DecidableEq, Repr

/-- Whether the constructor's handler, `catch (fc::exception_ptr e)`, matches the exception. -/
def Thrown.caught : Thrown → Bool
  | .fcException _ => false
  | .exceptionPtr _ => true

/-- A table of the chain database: its object space and type, and what `add_secondary_index`
throws on it if it cannot be instrumented. -/
structure Table where
  spaceId : UInt8
  typeId : UInt8
  failure : Option Thrown
deriving DecidableEq, Repr

/-- The chain database as `add_secondary_index` and `delete_secondary_index` see it: its tables,
one per object space and type, and the attached secondary indexes as `(space, type, handle)` in
order of attachment, so that a table's list is the sublist of its space and type. A handle stands
for the address of an index; `nextHandle` is above every handle attached. -/
structure ObjectDatabase where
  tables : List Table
  unique : (tables.map fun t => (t.spaceId, t.typeId)).Nodup
  secondaryIndexes : List (UInt8 × UInt8 × Nat)
  nextHandle : Nat
  fresh : ∀ i ∈ secondaryIndexes, i.2.2 < nextHandle

namespace ObjectDatabase

variable (db : ObjectDatabase)

/-- The secondary-index list of the table of `(spaceId, typeId)`, the indexes the ledger calls. -/
def indexesOf (spaceId typeId : UInt8) : List Nat :=
  (db.secondaryIndexes.filter fun i => i.1 = spaceId ∧ i.2.1 = typeId).map (·.2.2)

/-- The database with a new index, the next handle, on the table of `(spaceId, typeId)`. -/
def attach (spaceId typeId : UInt8) : ObjectDatabase where
  tables := db.tables
  unique := db.unique
  secondaryIndexes := db.secondaryIndexes ++ [(spaceId, typeId, db.nextHandle)]
  nextHandle := db.nextHandle + 1
  fresh := by
    simp only [List.mem_append, List.mem_singleton]
    rintro i (hi | rfl)
    · exact Nat.lt_succ_of_lt (db.fresh i hi)
    · exact Nat.lt_succ_self _

/-- `add_secondary_index<TableMonitor>(spaceId, typeId)`: attach a monitor to the table and return
its handle, or throw what the table throws. Looking up a table that does not exist fails an
assertion. -/
def addSecondaryIndex (spaceId typeId : UInt8) : Except Thrown (ObjectDatabase × Nat) :=
  match db.tables.find? fun t => t.spaceId = spaceId ∧ t.typeId = typeId with
  | none => .error (.fcException "")
  | some t =>
    match t.failure with
    | some e => .error e
    | none => .ok (db.attach spaceId typeId, db.nextHandle)

/-- `delete_secondary_index(spaceId, typeId, secondary)`: remove the index from its table's list. -/
def deleteSecondaryIndex (spaceId typeId : UInt8) (handle : Nat) : ObjectDatabase where
  tables := db.tables
  unique := db.unique
  secondaryIndexes := db.secondaryIndexes.erase (spaceId, typeId, handle)
  nextHandle := db.nextHandle
  fresh := fun i hi => db.fresh i (List.mem_of_mem_erase hi)

variable {db}

/-- A table of the database is the one its space and type find. -/
theorem find?_key_of_mem {t : Table} (ht : t ∈ db.tables) :
    db.tables.find? (fun u => u.spaceId = t.spaceId ∧ u.typeId = t.typeId) = some t := by
  cases hu : db.tables.find? (fun u => u.spaceId = t.spaceId ∧ u.typeId = t.typeId) with
  | none => simpa using List.find?_eq_none.1 hu t ht
  | some u =>
    have hkey := List.find?_some hu
    simp only [decide_eq_true_eq] at hkey
    exact congrArg some (List.inj_on_of_nodup_map db.unique (List.mem_of_find?_eq_some hu) ht
      (by simp only [hkey.1, hkey.2]))

theorem addSecondaryIndex_of_failure {t : Table} (ht : t ∈ db.tables) {e : Thrown}
    (he : t.failure = some e) : db.addSecondaryIndex t.spaceId t.typeId = .error e := by
  simp only [addSecondaryIndex, find?_key_of_mem ht, he]

theorem addSecondaryIndex_of_instrumentable {t : Table} (ht : t ∈ db.tables)
    (he : t.failure = none) :
    db.addSecondaryIndex t.spaceId t.typeId = .ok (db.attach t.spaceId t.typeId, db.nextHandle) := by
  simp only [addSecondaryIndex, find?_key_of_mem ht, he]

theorem not_mem_indexesOf {handle : Nat} (h : db.nextHandle ≤ handle) (spaceId typeId : UInt8) :
    handle ∉ db.indexesOf spaceId typeId := by
  simp only [indexesOf, List.mem_map, List.mem_filter, not_exists, not_and]
  intro i hi hhandle
  exact absurd (hhandle ▸ db.fresh i hi.1) (Nat.not_lt.2 h)

theorem indexesOf_eq_of_secondaryIndexes {db' : ObjectDatabase}
    (h : db.secondaryIndexes = db'.secondaryIndexes) (spaceId typeId : UInt8) :
    db.indexesOf spaceId typeId = db'.indexesOf spaceId typeId := by
  simp only [indexesOf, h]

theorem nodup_typeIds (db : ObjectDatabase) (s : UInt8) (p : Table → Bool) :
    (((db.tables.filter (·.spaceId = s)).filter p).map (·.typeId)).Nodup := by
  refine List.Nodup.map_on (fun x hx y hy hxy => ?_)
    (((List.Nodup.of_map _ db.unique).filter _).filter _)
  simp only [List.mem_filter, decide_eq_true_eq] at hx hy
  exact List.inj_on_of_nodup_map db.unique hx.1.1 hy.1.1 (by simp only [hx.1.2, hy.1.2, hxy])

theorem mem_typeIds_iff {t : Table} (ht : t ∈ db.tables) {s : UInt8} (hs : t.spaceId = s)
    (p : Table → Bool) :
    t.typeId ∈ ((db.tables.filter (·.spaceId = s)).filter p).map (·.typeId) ↔ p t := by
  simp only [List.mem_map, List.mem_filter, decide_eq_true_eq]
  constructor
  · rintro ⟨u, ⟨⟨hu, hus⟩, hpu⟩, hty⟩
    rwa [List.inj_on_of_nodup_map db.unique hu ht (by simp only [hus, hs, hty])] at hpu
  · exact fun hp => ⟨t, ⟨⟨ht, hs⟩, hp⟩, rfl⟩

end ObjectDatabase

/-- The `ContractDatabaseMonitor` that `observeContract` returns, a `MultiTableMonitor`: the
contract, its space, and its `TableMonitor`s as `(typeId, handle)` in order of attachment. -/
structure ContractDatabaseMonitor where
  contractName : String
  spaceId : UInt8
  monitors : List (UInt8 × Nat)
deriving DecidableEq, Repr

/-- The constructor's `inspect_all_indexes` loop over the tables `ts`: attach a monitor to each.
An exception the handler matches is logged and the loop goes on; any other leaves the
constructor, with the database as the attachments before it left it. -/
def attachMonitors : ObjectDatabase → List Table →
    Except (Thrown × ObjectDatabase) (ObjectDatabase × List (UInt8 × Nat))
  | db, [] => .ok (db, [])
  | db, t :: ts =>
    match db.addSecondaryIndex t.spaceId t.typeId with
    | .ok (db', handle) => (attachMonitors db' ts).map fun r => (r.1, (t.typeId, handle) :: r.2)
    | .error e => if e.caught then attachMonitors db ts else .error (e, db)

/-- `ChainHandler::observeContract(spaceId, name)`: construct a `MultiTableMonitor` over the tables
of the space, in the order `inspect_all_indexes` visits them. The chain database is shared, so its
state is returned whether or not the constructor throws. -/
def ObjectDatabase.observeContract (db : ObjectDatabase) (spaceId : UInt8) (contractName : String) :
    ObjectDatabase × Except Thrown ContractDatabaseMonitor :=
  match attachMonitors db (db.tables.filter (·.spaceId = spaceId)) with
  | .ok (db', monitors) => (db', .ok ⟨contractName, spaceId, monitors⟩)
  | .error (e, db') => (db', .error e)

/-- `~MultiTableMonitor`: `delete_secondary_index(spaceId, monitor->typeId, *monitor)` for each
monitor, in order. -/
def ContractDatabaseMonitor.release (m : ContractDatabaseMonitor) (db : ObjectDatabase) :
    ObjectDatabase :=
  m.monitors.foldl (fun db p => db.deleteSecondaryIndex m.spaceId p.1 p.2) db

namespace ChainHandler

/-- `ChainHandler::observeContract(name)`: observe the space `getSpaceId` finds for the name. A
failed lookup is `getSpaceId`'s `FC_ASSERT`, an `fc::exception`, thrown before anything is
attached. -/
def observeContractByName (h : ChainHandler) (db : ObjectDatabase) (name : String) :
    ObjectDatabase × Except Thrown ContractDatabaseMonitor :=
  match h.getSpaceId name with
  | .ok spaceId => db.observeContract spaceId name
  | .error message => (db, .error (.fcException message))

/-- `ChainHandler::observeContract(spaceId)`: observe the space under the name `loadedContracts`
holds for it, or `"Unknown Contract"`. -/
def observeContractBySpaceId (h : ChainHandler) (db : ObjectDatabase) (spaceId : UInt8) :
    ObjectDatabase × Except Thrown ContractDatabaseMonitor :=
  db.observeContract spaceId
    (match h.loadedContracts.entries.find? (·.1 = spaceId) with
      | some e => e.2
      | none => "Unknown Contract")

/-- Observing a contract the live map does not hold throws and leaves the database as it was. -/
theorem observeContractByName_of_getSpaceId_error {h : ChainHandler} {name message : String}
    (hname : h.getSpaceId name = .error message) (db : ObjectDatabase) :
    h.observeContractByName db name = (db, .error (.fcException message)) := by
  simp only [observeContractByName, hname]

end ChainHandler

/-! ## One step of the attach loop -/

section Step

variable {db : ObjectDatabase} {t : Table} (ts : List Table)

theorem attachMonitors_cons_of_instrumentable (ht : t ∈ db.tables) (he : t.failure = none) :
    attachMonitors db (t :: ts) = (attachMonitors (db.attach t.spaceId t.typeId) ts).map
      fun r => (r.1, (t.typeId, db.nextHandle) :: r.2) := by
  simp only [attachMonitors, ObjectDatabase.addSecondaryIndex_of_instrumentable ht he]

theorem attachMonitors_cons_of_caught (ht : t ∈ db.tables) {e : Thrown}
    (he : t.failure = some e) (hc : e.caught) : attachMonitors db (t :: ts) = attachMonitors db ts := by
  simp only [attachMonitors, ObjectDatabase.addSecondaryIndex_of_failure ht he, hc, if_true]

theorem attachMonitors_cons_of_uncaught (ht : t ∈ db.tables) {e : Thrown}
    (he : t.failure = some e) (hc : e.caught = false) :
    attachMonitors db (t :: ts) = .error (e, db) := by
  simp only [attachMonitors, ObjectDatabase.addSecondaryIndex_of_failure ht he, hc]
  rfl

end Step

/-! ## Whole loops -/

/-- `db'` is `db` with the monitors `ms` of space `s` attached: the same tables, and one index
`(s, typeId, handle)` more per monitor, each with a handle `db` has not given out. -/
structure Attached (s : UInt8) (db db' : ObjectDatabase) (ms : List (UInt8 × Nat)) : Prop where
  tables : db'.tables = db.tables
  secondaryIndexes : db'.secondaryIndexes = db.secondaryIndexes ++ ms.map fun p => (s, p.1, p.2)
  fresh : ∀ p ∈ ms, db.nextHandle ≤ p.2

theorem Attached.refl (s : UInt8) (db : ObjectDatabase) : Attached s db db [] :=
  ⟨rfl, by simp, by simp⟩

theorem Attached.attach {s typeId : UInt8} {db db' : ObjectDatabase} {ms : List (UInt8 × Nat)}
    (h : Attached s (db.attach s typeId) db' ms) :
    Attached s db db' ((typeId, db.nextHandle) :: ms) where
  tables := h.tables
  secondaryIndexes := by
    rw [h.secondaryIndexes]
    simp [ObjectDatabase.attach]
  fresh := by
    simp only [List.mem_cons, forall_eq_or_imp, le_refl, true_and]
    exact fun p hp => Nat.le_of_succ_le (h.fresh p hp)

section Loop

variable (s : UInt8)

/-- When the handler catches what every table throws, the loop returns, with one monitor per
table that can be instrumented, in order. -/
theorem attachMonitors_of_caught : ∀ (db : ObjectDatabase) (ts : List Table),
    (∀ t ∈ ts, t ∈ db.tables ∧ t.spaceId = s ∧ t.failure.all Thrown.caught) →
    ∃ db' ms, attachMonitors db ts = .ok (db', ms) ∧ Attached s db db' ms ∧
      ms.map Prod.fst = (ts.filter (·.failure = none)).map (·.typeId)
  | db, [], _ => ⟨db, [], rfl, Attached.refl s db, rfl⟩
  | db, t :: ts, hts => by
    obtain ⟨ht, hs, hc⟩ := hts t (List.mem_cons_self t ts)
    have hts' := fun u hu => hts u (List.mem_cons_of_mem t hu)
    cases he : t.failure with
    | none =>
      obtain ⟨db', ms, hrun, hatt, hms⟩ := attachMonitors_of_caught (db.attach t.spaceId t.typeId) ts hts'
      refine ⟨db', (t.typeId, db.nextHandle) :: ms, ?_, (hs ▸ hatt).attach, ?_⟩
      · rw [attachMonitors_cons_of_instrumentable ts ht he, hrun]
        rfl
      · simp [he, hms]
    | some e =>
      rw [he] at hc
      obtain ⟨db', ms, hrun, hatt, hms⟩ := attachMonitors_of_caught db ts hts'
      exact ⟨db', ms, by rw [attachMonitors_cons_of_caught ts ht he hc, hrun], hatt,
        by simp [he, hms]⟩

/-- An exception the handler does not catch ends the loop at its table: the loop throws it, and
the database keeps the monitors attached to the tables before it. -/
theorem attachMonitors_of_uncaught (post : List Table) {bad : Table} {e : Thrown}
    (hbad : bad.failure = some e) (hc : e.caught = false) : ∀ (db : ObjectDatabase) (pre : List Table),
    bad ∈ db.tables → (∀ t ∈ pre, t ∈ db.tables ∧ t.spaceId = s ∧ t.failure.all Thrown.caught) →
    ∃ db' ms, attachMonitors db (pre ++ bad :: post) = .error (e, db') ∧ Attached s db db' ms ∧
      ms.map Prod.fst = (pre.filter (·.failure = none)).map (·.typeId)
  | db, [], hb, _ => ⟨db, [], attachMonitors_cons_of_uncaught post hb hbad hc, Attached.refl s db, rfl⟩
  | db, t :: pre, hb, hpre => by
    obtain ⟨ht, hs, hct⟩ := hpre t (List.mem_cons_self t pre)
    have hpre' := fun u hu => hpre u (List.mem_cons_of_mem t hu)
    cases he : t.failure with
    | none =>
      obtain ⟨db', ms, hrun, hatt, hms⟩ :=
        attachMonitors_of_uncaught post hbad hc (db.attach t.spaceId t.typeId) pre hb hpre'
      refine ⟨db', (t.typeId, db.nextHandle) :: ms, ?_, (hs ▸ hatt).attach, ?_⟩
      · rw [List.cons_append, attachMonitors_cons_of_instrumentable _ ht he, hrun]
        rfl
      · simp [he, hms]
    | some e' =>
      rw [he] at hct
      obtain ⟨db', ms, hrun, hatt, hms⟩ := attachMonitors_of_uncaught post hbad hc db pre hb hpre'
      exact ⟨db', ms, by rw [List.cons_append, attachMonitors_cons_of_caught _ ht he hct, hrun],
        hatt, by simp [he, hms]⟩

end Loop

/-- What a loop attached, seen from one table: the handles of the monitors of its type, if it is
in the loop's space. -/
theorem Attached.indexesOf {s : UInt8} {db db' : ObjectDatabase} {ms : List (UInt8 × Nat)}
    (h : Attached s db db' ms) (spaceId typeId : UInt8) :
    db'.indexesOf spaceId typeId = db.indexesOf spaceId typeId ++
      if spaceId = s then (ms.filter (·.1 = typeId)).map (·.2) else [] := by
  by_cases hs : spaceId = s
  · subst hs
    simp [ObjectDatabase.indexesOf, h.secondaryIndexes, List.filter_map, Function.comp_def]
  · simp [ObjectDatabase.indexesOf, h.secondaryIndexes, List.filter_map, Function.comp_def, hs,
      Ne.symm hs]

/-- Monitors attached one per table of a space that can be instrumented, in order: a table of the
space gets one if it can be instrumented, and none if it cannot. -/
theorem filter_monitors_of_map_fst {db : ObjectDatabase} {s : UInt8} {ms : List (UInt8 × Nat)}
    (hms : ms.map Prod.fst =
      ((db.tables.filter (·.spaceId = s)).filter (·.failure = none)).map (·.typeId))
    {t : Table} (ht : t ∈ db.tables) (hs : t.spaceId = s) :
    if t.failure = none then ∃ h, ms.filter (·.1 = t.typeId) = [(t.typeId, h)]
    else ms.filter (·.1 = t.typeId) = [] := by
  have hcount : (ms.filter (·.1 = t.typeId)).length = (ms.map Prod.fst).count t.typeId := by
    rw [List.count, List.countP_map, List.countP_eq_length_filter]
    rfl
  rw [hms, List.count_eq_of_nodup (db.nodup_typeIds s _)] at hcount
  simp only [db.mem_typeIds_iff ht hs, decide_eq_true_eq] at hcount
  split_ifs at hcount ⊢
  · obtain ⟨a, ha⟩ := List.length_eq_one.1 hcount
    have hmem : a ∈ ms.filter (·.1 = t.typeId) := ha ▸ List.mem_singleton_self a
    have hfst : a.1 = t.typeId := of_decide_eq_true (List.mem_filter.1 hmem).2
    exact ⟨a.2, by rw [ha, ← hfst]⟩
  · exact List.length_eq_zero.1 hcount

/-! ## Release -/

/-- Erasing, in order, elements appended to a list that holds none of them gives the list back. -/
theorem foldl_erase_append {α : Type} [BEq α] [LawfulBEq α] (l : List α) :
    ∀ xs : List α, (∀ x ∈ xs, x ∉ l) → xs.foldl List.erase (l ++ xs) = l
  | [], _ => by simp
  | x :: xs, h => by
    have hx := h x (List.mem_cons_self x xs)
    rw [List.foldl_cons, List.erase_append_right _ hx, List.erase_cons_head]
    exact foldl_erase_append l xs fun y hy => h y (List.mem_cons_of_mem x hy)

theorem foldl_deleteSecondaryIndex (s : UInt8) :
    ∀ (ms : List (UInt8 × Nat)) (db : ObjectDatabase),
      (ms.foldl (fun db p => db.deleteSecondaryIndex s p.1 p.2) db).secondaryIndexes =
        (ms.map fun p => (s, p.1, p.2)).foldl List.erase db.secondaryIndexes
  | [], _ => rfl
  | p :: ms, db => foldl_deleteSecondaryIndex s ms (db.deleteSecondaryIndex s p.1 p.2)

theorem Attached.release_secondaryIndexes {s : UInt8} {db db' : ObjectDatabase}
    {ms : List (UInt8 × Nat)} (h : Attached s db db' ms) (contractName : String) :
    ((ContractDatabaseMonitor.mk contractName s ms).release db').secondaryIndexes =
      db.secondaryIndexes := by
  rw [ContractDatabaseMonitor.release, foldl_deleteSecondaryIndex, h.secondaryIndexes]
  refine foldl_erase_append db.secondaryIndexes _ fun x hx hmem => ?_
  obtain ⟨p, hp, rfl⟩ := List.mem_map.1 hx
  exact absurd (db.fresh _ hmem) (Nat.not_lt.2 (h.fresh p hp))

/-! ## Observation -/

/-- When the handler catches what every table of the space throws, `observeContract` returns the
monitors of the attach loop: one per table of the space that can be instrumented, in order. -/
theorem observeContract_of_caught {db : ObjectDatabase} {s : UInt8} (contractName : String)
    (hcaught : ∀ t ∈ db.tables, t.spaceId = s → t.failure.all Thrown.caught) :
    ∃ db' ms, db.observeContract s contractName = (db', .ok ⟨contractName, s, ms⟩) ∧
      Attached s db db' ms ∧
      ms.map Prod.fst = ((db.tables.filter (·.spaceId = s)).filter (·.failure = none)).map (·.typeId) := by
  obtain ⟨db', ms, hrun, hatt, hms⟩ := attachMonitors_of_caught s db _ fun t ht => by
    obtain ⟨ht, hs⟩ := List.mem_filter.1 ht
    exact ⟨ht, of_decide_eq_true hs, hcaught t ht (of_decide_eq_true hs)⟩
  exact ⟨db', ms, by simp only [ObjectDatabase.observeContract, hrun], hatt, hms⟩

/-- When the handler catches what every table of the space throws, `observeContract` returns a
handle with exactly one monitor on each table of the space that can be instrumented and none on
any other table; releasing it gives back the secondary indexes from before, so that none of its
monitors is left in any table's list. -/
theorem observeContract_release_restores (db : ObjectDatabase) (s : UInt8) (contractName : String)
    (hcaught : ∀ t ∈ db.tables, t.spaceId = s → t.failure.all Thrown.caught) :
    ∃ m, (db.observeContract s contractName).2 = .ok m ∧
      (∀ t ∈ db.tables, if t.spaceId = s ∧ t.failure = none then
          ∃ h, (t.typeId, h) ∈ m.monitors ∧
            (db.observeContract s contractName).1.indexesOf t.spaceId t.typeId =
              db.indexesOf t.spaceId t.typeId ++ [h]
        else (db.observeContract s contractName).1.indexesOf t.spaceId t.typeId =
          db.indexesOf t.spaceId t.typeId) ∧
      (m.release (db.observeContract s contractName).1).secondaryIndexes = db.secondaryIndexes ∧
      ∀ p ∈ m.monitors, ∀ spaceId typeId,
        p.2 ∉ (m.release (db.observeContract s contractName).1).indexesOf spaceId typeId := by
  obtain ⟨db', ms, hobs, hatt, hms⟩ := observeContract_of_caught contractName hcaught
  have hrel := hatt.release_secondaryIndexes contractName
  rw [hobs]
  refine ⟨⟨contractName, s, ms⟩, rfl, fun t ht => ?_, hrel, fun p hp spaceId typeId => ?_⟩
  · rw [hatt.indexesOf]
    by_cases hs : t.spaceId = s
    · have hf := filter_monitors_of_map_fst hms ht hs
      simp only [hs, true_and, if_true]
      split_ifs at hf ⊢
      · obtain ⟨h, hfilter⟩ := hf
        exact ⟨h, List.mem_of_mem_filter (hfilter ▸ List.mem_singleton_self _), by rw [hfilter]; rfl⟩
      · rw [hf, List.map_nil, List.append_nil]
    · simp only [hs, false_and, if_false, List.append_nil]
  · rw [ObjectDatabase.indexesOf_eq_of_secondaryIndexes hrel]
    exact ObjectDatabase.not_mem_indexesOf (hatt.fresh p hp) spaceId typeId

/-- A space `10` whose table of type `0` can be instrumented and whose table of type `1` throws
an `fc::exception_ptr`, beside a space `11` with one index attached. -/
def caughtFailure : ObjectDatabase where
  tables := [⟨10, 0, none⟩, ⟨10, 1, some (.exceptionPtr "incompatible table")⟩, ⟨11, 0, none⟩]
  unique := by decide
  secondaryIndexes := [(11, 0, 0)]
  nextHandle := 1
  fresh := by decide

theorem observeContract_release_restores_on_caught_failure :
    ∃ m, (caughtFailure.observeContract 10 "c").2 = .ok m ∧
      (m.release (caughtFailure.observeContract 10 "c").1).secondaryIndexes = [(11, 0, 0)] :=
  let ⟨m, hm, _, hrel, _⟩ := observeContract_release_restores caughtFailure 10 "c" (by decide)
  ⟨m, hm, hrel⟩

/-- The `MultiTableMonitor` a handle holds: a `TableMonitor` on the type of each attached
`(typeId, handle)`, its slot empty as the constructor leaves it. -/
def ContractDatabaseMonitor.tableMonitors {Obj : Type} (m : ContractDatabaseMonitor)
    (hnd : (m.monitors.map Prod.fst).Nodup) : MultiTableMonitor Obj :=
  ⟨m.monitors.map fun p => ⟨p.1, none⟩, by rw [List.map_map]; exact hnd⟩

/-- Observation sees every change: when the handler catches what every table of the space
throws, `observeContract` returns a handle whose monitors have distinct types, and over any
callbacks on the tables of the space that can be instrumented, interleaved in any order, they emit
the described events. -/
theorem observeContract_events_eq_describedEvents {Obj : Type} (db : ObjectDatabase) (s : UInt8)
    (contractName : String) (hcaught : ∀ t ∈ db.tables, t.spaceId = s → t.failure.all Thrown.caught) :
    ∃ m, ∃ hnd : (m.monitors.map Prod.fst).Nodup, (db.observeContract s contractName).2 = .ok m ∧
      ∀ cbs : List (Callback Obj),
        (∀ c ∈ cbs, ∃ t ∈ db.tables, t.spaceId = s ∧ t.failure = none ∧ t.typeId = c.typeId) →
        ((m.tableMonitors hnd).run cbs).2 = describedEventsAfter [] cbs := by
  obtain ⟨db', ms, hobs, -, hms⟩ := observeContract_of_caught contractName hcaught
  have hnd : (ms.map Prod.fst).Nodup := hms ▸ db.nodup_typeIds s _
  refine ⟨⟨contractName, s, ms⟩, hnd, by rw [hobs], fun cbs hcbs => ?_⟩
  let mm : MultiTableMonitor Obj := ContractDatabaseMonitor.tableMonitors ⟨contractName, s, ms⟩ hnd
  have hslots : mm.SlotsPending [] := fun m hm => by
    obtain ⟨p, -, rfl⟩ := List.mem_map.1 hm
    rfl
  have htypes : mm.monitors.map (·.typeId) = ms.map Prod.fst := List.map_map _ _ _
  refine (MultiTableMonitor.run_describedEventsAfter hslots cbs fun c hc => ?_).1
  obtain ⟨t, ht, hs, he, hty⟩ := hcbs c hc
  rw [htypes, hms, ← hty, ObjectDatabase.mem_typeIds_iff ht hs]
  exact decide_eq_true he

theorem observeContract_events_eq_describedEvents_on_caught_failure :
    ∃ m, (caughtFailure.observeContract 10 "c").2 = .ok m ∧ ∃ hnd,
      ((m.tableMonitors hnd : MultiTableMonitor Nat).run
        [.aboutToModify 0 5, .objectModified 0 6]).2 = [⟨.modified, 0, .change 5 6⟩] :=
  let ⟨m, hnd, hm, hrun⟩ :=
    @observeContract_events_eq_describedEvents Nat caughtFailure 10 "c" (by decide)
  ⟨m, hm, hnd, (hrun _ (by decide)).trans (by decide)⟩

/-- An exception the handler does not catch leaves `observeContract`: no handle is returned, so
no destructor runs, and the monitors attached to the tables before the failing one stay in their
tables' lists. -/
theorem observeContract_throws_leaving_monitors (db : ObjectDatabase) (s : UInt8)
    (contractName : String) (pre post : List Table) (bad : Table) (e : Thrown)
    (hsplit : db.tables.filter (·.spaceId = s) = pre ++ bad :: post)
    (hpre : ∀ t ∈ pre, t.failure.all Thrown.caught) (hbad : bad.failure = some e)
    (hc : e.caught = false) :
    (db.observeContract s contractName).2 = .error e ∧
      ∃ ms, Attached s db (db.observeContract s contractName).1 ms ∧
        ms.map Prod.fst = (pre.filter (·.failure = none)).map (·.typeId) := by
  have hmem : ∀ t ∈ pre ++ bad :: post, t ∈ db.tables ∧ t.spaceId = s := fun t ht => by
    rw [← hsplit] at ht
    exact (List.mem_filter.1 ht).imp_right of_decide_eq_true
  obtain ⟨db', ms, hrun, hatt, hms⟩ := attachMonitors_of_uncaught s post hbad hc db pre
    (hmem bad (by simp)).1 fun t ht => ⟨(hmem t (by simp [ht])).1, (hmem t (by simp [ht])).2, hpre t ht⟩
  have hobs : db.observeContract s contractName = (db', .error e) := by
    simp only [ObjectDatabase.observeContract, hsplit, hrun]
  rw [hobs]
  exact ⟨rfl, ms, hatt, hms⟩

/-- A space `10` whose table of type `0` can be instrumented and whose table of type `1` throws
an `fc::exception`. -/
def halfInstrumentable : ObjectDatabase where
  tables := [⟨10, 0, none⟩, ⟨10, 1, some (.fcException "incompatible table")⟩]
  unique := by decide
  secondaryIndexes := []
  nextHandle := 0
  fresh := by decide

theorem observeContract_throws_leaving_monitors_on_half_instrumentable :
    (halfInstrumentable.observeContract 10 "c").2 = .error (.fcException "incompatible table") ∧
      ∃ ms, Attached 10 halfInstrumentable (halfInstrumentable.observeContract 10 "c").1 ms ∧
        ms.map Prod.fst = [0] :=
  observeContract_throws_leaving_monitors halfInstrumentable 10 "c" [⟨10, 0, none⟩] []
    ⟨10, 1, some (.fcException "incompatible table")⟩ _ rfl (by decide) rfl rfl

example : (halfInstrumentable.observeContract 10 "c").1.indexesOf 10 0 = [0] := rfl

end PeerplaysContractNode
