import Mathlib.Data.List.Basic

/-!
# `TableMonitor`: a contract table's change events

`ChainHandler` observes a contract by attaching a `TableMonitor`, a `secondary_index`, to every
table of the contract's object space. The ledger calls each monitor on its own table; all the
monitors of one `MultiTableMonitor` emit on the four signals of the observing
`ContractDatabaseMonitor`, tagging each event with their table's type id. A monitor keeps the
snapshot of `about_to_modify` in `preModifiedObject` and pairs it with the next
`object_modified`; an `object_modified` without one is logged and emits nothing.

`describedEventsAfter` is the event stream as the protocol describes it, read from the callback
history alone (`pendingSnapshot`); `run_events_eq_describedEvents` says the monitors produce it.
Objects are `fc::variant_object`s; here they are any type `Obj`.
-/

namespace PeerplaysContractNode

/-- The four signals of a `ContractDatabaseMonitor`. -/
inductive Channel
  | loaded
  | created
  | deleted
  | modified
deriving DecidableEq, Repr

/-- What a signal carries after the type id: the object, or `{from, to}`. -/
inductive Payload (Obj : Type)
  | object (o : Obj)
  | change (before after : Obj)
deriving DecidableEq, Repr

/-- One event on a signal of the observing monitor. -/
structure Emitted (Obj : Type) where
  channel : Channel
  typeId : UInt8
  payload : Payload Obj
deriving DecidableEq, Repr

/-- A ledger callback on the table with type id `typeId`. -/
inductive Callback (Obj : Type)
  | objectLoaded (typeId : UInt8) (obj : Obj)
  | objectCreated (typeId : UInt8) (obj : Obj)
  | objectRemoved (typeId : UInt8) (obj : Obj)
  | aboutToModify (typeId : UInt8) (before : Obj)
  | objectModified (typeId : UInt8) (after : Obj)
deriving DecidableEq, Repr

variable {Obj : Type}

def Callback.typeId : Callback Obj → UInt8
  | .objectLoaded t _ | .objectCreated t _ | .objectRemoved t _ | .aboutToModify t _
  | .objectModified t _ => t

/-- Whether a callback opens or closes a modification. -/
def Callback.isModification : Callback Obj → Bool
  | .aboutToModify _ _ | .objectModified _ _ => true
  | _ => false

/-- `TableMonitor`: its table's type id and the stored pre-modification snapshot. -/
structure TableMonitor (Obj : Type) where
  typeId : UInt8
  preModifiedObject : Option Obj
deriving DecidableEq, Repr

namespace TableMonitor

/-- The `secondary_index` callbacks of one monitor: the monitor after the callback, and the event
it emits, if any. -/
def handle (m : TableMonitor Obj) : Callback Obj → TableMonitor Obj × Option (Emitted Obj)
  | .objectLoaded _ obj => (m, some ⟨.loaded, m.typeId, .object obj⟩)
  | .objectCreated _ obj => (m, some ⟨.created, m.typeId, .object obj⟩)
  | .objectRemoved _ obj => (m, some ⟨.deleted, m.typeId, .object obj⟩)
  | .aboutToModify _ before => (⟨m.typeId, some before⟩, none)
  | .objectModified _ after =>
    match m.preModifiedObject with
    | some before => (⟨m.typeId, none⟩, some ⟨.modified, m.typeId, .change before after⟩)
    | none => (m, none)

@[simp] theorem handle_typeId (m : TableMonitor Obj) (c : Callback Obj) :
    (m.handle c).1.typeId = m.typeId := by
  cases c with
  | objectModified _ after =>
    simp only [handle]
    split <;> rfl
  | _ => rfl

theorem handle_of_not_isModification {m : TableMonitor Obj} {c : Callback Obj}
    (h : c.isModification = false) : (m.handle c).1 = m := by
  cases c <;> first | rfl | simp [Callback.isModification] at h

end TableMonitor

/-- The monitors one `MultiTableMonitor` attached, one per table, so no type id twice. -/
structure MultiTableMonitor (Obj : Type) where
  monitors : List (TableMonitor Obj)
  nodup : (monitors.map (·.typeId)).Nodup

namespace MultiTableMonitor

/-- A callback on a table reaches that table's monitor. -/
def handle (mm : MultiTableMonitor Obj) (c : Callback Obj) :
    MultiTableMonitor Obj × Option (Emitted Obj) :=
  (⟨mm.monitors.map fun m => if m.typeId = c.typeId then (m.handle c).1 else m,
      by simpa [List.map_map, Function.comp_def, apply_ite] using mm.nodup⟩,
    (mm.monitors.find? (·.typeId = c.typeId)).bind fun m => (m.handle c).2)

/-- A sequence of callbacks: the monitors at its end, and the events in order. -/
def run (mm : MultiTableMonitor Obj) : List (Callback Obj) → MultiTableMonitor Obj × List (Emitted Obj)
  | [] => (mm, [])
  | c :: cs => ((run (mm.handle c).1 cs).1, (mm.handle c).2.toList ++ (run (mm.handle c).1 cs).2)

end MultiTableMonitor

/-! ## The events as the protocol describes them -/

/-- The snapshot pending on table `t` after `history`: that of the last `about_to_modify` on `t`,
unless an `object_modified` on `t` came after it. -/
def pendingSnapshot (t : UInt8) (history : List (Callback Obj)) : Option Obj :=
  match history.reverse.find? (fun c => c.typeId = t && c.isModification) with
  | some (.aboutToModify _ before) => some before
  | _ => none

/-- The event the protocol describes for callback `c` after `history`: the object on its
channel, the pending snapshot paired with the new object, or nothing. -/
def describedEvent (history : List (Callback Obj)) : Callback Obj → Option (Emitted Obj)
  | .objectLoaded t obj => some ⟨.loaded, t, .object obj⟩
  | .objectCreated t obj => some ⟨.created, t, .object obj⟩
  | .objectRemoved t obj => some ⟨.deleted, t, .object obj⟩
  | .aboutToModify _ _ => none
  | .objectModified t after => (pendingSnapshot t history).map fun before =>
    ⟨.modified, t, .change before after⟩

/-- The described events of `cbs`, each read after `history` and the callbacks before it. -/
def describedEventsAfter (history : List (Callback Obj)) : List (Callback Obj) → List (Emitted Obj)
  | [] => []
  | c :: cs => (describedEvent history c).toList ++ describedEventsAfter (history ++ [c]) cs

theorem find?_reverse_snoc (p : Callback Obj → Bool) (history : List (Callback Obj))
    (c : Callback Obj) :
    (history ++ [c]).reverse.find? p = if p c then some c else history.reverse.find? p := by
  rw [List.reverse_append, List.reverse_singleton, List.singleton_append, List.find?_cons]
  cases p c <;> rfl

/-- A callback on another table, or one that neither opens nor closes a modification, leaves the
pending snapshot of `t` as it was. -/
theorem pendingSnapshot_snoc_of_ne {t : UInt8} {c : Callback Obj}
    (h : c.typeId ≠ t ∨ c.isModification = false) (history : List (Callback Obj)) :
    pendingSnapshot t (history ++ [c]) = pendingSnapshot t history := by
  have hp : (decide (c.typeId = t) && c.isModification) = false := by
    rcases h with h | h <;> simp [h]
  simp only [pendingSnapshot, find?_reverse_snoc, hp, Bool.false_eq_true, if_false]

theorem pendingSnapshot_snoc_aboutToModify (t : UInt8) (before : Obj) (history : List (Callback Obj)) :
    pendingSnapshot t (history ++ [.aboutToModify t before]) = some before := by
  simp [pendingSnapshot, find?_reverse_snoc, Callback.typeId, Callback.isModification]

theorem pendingSnapshot_snoc_objectModified (t : UInt8) (after : Obj) (history : List (Callback Obj)) :
    pendingSnapshot t (history ++ [.objectModified t after]) = none := by
  simp [pendingSnapshot, find?_reverse_snoc, Callback.typeId, Callback.isModification]

/-! ## The monitors produce the described events -/

namespace MultiTableMonitor

/-- Every monitor's slot holds the snapshot pending on its table. -/
def SlotsPending (mm : MultiTableMonitor Obj) (history : List (Callback Obj)) : Prop :=
  ∀ m ∈ mm.monitors, m.preModifiedObject = pendingSnapshot m.typeId history

theorem find?_typeId {m : TableMonitor Obj} :
    ∀ {l : List (TableMonitor Obj)}, (l.map (·.typeId)).Nodup → m ∈ l →
      l.find? (·.typeId = m.typeId) = some m
  | [], _, hm => absurd hm (List.not_mem_nil _)
  | x :: l, hnd, hm => by
    rw [List.map_cons, List.nodup_cons] at hnd
    rcases List.mem_cons.1 hm with rfl | hm
    · simp
    · have hne : x.typeId ≠ m.typeId := fun h => hnd.1 (h ▸ List.mem_map_of_mem _ hm)
      simp [List.find?_cons, hne, find?_typeId hnd.2 hm]

/-- One callback keeps a monitor's slot at the snapshot pending on its table: the callback reaches
the monitor when it is on the monitor's table, and leaves it alone otherwise. -/
theorem slot_after_callback {m : TableMonitor Obj} {history : List (Callback Obj)}
    (hpre : m.preModifiedObject = pendingSnapshot m.typeId history) (c : Callback Obj) :
    (if m.typeId = c.typeId then (m.handle c).1 else m).preModifiedObject =
      pendingSnapshot m.typeId (history ++ [c]) := by
  split_ifs with ht
  · cases hmod : c.isModification
    · rw [TableMonitor.handle_of_not_isModification hmod, pendingSnapshot_snoc_of_ne (.inr hmod)]
      exact hpre
    · cases c with
      | aboutToModify t before =>
        simp only [Callback.typeId] at ht
        rw [ht, pendingSnapshot_snoc_aboutToModify]
        rfl
      | objectModified t after =>
        simp only [Callback.typeId] at ht
        rw [ht, pendingSnapshot_snoc_objectModified]
        simp only [TableMonitor.handle]
        split
        · rfl
        · assumption
      | _ => simp [Callback.isModification] at hmod
  · rw [pendingSnapshot_snoc_of_ne (.inl (Ne.symm ht))]
    exact hpre

/-- One callback on an attached table, from monitors whose slots hold the pending snapshots:
the event is the described one, and the slots hold the pending snapshots after it. -/
theorem handle_describedEvent {mm : MultiTableMonitor Obj} {history : List (Callback Obj)}
    (hslots : mm.SlotsPending history) (c : Callback Obj)
    (hc : c.typeId ∈ mm.monitors.map (·.typeId)) :
    (mm.handle c).2 = describedEvent history c ∧ (mm.handle c).1.SlotsPending (history ++ [c]) := by
  obtain ⟨m, hm, hmt⟩ := List.mem_map.1 hc
  refine ⟨?_, fun x hx => ?_⟩
  · simp only [handle, ← hmt, find?_typeId mm.nodup hm, Option.some_bind]
    cases c <;> simp only [Callback.typeId] at hmt <;> subst hmt <;>
      simp only [TableMonitor.handle, describedEvent]
    rw [hslots m hm]
    cases pendingSnapshot m.typeId history <;> rfl
  · obtain ⟨m', hm', rfl⟩ := List.mem_map.1 hx
    have hslot := slot_after_callback (hslots m' hm') c
    split_ifs at hslot ⊢ with ht
    · rwa [TableMonitor.handle_typeId]
    · exact hslot

/-- Over a run of callbacks on attached tables, from slots holding the pending snapshots, the
monitors emit the described events and their slots keep up with the history. -/
theorem run_describedEventsAfter {mm : MultiTableMonitor Obj} {history : List (Callback Obj)}
    (hslots : mm.SlotsPending history) (cbs : List (Callback Obj))
    (hcbs : ∀ c ∈ cbs, c.typeId ∈ mm.monitors.map (·.typeId)) :
    (mm.run cbs).2 = describedEventsAfter history cbs ∧ (mm.run cbs).1.SlotsPending (history ++ cbs) := by
  induction cbs generalizing mm history with
  | nil => simpa [run, describedEventsAfter] using hslots
  | cons c cs ih =>
    obtain ⟨hevent, hslots'⟩ := handle_describedEvent hslots c (hcbs c (List.mem_cons_self c cs))
    have hsame : (mm.handle c).1.monitors.map (·.typeId) = mm.monitors.map (·.typeId) := by
      simp [handle, List.map_map, Function.comp_def, apply_ite]
    obtain ⟨hevents, hslots''⟩ := ih hslots' fun c' hc' => hsame ▸ hcbs c' (List.mem_cons_of_mem c hc')
    refine ⟨by simp only [run, hevent, hevents, describedEventsAfter], ?_⟩
    simpa using hslots''

theorem run_append (mm : MultiTableMonitor Obj) (a b : List (Callback Obj)) :
    mm.run (a ++ b) = (((mm.run a).1.run b).1, (mm.run a).2 ++ ((mm.run a).1.run b).2) := by
  induction a generalizing mm with
  | nil => rfl
  | cons c a ih => simp [run, ih]

/-- An `object_modified` with no snapshot pending on its table leaves every monitor as it was. -/
theorem handle_objectModified_of_none {mm : MultiTableMonitor Obj} {history : List (Callback Obj)}
    (hslots : mm.SlotsPending history) {t : UInt8} (after : Obj)
    (hnone : pendingSnapshot t history = none) : (mm.handle (.objectModified t after)).1 = mm := by
  obtain ⟨ms, hnd⟩ := mm
  simp only [handle, MultiTableMonitor.mk.injEq]
  conv_rhs => rw [← List.map_id ms]
  refine List.map_congr_left fun m hm => ?_
  split_ifs with ht
  · have hpre : m.preModifiedObject = none := by
      rw [hslots m hm, ht]
      exact hnone
    simp [TableMonitor.handle, hpre]
  · rfl

/-- Two tables, with type ids `0` and `1`, attached with empty slots. -/
def twoTables : MultiTableMonitor Nat := ⟨[⟨0, none⟩, ⟨1, none⟩], by decide⟩

/-- Snapshots pair up per table, and an `object_modified` with nothing pending emits nothing. -/
example : (twoTables.run [.aboutToModify 0 5, .aboutToModify 1 7, .objectModified 0 6,
    .objectModified 0 9, .objectModified 1 8, .objectCreated 1 3]).2 =
    [⟨.modified, 0, .change 5 6⟩, ⟨.modified, 1, .change 7 8⟩, ⟨.created, 1, .object 3⟩] := by
  decide

/-- The change-event stream of an observed contract is complete and correctly paired. From
monitors just attached, over any callbacks on the contract's tables, interleaved in any order,
the events are the described ones: each `object_loaded`, `object_created` and `object_removed`
on its channel with its table's type id and object; each `object_modified` paired with the
snapshot pending on its own table, or nothing, leaving every monitor as it was; nothing for
`about_to_modify`. Every slot holds the snapshot pending on its table. -/
theorem run_events_eq_describedEvents (mm : MultiTableMonitor Obj)
    (hfresh : ∀ m ∈ mm.monitors, m.preModifiedObject = none) (cbs : List (Callback Obj))
    (hcbs : ∀ c ∈ cbs, c.typeId ∈ mm.monitors.map (·.typeId)) :
    (mm.run cbs).2 = describedEventsAfter [] cbs ∧
      (∀ m ∈ (mm.run cbs).1.monitors, m.preModifiedObject = pendingSnapshot m.typeId cbs) ∧
      ∀ history t after, history ++ [.objectModified t after] <+: cbs →
        pendingSnapshot t history = none →
        (mm.run (history ++ [.objectModified t after])).1 = (mm.run history).1 := by
  have hslots : mm.SlotsPending [] := fun m hm => by rw [hfresh m hm]; rfl
  obtain ⟨hevents, hfinal⟩ := run_describedEventsAfter hslots cbs hcbs
  refine ⟨hevents, hfinal, fun history t after hpre hnone => ?_⟩
  have hhist : ∀ c ∈ history, c.typeId ∈ mm.monitors.map (·.typeId) := fun c hc =>
    hcbs c (hpre.subset (List.mem_append_left _ hc))
  rw [run_append, run]
  exact handle_objectModified_of_none (run_describedEventsAfter hslots history hhist).2 after hnone

theorem run_events_eq_describedEvents_on_two_tables :
    (twoTables.run [.aboutToModify 0 5, .aboutToModify 1 7, .objectModified 0 6,
      .objectModified 0 9, .objectModified 1 8, .objectCreated 1 3]).2 =
      describedEventsAfter [] [.aboutToModify 0 5, .aboutToModify 1 7, .objectModified 0 6,
        .objectModified 0 9, .objectModified 1 8, .objectCreated 1 3] :=
  (run_events_eq_describedEvents twoTables (by decide) _ (by decide)).1

end MultiTableMonitor

end PeerplaysContractNode
