import Mathlib.Data.List.Sort
import Mathlib.Data.String.Basic

/-!
# Contract records in the persistence database

`ChainHandler` keeps, in its persistence database, one `ContractRecord` per contract it has
loaded, indexed by id and uniquely by name. A contract's object space in the chain database is
`FIRST_AVAILABLE_SPACE_ID + id.number`, returned as a `uint8_t`, so it is taken modulo `256`.

`initializeContract` looks a name up with `lower_bound` on the `by_name` index and an equality
test, and creates a record only when that fails. `findByName_eq_none_iff` and
`findByName_eq_some` say the lookup finds a record exactly when one has the name; `Registered`
is the shape every store reached this way has: the names in order of registration, numbered
from `0`.
-/

namespace PeerplaysContractNode

/-- `ChainHandler::FIRST_AVAILABLE_SPACE_ID`, the lowest object space given to contracts. -/
def firstAvailableSpaceId : UInt8 := 10

/-- `ContractRecord`: a contract this node has loaded before. Records are space `0`, type `0`,
so `id.number` is the instance number. -/
structure ContractRecord where
  id : Nat
  name : String
deriving DecidableEq, Repr

/-- `contractObjectSpaceId()`: `FIRST_AVAILABLE_SPACE_ID + id.number`, narrowed to `uint8_t`. -/
def ContractRecord.contractObjectSpaceId (r : ContractRecord) : UInt8 :=
  UInt8.ofNat (firstAvailableSpaceId.toNat + r.id)

@[simp] theorem ContractRecord.contractObjectSpaceId_mk (i : Nat) (name : String) :
    (ContractRecord.mk i name).contractObjectSpaceId = UInt8.ofNat (10 + i) := rfl

/-- The `ContractRecordIndex` of the persistence database: its records in order of creation and
the next instance number it gives out. Records are never removed. -/
structure Persistence where
  records : List ContractRecord
  nextId : Nat
deriving DecidableEq, Repr

namespace Persistence

variable (p : Persistence)

/-- A persistence database with no record. -/
def empty : Persistence := ⟨[], 0⟩

/-- The `by_name` index: the records ordered by name. -/
def indexByName : List ContractRecord :=
  p.records.insertionSort fun a b => a.name ≤ b.name

/-- `indexByName.lower_bound(name)`: the first record whose name is not below `name`. -/
def lowerBound (name : String) : Option ContractRecord :=
  p.indexByName.find? fun r => decide (name ≤ r.name)

/-- The lookup of `initializeContract`: `itr != indexByName.end() && itr->name == name`. -/
def findByName (name : String) : Option ContractRecord :=
  match p.lowerBound name with
  | some r => if r.name = name then some r else none
  | none => none

/-- `persistence.create<ContractRecord>`: a record with the next instance number. The `by_name`
index is unique, so a second record of a name makes `create` throw. -/
def create (name : String) : Except String (Persistence × ContractRecord) :=
  if p.records.any (·.name = name) then
    .error "Could not create object! Most likely a uniqueness constraint was violated."
  else .ok (⟨p.records ++ [⟨p.nextId, name⟩], p.nextId + 1⟩, ⟨p.nextId, name⟩)

variable {p}

theorem indexByName_sorted : p.indexByName.Sorted fun a b => a.name ≤ b.name := by
  haveI : IsTotal ContractRecord fun a b => a.name ≤ b.name := ⟨fun a b => le_total a.name b.name⟩
  haveI : IsTrans ContractRecord fun a b => a.name ≤ b.name := ⟨fun _ _ _ => le_trans⟩
  exact List.sorted_insertionSort _ _

theorem mem_indexByName {r : ContractRecord} : r ∈ p.indexByName ↔ r ∈ p.records :=
  List.mem_insertionSort _

/-- When a record has the name, `lower_bound` stops at a record of that name: every record before
it in the index is named below `name`, and the index is sorted. -/
theorem lowerBound_name_eq {name : String} {r : ContractRecord} (hr : r ∈ p.records)
    (hname : r.name = name) : ∃ f, p.lowerBound name = some f ∧ f.name = name := by
  cases hf : p.lowerBound name with
  | none =>
    have := List.find?_eq_none.1 hf r (mem_indexByName.2 hr)
    simp [hname] at this
  | some f =>
    obtain ⟨hle, as, bs, hsplit, hbefore⟩ := List.find?_eq_some.1 hf
    refine ⟨f, rfl, le_antisymm ?_ (of_decide_eq_true hle)⟩
    have hsorted := indexByName_sorted (p := p)
    have hrmem := mem_indexByName.2 hr
    rw [hsplit] at hsorted hrmem
    rcases List.mem_append.1 hrmem with has | hbs
    · have := hbefore r has
      simp [hname] at this
    · rcases List.mem_cons.1 hbs with rfl | hbs
      · exact hname.le
      · exact hname ▸ List.rel_of_sorted_cons (List.pairwise_append.1 hsorted).2.1 r hbs

theorem findByName_eq_none_iff {name : String} :
    p.findByName name = none ↔ ∀ r ∈ p.records, r.name ≠ name := by
  constructor
  · intro h r hr hname
    obtain ⟨f, hf, hfname⟩ := lowerBound_name_eq hr hname
    simp [findByName, hf, hfname] at h
  · intro h
    unfold findByName
    split
    · rename_i f hf
      have hmem := mem_indexByName.1 (List.mem_of_find?_eq_some hf)
      rw [if_neg (h f hmem)]
    · rfl

theorem findByName_eq_some {name : String} {r : ContractRecord} (h : p.findByName name = some r) :
    r ∈ p.records ∧ r.name = name := by
  unfold findByName at h
  split at h
  · rename_i f hf
    split at h
    · cases h
      exact ⟨mem_indexByName.1 (List.mem_of_find?_eq_some hf), ‹_›⟩
    · cases h
  · cases h

/-! ## Stores numbered in order of registration -/

/-- The records of the names `names`, numbered from `k` in order. -/
def numberedFrom : Nat → List String → List ContractRecord
  | _, [] => []
  | k, name :: names => ⟨k, name⟩ :: numberedFrom (k + 1) names

theorem numberedFrom_append (k : Nat) (names : List String) (name : String) :
    numberedFrom k (names ++ [name]) = numberedFrom k names ++ [⟨k + names.length, name⟩] := by
  induction names generalizing k with
  | nil => rfl
  | cons n names ih =>
    have hk : k + 1 + names.length = k + (names.length + 1) := by omega
    show ⟨k, n⟩ :: numberedFrom (k + 1) (names ++ [name]) =
      ⟨k, n⟩ :: numberedFrom (k + 1) names ++ [⟨k + (names.length + 1), name⟩]
    rw [ih, hk]
    rfl

theorem mem_numberedFrom {k : Nat} {names : List String} {r : ContractRecord} :
    r ∈ numberedFrom k names ↔ ∃ i, ∃ h : i < names.length, r = ⟨k + i, names[i]⟩ := by
  induction names generalizing k with
  | nil => simp [numberedFrom]
  | cons n names ih =>
    simp only [numberedFrom, List.mem_cons, ih, List.length_cons]
    constructor
    · rintro (rfl | ⟨i, hi, rfl⟩)
      · exact ⟨0, by omega, by simp⟩
      · exact ⟨i + 1, by omega, by simp [Nat.add_assoc, Nat.add_comm 1 i]⟩
    · rintro ⟨i, hi, rfl⟩
      cases i with
      | zero => exact .inl (by simp)
      | succ i => exact .inr ⟨i, by omega, by simp [Nat.add_assoc, Nat.add_comm 1 i]⟩

/-- The registration order of `names`: each name at its first appearance. -/
def register (order : List String) (name : String) : List String :=
  if name ∈ order then order else order ++ [name]

theorem mem_register_self (order : List String) (name : String) : name ∈ register order name := by
  unfold register
  split
  · assumption
  · exact List.mem_append_right _ (List.mem_singleton_self _)

theorem prefix_register (order : List String) (name : String) : order <+: register order name := by
  unfold register
  split
  · exact List.prefix_refl order
  · exact List.prefix_append order [name]

theorem register_nodup {order : List String} (h : order.Nodup) (name : String) :
    (register order name).Nodup := by
  unfold register
  split
  · exact h
  · exact List.nodup_append.2 ⟨h, List.nodup_singleton _, by simpa using ‹name ∉ order›⟩

/-- The store holds one record per name of `order`, numbered `0, 1, …` in that order, and the
next instance number is the next one. -/
structure Registered (p : Persistence) (order : List String) : Prop where
  records : p.records = numberedFrom 0 order
  nextId : p.nextId = order.length
  nodup : order.Nodup

theorem registered_empty : empty.Registered [] := ⟨rfl, rfl, List.nodup_nil⟩

theorem Registered.findByName_eq {order : List String} (hp : p.Registered order) {name : String}
    (hname : name ∈ order) : p.findByName name = some ⟨order.indexOf name, name⟩ := by
  have hmem : (⟨order.indexOf name, name⟩ : ContractRecord) ∈ p.records := by
    rw [hp.records, mem_numberedFrom]
    exact ⟨order.indexOf name, List.indexOf_lt_length.2 hname, by simp [List.indexOf_get]⟩
  obtain ⟨f, hf, hfname⟩ := lowerBound_name_eq hmem rfl
  have hfmem := mem_indexByName.1 (List.mem_of_find?_eq_some hf)
  rw [hp.records, mem_numberedFrom] at hfmem
  obtain ⟨i, hi, rfl⟩ := hfmem
  have hidx : order.indexOf order[i] = i := List.indexOf_getElem hp.nodup i hi
  have hfname' : order[i] = name := hfname
  have hf' : p.lowerBound name = some ⟨i, order[i]⟩ := by simpa using hf
  simp only [Persistence.findByName, hf', hfname', if_true]
  rw [← hfname', hidx]

/-- Creating the record of a name the store does not hold registers it. -/
theorem Registered.create_eq {order : List String} (hp : p.Registered order) {name : String}
    (hname : name ∉ order) :
    p.create name = .ok (⟨p.records ++ [⟨order.length, name⟩], order.length + 1⟩,
      ⟨order.length, name⟩) ∧
      Persistence.Registered ⟨p.records ++ [⟨order.length, name⟩], order.length + 1⟩
        (order ++ [name]) := by
  have hnone : ¬ p.records.any (·.name = name) := by
    simp only [List.any_eq_true, decide_eq_true_eq, not_exists, not_and]
    intro r hr hrname
    rw [hp.records, mem_numberedFrom] at hr
    obtain ⟨i, hi, rfl⟩ := hr
    exact hname (hrname ▸ List.getElem_mem hi)
  refine ⟨by simp only [Persistence.create, if_neg hnone, hp.nextId], ?_, by simp, ?_⟩
  · rw [hp.records, numberedFrom_append, Nat.zero_add]
  · exact List.nodup_append.2 ⟨hp.nodup, List.nodup_singleton _, by simpa using hname⟩

end Persistence

end PeerplaysContractNode
