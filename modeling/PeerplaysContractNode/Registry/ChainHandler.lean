import PeerplaysContractNode.Registry.ContractRecord

/-!
# `ChainHandler::initializeContract` and the live contract map

`initializeContract(name, initFunction)` finds or creates the contract's record, calls the
initializer once with the record's space id, and on `true` emplaces `spaceId → name` into
`loadedContracts`, a `std::map<uint8_t, std::string>`. `getSpaceId` searches that map by value.
The persistence database survives a restart of the process; `loadedContracts` starts empty.

Over any run of calls and restarts, the store is the names in order of first appearance,
numbered from `0`, and every call passes its initializer the space id of its name's record
(`run_registered`). That space id is `uint8_t`: the record numbered `246` gets space `0`, and
the one numbered `256` gets space `10` again, the first contract's. Below that wrap, within one
lifetime, the live map holds exactly the names whose initializer returned `true`, each under the
space its initializer was given (`run_lifetime_entries`, `run_getSpaceId_eq_ok_iff`).
-/

namespace PeerplaysContractNode

theorem uint8_lt_iff {a b : UInt8} : a < b ↔ a.toNat < b.toNat := Iff.rfl

/-- `std::map::emplace(k, v)` on the entries of a map in key order: `(k, v)` goes in at its place
when no entry has key `k`; otherwise the map is left as it is. -/
def emplaceEntry (k : UInt8) (v : String) : List (UInt8 × String) → List (UInt8 × String)
  | [] => [(k, v)]
  | e :: es => if k < e.1 then (k, v) :: e :: es
    else if k = e.1 then e :: es
    else e :: emplaceEntry k v es

theorem mem_emplaceEntry {k : UInt8} {v : String} {x : UInt8 × String} :
    ∀ {es : List (UInt8 × String)}, x ∈ emplaceEntry k v es → x = (k, v) ∨ x ∈ es
  | [], h => .inl (List.mem_singleton.1 h)
  | e :: es, h => by
    unfold emplaceEntry at h
    split_ifs at h
    · exact List.mem_cons.1 h
    · exact .inr h
    · rcases List.mem_cons.1 h with rfl | h
      · exact .inr (List.mem_cons_self _ _)
      · exact (mem_emplaceEntry h).imp_right (List.mem_cons_of_mem e)

/-- When every entry of key `k` already has value `v`, `emplace` adds `(k, v)` and nothing else. -/
theorem mem_emplaceEntry_iff {k : UInt8} {v : String} {x : UInt8 × String} :
    ∀ {es : List (UInt8 × String)}, (∀ e ∈ es, e.1 = k → e.2 = v) →
      (x ∈ emplaceEntry k v es ↔ x = (k, v) ∨ x ∈ es)
  | [], _ => by simp [emplaceEntry]
  | e :: es, h => by
    have ih := @mem_emplaceEntry_iff k v x es fun e' he' => h e' (List.mem_cons_of_mem e he')
    refine ⟨mem_emplaceEntry, fun hx => ?_⟩
    unfold emplaceEntry
    split_ifs with hlt heq
    · exact List.mem_cons.2 hx
    · rcases hx with rfl | hx
      · have he : (k, v) = e := Prod.ext heq (h e (List.mem_cons_self e es) heq.symm).symm
        exact he ▸ List.mem_cons_self e es
      · exact hx
    · rcases hx with rfl | hx
      · exact List.mem_cons_of_mem e (ih.2 (.inl rfl))
      · rcases List.mem_cons.1 hx with rfl | hx
        · exact List.mem_cons_self _ _
        · exact List.mem_cons_of_mem _ (ih.2 (.inr hx))

theorem pairwise_emplaceEntry (k : UInt8) (v : String) :
    ∀ {es : List (UInt8 × String)}, es.Pairwise (fun a b => a.1 < b.1) →
      (emplaceEntry k v es).Pairwise (fun a b => a.1 < b.1)
  | [], _ => List.pairwise_singleton _ _
  | e :: es, h => by
    rw [List.pairwise_cons] at h
    unfold emplaceEntry
    split_ifs with hlt heq
    · refine List.Pairwise.cons (fun y hy => ?_) (List.Pairwise.cons h.1 h.2)
      rcases List.mem_cons.1 hy with rfl | hy
      · exact hlt
      · exact uint8_lt_iff.2 ((uint8_lt_iff.1 hlt).trans (uint8_lt_iff.1 (h.1 y hy)))
    · exact List.Pairwise.cons h.1 h.2
    · refine List.Pairwise.cons (fun y hy => ?_) (pairwise_emplaceEntry k v h.2)
      rcases mem_emplaceEntry hy with rfl | hy
      · have hne : k.toNat ≠ e.1.toNat := fun h' => heq (UInt8.ext h')
        show e.1 < k
        exact uint8_lt_iff.2 (by have := uint8_lt_iff.not.1 hlt; omega)
      · exact h.1 y hy

/-- `std::map<uint8_t, std::string>`: entries in increasing key order, so no key twice. -/
structure LoadedContracts where
  entries : List (UInt8 × String)
  sorted : entries.Pairwise fun a b => a.1 < b.1

namespace LoadedContracts

def empty : LoadedContracts := ⟨[], List.Pairwise.nil⟩

/-- `loadedContracts.emplace(spaceId, name)`. -/
def emplace (m : LoadedContracts) (k : UInt8) (v : String) : LoadedContracts :=
  ⟨emplaceEntry k v m.entries, pairwise_emplaceEntry k v m.sorted⟩

end LoadedContracts

/-- What an initializer `initFunction(chain, spaceId)` does: return a result, or throw. -/
inductive InitResult
  | returned (success : Bool)
  | threw (message : String)

/-- The part of `ChainHandler` the registry uses: the persistence database and
`loadedContracts`. -/
structure ChainHandler where
  persistence : Persistence
  loadedContracts : LoadedContracts

/-- One call of `initializeContract`: the handler after it, the space id its initializer was
invoked with (`none` when it was not invoked), and the call's result or exception. -/
structure InitializeContractResult where
  handler : ChainHandler
  spaceId : Option UInt8
  result : Except String Bool

namespace Persistence

/-- The record `initializeContract` settles on: the one the lookup finds, or a new one. -/
def recordFor (p : Persistence) (name : String) : Except String (Persistence × ContractRecord) :=
  match p.findByName name with
  | some record => .ok (p, record)
  | none => p.create name

end Persistence

namespace ChainHandler

/-- A node that has never loaded a contract. -/
def empty : ChainHandler := ⟨Persistence.empty, LoadedContracts.empty⟩

/-- `initializeContract(name, initFunction)`. -/
def initializeContract (h : ChainHandler) (name : String) (initFunction : UInt8 → InitResult) :
    InitializeContractResult :=
  match h.persistence.recordFor name with
  | .error e => ⟨h, none, .error e⟩
  | .ok (persistence, record) =>
    match initFunction record.contractObjectSpaceId with
    | .returned true =>
      ⟨⟨persistence, h.loadedContracts.emplace record.contractObjectSpaceId name⟩,
        some record.contractObjectSpaceId, .ok true⟩
    | .returned false => ⟨⟨persistence, h.loadedContracts⟩, some record.contractObjectSpaceId, .ok false⟩
    | .threw message => ⟨⟨persistence, h.loadedContracts⟩, some record.contractObjectSpaceId, .error message⟩

/-- `getSpaceId(contractName)`: the first key, in key order, whose value is the name; the
`FC_ASSERT` fails when there is none. -/
def getSpaceId (h : ChainHandler) (contractName : String) : Except String UInt8 :=
  match h.loadedContracts.entries.find? (fun e => e.2 = contractName) with
  | some e => .ok e.1
  | none => .error ("[ChainHandler] Could not find contract named " ++ contractName)

/-! ## Runs of calls and restarts -/

/-- What happens to the registry: a call of `initializeContract`, or a restart of the process,
which keeps the persistence database and starts `loadedContracts` empty. -/
inductive Action
  | initializeContract (name : String) (initFunction : UInt8 → InitResult)
  | restart

/-- One call as the run records it: the name, the space id passed to the initializer, and the
result. -/
structure Call where
  name : String
  spaceId : Option UInt8
  result : Except String Bool

/-- A run: the handler at its end, and its calls in order. -/
def run (h : ChainHandler) : List Action → ChainHandler × List Call
  | [] => (h, [])
  | .restart :: acts => run ⟨h.persistence, LoadedContracts.empty⟩ acts
  | .initializeContract name initFunction :: acts =>
    ((run (h.initializeContract name initFunction).handler acts).1,
      ⟨name, (h.initializeContract name initFunction).spaceId,
        (h.initializeContract name initFunction).result⟩ ::
        (run (h.initializeContract name initFunction).handler acts).2)

/-- The names passed to `initializeContract` in a run, in order. -/
def calledNames : List Action → List String
  | [] => []
  | .initializeContract name _ :: acts => name :: calledNames acts
  | .restart :: acts => calledNames acts

/-- The names of a run in order of first appearance. -/
def registrationOrder (acts : List Action) : List String :=
  (calledNames acts).foldl Persistence.register []

end ChainHandler

/-! ## One call -/

namespace Persistence

variable {p : Persistence} {order : List String}

/-- In a registered store, `initializeContract` settles on the record of the name's place in the
registration order, registering the name if it is new; records are only appended. -/
theorem Registered.recordFor (hp : p.Registered order) (name : String) :
    ∃ p', p.recordFor name = .ok (p', ⟨(register order name).indexOf name, name⟩) ∧
      p'.Registered (register order name) ∧ p.records <+: p'.records := by
  by_cases hname : name ∈ order
  · refine ⟨p, ?_, by simpa [register, hname] using hp, List.prefix_refl _⟩
    simp [Persistence.recordFor, hp.findByName_eq hname, register, hname]
  · have hnone : p.findByName name = none := findByName_eq_none_iff.2 fun r hr hrname => by
      rw [hp.records, mem_numberedFrom] at hr
      obtain ⟨i, hi, rfl⟩ := hr
      exact hname (hrname ▸ List.getElem_mem hi)
    obtain ⟨hcreate, hreg⟩ := hp.create_eq hname
    have hidx : (order ++ [name]).indexOf name = order.length := by
      rw [List.indexOf_append_of_not_mem hname, List.indexOf_cons_self]
      rfl
    refine ⟨_, ?_, by simpa [register, hname] using hreg, List.prefix_append _ _⟩
    simp only [Persistence.recordFor, hnone, hcreate, register, if_neg hname, hidx]

/-- Every record of a registered store sits at its name's place in the order. -/
theorem Registered.eq_of_mem (hp : p.Registered order) {r : ContractRecord} (hr : r ∈ p.records) :
    r = ⟨order.indexOf r.name, r.name⟩ := by
  rw [hp.records, mem_numberedFrom] at hr
  obtain ⟨i, hi, rfl⟩ := hr
  simp [List.indexOf_getElem hp.nodup i hi]

end Persistence

namespace ChainHandler

variable {h : ChainHandler} {order : List String}

/-- One call in a registered store: the store stays registered and only grows, and the
initializer is passed the space id of the name's record. -/
theorem initializeContract_registered (hp : h.persistence.Registered order) (name : String)
    (initFunction : UInt8 → InitResult) :
    (h.initializeContract name initFunction).handler.persistence.Registered
        (Persistence.register order name) ∧
      h.persistence.records <+: (h.initializeContract name initFunction).handler.persistence.records ∧
      ∃ r ∈ (h.initializeContract name initFunction).handler.persistence.records,
        r.name = name ∧ (h.initializeContract name initFunction).spaceId = some r.contractObjectSpaceId := by
  obtain ⟨p', hrec, hreg, hpre⟩ := hp.recordFor name
  have hmem : (⟨(Persistence.register order name).indexOf name, name⟩ : ContractRecord) ∈ p'.records := by
    rw [hreg.records, Persistence.mem_numberedFrom]
    exact ⟨_, List.indexOf_lt_length.2 (Persistence.mem_register_self order name),
      by simp [List.indexOf_get]⟩
  simp only [initializeContract, hrec]
  split <;> exact ⟨hreg, hpre, _, hmem, rfl, rfl⟩

theorem run_restart (acts : List Action) :
    h.run (.restart :: acts) = (⟨h.persistence, LoadedContracts.empty⟩ : ChainHandler).run acts := rfl

/-- Over any run of calls and restarts from a registered store, the store stays registered in
order of first appearance and only grows, there is one call record per call, and each call's
initializer is passed the space id of its name's record in the final store. -/
theorem run_registered (hp : h.persistence.Registered order) (acts : List Action) :
    (h.run acts).1.persistence.Registered ((calledNames acts).foldl Persistence.register order) ∧
      h.persistence.records <+: (h.run acts).1.persistence.records ∧
      (h.run acts).2.map Call.name = calledNames acts ∧
      ∀ c ∈ (h.run acts).2, ∃ r ∈ (h.run acts).1.persistence.records,
        r.name = c.name ∧ c.spaceId = some r.contractObjectSpaceId := by
  induction acts generalizing h order with
  | nil => exact ⟨hp, List.prefix_refl _, rfl, fun c hc => absurd hc (List.not_mem_nil c)⟩
  | cons a acts ih =>
    cases a with
    | restart => exact ih (h := ⟨h.persistence, LoadedContracts.empty⟩) hp
    | initializeContract name initFunction =>
      obtain ⟨hreg, hpre, r, hr, hrname, hspace⟩ := initializeContract_registered hp name initFunction
      obtain ⟨hreg', hpre', hnames, hcalls⟩ := ih hreg
      refine ⟨hreg', hpre.trans hpre', by simp [run, calledNames, hnames], fun c hc => ?_⟩
      rcases List.mem_cons.1 hc with rfl | hc
      · exact ⟨r, hpre'.subset hr, hrname, hspace⟩
      · exact hcalls c hc

theorem run_append (h : ChainHandler) (a b : List Action) :
    (h.run (a ++ b)).1 = ((h.run a).1.run b).1 := by
  induction a generalizing h with
  | nil => rfl
  | cons x a ih =>
    cases x with
    | restart => exact ih _
    | initializeContract name initFunction => exact ih _

theorem mem_foldl_register {name : String} :
    ∀ {names order : List String},
      name ∈ names.foldl Persistence.register order ↔ name ∈ order ∨ name ∈ names
  | [], _ => by simp
  | n :: names, order => by
    rw [List.foldl_cons, mem_foldl_register]
    by_cases hn : n ∈ order
    · simp only [Persistence.register, if_pos hn, List.mem_cons]
      constructor
      · rintro (h | h) <;> simp [h]
      · rintro (h | rfl | h)
        · exact .inl h
        · exact .inl hn
        · exact .inr h
    · simp [Persistence.register, hn, or_assoc]

theorem foldl_register_of_nodup :
    ∀ {names order : List String}, (order ++ names).Nodup →
      names.foldl Persistence.register order = order ++ names
  | [], _, _ => by simp
  | n :: names, order, h => by
    have hn : n ∉ order := fun hn => (List.nodup_append.1 h).2.2 hn (List.mem_cons_self n names)
    rw [List.foldl_cons, Persistence.register, if_neg hn, foldl_register_of_nodup (by simpa using h)]
    simp

/-- From a node that never loaded a contract, the store is registered in order of first
appearance, and each call passes its initializer the space id of its name's place in that
order. -/
theorem empty_run_registered (acts : List Action) :
    (empty.run acts).1.persistence.Registered (registrationOrder acts) ∧
      (empty.run acts).2.map Call.name = calledNames acts ∧
      ∀ c ∈ (empty.run acts).2, c.spaceId =
        some (ContractRecord.mk ((registrationOrder acts).indexOf c.name) c.name).contractObjectSpaceId := by
  obtain ⟨hreg, -, hnames, hcalls⟩ :=
    run_registered (show empty.persistence.Registered [] from Persistence.registered_empty) acts
  refine ⟨hreg, hnames, fun c hc => ?_⟩
  obtain ⟨r, hr, hrname, hspace⟩ := hcalls c hc
  rw [hspace, hreg.eq_of_mem hr, hrname]
  rfl

/-- Registry space ids are stable. Over any run of `initializeContract` calls, with any
initializer outcomes, split by any restarts, from a node that never loaded a contract: the store
holds one record per name passed, numbered `0, 1, …` in order of first appearance, and the next
instance number follows them; the records of every earlier point of the run are kept unchanged
at the front; and every call invokes its initializer once, with the space id of its name's
record. -/
theorem run_registry_stable (acts : List Action) :
    (empty.run acts).1.persistence.records = Persistence.numberedFrom 0 (registrationOrder acts) ∧
      (empty.run acts).1.persistence.nextId = (registrationOrder acts).length ∧
      (registrationOrder acts).Nodup ∧
      (∀ name, name ∈ registrationOrder acts ↔ name ∈ calledNames acts) ∧
      (∀ k, (empty.run (acts.take k)).1.persistence.records <+:
        (empty.run acts).1.persistence.records) ∧
      (empty.run acts).2.map Call.name = calledNames acts ∧
      ∀ c ∈ (empty.run acts).2, c.spaceId =
        some (ContractRecord.mk ((registrationOrder acts).indexOf c.name) c.name).contractObjectSpaceId := by
  obtain ⟨hreg, hnames, hcalls⟩ := empty_run_registered acts
  refine ⟨hreg.records, hreg.nextId, hreg.nodup, fun name => ?_, fun k => ?_, hnames, hcalls⟩
  · rw [registrationOrder, mem_foldl_register]
    simp
  · rw [← List.take_append_drop k acts, run_append, List.take_append_drop]
    exact (run_registered (empty_run_registered (acts.take k)).1 (acts.drop k)).2.1

/-- The distinct contract names `"a"`, `"aa"`, …, with `k` of them. -/
def contractNames (k : Nat) : List String :=
  (List.range k).map fun i => ⟨List.replicate (i + 1) 'a'⟩

theorem contractNames_nodup (k : Nat) : (contractNames k).Nodup := by
  refine (List.nodup_range k).map fun i j hij => ?_
  have := congrArg (fun s => s.data.length) hij
  simpa using this

theorem getElem_contractNames (k i : Nat) (hi : i < (contractNames k).length) :
    (contractNames k)[i] = ⟨List.replicate (i + 1) 'a'⟩ := by
  simp [contractNames]

/-- One lifetime that initializes each of `contractNames k` once, every initializer returning
`true`. -/
def registerAll (k : Nat) : List Action :=
  (contractNames k).map fun name => .initializeContract name fun _ => .returned true

theorem calledNames_registerAll (k : Nat) : calledNames (registerAll k) = contractNames k := by
  unfold registerAll
  induction contractNames k with
  | nil => rfl
  | cons n names ih => simp [calledNames, ih]

theorem registrationOrder_registerAll (k : Nat) :
    registrationOrder (registerAll k) = contractNames k := by
  rw [registrationOrder, calledNames_registerAll, foldl_register_of_nodup (by simpa using contractNames_nodup k)]
  rfl

/-- Registry space ids collide. Once a run has registered 257 names, the records numbered `0` and
`256` both get space id `10`, so the initializers of two different contracts are passed the same
space, and the record numbered `246` gets space id `0`, a space below
`FIRST_AVAILABLE_SPACE_ID`. -/
theorem run_contractObjectSpaceId_wraps (acts : List Action)
    (h257 : 257 ≤ (registrationOrder acts).length) :
    ∃ n₀ n₁ n₂, n₀ ≠ n₂ ∧
      ⟨0, n₀⟩ ∈ (empty.run acts).1.persistence.records ∧
      ⟨246, n₁⟩ ∈ (empty.run acts).1.persistence.records ∧
      ⟨256, n₂⟩ ∈ (empty.run acts).1.persistence.records ∧
      (ContractRecord.mk 0 n₀).contractObjectSpaceId = 10 ∧
      (ContractRecord.mk 246 n₁).contractObjectSpaceId = 0 ∧
      (ContractRecord.mk 256 n₂).contractObjectSpaceId = 10 ∧
      ∀ c ∈ (empty.run acts).2, c.name = n₀ ∨ c.name = n₂ → c.spaceId = some 10 := by
  obtain ⟨hreg, -, hcalls⟩ := empty_run_registered acts
  have hmem : ∀ i (hi : i < (registrationOrder acts).length),
      (⟨i, (registrationOrder acts)[i]⟩ : ContractRecord) ∈ (empty.run acts).1.persistence.records :=
    fun i hi => by
      rw [hreg.records, Persistence.mem_numberedFrom]
      exact ⟨i, hi, by simp⟩
  have hidx := fun i hi => List.indexOf_getElem hreg.nodup i hi
  refine ⟨_, _, _, fun heq => ?_, hmem 0 (by omega), hmem 246 (by omega), hmem 256 (by omega),
    rfl, by rw [ContractRecord.contractObjectSpaceId_mk]; rfl,
    by rw [ContractRecord.contractObjectSpaceId_mk]; rfl, fun c hc hname => ?_⟩
  · have := (hreg.nodup.getElem_inj_iff (i := 0) (j := 256)).1 heq
    omega
  · rw [hcalls c hc]
    rcases hname with hname | hname <;>
      rw [hname, hidx _ (by omega), ContractRecord.contractObjectSpaceId_mk] <;> rfl

theorem run_contractObjectSpaceId_wraps_at_257 :
    257 ≤ (registrationOrder (registerAll 257)).length ∧
      ∃ n₀ n₁ n₂, n₀ ≠ n₂ ∧
        ⟨0, n₀⟩ ∈ (empty.run (registerAll 257)).1.persistence.records ∧
        ⟨246, n₁⟩ ∈ (empty.run (registerAll 257)).1.persistence.records ∧
        ⟨256, n₂⟩ ∈ (empty.run (registerAll 257)).1.persistence.records ∧
        (ContractRecord.mk 0 n₀).contractObjectSpaceId = 10 ∧
        (ContractRecord.mk 246 n₁).contractObjectSpaceId = 0 ∧
        (ContractRecord.mk 256 n₂).contractObjectSpaceId = 10 ∧
        ∀ c ∈ (empty.run (registerAll 257)).2, c.name = n₀ ∨ c.name = n₂ → c.spaceId = some 10 :=
  have h257 : 257 ≤ (registrationOrder (registerAll 257)).length := by
    simp [registrationOrder_registerAll, contractNames]
  ⟨h257, run_contractObjectSpaceId_wraps (registerAll 257) h257⟩

/-- The live map loses a contract. In one lifetime on a registered store of at least 257 records,
the contracts numbered `0` and `256` both get space id `10`. When both initialize successfully,
the second `emplace` finds key `10` taken and keeps the first name, so `getSpaceId` of the second
contract fails although its initializer returned `true`. -/
theorem getSpaceId_fails_after_wrap {p : Persistence} {order : List String}
    (hp : p.Registered order) (h257 : 257 ≤ order.length) :
    (((ChainHandler.mk p LoadedContracts.empty).run
        [.initializeContract order[0] fun _ => .returned true,
          .initializeContract order[256] fun _ => .returned true]).2.map
        fun c => (c.spaceId, c.result)) = [(some 10, .ok true), (some 10, .ok true)] ∧
      ((ChainHandler.mk p LoadedContracts.empty).run
        [.initializeContract order[0] fun _ => .returned true,
          .initializeContract order[256] fun _ => .returned true]).1.getSpaceId order[256] =
        .error ("[ChainHandler] Could not find contract named " ++ order[256]) ∧
      ((ChainHandler.mk p LoadedContracts.empty).run
        [.initializeContract order[0] fun _ => .returned true,
          .initializeContract order[256] fun _ => .returned true]).1.getSpaceId order[0] = .ok 10 := by
  have hidx := fun i hi => List.indexOf_getElem hp.nodup i hi
  have h0 := hp.findByName_eq (List.getElem_mem (show 0 < order.length by omega))
  have h256 := hp.findByName_eq (List.getElem_mem (show 256 < order.length by omega))
  rw [hidx 0 (by omega)] at h0
  rw [hidx 256 (by omega)] at h256
  have hs0 : (ContractRecord.mk 0 order[0]).contractObjectSpaceId = 10 := by
    rw [ContractRecord.contractObjectSpaceId_mk]; rfl
  have hs256 : (ContractRecord.mk 256 order[256]).contractObjectSpaceId = 10 := by
    rw [ContractRecord.contractObjectSpaceId_mk]; rfl
  have hne : order[0] ≠ order[256] := fun h => by
    have := (hp.nodup.getElem_inj_iff).1 h
    omega
  simp only [run, initializeContract, Persistence.recordFor, h0, h256, hs0, hs256,
    LoadedContracts.emplace, LoadedContracts.empty, emplaceEntry, getSpaceId]
  simp [hne, hne.symm]

theorem getSpaceId_fails_after_wrap_at_257 :
    (empty.run (registerAll 257)).1.persistence.Registered (contractNames 257) ∧
      257 ≤ (contractNames 257).length ∧
      ((ChainHandler.mk (empty.run (registerAll 257)).1.persistence LoadedContracts.empty).run
        [.initializeContract ⟨List.replicate 1 'a'⟩ fun _ => .returned true,
          .initializeContract ⟨List.replicate 257 'a'⟩ fun _ => .returned true]).1.getSpaceId
        ⟨List.replicate 257 'a'⟩ =
        .error ("[ChainHandler] Could not find contract named " ++ ⟨List.replicate 257 'a'⟩) := by
  have hreg : (empty.run (registerAll 257)).1.persistence.Registered (contractNames 257) :=
    registrationOrder_registerAll 257 ▸ (empty_run_registered (registerAll 257)).1
  have h257 : 257 ≤ (contractNames 257).length := by simp [contractNames]
  have hfail := (getSpaceId_fails_after_wrap hreg h257).2.1
  simp only [getElem_contractNames] at hfail
  exact ⟨hreg, h257, hfail⟩

/-! ## One lifetime below the wrap -/

/-- One lifetime's calls of `initializeContract`, with no restart between them. -/
def lifetime (calls : List (String × (UInt8 → InitResult))) : List Action :=
  calls.map fun c => .initializeContract c.1 c.2

theorem calledNames_lifetime (calls : List (String × (UInt8 → InitResult))) :
    calledNames (lifetime calls) = calls.map Prod.fst := by
  induction calls with
  | nil => rfl
  | cons c calls ih => exact congrArg (c.1 :: ·) ih

/-- The space id of a name's record in a store registered in `order`. -/
def spaceIn (order : List String) (name : String) : UInt8 :=
  (ContractRecord.mk (order.indexOf name) name).contractObjectSpaceId

theorem uint8_ofNat_toNat (n : Nat) : (UInt8.ofNat n).toNat = n % 256 := rfl

theorem spaceIn_inj {order : List String} (hsmall : order.length ≤ 246) {a b : String}
    (ha : a ∈ order) (hb : b ∈ order) (h : spaceIn order a = spaceIn order b) : a = b := by
  have hia := List.indexOf_lt_length.2 ha
  have hib := List.indexOf_lt_length.2 hb
  have htoNat := congrArg UInt8.toNat h
  simp only [spaceIn, ContractRecord.contractObjectSpaceId_mk, uint8_ofNat_toNat] at htoNat
  exact (List.indexOf_inj ha hb).1 (by omega)

theorem spaceIn_eq_of_mem {order order' : List String} (h : order <+: order') {name : String}
    (hname : name ∈ order) : spaceIn order' name = spaceIn order name := by
  obtain ⟨rest, rfl⟩ := h
  simp only [spaceIn, List.indexOf_append_of_mem hname]

theorem prefix_foldl_register :
    ∀ (names order : List String), order <+: names.foldl Persistence.register order
  | [], order => List.prefix_refl order
  | n :: names, order =>
    (Persistence.prefix_register order n).trans (prefix_foldl_register names _)

/-- A call whose initializer does not return `true` leaves `loadedContracts` as it was. -/
theorem initializeContract_loadedContracts_of_ne (h : ChainHandler) (name : String)
    (initFunction : UInt8 → InitResult)
    (hres : (h.initializeContract name initFunction).result ≠ .ok true) :
    (h.initializeContract name initFunction).handler.loadedContracts = h.loadedContracts := by
  unfold initializeContract at hres ⊢
  split
  · rfl
  · split
    · simp_all
    · rfl
    · rfl

/-- One call in a registered store passes its initializer the space of the name's record, and
emplaces the name under it when the initializer returns `true`. -/
theorem initializeContract_entries (hp : h.persistence.Registered order) (name : String)
    (initFunction : UInt8 → InitResult) :
    (h.initializeContract name initFunction).spaceId =
        some (spaceIn (Persistence.register order name) name) ∧
      ((h.initializeContract name initFunction).result = .ok true →
        (h.initializeContract name initFunction).handler.loadedContracts.entries =
          emplaceEntry (spaceIn (Persistence.register order name) name) name
            h.loadedContracts.entries) := by
  obtain ⟨p', hrec, -, -⟩ := hp.recordFor name
  simp only [initializeContract, hrec]
  split <;> simp_all [spaceIn, LoadedContracts.emplace]

theorem mem_entries_of_getSpaceId_eq_ok {name : String} {s : UInt8}
    (hs : h.getSpaceId name = .ok s) : (s, name) ∈ h.loadedContracts.entries := by
  unfold getSpaceId at hs
  split at hs
  · rename_i e hfind
    cases hs
    have hename := List.find?_some hfind
    simp only [decide_eq_true_eq] at hename
    rw [← hename]
    exact List.mem_of_find?_eq_some hfind
  · cases hs

theorem getSpaceId_eq_ok_of_mem {F : List String}
    (hkey : ∀ e ∈ h.loadedContracts.entries, e.1 = spaceIn F e.2) {name : String}
    (hmem : (spaceIn F name, name) ∈ h.loadedContracts.entries) :
    h.getSpaceId name = .ok (spaceIn F name) := by
  unfold getSpaceId
  split
  · rename_i e hfind
    have hename := List.find?_some hfind
    simp only [decide_eq_true_eq] at hename
    rw [hkey e (List.mem_of_find?_eq_some hfind), hename]
  · rename_i hfind
    simpa using List.find?_eq_none.1 hfind _ hmem

section Lifetime

variable {F : List String} (hF : F.length ≤ 246)
include hF

/-- One call, below the wrap, in a lifetime whose registration order ends as `F`, from a map
whose entries sit under their names' spaces: the map gains the call's name under its space
exactly when the initializer returns `true`, and nothing else changes. -/
theorem initializeContract_mem_entries {order : List String} {name : String}
    (hp : h.persistence.Registered order) (hpre : Persistence.register order name <+: F)
    (hinv : ∀ e ∈ h.loadedContracts.entries, e.2 ∈ order ∧ e.1 = spaceIn F e.2)
    (f : UInt8 → InitResult) (e : UInt8 × String) :
    e ∈ (h.initializeContract name f).handler.loadedContracts.entries ↔
      e ∈ h.loadedContracts.entries ∨
        (name = e.2 ∧ (h.initializeContract name f).result = .ok true ∧ e.1 = spaceIn F e.2) := by
  have hname := Persistence.mem_register_self order name
  by_cases hres : (h.initializeContract name f).result = .ok true
  · have hkey : ∀ e' ∈ h.loadedContracts.entries, e'.1 = spaceIn F name → e'.2 = name :=
      fun e' he' hkey => spaceIn_inj hF
        (hpre.subset ((Persistence.prefix_register order name).subset (hinv e' he').1))
        (hpre.subset hname) ((hinv e' he').2 ▸ hkey)
    rw [(initializeContract_entries hp name f).2 hres, ← spaceIn_eq_of_mem hpre hname,
      mem_emplaceEntry_iff hkey, Prod.ext_iff]
    simp only [hres, true_and]
    constructor
    · rintro (⟨h1, h2⟩ | he)
      · exact .inr ⟨h2.symm, by rw [h2]; exact h1⟩
      · exact .inl he
    · rintro (he | ⟨h2, h1⟩)
      · exact .inr he
      · exact .inl ⟨by rw [h2]; exact h1, h2.symm⟩
  · rw [initializeContract_loadedContracts_of_ne h name f hres]
    simp only [hres, false_and, and_false, or_false]

/-- One call keeps every entry of the live map under its name's space, its name registered. -/
theorem initializeContract_entries_sit {order : List String} {name : String}
    (hp : h.persistence.Registered order) (hpre : Persistence.register order name <+: F)
    (hinv : ∀ e ∈ h.loadedContracts.entries, e.2 ∈ order ∧ e.1 = spaceIn F e.2)
    (f : UInt8 → InitResult) :
    ∀ e ∈ (h.initializeContract name f).handler.loadedContracts.entries,
      e.2 ∈ Persistence.register order name ∧ e.1 = spaceIn F e.2 := fun e he => by
  rcases (initializeContract_mem_entries hF hp hpre hinv f e).1 he with he | ⟨rfl, -, h1⟩
  · exact ⟨(Persistence.prefix_register order name).subset (hinv e he).1, (hinv e he).2⟩
  · exact ⟨Persistence.mem_register_self order e.2, h1⟩

/-- Right after a call whose initializer returns `true`, `getSpaceId` finds the name under the
space its initializer was given. -/
theorem getSpaceId_after_initializeContract {order : List String} {name : String}
    (hp : h.persistence.Registered order) (hpre : Persistence.register order name <+: F)
    (hinv : ∀ e ∈ h.loadedContracts.entries, e.2 ∈ order ∧ e.1 = spaceIn F e.2)
    (f : UInt8 → InitResult) (hres : (h.initializeContract name f).result = .ok true) :
    (h.initializeContract name f).handler.getSpaceId name = .ok (spaceIn F name) :=
  getSpaceId_eq_ok_of_mem (fun e he => (initializeContract_entries_sit hF hp hpre hinv f e he).2)
    ((initializeContract_mem_entries hF hp hpre hinv f _).2 (.inr ⟨rfl, hres, rfl⟩))

/-- Over one lifetime whose registration order ends as `F`, below the wrap: the live map holds
what it held at the start and, for each call whose initializer returned `true`, the name under
the space of its record in `F`. -/
theorem run_lifetime_entries : ∀ (calls : List (String × (UInt8 → InitResult)))
    (h : ChainHandler) (order : List String), h.persistence.Registered order →
    (calls.map Prod.fst).foldl Persistence.register order = F →
    (∀ e ∈ h.loadedContracts.entries, e.2 ∈ order ∧ e.1 = spaceIn F e.2) →
    ∀ e, e ∈ (h.run (lifetime calls)).1.loadedContracts.entries ↔
      e ∈ h.loadedContracts.entries ∨
        ∃ c ∈ (h.run (lifetime calls)).2, c.name = e.2 ∧ c.result = .ok true ∧ e.1 = spaceIn F e.2
  | [], h, _, _, _, _, e => by simp [lifetime, run]
  | (name, f) :: calls, h, order, hp, hfold, hinv, e => by
    have hpre : Persistence.register order name <+: F := hfold ▸ prefix_foldl_register _ _
    have ih := run_lifetime_entries calls _ _ (initializeContract_registered hp name f).1 hfold
      (initializeContract_entries_sit hF hp hpre hinv f) e
    show e ∈ (run _ (lifetime calls)).1.loadedContracts.entries ↔ _ ∨ ∃ c ∈ _ :: _, _
    rw [ih, initializeContract_mem_entries hF hp hpre hinv f]
    simp only [lifetime, List.mem_cons, exists_eq_or_imp, or_assoc]

end Lifetime

/-- Below the wrap the live map is consistent. In one lifetime on a registered store, with any
initializer outcomes, when at most `246` names are registered at its end, `getSpaceId(name)`
succeeds exactly when some call for the name returned `true`, and it returns the space id that
call's initializer was given. -/
theorem run_getSpaceId_eq_ok_iff {p : Persistence} {order : List String}
    (hp : p.Registered order) (calls : List (String × (UInt8 → InitResult)))
    (hsmall : ((calls.map Prod.fst).foldl Persistence.register order).length ≤ 246)
    (name : String) (s : UInt8) :
    ((ChainHandler.mk p LoadedContracts.empty).run (lifetime calls)).1.getSpaceId name = .ok s ↔
      ∃ c ∈ ((ChainHandler.mk p LoadedContracts.empty).run (lifetime calls)).2,
        c.name = name ∧ c.result = .ok true ∧ c.spaceId = some s := by
  set F := (calls.map Prod.fst).foldl Persistence.register order
  set r := (ChainHandler.mk p LoadedContracts.empty).run (lifetime calls)
  have hentries := run_lifetime_entries hsmall calls ⟨p, LoadedContracts.empty⟩ order hp rfl
    fun e he => absurd he (List.not_mem_nil e)
  obtain ⟨hreg, -, -, hcalls⟩ := run_registered (h := ⟨p, LoadedContracts.empty⟩) hp (lifetime calls)
  rw [calledNames_lifetime] at hreg
  have hspaceId : ∀ c ∈ r.2, c.spaceId = some (spaceIn F c.name) := fun c hc => by
    obtain ⟨rec, hrec, hrecname, hsp⟩ := hcalls c hc
    rw [hsp, hreg.eq_of_mem hrec, hrecname]
    rfl
  have hlive : ∀ e ∈ r.1.loadedContracts.entries,
      ∃ c ∈ r.2, c.name = e.2 ∧ c.result = .ok true ∧ e.1 = spaceIn F e.2 := fun e he =>
    ((hentries e).1 he).resolve_left (List.not_mem_nil e)
  have hkey : ∀ e ∈ r.1.loadedContracts.entries, e.1 = spaceIn F e.2 := fun e he => by
    obtain ⟨-, -, -, -, h1⟩ := hlive e he
    exact h1
  constructor
  · intro hs
    obtain ⟨c, hc, hcname, hres, hsF⟩ := hlive _ (mem_entries_of_getSpaceId_eq_ok hs)
    exact ⟨c, hc, hcname, hres, (hspaceId c hc).trans (hcname ▸ congrArg some hsF.symm)⟩
  · rintro ⟨c, hc, rfl, hres, hsp⟩
    have hmem := (hentries (spaceIn F c.name, c.name)).2 (.inr ⟨c, hc, rfl, hres, rfl⟩)
    rw [getSpaceId_eq_ok_of_mem hkey hmem, Option.some.inj ((hspaceId c hc).symm.trans hsp)]

theorem run_getSpaceId_eq_ok_iff_after_two_calls :
    ((ChainHandler.mk Persistence.empty LoadedContracts.empty).run
        (lifetime [("a", fun _ => .returned true), ("b", fun _ => .returned false)])).1.getSpaceId
        "a" = .ok 10 ↔
      ∃ c ∈ ((ChainHandler.mk Persistence.empty LoadedContracts.empty).run
          (lifetime [("a", fun _ => .returned true), ("b", fun _ => .returned false)])).2,
        c.name = "a" ∧ c.result = .ok true ∧ c.spaceId = some 10 :=
  run_getSpaceId_eq_ok_iff Persistence.registered_empty _ (by decide) "a" 10

end ChainHandler

end PeerplaysContractNode
