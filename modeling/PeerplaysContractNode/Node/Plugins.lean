import PeerplaysContractNode.Monitor.ObserveContract

/-!
# Loading contract plugins: `loadPlugins`, `initializePlugin`, `initializePlugins`

`ContractNode` loads contracts from shared libraries, at startup and again on each `SIGUSR1`.
`searchForPlugins` runs `loadPlugins` over the `plugins` directory and then over
`../lib/<binary>/plugins`: each file with a plugin extension that is not yet in
`loadedLibraries` and that `loadPlugin` loads joins `loadedLibraries`. `initializePlugins` then
runs `initializePlugin` on each of them. It initializes the contract with `initializeContract`
and, when the initializer returns `true`, observes the contract by name and keeps the monitor in
`contractMonitors`; a plugin whose `initializePlugin` returns `false` is erased from
`loadedLibraries`.

The handler of `initializePlugin` is `catch (const boost::exception&)`. It matches neither an
`fc::exception` nor an `fc::exception_ptr`, so what `initializeContract` and `observeContract`
throw leaves `initializePlugin`, and `initializePlugins` with it.

`initializePlugins_monitors_own_spaces` says that below the space-id wrap, when nothing throws,
every plugin whose initializer returns `true` gets one monitor, under its name, on the space its
initializer was given. `pluginPass_throw_strands_later_plugins` says what a throw does: it ends the
pass at its plugin, and the plugins loaded after that one stay in `loadedLibraries` without being
initialized, so that no later `SIGUSR1` pass loads or initializes them.
-/

namespace PeerplaysContractNode

/-- Whether an initializer's outcome makes `initializeContract` return `true`. -/
def InitResult.isTrue : InitResult → Bool
  | .returned success => success
  | .threw _ => false

/-- No table of the database throws what the `MultiTableMonitor` constructor's handler misses. -/
def ObjectDatabase.allCaught (db : ObjectDatabase) : Bool :=
  db.tables.all fun t => t.failure.all Thrown.caught

/-- A shared library that `loadPlugin` loads (it is loaded and has `registerContract`), as
`initializePlugin` reads it: its contract name (its `contractName` symbol, or its file name), its
`registerContract`, and what that initializer does to the chain's object database on the space it
is given. -/
structure Library where
  contractName : String
  registerContract : UInt8 → InitResult
  install : UInt8 → ObjectDatabase → ObjectDatabase

/-- A file of a plugin directory: its path, its extension, and the library `loadPlugin` loads
from it, if any. -/
structure PluginFile where
  path : String
  extension : String
  library : Option Library

/-- The part of `ContractNode` that plugins touch: the chain handler's registry, the chain's
object database, the monitors kept in `contractMonitors`, and the paths of `loadedLibraries`. -/
structure ContractNode where
  chainHandler : ChainHandler
  chain : ObjectDatabase
  contractMonitors : List ContractDatabaseMonitor
  loadedLibraries : List String

namespace ContractNode

/-- `loadPlugins(directory)` over the directory's files, in order: a file whose extension is
`.so`, `.dylib` or `.dll`, whose path is not in `loadedLibraries`, and that `loadPlugin` loads
joins `loadedLibraries` and the plugins returned. -/
def loadPlugins (node : ContractNode) : List PluginFile → ContractNode × List (String × Library)
  | [] => (node, [])
  | file :: files =>
    if file.extension ∈ [".so", ".dylib", ".dll"] ∧ file.path ∉ node.loadedLibraries then
      match file.library with
      | some library =>
        let r := loadPlugins { node with loadedLibraries := node.loadedLibraries ++ [file.path] } files
        (r.1, (file.path, library) :: r.2)
      | none => node.loadPlugins files
    else node.loadPlugins files

/-- `searchForPlugins(programPath)`: `loadPlugins` over `plugins`, then over
`../lib/<binary>/plugins`. -/
def searchForPlugins (node : ContractNode) (pluginsDir libDir : List PluginFile) :
    ContractNode × List (String × Library) :=
  let r := node.loadPlugins pluginsDir
  let r' := r.1.loadPlugins libDir
  (r'.1, r.2 ++ r'.2)

/-- `initializePlugin(library)`: initialize the contract and, when its initializer returns
`true`, observe it by name and keep the monitor. What `initializeContract` throws is an
`fc::exception`: the assertion of `create`, or the initializer's own, as fc code reports errors. -/
def initializePlugin (node : ContractNode) (library : Library) :
    ContractNode × Except Thrown Bool :=
  let r := node.chainHandler.initializeContract library.contractName library.registerContract
  let chain := match r.spaceId with
    | some spaceId => library.install spaceId node.chain
    | none => node.chain
  match r.result with
  | .error message =>
    ({ node with chainHandler := r.handler, chain := chain }, .error (.fcException message))
  | .ok false => ({ node with chainHandler := r.handler, chain := chain }, .ok false)
  | .ok true =>
    match r.handler.observeContractByName chain library.contractName with
    | (chain', .ok monitor) =>
      (⟨r.handler, chain', node.contractMonitors ++ [monitor], node.loadedLibraries⟩, .ok true)
    | (chain', .error e) => ({ node with chainHandler := r.handler, chain := chain' }, .error e)

@[simp] theorem initializePlugin_loadedLibraries (node : ContractNode) (library : Library) :
    (node.initializePlugin library).1.loadedLibraries = node.loadedLibraries := by
  dsimp only [initializePlugin]
  split
  · rfl
  · rfl
  · split <;> rfl

/-- `initializePlugins(pluginPaths)`: `initializePlugin` on each plugin in turn, erasing from
`loadedLibraries` each one for which it returns `false`. An exception leaves the loop. -/
def initializePlugins (node : ContractNode) :
    List (String × Library) → ContractNode × Except Thrown Unit
  | [] => (node, .ok ())
  | (path, library) :: plugins =>
    match node.initializePlugin library with
    | (node, .ok true) => node.initializePlugins plugins
    | (node, .ok false) =>
      { node with loadedLibraries := node.loadedLibraries.erase path }.initializePlugins plugins
    | (node, .error e) => (node, .error e)

/-- `initializePlugins(searchForPlugins(programPath))`: the pass `initializeBlockchain` runs at
startup and the `SIGUSR1` handler runs again. -/
def pluginPass (node : ContractNode) (pluginsDir libDir : List PluginFile) :
    ContractNode × Except Thrown Unit :=
  (node.searchForPlugins pluginsDir libDir).1.initializePlugins
    (node.searchForPlugins pluginsDir libDir).2

/-- Passes on `SIGUSR1`, each in a `mainThread.async` task whose future no one waits on: what a
pass throws goes nowhere, and the node goes on from the state the pass left. Returned with the
node: the plugins each pass found, in order. -/
def sigusr1Passes (node : ContractNode) :
    List (List PluginFile × List PluginFile) → ContractNode × List (String × Library)
  | [] => (node, [])
  | (pluginsDir, libDir) :: passes =>
    let r := (node.pluginPass pluginsDir libDir).1.sigusr1Passes passes
    (r.1, (node.searchForPlugins pluginsDir libDir).2 ++ r.2)

end ContractNode

/-! ## One plugin, below the wrap -/

namespace ContractNode

/-- What a lifetime keeps below the wrap, with `F` the registration order at its end: the store
is registered in `order`, every entry of the live map sits under its name's space in `F`, and no
table of the chain throws what the monitor constructor's handler misses. -/
structure Live (F order : List String) (node : ContractNode) : Prop where
  registered : node.chainHandler.persistence.Registered order
  entries : ∀ e ∈ node.chainHandler.loadedContracts.entries,
    e.2 ∈ order ∧ e.1 = ChainHandler.spaceIn F e.2
  caught : node.chain.allCaught

/-- A monitor as the node's log names it: its contract and its space. -/
def monitorKey (m : ContractDatabaseMonitor) : String × UInt8 := (m.contractName, m.spaceId)

/-- The space an initializer gets in a lifetime whose registration order ends as `F`, and
whether `initializeContract` then returns `true`. -/
def initializesIn (F : List String) (library : Library) : Bool :=
  (library.registerContract (ChainHandler.spaceIn F library.contractName)).isTrue

end ContractNode

theorem ChainHandler.initializeContract_result_of_returns {h : ChainHandler}
    {order : List String} (hp : h.persistence.Registered order) (name : String)
    {f : UInt8 → InitResult} (hreturns : ∀ s message, f s ≠ .threw message) :
    (h.initializeContract name f).result =
      .ok (f (spaceIn (Persistence.register order name) name)).isTrue := by
  obtain ⟨p', hrec, -, -⟩ := hp.recordFor name
  simp only [ChainHandler.initializeContract, hrec]
  split
  next hf => rw [spaceIn, hf]; rfl
  next hf => rw [spaceIn, hf]; rfl
  next message hf => exact absurd hf (hreturns _ message)

theorem ObjectDatabase.allCaught_iff {db : ObjectDatabase} :
    db.allCaught ↔ ∀ t ∈ db.tables, t.failure.all Thrown.caught := by
  simp only [ObjectDatabase.allCaught, List.all_eq_true]

namespace ContractNode

section Lifetime

variable {F : List String} (hF : F.length ≤ 246)
include hF

/-- One plugin whose initializer does not throw, in a lifetime that stays below the wrap and
whose tables all throw what the monitor constructor catches: `initializePlugin` returns whether
the initializer returned `true` on the name's space, and keeps one monitor under the name on that
space exactly then. -/
theorem initializePlugin_of_live {node : ContractNode} {order : List String}
    (hinv : Live F order node) (library : Library)
    (hpre : Persistence.register order library.contractName <+: F)
    (hreturns : ∀ s message, library.registerContract s ≠ .threw message)
    (hinstall : ∀ s db, ObjectDatabase.allCaught db → (library.install s db).allCaught) :
    (node.initializePlugin library).2 = .ok (initializesIn F library) ∧
      Live F (Persistence.register order library.contractName) (node.initializePlugin library).1 ∧
      (node.initializePlugin library).1.contractMonitors.map monitorKey =
        node.contractMonitors.map monitorKey ++
          (if initializesIn F library then
            [(library.contractName, ChainHandler.spaceIn F library.contractName)] else []) := by
  obtain ⟨hp, hentries, hcaught⟩ := hinv
  set name := library.contractName
  set f := library.registerContract
  have hname : ChainHandler.spaceIn (Persistence.register order name) name = ChainHandler.spaceIn F name :=
    (ChainHandler.spaceIn_eq_of_mem hpre (Persistence.mem_register_self order name)).symm
  have hspace := (ChainHandler.initializeContract_entries hp name f).1
  have hresult := ChainHandler.initializeContract_result_of_returns hp name hreturns
  rw [hname] at hspace hresult
  have hreg := (ChainHandler.initializeContract_registered hp name f).1
  have hsit := ChainHandler.initializeContract_entries_sit hF hp hpre hentries f
  have hcaught' := hinstall (ChainHandler.spaceIn F name) node.chain hcaught
  unfold initializePlugin
  simp only [hspace, hresult]
  cases hb : initializesIn F library
  · rw [initializesIn] at hb
    rw [hb]
    exact ⟨rfl, ⟨hreg, hsit, hcaught'⟩, by simp⟩
  · rw [initializesIn] at hb
    rw [hb] at hresult ⊢
    have hget := ChainHandler.getSpaceId_after_initializeContract hF hp hpre hentries f hresult
    obtain ⟨db', ms, hobs, hatt, -⟩ := observeContract_of_caught (s := ChainHandler.spaceIn F name)
      name fun t ht _ => ObjectDatabase.allCaught_iff.1 hcaught' t ht
    simp only [ChainHandler.observeContractByName, hget, hobs]
    refine ⟨trivial, ⟨hreg, hsit, ?_⟩, by simp [monitorKey]⟩
    rw [ObjectDatabase.allCaught_iff, hatt.tables]
    exact ObjectDatabase.allCaught_iff.1 hcaught'

/-- A pass below the wrap in which no initializer throws and no installed table throws what the
monitor constructor misses: it returns, keeping one monitor per plugin whose initializer returns
`true`, under its name on its space, in order, and erasing the others from `loadedLibraries`. -/
theorem initializePlugins_of_live : ∀ (plugins : List (String × Library)) {node : ContractNode}
    {order : List String}, Live F order node →
    (plugins.map (·.2.contractName)).foldl Persistence.register order = F →
    (∀ q ∈ plugins, ∀ s message, q.2.registerContract s ≠ .threw message) →
    (∀ q ∈ plugins, ∀ s db, ObjectDatabase.allCaught db → (q.2.install s db).allCaught) →
    (node.initializePlugins plugins).2 = .ok () ∧
      (node.initializePlugins plugins).1.contractMonitors.map monitorKey =
        node.contractMonitors.map monitorKey ++ (plugins.filter (initializesIn F ·.2)).map
          (fun q => (q.2.contractName, ChainHandler.spaceIn F q.2.contractName)) ∧
      (node.initializePlugins plugins).1.loadedLibraries =
        (plugins.filter (!initializesIn F ·.2)).foldl (fun l q => l.erase q.1) node.loadedLibraries
  | [], _, _, _, _, _, _ => by simp [initializePlugins]
  | (path, library) :: plugins, node, order, hinv, hfold, hreturns, hinstall => by
    have hpre : Persistence.register order library.contractName <+: F :=
      hfold ▸ ChainHandler.prefix_foldl_register _ _
    obtain ⟨hres, hinv', hmon⟩ := initializePlugin_of_live hF hinv library hpre
      (hreturns _ (List.mem_cons_self _ _)) (hinstall _ (List.mem_cons_self _ _))
    have hlib := initializePlugin_loadedLibraries node library
    have ih := fun node' (hinv' : Live F _ node') => initializePlugins_of_live plugins hinv' hfold
      (fun q hq => hreturns q (List.mem_cons_of_mem _ hq))
      (fun q hq => hinstall q (List.mem_cons_of_mem _ hq))
    rw [initializePlugins]
    generalize node.initializePlugin library = r at hres hinv' hmon hlib
    obtain ⟨node', res⟩ := r
    dsimp only at hres hinv' hmon hlib
    subst hres
    cases hb : initializesIn F library
    · obtain ⟨h1, h2, h3⟩ := ih { node' with loadedLibraries := node'.loadedLibraries.erase path }
        ⟨hinv'.registered, hinv'.entries, hinv'.caught⟩
      exact ⟨h1, by rw [h2]; simp [hmon, hb], by rw [h3]; simp [hlib, hb]⟩
    · obtain ⟨h1, h2, h3⟩ := ih node' hinv'
      exact ⟨h1, by rw [h2]; simp [hmon, hb], by rw [h3]; simp [hlib, hb]⟩

end Lifetime

/-- Every contract a plugin initializes is observed on its own space. In one process lifetime on
a registered store, below the space-id wrap, over plugins whose initializers return (`true` or
`false`) and whose tables, like those already in the chain, throw only what the monitor
constructor catches: `initializePlugins` returns, `contractMonitors` holds one monitor per plugin
whose initializer returned `true`, in order, under its contract name and on the space that
initializer was given, and each plugin whose initializer returned `false` is erased from
`loadedLibraries`. -/
theorem initializePlugins_monitors_own_spaces {p : Persistence} {order : List String}
    (hp : p.Registered order) (chain : ObjectDatabase) (libraries : List String)
    (plugins : List (String × Library)) (F : List String)
    (hF : (plugins.map (·.2.contractName)).foldl Persistence.register order = F)
    (hsmall : F.length ≤ 246)
    (hreturns : ∀ q ∈ plugins, ∀ s message, q.2.registerContract s ≠ .threw message)
    (hcaught : chain.allCaught)
    (hinstall : ∀ q ∈ plugins, ∀ s db, ObjectDatabase.allCaught db → (q.2.install s db).allCaught) :
    ((ContractNode.mk ⟨p, .empty⟩ chain [] libraries).initializePlugins plugins).2 = .ok () ∧
      ((ContractNode.mk ⟨p, .empty⟩ chain [] libraries).initializePlugins plugins).1.contractMonitors.map
          monitorKey =
        (plugins.filter (initializesIn F ·.2)).map
          (fun q => (q.2.contractName, ChainHandler.spaceIn F q.2.contractName)) ∧
      ((ContractNode.mk ⟨p, .empty⟩ chain [] libraries).initializePlugins plugins).1.loadedLibraries =
        (plugins.filter (!initializesIn F ·.2)).foldl (fun l q => l.erase q.1) libraries :=
  initializePlugins_of_live hsmall plugins ⟨hp, fun e he => absurd he (List.not_mem_nil e), hcaught⟩
    hF hreturns hinstall

/-- Two plugins whose initializers leave the tables alone: `a` returns `true`, `b` returns
`false`. -/
def twoPlugins : List (String × Library) :=
  [("a.so", ⟨"a", fun _ => .returned true, fun _ db => db⟩),
    ("b.so", ⟨"b", fun _ => .returned false, fun _ db => db⟩)]

theorem initializePlugins_monitors_own_spaces_on_two_plugins :
    ((ContractNode.mk ⟨Persistence.empty, .empty⟩ caughtFailure [] ["a.so", "b.so"]).initializePlugins
        twoPlugins).2 = .ok () ∧
      ((ContractNode.mk ⟨Persistence.empty, .empty⟩ caughtFailure [] ["a.so", "b.so"]).initializePlugins
        twoPlugins).1.contractMonitors.map monitorKey = [("a", 10)] ∧
      ((ContractNode.mk ⟨Persistence.empty, .empty⟩ caughtFailure [] ["a.so", "b.so"]).initializePlugins
        twoPlugins).1.loadedLibraries = ["a.so"] :=
  initializePlugins_monitors_own_spaces Persistence.registered_empty caughtFailure ["a.so", "b.so"]
    twoPlugins ["a", "b"] rfl (by decide) (by simp [twoPlugins]) (by decide)
    (by simp only [twoPlugins, List.mem_cons, List.mem_singleton, List.not_mem_nil, or_false]
        rintro q (rfl | rfl) s db h <;> exact h)

end ContractNode

/-! ## What a pass loads, and what a throw leaves behind -/

namespace ContractNode

/-- `loadPlugins` appends the paths it returns to `loadedLibraries`, each new and each once. -/
theorem loadPlugins_loadedLibraries : ∀ (files : List PluginFile) (node : ContractNode),
    (node.loadPlugins files).1.loadedLibraries =
        node.loadedLibraries ++ (node.loadPlugins files).2.map Prod.fst ∧
      (∀ q ∈ (node.loadPlugins files).2, q.1 ∉ node.loadedLibraries) ∧
      ((node.loadPlugins files).2.map Prod.fst).Nodup
  | [], node => by simp [loadPlugins]
  | file :: files, node => by
    rw [loadPlugins]
    split
    · rename_i hnew
      split
      · obtain ⟨hlib, hfresh, hnd⟩ :=
          loadPlugins_loadedLibraries files
            { node with loadedLibraries := node.loadedLibraries ++ [file.path] }
        simp only [List.mem_append, List.mem_singleton, not_or] at hfresh
        refine ⟨by simp [hlib], ?_, ?_⟩
        · intro q hq
          rcases List.mem_cons.1 hq with rfl | hq
          · exact hnew.2
          · exact (hfresh q hq).1
        · simp only [List.map_cons, List.nodup_cons, List.mem_map, not_exists, not_and]
          exact ⟨fun q hq hpath => (hfresh q hq).2 hpath, hnd⟩
      · exact loadPlugins_loadedLibraries files node
    · exact loadPlugins_loadedLibraries files node

theorem searchForPlugins_loadedLibraries (node : ContractNode) (pluginsDir libDir : List PluginFile) :
    (node.searchForPlugins pluginsDir libDir).1.loadedLibraries =
        node.loadedLibraries ++ (node.searchForPlugins pluginsDir libDir).2.map Prod.fst ∧
      (∀ q ∈ (node.searchForPlugins pluginsDir libDir).2, q.1 ∉ node.loadedLibraries) ∧
      ((node.searchForPlugins pluginsDir libDir).2.map Prod.fst).Nodup := by
  obtain ⟨hlib, hfresh, hnd⟩ := loadPlugins_loadedLibraries pluginsDir node
  obtain ⟨hlib', hfresh', hnd'⟩ := loadPlugins_loadedLibraries libDir (node.loadPlugins pluginsDir).1
  simp only [hlib, List.mem_append, not_or] at hlib' hfresh'
  refine ⟨by simp [searchForPlugins, hlib'], ?_, ?_⟩
  · simp only [searchForPlugins, List.mem_append]
    rintro q (hq | hq)
    · exact hfresh q hq
    · exact (hfresh' q hq).1
  · simp only [searchForPlugins, List.map_append, List.nodup_append]
    refine ⟨hnd, hnd', fun x hx hx' => ?_⟩
    obtain ⟨q, hq, rfl⟩ := List.mem_map.1 hx'
    exact (hfresh' q hq).2 hx

theorem mem_initializePlugins_loadedLibraries {path : String} :
    ∀ (plugins : List (String × Library)) (node : ContractNode), path ∈ node.loadedLibraries →
      path ∉ plugins.map Prod.fst → path ∈ (node.initializePlugins plugins).1.loadedLibraries
  | [], _, h, _ => h
  | (path', library) :: plugins, node, h, hnot => by
    simp only [List.map_cons, List.mem_cons, not_or] at hnot
    have hframe := initializePlugin_loadedLibraries node library
    rcases hr : node.initializePlugin library with ⟨node', _ | _ | _⟩
    all_goals rw [hr] at hframe; simp only [initializePlugins, hr]
    · exact hframe ▸ h
    · exact mem_initializePlugins_loadedLibraries plugins _
        (List.mem_erase_of_ne hnot.1 |>.2 (hframe ▸ h)) hnot.2
    · exact mem_initializePlugins_loadedLibraries plugins node' (hframe ▸ h) hnot.2

/-- A pass that throws does so at one plugin `q`, the plugins before it returning normally, and
it is the pass of the plugins up to `q`: the plugins after it are never initialized. -/
theorem initializePlugins_eq_of_error : ∀ (plugins : List (String × Library)) (node : ContractNode)
    {e : Thrown}, (node.initializePlugins plugins).2 = .error e →
    ∃ pre q post, plugins = pre ++ q :: post ∧ (node.initializePlugins pre).2 = .ok () ∧
      node.initializePlugins plugins = node.initializePlugins (pre ++ [q])
  | [], _, _, h => nomatch h
  | (path, library) :: plugins, node, e, h => by
    rcases hr : node.initializePlugin library with ⟨node', _ | _ | _⟩
    · exact ⟨[], (path, library), plugins, rfl, rfl,
        by simp only [List.nil_append, initializePlugins, hr]⟩
    all_goals
      simp only [initializePlugins, hr] at h
      obtain ⟨pre, q, post, rfl, hpre, heq⟩ := initializePlugins_eq_of_error plugins _ h
      refine ⟨(path, library) :: pre, q, post, rfl, by simp only [initializePlugins, hr, hpre], ?_⟩
      rw [List.cons_append]
      simp only [initializePlugins, hr, heq]

/-- A loaded path stays loaded over any `SIGUSR1` passes, and none of them finds it again. -/
theorem sigusr1Passes_of_loaded {path : String} :
    ∀ (passes : List (List PluginFile × List PluginFile)) (node : ContractNode),
      path ∈ node.loadedLibraries →
      path ∈ (node.sigusr1Passes passes).1.loadedLibraries ∧
        path ∉ (node.sigusr1Passes passes).2.map Prod.fst
  | [], _, h => ⟨h, List.not_mem_nil _⟩
  | (pluginsDir, libDir) :: passes, node, h => by
    obtain ⟨hlib, hfresh, -⟩ := searchForPlugins_loadedLibraries node pluginsDir libDir
    have hnot : path ∉ (node.searchForPlugins pluginsDir libDir).2.map Prod.fst := fun hp => by
      obtain ⟨q, hq, rfl⟩ := List.mem_map.1 hp
      exact hfresh q hq h
    have hpass : path ∈ (node.pluginPass pluginsDir libDir).1.loadedLibraries :=
      mem_initializePlugins_loadedLibraries _ _ (hlib ▸ List.mem_append_left _ h) hnot
    obtain ⟨h1, h2⟩ := sigusr1Passes_of_loaded passes _ hpass
    simp only [sigusr1Passes, List.map_append, List.mem_append, not_or]
    exact ⟨h1, hnot, h2⟩

/-- A throw strands the plugins after it. When a plugin pass throws, it throws at one plugin `q`
of those it loaded, those before `q` returning normally. The pass leaves the node exactly as
initializing the plugins up to `q` does, so the plugins loaded after `q` are never initialized;
and those stay in `loadedLibraries`, so that over any `SIGUSR1` passes after it no pass loads
them again, and they are never initialized in the process's lifetime. -/
theorem pluginPass_throw_strands_later_plugins (node : ContractNode)
    (pluginsDir libDir : List PluginFile) (e : Thrown)
    (hthrow : (node.pluginPass pluginsDir libDir).2 = .error e) :
    ∃ pre q post, (node.searchForPlugins pluginsDir libDir).2 = pre ++ q :: post ∧
      ((node.searchForPlugins pluginsDir libDir).1.initializePlugins pre).2 = .ok () ∧
      node.pluginPass pluginsDir libDir =
        (node.searchForPlugins pluginsDir libDir).1.initializePlugins (pre ++ [q]) ∧
      ∀ r ∈ post, ∀ passes,
        r.1 ∈ ((node.pluginPass pluginsDir libDir).1.sigusr1Passes passes).1.loadedLibraries ∧
          r.1 ∉ ((node.pluginPass pluginsDir libDir).1.sigusr1Passes passes).2.map Prod.fst := by
  obtain ⟨pre, q, post, hsplit, hpre, heq⟩ := initializePlugins_eq_of_error _ _ hthrow
  obtain ⟨hlib, -, hnd⟩ := searchForPlugins_loadedLibraries node pluginsDir libDir
  refine ⟨pre, q, post, hsplit, hpre, heq, fun r hr passes => sigusr1Passes_of_loaded passes _ ?_⟩
  rw [hsplit, List.map_append, List.map_cons, List.nodup_append, List.nodup_cons] at hnd
  have hrpost := List.mem_map_of_mem Prod.fst hr
  have hloaded : r.1 ∈ (node.searchForPlugins pluginsDir libDir).1.loadedLibraries := by
    rw [hlib, hsplit, List.map_append, List.map_cons]
    exact List.mem_append_right _ (List.mem_append_right _ (List.mem_cons_of_mem _ hrpost))
  have hnot : r.1 ∉ (pre ++ [q]).map Prod.fst := by
    simp only [List.map_append, List.map_singleton, List.mem_append, List.mem_singleton, not_or]
    refine ⟨fun hpre => hnd.2.2 hpre (List.mem_cons_of_mem _ hrpost), fun hq => hnd.2.1.1 (hq ▸ hrpost)⟩
  rw [pluginPass, heq]
  exact mem_initializePlugins_loadedLibraries _ _ hloaded hnot

/-- A plugin directory with `a.so` and `b.so`, whose initializers both return `true` and leave
the tables alone. -/
def twoPluginFiles : List PluginFile :=
  [⟨"a.so", ".so", some ⟨"a", fun _ => .returned true, fun _ db => db⟩⟩,
    ⟨"b.so", ".so", some ⟨"b", fun _ => .returned true, fun _ db => db⟩⟩]

/-- A first start on `halfInstrumentable`: `a` gets space `10`, where a table throws an
`fc::exception`. -/
def halfInstrumentableNode : ContractNode :=
  ⟨⟨Persistence.empty, LoadedContracts.empty⟩, halfInstrumentable, [], []⟩

theorem pluginPass_throw_strands_later_plugins_on_half_instrumentable :
    ∃ pre q post, (halfInstrumentableNode.searchForPlugins twoPluginFiles []).2 = pre ++ q :: post ∧
      ((halfInstrumentableNode.searchForPlugins twoPluginFiles []).1.initializePlugins pre).2 =
        .ok () ∧
      halfInstrumentableNode.pluginPass twoPluginFiles [] =
        (halfInstrumentableNode.searchForPlugins twoPluginFiles []).1.initializePlugins (pre ++ [q]) ∧
      ∀ r ∈ post, ∀ passes,
        r.1 ∈ ((halfInstrumentableNode.pluginPass twoPluginFiles []).1.sigusr1Passes
          passes).1.loadedLibraries ∧
        r.1 ∉ ((halfInstrumentableNode.pluginPass twoPluginFiles []).1.sigusr1Passes
          passes).2.map Prod.fst :=
  pluginPass_throw_strands_later_plugins halfInstrumentableNode twoPluginFiles []
    (.fcException "incompatible table") rfl

/-- `a` throws, `b` is never initialized, and a second pass over the directory finds nothing. -/
example : (halfInstrumentableNode.pluginPass twoPluginFiles []).1.loadedLibraries =
      ["a.so", "b.so"] ∧
    (halfInstrumentableNode.pluginPass twoPluginFiles []).1.chainHandler.loadedContracts.entries =
      [(10, "a")] ∧
    ((halfInstrumentableNode.pluginPass twoPluginFiles []).1.sigusr1Passes
      [(twoPluginFiles, [])]).2.map Prod.fst = [] := by
  decide

end ContractNode

end PeerplaysContractNode
