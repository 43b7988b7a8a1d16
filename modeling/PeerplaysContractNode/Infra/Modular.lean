import Mathlib.Data.List.Nodup
import PeerplaysContractNode.Infra.ApiManager

/-!
# `Modular`: walking the module tree

A module says what it is made of in its `DMarc`: under `SubmoduleTag`, the `MethodDemarcation`s
of the getters that return its submodules, and under `ApiTag`, the APIs it advertises.
`WalkModuleTree<RootModule, Accumulator>` visits the tree these getters span in pre-order: the
accumulator on a module with the path of getters that reaches it, then, in `DMarc` order, the walk
of each submodule with the path extended by its getter. `ModuleListAccumulator` lists the
`(module, path)` pairs, `ApiAdvertisementAccumulator` records the modules that advertise APIs,
and `FetchSubmodule(root, path)` calls the getters of a path in turn.

The walk is a chain of template instantiations over types, and nothing keeps a `DMarc` from naming
a module's own type below it, so the walk is modelled with the number of nested `WalkImpl` levels
the compiler allows: `none` is a walk that needs more. `FetchSubmodule` is modelled by what its
instantiation returns, `none` where it does not compile. `Infra/TypeList.hpp` is not among the
sources: `TL::reduce` is read as the left fold that the documented pre-order needs, `TL::append`
as adding one element at the end, and `TL::Map::Lookup` as the tagged list, `List<>` when the tag
or the `DMarc` is absent. Classes are compared by identity; no module of the sources derives from
another.

`walkModuleTree_eq_foldl` says that every accumulator folds over one list, the one
`ModuleListAccumulator` builds. `mem_moduleList_iff` says that this list holds exactly the paths
of getters from the root, `nodup_moduleList_paths` that it holds each once when no `DMarc` names a
getter twice, and `moduleList_parent_before` and `moduleList_getters_in_order` that it lists them
in pre-order: a module after the module above it, and what lies below an earlier getter before
what lies below a later one. `walkModuleTree_isSome_iff` says that the walk fits in a depth
exactly when every path is shorter, so that a module below itself makes it fail at every depth
(`walkModuleTree_eq_none_of_cycle`); the depth is the model's, and `walkModuleTree_eq_of_le` checks
that a greater one changes nothing. `mem_apiAdvertisements_iff` says which modules
`ApiAdvertisementAccumulator` records, and `fetchSubmodule_of_mem_moduleList` what
`FetchSubmodule` gives for a path the walk lists: a pointer the last getter returns, or a copy of
what it returns otherwise, and it does not compile where a getter is `const`, where one before the
last returns a pointer or a `const` module, or where the module to copy cannot be copied.
-/

namespace PeerplaysContractNode

namespace Infra

namespace Modular

/-- What `DMarcTag<T, Tag>` gives for the two tags the sources use: the submodule getters under
`SubmoduleTag` and the advertised APIs under `ApiTag`, each `List<>` when the type has no `DMarc`
or its `DMarc` lacks the tag. -/
structure DMarc (τ : Type) where
  submodules : τ → List (MethodDemarcation τ)
  apiAdvertisements : τ → List (ApiDemarcation τ)

/-- `ModuleAdvertisedApis<Module, Path, ApiDemarcations>`: a module, its path, and its APIs. -/
structure ModuleAdvertisedApis (τ : Type) where
  module : τ
  path : List (MethodDemarcation τ)
  apiAdvertisements : List (ApiDemarcation τ)
deriving DecidableEq, Repr

variable {τ σ : Type} (dm : DMarc τ)

/-- `WalkImpl<Module, Path, State>` with `depth` nested levels left: the accumulator on the
module, then `TL::reduce` over its submodule getters, walking each submodule with the path
extended by its getter. `none` is a walk that needs more levels. -/
def walkImpl (acc : τ → List (MethodDemarcation τ) → σ → σ) :
    Nat → τ → List (MethodDemarcation τ) → σ → Option σ
  | 0, _, _, _ => none
  | depth + 1, m, path, state =>
    (dm.submodules m).foldlM
      (fun reduction d => walkImpl acc depth d.returnType (path ++ [d]) reduction)
      (acc m path state)

/-- `WalkModuleTree<RootModule, Accumulator>::Type`: the walk from the root, with the empty path
and the accumulator's empty state. -/
def walkModuleTree (acc : τ → List (MethodDemarcation τ) → σ → σ) (empty : σ) (depth : Nat)
    (root : τ) : Option σ :=
  walkImpl dm acc depth root [] empty

/-- `ModuleListAccumulator`: append the module with its path. -/
def moduleListAccumulator (m : τ) (path : List (MethodDemarcation τ))
    (state : List (τ × List (MethodDemarcation τ))) : List (τ × List (MethodDemarcation τ)) :=
  state ++ [(m, path)]

/-- `WalkModuleTree<RootModule, ModuleListAccumulator>::Type`. -/
def moduleList (depth : Nat) (root : τ) : Option (List (τ × List (MethodDemarcation τ))) :=
  walkModuleTree dm moduleListAccumulator [] depth root

/-- `ApiAdvertisementAccumulator`: record a module that advertises any API, with its path. -/
def apiAdvertisementAccumulator (m : τ) (path : List (MethodDemarcation τ))
    (state : List (ModuleAdvertisedApis τ)) : List (ModuleAdvertisedApis τ) :=
  if (dm.apiAdvertisements m).length ≠ 0 then state ++ [⟨m, path, dm.apiAdvertisements m⟩]
  else state

/-- `path` leads from `m` to `m'`: each getter is a submodule getter of the module the previous one
returns. -/
inductive IsPath : τ → List (MethodDemarcation τ) → τ → Prop
  | nil (m : τ) : IsPath m [] m
  | cons {m m' : τ} {d : MethodDemarcation τ} {path : List (MethodDemarcation τ)} :
      d ∈ dm.submodules m → IsPath d.returnType path m' → IsPath m (d :: path) m'

/-- What `FetchSubmodule` holds at a step: the module's type, how it is held, and whether it is
`const`. -/
structure Held (τ : Type) where
  kind : ReturnKind
  isConst : Bool
  module : τ
deriving DecidableEq, Repr

/-- What `auto&& trunk = Invoke(root)` holds: the getter's result as it is returned. -/
def Held.ofResult (d : MethodDemarcation τ) : Held τ :=
  ⟨d.returnKind, d.returnsConst, d.returnType⟩

/-- `return trunk;` from `FetchSubmodule`, whose return type is `auto`: a pointer is returned as it
is; a module held by value or by reference is copied, `trunk` being a variable, which `copyable`
says its type allows, and `auto` drops its `const`. Read as C++17, the newest standard whose
features the sources use, so a named reference is not moved from. -/
def returnTrunk (copyable : τ → Bool) (trunk : Held τ) : Option (Held τ) :=
  if trunk.kind = .pointer then some trunk
  else if copyable trunk.module then some ⟨.value, false, trunk.module⟩
  else none

/-- `FetchSubmodule(root, path)`: what the instantiation returns, or `none` where it does not
compile. An empty path fails the `static_assert`. `Invoke(Module&)` binds neither a pointer nor a
`const` object nor an object of another class, and it compiles only for a non-`const` getter. The
last getter's result is returned through `returnTrunk`; any other is the root of the next call. -/
def fetchSubmodule [DecidableEq τ] (copyable : τ → Bool) :
    Held τ → List (MethodDemarcation τ) → Option (Held τ)
  | _, [] => none
  | root, d :: path =>
    if root.kind ≠ .pointer ∧ root.isConst = false ∧ d.module = root.module ∧ d.isConst = false then
      match path with
      | [] => returnTrunk copyable (Held.ofResult d)
      | _ :: _ => fetchSubmodule copyable (Held.ofResult d) path
    else none

/-! ## The node's own module tree -/

/-- The module types of `ContractNode`'s tree. -/
inductive NodeModule
  | contractNode
  | chainHandler
  | p2pHandler
deriving DecidableEq, Repr

/-- `DEMARCATE(ContractNode::getChainHandler)`: `ChainHandler* getChainHandler()`. -/
def demarcateGetChainHandler : MethodDemarcation NodeModule :=
  { method := "ContractNode::getChainHandler", module := .contractNode, isConst := false,
    argumentCount := 0, returnType := .chainHandler, returnKind := .pointer, returnsConst := false }

/-- `DEMARCATE(ContractNode::getP2pHandler)`: `P2pHandler* getP2pHandler()`. -/
def demarcateGetP2pHandler : MethodDemarcation NodeModule :=
  { method := "ContractNode::getP2pHandler", module := .contractNode, isConst := false,
    argumentCount := 0, returnType := .p2pHandler, returnKind := .pointer, returnsConst := false }

/-- `ContractNode::DMarc`: the two submodule getters, and no API (`ApiAdvertisements` is
`TL::List<>`). `ChainHandler` and `P2pHandler` have no `DMarc`. -/
def contractNodeDMarc : DMarc NodeModule where
  submodules
    | .contractNode => [demarcateGetChainHandler, demarcateGetP2pHandler]
    | _ => []
  apiAdvertisements _ := []

/-- No module of the node can be copied: `ContractNode` holds `unique_ptr`s, `ChainHandler` the
chain and persistence databases, and `P2pHandler` a `net::node`, a `unique_ptr` and signals. -/
def nodeModuleCopyable : NodeModule → Bool := fun _ => false

/-- The modules of `ContractNode`'s tree in pre-order, each with the getters that reach it. -/
def contractNodeModules : List (NodeModule × List (MethodDemarcation NodeModule)) :=
  [(.contractNode, []), (.chainHandler, [demarcateGetChainHandler]),
    (.p2pHandler, [demarcateGetP2pHandler])]

/-! ## Folds and traversals in `Option` -/

section OptionTraversal

variable {α β γ : Type}

/-- A step of `f` simulated under `h` by a step of `g` lifts to their folds. -/
theorem foldlM_map_of_step {f : β → α → Option β} {g : γ → α → Option γ} {h : γ → β}
    (hstep : ∀ c a, f (h c) a = (g c a).map h) (as : List α) (c : γ) :
    as.foldlM f (h c) = (as.foldlM g c).map h := by
  induction as generalizing c with
  | nil => rfl
  | cons a as ih =>
    simp only [List.foldlM_cons, hstep]
    cases g c a with
    | none => rfl
    | some c' => exact ih c'

/-- A fold whose every step appends what `w` gives is the start followed by all of `w`'s results,
if each succeeds. -/
theorem foldlM_eq_map_mapM {g : List β → α → Option (List β)} {w : α → Option (List β)}
    (hg : ∀ l a, g l a = (w a).map (l ++ ·)) (as : List α) (start : List β) :
    as.foldlM g start = (as.mapM w).map fun ws => start ++ ws.flatten := by
  induction as generalizing start with
  | nil => rw [List.mapM_nil]; simp
  | cons a as ih =>
    simp only [List.foldlM_cons, List.mapM_cons, hg]
    cases w a with
    | none => rfl
    | some u =>
      show as.foldlM g (start ++ u) = _
      rw [ih]
      cases as.mapM w <;> simp

theorem isSome_mapM_iff (f : α → Option β) (as : List α) :
    (as.mapM f).isSome ↔ ∀ a ∈ as, (f a).isSome := by
  induction as with
  | nil => rw [List.mapM_nil]; simp
  | cons a as ih =>
    simp only [List.mapM_cons, List.mem_cons, forall_eq_or_imp, ← ih]
    cases f a <;> cases as.mapM f <;> simp

theorem mem_flatten_of_mapM_eq_some {f : α → Option (List β)} {as : List α} {ws : List (List β)}
    (h : as.mapM f = some ws) (x : β) :
    x ∈ ws.flatten ↔ ∃ a ∈ as, ∃ w, f a = some w ∧ x ∈ w := by
  induction as generalizing ws with
  | nil => rw [List.mapM_nil, Option.pure_def, Option.some.injEq] at h; simp [← h]
  | cons a as ih =>
    simp only [List.mapM_cons, Option.bind_eq_bind, Option.bind_eq_some, Option.pure_def,
      Option.some.injEq] at h
    obtain ⟨u, hu, us, hus, rfl⟩ := h
    simp [ih hus, hu, or_and_right, exists_or]

theorem mapM_eq_some_of_forall {f g : α → Option β} {as : List α} {bs : List β}
    (hfg : ∀ a ∈ as, ∀ b, f a = some b → g a = some b) (h : as.mapM f = some bs) :
    as.mapM g = some bs := by
  induction as generalizing bs with
  | nil => simpa using h
  | cons a as ih =>
    simp only [List.mapM_cons, Option.bind_eq_bind, Option.bind_eq_some, Option.pure_def,
      Option.some.injEq] at h ⊢
    obtain ⟨b, hb, bs', hbs, rfl⟩ := h
    exact ⟨b, hfg a (List.mem_cons_self a as) b hb, bs',
      ih (fun a' ha' => hfg a' (List.mem_cons_of_mem a ha')) hbs, rfl⟩

theorem exists_eq_some_of_mem_mapM {f : α → Option β} {as : List α} {bs : List β}
    (h : as.mapM f = some bs) {b : β} (hb : b ∈ bs) : ∃ a ∈ as, f a = some b := by
  induction as generalizing bs with
  | nil => rw [List.mapM_nil, Option.pure_def, Option.some.injEq] at h; simp [← h] at hb
  | cons a as ih =>
    simp only [List.mapM_cons, Option.bind_eq_bind, Option.bind_eq_some, Option.pure_def,
      Option.some.injEq] at h
    obtain ⟨b', hb', bs', hbs', rfl⟩ := h
    rcases List.mem_cons.1 hb with rfl | hb
    · exact ⟨a, List.mem_cons_self a as, hb'⟩
    · obtain ⟨a', ha', hfa'⟩ := ih hbs' hb
      exact ⟨a', List.mem_cons_of_mem a ha', hfa'⟩

theorem exists_mem_of_mapM_eq_some {f : α → Option β} {as : List α} {bs : List β}
    (h : as.mapM f = some bs) {a : α} (ha : a ∈ as) : ∃ b ∈ bs, f a = some b := by
  induction as generalizing bs with
  | nil => cases ha
  | cons a' as ih =>
    simp only [List.mapM_cons, Option.bind_eq_bind, Option.bind_eq_some, Option.pure_def,
      Option.some.injEq] at h
    obtain ⟨b', hb', bs', hbs', rfl⟩ := h
    rcases List.mem_cons.1 ha with rfl | ha
    · exact ⟨b', List.mem_cons_self b' bs', hb'⟩
    · obtain ⟨b, hb, hfb⟩ := ih hbs' ha
      exact ⟨b, List.mem_cons_of_mem b' hb, hfb⟩

theorem mapM_append_eq_some {f : α → Option β} {as as' : List α} {bs : List β}
    (h : (as ++ as').mapM f = some bs) :
    ∃ cs cs', as.mapM f = some cs ∧ as'.mapM f = some cs' ∧ bs = cs ++ cs' := by
  simp only [List.mapM_append, Option.bind_eq_bind, Option.bind_eq_some, Option.pure_def,
    Option.some.injEq] at h
  obtain ⟨cs, hcs, cs', hcs', rfl⟩ := h
  exact ⟨cs, cs', hcs, hcs', rfl⟩

end OptionTraversal

/-! ## The walk is a fold over the module list -/

@[simp]
theorem foldl_moduleListAccumulator (l state : List (τ × List (MethodDemarcation τ))) :
    l.foldl (fun s x => moduleListAccumulator x.1 x.2 s) state = state ++ l := by
  induction l generalizing state with
  | nil => simp
  | cons x l ih => rw [List.foldl_cons, ih]; simp [moduleListAccumulator]

/-- Every accumulator's walk is its fold over what `ModuleListAccumulator`'s walk lists, from any
module, path and state. -/
theorem walkImpl_eq_map_foldl (depth : Nat) :
    ∀ {σ : Type} (acc : τ → List (MethodDemarcation τ) → σ → σ) (m : τ)
      (path : List (MethodDemarcation τ)) (state : σ),
      walkImpl dm acc depth m path state =
        (walkImpl dm moduleListAccumulator depth m path []).map
          fun l => l.foldl (fun s x => acc x.1 x.2 s) state := by
  induction depth with
  | zero => intros; rfl
  | succ depth ih =>
    intro σ acc m path state
    have hstep : ∀ (l : List (τ × List (MethodDemarcation τ))) d,
        walkImpl dm acc depth d.returnType (path ++ [d])
            (l.foldl (fun s x => acc x.1 x.2 s) state) =
          (walkImpl dm moduleListAccumulator depth d.returnType (path ++ [d]) l).map
            fun l => l.foldl (fun s x => acc x.1 x.2 s) state := by
      intro l d
      rw [ih acc, ih moduleListAccumulator d.returnType (path ++ [d]) l]
      simp [Option.map_map, Function.comp_def, List.foldl_append]
    exact foldlM_map_of_step (f := fun r d => walkImpl dm acc depth d.returnType (path ++ [d]) r)
      (h := fun l => l.foldl (fun s x => acc x.1 x.2 s) state) hstep _ [(m, path)]

theorem walkImpl_moduleList_from (depth : Nat) (m : τ) (path : List (MethodDemarcation τ))
    (state : List (τ × List (MethodDemarcation τ))) :
    walkImpl dm moduleListAccumulator depth m path state =
      (walkImpl dm moduleListAccumulator depth m path []).map (state ++ ·) := by
  simp only [walkImpl_eq_map_foldl dm depth moduleListAccumulator m path state,
    foldl_moduleListAccumulator]

/-- The pre-order equation: a module with its path, then what the walks of its submodules list, in
`DMarc` order. -/
theorem walkImpl_moduleList_succ (depth : Nat) (m : τ) (path : List (MethodDemarcation τ)) :
    walkImpl dm moduleListAccumulator (depth + 1) m path [] =
      ((dm.submodules m).mapM fun d =>
          walkImpl dm moduleListAccumulator depth d.returnType (path ++ [d]) []).map
        fun ws => (m, path) :: ws.flatten := by
  rw [walkImpl]
  exact foldlM_eq_map_mapM
    (fun l d => walkImpl_moduleList_from dm depth d.returnType (path ++ [d]) l) _ [(m, path)]

/-- Every accumulator folds over the one list `ModuleListAccumulator`'s walk builds: a walk fits
in a depth exactly when the module list does, and then its state is the accumulator's fold over
that list from the empty state. -/
theorem walkModuleTree_eq_foldl (acc : τ → List (MethodDemarcation τ) → σ → σ) (empty : σ)
    (depth : Nat) (root : τ) :
    walkModuleTree dm acc empty depth root =
      (moduleList dm depth root).map fun l => l.foldl (fun s x => acc x.1 x.2 s) empty :=
  walkImpl_eq_map_foldl dm depth acc root [] empty

/-! ## What the module list holds -/

@[simp]
theorem isPath_nil_iff {m m' : τ} : IsPath dm m [] m' ↔ m' = m :=
  ⟨fun h => by cases h; rfl, by rintro rfl; exact .nil _⟩

@[simp]
theorem isPath_cons_iff {m m' : τ} {d : MethodDemarcation τ} {path : List (MethodDemarcation τ)} :
    IsPath dm m (d :: path) m' ↔ d ∈ dm.submodules m ∧ IsPath dm d.returnType path m' :=
  ⟨fun h => by cases h with | cons hd hp => exact ⟨hd, hp⟩, fun h => .cons h.1 h.2⟩

theorem IsPath.append {m m' m'' : τ} {p q : List (MethodDemarcation τ)} (hp : IsPath dm m p m')
    (hq : IsPath dm m' q m'') : IsPath dm m (p ++ q) m'' := by
  induction hp with
  | nil => exact hq
  | cons hd _ ih => exact .cons hd (ih hq)

/-- What `ModuleListAccumulator`'s walk from `m` with `path` lists: each module below `m`, with
`path` extended by the getters that lead to it. -/
theorem mem_walkImpl_moduleList {depth : Nat} {m : τ} {path : List (MethodDemarcation τ)}
    {l : List (τ × List (MethodDemarcation τ))}
    (h : walkImpl dm moduleListAccumulator depth m path [] = some l) (m' : τ)
    (q : List (MethodDemarcation τ)) :
    (m', q) ∈ l ↔ ∃ r, q = path ++ r ∧ IsPath dm m r m' := by
  induction depth generalizing m path l with
  | zero => simp [walkImpl] at h
  | succ depth ih =>
    rw [walkImpl_moduleList_succ] at h
    obtain ⟨ws, hws, rfl⟩ := Option.map_eq_some'.1 h
    have hsome : ∀ d ∈ dm.submodules m, ∃ w,
        walkImpl dm moduleListAccumulator depth d.returnType (path ++ [d]) [] = some w :=
      fun d hd => Option.isSome_iff_exists.1 ((isSome_mapM_iff _ _).1 (by rw [hws]; rfl) d hd)
    rw [List.mem_cons, mem_flatten_of_mapM_eq_some hws]
    constructor
    · rintro (h | ⟨d, hd, w, hw, hx⟩)
      · obtain ⟨rfl, rfl⟩ := Prod.mk.inj h
        exact ⟨[], by simp, .nil _⟩
      · obtain ⟨r, rfl, hr⟩ := (ih hw).1 hx
        exact ⟨d :: r, by simp, .cons hd hr⟩
    · rintro ⟨r, rfl, hr⟩
      cases hr with
      | nil => exact Or.inl (by simp)
      | @cons _ _ d r hd hr =>
        obtain ⟨w, hw⟩ := hsome d hd
        exact Or.inr ⟨d, hd, w, hw, (ih hw).2 ⟨r, by simp, hr⟩⟩

/-- The module list holds exactly the paths of getters from the root, each with the module it
leads to; the root comes with the empty path. -/
theorem mem_moduleList_iff {depth : Nat} {root : τ} {l : List (τ × List (MethodDemarcation τ))}
    (hl : moduleList dm depth root = some l) (m : τ) (path : List (MethodDemarcation τ)) :
    (m, path) ∈ l ↔ IsPath dm root path m := by
  simp [mem_walkImpl_moduleList dm hl]

theorem moduleList_contractNode_chainHandler :
    moduleList contractNodeDMarc 2 .contractNode = some contractNodeModules ∧
      ((.chainHandler, [demarcateGetChainHandler]) ∈ contractNodeModules ↔
        IsPath contractNodeDMarc .contractNode [demarcateGetChainHandler] .chainHandler) :=
  ⟨by decide, @mem_moduleList_iff _ contractNodeDMarc 2 _ _ (by decide) _ _⟩

theorem parent_sublist_walkImpl_moduleList {depth : Nat} {m : τ}
    {path : List (MethodDemarcation τ)} {l : List (τ × List (MethodDemarcation τ))}
    (h : walkImpl dm moduleListAccumulator depth m path [] = some l)
    {x : τ × List (MethodDemarcation τ)} (hx : x ∈ l) {p : List (MethodDemarcation τ)}
    {d : MethodDemarcation τ} (hxp : x.2 = p ++ [d]) (hlen : path.length ≤ p.length) :
    ∃ parent, d ∈ dm.submodules parent ∧ List.Sublist [(parent, p), x] l := by
  induction depth generalizing m path l with
  | zero => simp [walkImpl] at h
  | succ depth ih =>
    rw [walkImpl_moduleList_succ] at h
    obtain ⟨ws, hws, rfl⟩ := Option.map_eq_some'.1 h
    rcases List.mem_cons.1 hx with rfl | hflat
    · have hlength := congrArg List.length hxp
      simp only [List.length_append, List.length_singleton] at hlength
      omega
    obtain ⟨w, hw, hxw⟩ := List.mem_flatten.1 hflat
    obtain ⟨d', hd', hwalk⟩ := exists_eq_some_of_mem_mapM hws hw
    obtain ⟨r, hr, -⟩ := (mem_walkImpl_moduleList dm hwalk x.1 x.2).1 hxw
    have heq : p ++ [d] = path ++ d' :: r := by rw [← hxp, hr, List.append_assoc]; rfl
    cases r with
    | nil =>
      obtain ⟨rfl, hdd⟩ := List.append_inj' heq rfl
      obtain rfl : d = d' := List.singleton_inj.1 hdd
      exact ⟨m, hd', (List.singleton_sublist.2 hflat).cons₂ _⟩
    | cons e r =>
      have hlength := congrArg List.length heq
      simp only [List.length_append, List.length_cons, List.length_nil] at hlength
      obtain ⟨parent, hparent, hsub⟩ :=
        ih hwalk hxw (by simp only [List.length_append, List.length_singleton]; omega)
      exact ⟨parent, hparent, (hsub.trans (List.sublist_flatten_of_mem hw)).cons _⟩

/-- `WalkModuleTree` walks in pre-order: a module below the root is listed after the module whose
getter reaches it, so that every accumulator meets a module before its submodules. -/
theorem moduleList_parent_before {depth : Nat} {root : τ}
    {l : List (τ × List (MethodDemarcation τ))} (hl : moduleList dm depth root = some l) {m : τ}
    {path : List (MethodDemarcation τ)} {d : MethodDemarcation τ} (hmem : (m, path ++ [d]) ∈ l) :
    ∃ parent, d ∈ dm.submodules parent ∧ List.Sublist [(parent, path), (m, path ++ [d])] l :=
  parent_sublist_walkImpl_moduleList dm hl hmem rfl (Nat.zero_le _)

theorem moduleList_contractNode_p2pHandler_after_root :
    moduleList contractNodeDMarc 2 .contractNode = some contractNodeModules ∧
      (.p2pHandler, [] ++ [demarcateGetP2pHandler]) ∈ contractNodeModules ∧
      ∃ parent, demarcateGetP2pHandler ∈ contractNodeDMarc.submodules parent ∧
        List.Sublist [(parent, []), (.p2pHandler, [] ++ [demarcateGetP2pHandler])]
          contractNodeModules :=
  ⟨by decide, by decide,
    @moduleList_parent_before _ contractNodeDMarc 2 .contractNode _ (by decide) _ _ _ (by decide)⟩

theorem isPath_append_iff {m m'' : τ} {p q : List (MethodDemarcation τ)} :
    IsPath dm m (p ++ q) m'' ↔ ∃ m', IsPath dm m p m' ∧ IsPath dm m' q m'' := by
  induction p generalizing m with
  | nil => simp
  | cons d p ih => simp [ih, and_assoc]

theorem IsPath.unique {m m' m'' : τ} {p : List (MethodDemarcation τ)} (h : IsPath dm m p m')
    (h' : IsPath dm m p m'') : m' = m'' := by
  induction h with
  | nil => exact ((isPath_nil_iff dm).1 h').symm
  | cons _ _ ih => exact ih ((isPath_cons_iff dm).1 h').2

theorem mem_flatten_of_getter {depth : Nat} {path : List (MethodDemarcation τ)}
    {s : List (MethodDemarcation τ)} {ws : List (List (τ × List (MethodDemarcation τ)))}
    (hs : s.mapM (fun d =>
      walkImpl dm moduleListAccumulator depth d.returnType (path ++ [d]) []) = some ws)
    {d : MethodDemarcation τ} (hd : d ∈ s) {r : List (MethodDemarcation τ)} {m' : τ}
    (hr : IsPath dm d.returnType r m') : (m', path ++ d :: r) ∈ ws.flatten := by
  obtain ⟨w, -, hw⟩ := exists_mem_of_mapM_eq_some hs hd
  exact (mem_flatten_of_mapM_eq_some hs _).2
    ⟨d, hd, w, hw, (mem_walkImpl_moduleList dm hw _ _).2 ⟨r, by simp, hr⟩⟩

theorem walkImpl_moduleList_eq_some {depth : Nat} {m : τ} {path : List (MethodDemarcation τ)}
    {l : List (τ × List (MethodDemarcation τ))}
    (h : walkImpl dm moduleListAccumulator depth m path [] = some l) :
    ∃ depth' ws, depth = depth' + 1 ∧ (dm.submodules m).mapM (fun d =>
        walkImpl dm moduleListAccumulator depth' d.returnType (path ++ [d]) []) = some ws ∧
      l = (m, path) :: ws.flatten := by
  cases depth with
  | zero => simp [walkImpl] at h
  | succ depth =>
    obtain ⟨ws, hws, rfl⟩ :=
      Option.map_eq_some'.1 ((walkImpl_moduleList_succ dm _ _ _).symm.trans h)
    exact ⟨depth, ws, rfl, hws, rfl⟩

theorem sublist_walkImpl_moduleList_of_getters {m mq : τ} {q : List (MethodDemarcation τ)}
    (hq : IsPath dm m q mq) {d₁ d₂ : MethodDemarcation τ}
    (horder : List.Sublist [d₁, d₂] (dm.submodules mq)) {m₁ m₂ : τ}
    {r₁ r₂ : List (MethodDemarcation τ)} (hr₁ : IsPath dm mq (d₁ :: r₁) m₁)
    (hr₂ : IsPath dm mq (d₂ :: r₂) m₂) :
    ∀ {depth : Nat} {path : List (MethodDemarcation τ)} {l : List (τ × List (MethodDemarcation τ))},
      walkImpl dm moduleListAccumulator depth m path [] = some l →
        List.Sublist [(m₁, path ++ q ++ d₁ :: r₁), (m₂, path ++ q ++ d₂ :: r₂)] l := by
  induction hq with
  | nil m =>
    intro depth path l h
    obtain ⟨depth, ws, rfl, hws, rfl⟩ := walkImpl_moduleList_eq_some dm h
    obtain ⟨s₁, s₂, hsplit, hd₁, hd₂⟩ := List.cons_sublist_iff.1 horder
    rw [hsplit] at hws
    obtain ⟨ws₁, ws₂, hws₁, hws₂, rfl⟩ := mapM_append_eq_some hws
    have hx := mem_flatten_of_getter dm hws₁ hd₁ ((isPath_cons_iff dm).1 hr₁).2
    have hy := mem_flatten_of_getter dm hws₂ (List.singleton_sublist.1 hd₂)
      ((isPath_cons_iff dm).1 hr₂).2
    rw [List.append_nil, List.flatten_append]
    exact ((List.singleton_sublist.2 hx).append (List.singleton_sublist.2 hy)).cons _
  | @cons m _ e q he _ ih =>
    intro depth path l h
    obtain ⟨depth, ws, rfl, hws, rfl⟩ := walkImpl_moduleList_eq_some dm h
    obtain ⟨w, hw, hwalk⟩ := exists_mem_of_mapM_eq_some hws he
    have hsub := ih horder hr₁ hr₂ hwalk
    simp only [List.append_assoc, List.singleton_append, List.cons_append] at hsub ⊢
    exact (hsub.trans (List.sublist_flatten_of_mem hw)).cons _

/-- `WalkModuleTree` takes a module's submodule getters in `DMarc` order: what is listed through an
earlier getter comes before what is listed through a later one. With `moduleList_parent_before`
this is the pre-order of the source's `TL::reduce`. -/
theorem moduleList_getters_in_order {depth : Nat} {root : τ}
    {l : List (τ × List (MethodDemarcation τ))} (hl : moduleList dm depth root = some l)
    {p : List (MethodDemarcation τ)} {mp : τ} (hp : IsPath dm root p mp)
    {d₁ d₂ : MethodDemarcation τ} (horder : List.Sublist [d₁, d₂] (dm.submodules mp))
    {m₁ m₂ : τ} {r₁ r₂ : List (MethodDemarcation τ)} (h₁ : (m₁, p ++ d₁ :: r₁) ∈ l)
    (h₂ : (m₂, p ++ d₂ :: r₂) ∈ l) :
    List.Sublist [(m₁, p ++ d₁ :: r₁), (m₂, p ++ d₂ :: r₂)] l := by
  have htail : ∀ {m' d r}, (m', p ++ d :: r) ∈ l → IsPath dm mp (d :: r) m' := by
    intro m' d r h
    obtain ⟨mp', hp', hr⟩ := (isPath_append_iff dm).1 ((mem_moduleList_iff dm hl _ _).1 h)
    rwa [hp.unique dm hp']
  simpa using sublist_walkImpl_moduleList_of_getters dm hp horder (htail h₁) (htail h₂) hl

theorem moduleList_contractNode_chainHandler_before_p2pHandler :
    moduleList contractNodeDMarc 2 .contractNode = some contractNodeModules ∧
      IsPath contractNodeDMarc .contractNode [] .contractNode ∧
      List.Sublist [demarcateGetChainHandler, demarcateGetP2pHandler]
        (contractNodeDMarc.submodules .contractNode) ∧
      (.chainHandler, [] ++ [demarcateGetChainHandler]) ∈ contractNodeModules ∧
      (.p2pHandler, [] ++ [demarcateGetP2pHandler]) ∈ contractNodeModules ∧
      List.Sublist [(.chainHandler, [] ++ [demarcateGetChainHandler]),
        (.p2pHandler, [] ++ [demarcateGetP2pHandler])] contractNodeModules :=
  ⟨by decide, .nil _, by decide, by decide, by decide,
    @moduleList_getters_in_order _ contractNodeDMarc 2 .contractNode _ (by decide) [] _ (.nil _)
      _ _ (by decide) _ _ [] [] (by decide) (by decide)⟩

/-- Lists found below distinct getters, each listing its paths once and only paths that go on
through its own getter, never share a path. -/
theorem nodup_flatten_paths_of_mapM
    {walk : MethodDemarcation τ → Option (List (τ × List (MethodDemarcation τ)))}
    {path : List (MethodDemarcation τ)}
    (hwalk : ∀ d w, walk d = some w →
      (w.map Prod.snd).Nodup ∧ ∀ x ∈ w, ∃ r, x.2 = path ++ d :: r) :
    ∀ {ds : List (MethodDemarcation τ)} {ws : List (List (τ × List (MethodDemarcation τ)))},
      ds.Nodup → ds.mapM walk = some ws → (ws.flatten.map Prod.snd).Nodup
  | [], _, _, h => by cases h; simp
  | d :: ds, _, hnd, h => by
    simp only [List.mapM_cons, Option.bind_eq_bind, Option.bind_eq_some, Option.pure_def,
      Option.some.injEq] at h
    obtain ⟨w, hw, ws, hws, rfl⟩ := h
    rw [List.nodup_cons] at hnd
    rw [List.flatten_cons, List.map_append, List.nodup_append]
    refine ⟨(hwalk d w hw).1, nodup_flatten_paths_of_mapM hwalk hnd.2 hws, ?_⟩
    rintro _ hxq hyq
    obtain ⟨x, hx, rfl⟩ := List.mem_map.1 hxq
    obtain ⟨y, hy, hxy⟩ := List.mem_map.1 hyq
    obtain ⟨d', hd', w', hw', hy'⟩ := (mem_flatten_of_mapM_eq_some hws y).1 hy
    obtain ⟨r, hr⟩ := (hwalk d w hw).2 x hx
    obtain ⟨r', hr'⟩ := (hwalk d' w' hw').2 y hy'
    rw [hr, hr', List.append_cancel_left_eq, List.cons.injEq] at hxy
    exact hnd.1 (hxy.1 ▸ hd')

theorem nodup_walkImpl_moduleList_paths (hnodup : ∀ t, (dm.submodules t).Nodup) {depth : Nat}
    {m : τ} {path : List (MethodDemarcation τ)} {l : List (τ × List (MethodDemarcation τ))}
    (h : walkImpl dm moduleListAccumulator depth m path [] = some l) :
    (l.map Prod.snd).Nodup := by
  induction depth generalizing m path l with
  | zero => simp [walkImpl] at h
  | succ depth ih =>
    rw [walkImpl_moduleList_succ] at h
    obtain ⟨ws, hws, rfl⟩ := Option.map_eq_some'.1 h
    have hwalk : ∀ d w,
        walkImpl dm moduleListAccumulator depth d.returnType (path ++ [d]) [] = some w →
          (w.map Prod.snd).Nodup ∧ ∀ x ∈ w, ∃ r, x.2 = path ++ d :: r := by
      refine fun d w hw => ⟨ih hw, fun x hx => ?_⟩
      obtain ⟨r, hr, -⟩ := (mem_walkImpl_moduleList dm hw x.1 x.2).1 hx
      exact ⟨r, by simp [hr]⟩
    rw [List.map_cons, List.nodup_cons]
    refine ⟨fun hmem => ?_, nodup_flatten_paths_of_mapM hwalk (hnodup m) hws⟩
    obtain ⟨x, hx, hpath⟩ := List.mem_map.1 hmem
    obtain ⟨d, -, w, hw, hx⟩ := (mem_flatten_of_mapM_eq_some hws x).1 hx
    obtain ⟨r, hr⟩ := (hwalk d w hw).2 x hx
    simpa [hpath] using congrArg List.length hr

/-- When no `DMarc` names a getter twice, the module list holds each path once. -/
theorem nodup_moduleList_paths (hnodup : ∀ t, (dm.submodules t).Nodup) {depth : Nat} {root : τ}
    {l : List (τ × List (MethodDemarcation τ))} (hl : moduleList dm depth root = some l) :
    (l.map Prod.snd).Nodup :=
  nodup_walkImpl_moduleList_paths dm hnodup hl

theorem moduleList_contractNode_paths_nodup :
    (∀ t, (contractNodeDMarc.submodules t).Nodup) ∧
      moduleList contractNodeDMarc 2 .contractNode = some contractNodeModules ∧
      (contractNodeModules.map Prod.snd).Nodup :=
  have hnodup : ∀ t, (contractNodeDMarc.submodules t).Nodup := by intro t; cases t <;> decide
  ⟨hnodup, by decide,
    @nodup_moduleList_paths _ contractNodeDMarc hnodup 2 .contractNode _ (by decide)⟩

/-! ## How deep the walk goes -/

/-- `ModuleListAccumulator`'s walk fits in `depth` levels exactly when every path below the module
is shorter than `depth`. -/
theorem isSome_walkImpl_moduleList_iff (depth : Nat) (m : τ) (path : List (MethodDemarcation τ)) :
    (walkImpl dm moduleListAccumulator depth m path []).isSome ↔
      ∀ r m', IsPath dm m r m' → r.length < depth := by
  induction depth generalizing m path with
  | zero =>
    simp only [walkImpl, Option.isSome_none, Bool.false_eq_true, false_iff]
    exact fun h => Nat.lt_irrefl 0 (h [] m (.nil m))
  | succ depth ih =>
    rw [walkImpl_moduleList_succ, Option.isSome_map', isSome_mapM_iff]
    simp only [ih]
    constructor
    · intro h r m' hr
      cases hr with
      | nil => simp
      | cons hd hr => simpa using h _ hd _ _ hr
    · intro h d hd r m' hr
      simpa using h _ _ (.cons hd hr)

/-- A walk fits in `depth` levels exactly when every path of getters from the root is shorter than
`depth`, whatever the accumulator. -/
theorem walkModuleTree_isSome_iff (acc : τ → List (MethodDemarcation τ) → σ → σ) (empty : σ)
    (depth : Nat) (root : τ) :
    (walkModuleTree dm acc empty depth root).isSome ↔
      ∀ path m, IsPath dm root path m → path.length < depth := by
  rw [walkModuleTree, walkImpl_eq_map_foldl, Option.isSome_map']
  exact isSome_walkImpl_moduleList_iff dm depth root []

theorem walkImpl_moduleList_of_le {depth depth' : Nat} (hle : depth ≤ depth') {m : τ}
    {path : List (MethodDemarcation τ)} {l : List (τ × List (MethodDemarcation τ))}
    (h : walkImpl dm moduleListAccumulator depth m path [] = some l) :
    walkImpl dm moduleListAccumulator depth' m path [] = some l := by
  induction depth generalizing depth' m path l with
  | zero => simp [walkImpl] at h
  | succ depth ih =>
    obtain ⟨depth', rfl⟩ : ∃ k, depth' = k + 1 := ⟨depth' - 1, by omega⟩
    rw [walkImpl_moduleList_succ] at h ⊢
    obtain ⟨ws, hws, rfl⟩ := Option.map_eq_some'.1 h
    rw [mapM_eq_some_of_forall (fun d _ w hw => ih (by omega) hw) hws]
    rfl

/-- A walk that fits in some depth gives the same state in every greater one: what the walk
computes does not depend on how deep the compiler lets it go. -/
theorem walkModuleTree_eq_of_le (acc : τ → List (MethodDemarcation τ) → σ → σ) (empty : σ)
    {depth depth' : Nat} (hle : depth ≤ depth') {root : τ} {state : σ}
    (h : walkModuleTree dm acc empty depth root = some state) :
    walkModuleTree dm acc empty depth' root = some state := by
  rw [walkModuleTree, walkImpl_eq_map_foldl] at h ⊢
  obtain ⟨l, hl, rfl⟩ := Option.map_eq_some'.1 h
  rw [walkImpl_moduleList_of_le dm hle hl]
  rfl

theorem exists_isPath_loop_length_ge {m : τ} {c : List (MethodDemarcation τ)}
    (hc : IsPath dm m c m) (hne : c ≠ []) (n : Nat) :
    ∃ r, IsPath dm m r m ∧ n ≤ r.length := by
  induction n with
  | zero => exact ⟨[], .nil m, le_refl _⟩
  | succ n ih =>
    obtain ⟨r, hr, hlen⟩ := ih
    have hpos : 0 < c.length := List.length_pos.2 hne
    exact ⟨c ++ r, hc.append dm hr, by rw [List.length_append]; omega⟩

/-- A module reachable from the root that lies below itself makes the walk fail at every depth:
its instantiation never ends. -/
theorem walkModuleTree_eq_none_of_cycle (acc : τ → List (MethodDemarcation τ) → σ → σ)
    (empty : σ) {root m : τ} {path cycle : List (MethodDemarcation τ)}
    (hpath : IsPath dm root path m) (hcycle : IsPath dm m cycle m) (hne : cycle ≠ [])
    (depth : Nat) :
    walkModuleTree dm acc empty depth root = none := by
  rw [walkModuleTree, walkImpl_eq_map_foldl, Option.map_eq_none', ← Option.not_isSome_iff_eq_none,
    isSome_walkImpl_moduleList_iff]
  intro h
  obtain ⟨r, hr, hlen⟩ := exists_isPath_loop_length_ge dm hcycle hne depth
  have hlt := h _ _ (hpath.append dm hr)
  rw [List.length_append] at hlt
  omega

/-- A module whose `DMarc` names a getter that returns its own type, as a linked node would. -/
def selfNestedGetNext : MethodDemarcation Unit :=
  { method := "Node::getNext", module := (), isConst := false, argumentCount := 0,
    returnType := (), returnKind := .pointer, returnsConst := false }

def selfNestedDMarc : DMarc Unit where
  submodules _ := [selfNestedGetNext]
  apiAdvertisements _ := []

theorem walkModuleTree_selfNested_eq_none :
    IsPath selfNestedDMarc () [] () ∧ IsPath selfNestedDMarc () [selfNestedGetNext] () ∧
      [selfNestedGetNext] ≠ [] ∧
      walkModuleTree selfNestedDMarc moduleListAccumulator [] 900 () = none :=
  have hcycle : IsPath selfNestedDMarc () [selfNestedGetNext] () :=
    .cons (List.mem_singleton_self _) (.nil ())
  ⟨.nil (), hcycle, List.cons_ne_nil _ _,
    walkModuleTree_eq_none_of_cycle selfNestedDMarc _ _ (.nil ()) hcycle (List.cons_ne_nil _ _) 900⟩

/-! ## Fetching a submodule by its path -/

section Fetch

variable [DecidableEq τ] (copyable : τ → Bool)

theorem fetchSubmodule_cons_of_not {root : Held τ} {d : MethodDemarcation τ}
    {path : List (MethodDemarcation τ)}
    (h : ¬ (root.kind ≠ .pointer ∧ root.isConst = false ∧ d.module = root.module ∧
      d.isConst = false)) :
    fetchSubmodule copyable root (d :: path) = none := by
  simp only [fetchSubmodule, if_neg h]

theorem fetchSubmodule_singleton {k : ReturnKind} (hk : k ≠ .pointer) {m : τ}
    {d : MethodDemarcation τ} (hmodule : d.module = m) (hd : d.isConst = false) :
    fetchSubmodule copyable ⟨k, false, m⟩ [d] = returnTrunk copyable (Held.ofResult d) := by
  simp [fetchSubmodule, hk, hmodule, hd]

theorem fetchSubmodule_cons_cons {k : ReturnKind} (hk : k ≠ .pointer) {m : τ}
    {d e : MethodDemarcation τ} {rest : List (MethodDemarcation τ)} (hmodule : d.module = m)
    (hd : d.isConst = false) :
    fetchSubmodule copyable ⟨k, false, m⟩ (d :: e :: rest) =
      fetchSubmodule copyable (Held.ofResult d) (e :: rest) := by
  simp [fetchSubmodule, hk, hmodule, hd]

/-- Along a path whose getters belong to the modules they are read from, `FetchSubmodule` from an
object that is neither a pointer nor `const` compiles exactly when no getter is `const` and no
getter before the last returns a pointer or a `const` module; it then returns the path's end as
`return trunk;` returns the last getter's result. -/
theorem fetchSubmodule_of_isPath (hown : ∀ t, ∀ d ∈ dm.submodules t, d.module = t)
    {k : ReturnKind} (hk : k ≠ .pointer) {m m' : τ} {path : List (MethodDemarcation τ)}
    (hp : IsPath dm m path m') :
    fetchSubmodule copyable ⟨k, false, m⟩ path =
      if (∀ d ∈ path, d.isConst = false) ∧
          ∀ d ∈ path.dropLast, d.returnKind ≠ .pointer ∧ d.returnsConst = false then
        path.getLast?.bind fun d => returnTrunk copyable ⟨d.returnKind, d.returnsConst, m'⟩
      else none := by
  induction hp generalizing k with
  | nil => simp [fetchSubmodule]
  | @cons m m' d path hd hp ih =>
    by_cases hconst : d.isConst = false
    · cases path with
      | nil =>
        cases hp
        simp [fetchSubmodule_singleton copyable hk (hown m d hd) hconst, hconst,
          Held.ofResult]
      | cons e rest =>
        rw [fetchSubmodule_cons_cons copyable hk (hown m d hd) hconst]
        by_cases hnext : d.returnKind ≠ .pointer ∧ d.returnsConst = false
        · obtain ⟨hptr, hrc⟩ := hnext
          have hresult : Held.ofResult d = ⟨d.returnKind, false, d.returnType⟩ := by
            rw [Held.ofResult, hrc]
          rw [hresult, ih hptr]
          simp [hconst, hptr, hrc, and_assoc]
        · rw [fetchSubmodule_cons_of_not copyable fun h => hnext ⟨h.1, h.2.1⟩]
          simp only [List.dropLast_cons₂, List.mem_cons, forall_eq_or_imp]
          rw [if_neg fun h => hnext h.2.1]
    · rw [fetchSubmodule_cons_of_not copyable fun h => hconst h.2.2.2,
        if_neg fun h => hconst (h.1 d (List.mem_cons_self d path))]

/-- `FetchSubmodule(root, path)` for a path the walk lists with a module `m`, from a root object
that is neither a pointer nor `const`, when each `DMarc` lists getters of its own class. It
compiles exactly when no getter on the path is `const` and no getter before the last returns a
pointer or a `const` module, and the last returns a pointer or a module that can be copied. It
then returns `m`: the pointer, or a copy. -/
theorem fetchSubmodule_of_mem_moduleList (hown : ∀ t, ∀ d ∈ dm.submodules t, d.module = t)
    {root : Held τ} (hroot : root.kind ≠ .pointer ∧ root.isConst = false) {depth : Nat}
    {l : List (τ × List (MethodDemarcation τ))} (hl : moduleList dm depth root.module = some l)
    {m : τ} {path : List (MethodDemarcation τ)} (hmem : (m, path) ∈ l) :
    fetchSubmodule copyable root path =
      if (∀ d ∈ path, d.isConst = false) ∧
          ∀ d ∈ path.dropLast, d.returnKind ≠ .pointer ∧ d.returnsConst = false then
        path.getLast?.bind fun d => returnTrunk copyable ⟨d.returnKind, d.returnsConst, m⟩
      else none := by
  obtain ⟨r, rfl, hr⟩ := (mem_walkImpl_moduleList dm hl m path).1 hmem
  obtain ⟨k, c, root⟩ := root
  obtain ⟨hk, rfl⟩ := hroot
  exact fetchSubmodule_of_isPath dm copyable hown hk hr

end Fetch

theorem fetchSubmodule_contractNode_chainHandler :
    (∀ t, ∀ d ∈ contractNodeDMarc.submodules t, d.module = t) ∧
      ((⟨.reference, false, .contractNode⟩ : Held NodeModule).kind ≠ .pointer ∧
        (⟨.reference, false, .contractNode⟩ : Held NodeModule).isConst = false) ∧
      moduleList contractNodeDMarc 2 .contractNode = some contractNodeModules ∧
      (.chainHandler, [demarcateGetChainHandler]) ∈ contractNodeModules ∧
      fetchSubmodule nodeModuleCopyable ⟨.reference, false, .contractNode⟩
          [demarcateGetChainHandler] =
        if (∀ d ∈ [demarcateGetChainHandler], d.isConst = false) ∧
            ∀ d ∈ [demarcateGetChainHandler].dropLast,
              d.returnKind ≠ .pointer ∧ d.returnsConst = false then
          [demarcateGetChainHandler].getLast?.bind fun d =>
            returnTrunk nodeModuleCopyable ⟨d.returnKind, d.returnsConst, .chainHandler⟩
        else none :=
  have hown : ∀ t, ∀ d ∈ contractNodeDMarc.submodules t, d.module = t := by
    intro t; cases t <;> decide
  ⟨hown, by decide, by decide, by decide,
    @fetchSubmodule_of_mem_moduleList _ contractNodeDMarc _ nodeModuleCopyable hown
      ⟨.reference, false, .contractNode⟩ (by decide) 2 contractNodeModules (by decide) _ _
      (by decide)⟩

/-- `getChainHandler` hands back the `ChainHandler*`; were it to return a `ChainHandler&`,
`FetchSubmodule` would have to copy a `ChainHandler` and would not compile. -/
example : fetchSubmodule nodeModuleCopyable ⟨.reference, false, .contractNode⟩
      [demarcateGetChainHandler] = some ⟨.pointer, false, .chainHandler⟩ ∧
    fetchSubmodule nodeModuleCopyable ⟨.reference, false, .contractNode⟩
      [{ demarcateGetChainHandler with returnKind := .reference }] = none := by
  decide

/-! ## The modules that advertise APIs -/

theorem foldl_apiAdvertisementAccumulator (l : List (τ × List (MethodDemarcation τ)))
    (state : List (ModuleAdvertisedApis τ)) :
    l.foldl (fun s x => apiAdvertisementAccumulator dm x.1 x.2 s) state =
      state ++ l.filterMap fun x =>
        if (dm.apiAdvertisements x.1).length ≠ 0 then some ⟨x.1, x.2, dm.apiAdvertisements x.1⟩
        else none := by
  induction l generalizing state with
  | nil => simp
  | cons x l ih =>
    rw [List.foldl_cons, ih]
    by_cases hx : (dm.apiAdvertisements x.1).length ≠ 0
    · rw [apiAdvertisementAccumulator, if_pos hx, List.filterMap_cons, if_pos hx,
        List.append_assoc, List.singleton_append]
    · rw [apiAdvertisementAccumulator, if_neg hx, List.filterMap_cons, if_neg hx]

/-- `ApiAdvertisementAccumulator`'s walk records each module that advertises APIs, with the path
that reaches it and its APIs, and nothing else. -/
theorem mem_apiAdvertisements_iff {depth : Nat} {root : τ}
    {records : List (ModuleAdvertisedApis τ)}
    (h : walkModuleTree dm (apiAdvertisementAccumulator dm) [] depth root = some records)
    (x : ModuleAdvertisedApis τ) :
    x ∈ records ↔ IsPath dm root x.path x.module ∧ dm.apiAdvertisements x.module ≠ [] ∧
      x.apiAdvertisements = dm.apiAdvertisements x.module := by
  rw [walkModuleTree, walkImpl_eq_map_foldl] at h
  obtain ⟨l, hl, rfl⟩ := Option.map_eq_some'.1 h
  rw [foldl_apiAdvertisementAccumulator, List.nil_append, List.mem_filterMap]
  constructor
  · rintro ⟨⟨m, path⟩, hmem, hx⟩
    by_cases hne : (dm.apiAdvertisements m).length ≠ 0
    · rw [if_pos hne, Option.some.injEq] at hx
      subst hx
      obtain ⟨r, rfl, hr⟩ := (mem_walkImpl_moduleList dm hl m path).1 hmem
      exact ⟨hr, mt List.length_eq_zero.2 hne, rfl⟩
    · rw [if_neg hne] at hx
      cases hx
  · rintro ⟨hpath, hne, happ⟩
    refine ⟨(x.module, x.path), (mem_walkImpl_moduleList dm hl _ _).2 ⟨x.path, rfl, hpath⟩, ?_⟩
    rw [if_pos (mt List.length_eq_zero.1 hne), ← happ]

/-- A worked tree whose submodule advertises: a class `Node` whose getter `getChain` returns its
`ChainModule` by reference, and `ChainModule`, which advertises `chain/head` and
`chain/head/detail`. -/
def nodeGetChain : MethodDemarcation String :=
  { method := "Node::getChain", module := "Node", isConst := false, argumentCount := 0,
    returnType := "ChainModule", returnKind := .reference, returnsConst := false }

def chainModuleDMarc : DMarc String where
  submodules m := if m = "Node" then [nodeGetChain] else []
  apiAdvertisements m := if m = "ChainModule" then [chainHead, chainHeadDetail] else []

theorem apiAdvertisements_chainModule :
    walkModuleTree chainModuleDMarc (apiAdvertisementAccumulator chainModuleDMarc) [] 2 "Node" =
        some [⟨"ChainModule", [nodeGetChain], [chainHead, chainHeadDetail]⟩] ∧
      ((⟨"ChainModule", [nodeGetChain], [chainHead, chainHeadDetail]⟩ :
          ModuleAdvertisedApis String) ∈
          [⟨"ChainModule", [nodeGetChain], [chainHead, chainHeadDetail]⟩] ↔
        IsPath chainModuleDMarc "Node" [nodeGetChain] "ChainModule" ∧
          chainModuleDMarc.apiAdvertisements "ChainModule" ≠ [] ∧
          [chainHead, chainHeadDetail] = chainModuleDMarc.apiAdvertisements "ChainModule") :=
  ⟨by decide, @mem_apiAdvertisements_iff _ chainModuleDMarc 2 "Node" _ (by decide) _⟩

end Modular

end Infra

end PeerplaysContractNode
