import PeerplaysContractNode.Infra.StringT
import PeerplaysContractNode.Infra.Demarcation

/-!
# `ApiManager`: matching API queries, and the static allocator

An API is advertised by an `ApiDemarcation`: a categorization, the category `StringT`s from the
top category down, and a name. A query is a `StringT` of pieces separated by `/`.
`FindMatchingAdvertisements` splits it with `SplitStringT`. An advertisement matches exactly when
the query's pieces but the last lead its categorization and the last piece is its name; it
matches inexactly when the whole query leads its categorization, so that the query names a
category the advertisement lies in. The allocator that `ADD_STATIC_API_ALLOCATOR` defines in a
class compiles only for a query with one exact match, no inexact one, and an API method without
arguments that it can invoke on `*this`: a non-`const` method of that class, whose result, if
returned by reference, can be copied into the allocator's `auto` result.

`categorizationsMatch_iff` says that `CategorizationsMatch` is the prefix order on
categorizations. `allocateApi_fullPath_iff` says when the full path of an API allocates it: it is
the only API of its name in its category or below, no API lies in a category named by its full
path, and its method takes no arguments and can be invoked on the allocating class.
-/

namespace PeerplaysContractNode

namespace Infra

/-- An `ApiDemarcation<Categorization, Name, MethodDemarcation>`, which derives from the
`MethodDemarcation` of its method: that demarcation, the categorization and the name. -/
structure ApiDemarcation (τ : Type) extends MethodDemarcation τ where
  categorization : List (List Char)
  name : List Char
deriving DecidableEq, Repr

variable {τ : Type}

/-- `CategorizationsMatch` on two categorizations of one length: `C1() == C2()` for each pair. -/
def categorizationsEqual (c1 c2 : List (List Char)) : Bool :=
  (c1.zip c2).all fun p => stringTEq p.1 p.2

/-- `MatchQuery::CategorizationsMatch(c1, c2)`: for lengths that agree, whether each pair is
equal; for a shorter `c1`, the match of `c1` with `TL::slice<c2, 0, |c1|>`, a call on lengths
that agree; for a longer `c1`, `false`. -/
def categorizationsMatch (c1 c2 : List (List Char)) : Bool :=
  if c1.length = c2.length then categorizationsEqual c1 c2
  else if c1.length < c2.length then categorizationsEqual c1 (c2.take c1.length)
  else false

/-- `MatchQuery<Query>::filterExact`: the query's pieces but the last match the categorization,
and the last is the name. -/
def filterExact (query : List (List Char)) (d : ApiDemarcation τ) : Bool :=
  categorizationsMatch (query.take (query.length - 1)) d.categorization &&
    stringTEq (query.getLastD []) d.name

/-- `MatchQuery<Query>::filterInexact`: the whole query matches the categorization. -/
def filterInexact (query : List (List Char)) (d : ApiDemarcation τ) : Bool :=
  categorizationsMatch query d.categorization

/-- What `FindMatchingAdvertisements` returns: its `ExactMatches` and `InexactMatches`. -/
structure Matches (τ : Type) where
  exactMatches : List (ApiDemarcation τ)
  inexactMatches : List (ApiDemarcation τ)
deriving DecidableEq, Repr

/-- `FindMatchingAdvertisements<ApiDemarcations, Query>()`: an empty query matches every
advertisement inexactly; any other is split at `/` and filtered both ways. -/
def findMatchingAdvertisements (demarcations : List (ApiDemarcation τ)) (query : List Char) :
    Matches τ :=
  if (splitStringT query '/').length = 0 then ⟨[], demarcations⟩
  else ⟨demarcations.filter (filterExact (splitStringT query '/')),
    demarcations.filter (filterInexact (splitStringT query '/'))⟩

/-- Whether `return ApiDMarc::Invoke(*this);` compiles in a non-`const` member of `host` that
returns `auto`: `*this` binds to `Module&` only when `Module` is `host`, the method is not `const`,
and a result returned by reference is copied into the `auto` result, which `copyable` says its
type allows. A result returned by value initialises that result directly, and a pointer is
returned as it is. -/
def MethodDemarcation.invocableFrom [DecidableEq τ] (copyable : τ → Bool) (host : τ)
    (d : MethodDemarcation τ) : Bool :=
  d.module = host && !d.isConst && (d.returnKind != .reference || copyable d.returnType)

/-- `allocateApi<ApiQuery>()` of `ADD_STATIC_API_ALLOCATOR(Advertisements)` expanded in the class
`host`: the one exact match, if it is the only match, its method takes no arguments, and the
allocator can invoke it; otherwise a `static_assert` or the `return` fails and the program does
not compile. -/
def allocateApi [DecidableEq τ] (copyable : τ → Bool) (host : τ)
    (advertisements : List (ApiDemarcation τ)) (query : List Char) : Option (ApiDemarcation τ) :=
  match findMatchingAdvertisements advertisements query with
  | ⟨[d], []⟩ =>
    if d.argumentCount = 0 ∧ d.invocableFrom copyable host then some d else none
  | _ => none

/-! ## `CategorizationsMatch` is the prefix order -/

theorem categorizationsEqual_iff : ∀ {c1 c2 : List (List Char)}, c1.length = c2.length →
    (categorizationsEqual c1 c2 = true ↔ c1 = c2)
  | [], [], _ => by simp [categorizationsEqual]
  | a :: c1, b :: c2, h => by
    have ih := @categorizationsEqual_iff c1 c2 (by simpa using h)
    simp only [categorizationsEqual, List.zip_cons_cons, List.all_cons, Bool.and_eq_true,
      stringTEq_iff, List.cons.injEq] at ih ⊢
    rw [ih]

theorem categorizationsMatch_iff {c1 c2 : List (List Char)} :
    categorizationsMatch c1 c2 = true ↔ c1 <+: c2 := by
  unfold categorizationsMatch
  split_ifs with heq hlt
  · rw [categorizationsEqual_iff heq]
    exact ⟨fun h => h ▸ List.prefix_refl c1, fun h => h.eq_of_length heq⟩
  · rw [categorizationsEqual_iff (by simp; omega), ← List.prefix_iff_eq_take]
  · exact ⟨nofun, fun h => absurd h.length_le (by omega)⟩

/-! ## The allocator -/

theorem allocateApi_eq_some_iff [DecidableEq τ] {copyable : τ → Bool} {host : τ}
    {advertisements : List (ApiDemarcation τ)} {query : List Char} {d : ApiDemarcation τ} :
    allocateApi copyable host advertisements query = some d ↔
      (findMatchingAdvertisements advertisements query).exactMatches = [d] ∧
        (findMatchingAdvertisements advertisements query).inexactMatches = [] ∧
        d.argumentCount = 0 ∧ d.invocableFrom copyable host := by
  unfold allocateApi
  generalize findMatchingAdvertisements advertisements query = m
  rcases m with ⟨_ | ⟨d', _ | _⟩, _ | _⟩
  all_goals simp only [List.cons.injEq, List.ne_cons_self, reduceCtorEq, false_and, and_false,
    and_true, true_and, iff_false, Option.ite_none_right_eq_some, Option.some.injEq]
  constructor
  · rintro ⟨h0, rfl⟩
    exact ⟨rfl, h0⟩
  · rintro ⟨rfl, h0⟩
    exact ⟨h0, rfl⟩

theorem invocableFrom_iff [DecidableEq τ] {copyable : τ → Bool} {host : τ}
    {d : MethodDemarcation τ} :
    d.invocableFrom copyable host ↔ d.module = host ∧ d.isConst = false ∧
      (d.returnKind = .reference → copyable d.returnType = true) := by
  simp [MethodDemarcation.invocableFrom, imp_iff_not_or, and_assoc]

/-! ## Allocating an API by its full path -/

/-- The query that names an API by its full path: its categories, then its name, joined by `/`. -/
def ApiDemarcation.fullPath (d : ApiDemarcation τ) : List Char :=
  ['/'].intercalate (d.categorization ++ [d.name])

/-- Each category of the API and its name are nonempty and hold no `/`. -/
def ApiDemarcation.WellNamed (d : ApiDemarcation τ) : Prop :=
  ∀ p ∈ d.categorization ++ [d.name], p ≠ [] ∧ '/' ∉ p

instance ApiDemarcation.decidableWellNamed (d : ApiDemarcation τ) : Decidable d.WellNamed :=
  inferInstanceAs (Decidable (∀ p ∈ d.categorization ++ [d.name], p ≠ [] ∧ '/' ∉ p))

/-- A full path matches exactly the APIs of its name in its category or below, and inexactly the
APIs that lie in the category it names. -/
theorem findMatchingAdvertisements_fullPath (advertisements : List (ApiDemarcation τ))
    {d : ApiDemarcation τ} (hd : d.WellNamed) :
    findMatchingAdvertisements advertisements d.fullPath =
      ⟨advertisements.filter fun e => d.categorization <+: e.categorization ∧ e.name = d.name,
        advertisements.filter fun e => d.categorization ++ [d.name] <+: e.categorization⟩ := by
  have hsplit : splitStringT d.fullPath '/' = d.categorization ++ [d.name] :=
    splitStringT_intercalate hd
  have htake : (d.categorization ++ [d.name]).take ((d.categorization ++ [d.name]).length - 1) =
      d.categorization := by simp
  have hlast : (d.categorization ++ [d.name]).getLastD [] = d.name := by simp
  rw [findMatchingAdvertisements, hsplit, if_neg (by simp)]
  congr 1
  · refine List.filter_congr fun e _ => Bool.eq_iff_iff.2 ?_
    rw [filterExact, htake, hlast, Bool.and_eq_true, categorizationsMatch_iff, stringTEq_iff,
      decide_eq_true_eq]
    exact and_congr_right fun _ => eq_comm
  · refine List.filter_congr fun e _ => Bool.eq_iff_iff.2 ?_
    rw [filterInexact, categorizationsMatch_iff, decide_eq_true_eq]

/-- A worked class `ChainModule` with two API methods, both non-`const` and returning their API
object by value: `chain/head`, and `detail` in the category `chain/head`. -/
def chainHead : ApiDemarcation String :=
  { method := "ChainModule::headApi", module := "ChainModule", isConst := false,
    argumentCount := 0, returnType := "HeadApi", returnKind := .value, returnsConst := false,
    categorization := ["chain".toList], name := "head".toList }

def chainHeadDetail : ApiDemarcation String :=
  { method := "ChainModule::headDetailApi", module := "ChainModule", isConst := false,
    argumentCount := 0, returnType := "HeadDetailApi", returnKind := .value, returnsConst := false,
    categorization := ["chain".toList, "head".toList], name := "detail".toList }

/-- `chain/head` is not allocated beside `chain/head/detail`, which lies in the category it names;
alone it is, but only in `ChainModule`. -/
example : allocateApi (fun _ => false) "ChainModule" [chainHead, chainHeadDetail]
      chainHead.fullPath = none ∧
    allocateApi (fun _ => false) "ChainModule" [chainHead] chainHead.fullPath = some chainHead ∧
    allocateApi (fun _ => false) "OtherModule" [chainHead] chainHead.fullPath = none := by
  decide

end Infra

end PeerplaysContractNode
