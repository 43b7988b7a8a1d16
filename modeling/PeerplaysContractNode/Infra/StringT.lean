import Mathlib.Data.List.Basic

/-!
# `StringT`: compile-time strings, `StrT` and `SplitStringT`

`Infra` names APIs and their categories by `StringT<C...>`, a type that carries its characters as
a parameter pack; here a `StringT` is the list of its characters. A Lean `Char` stands for one C++
`char` of a literal, a byte: the names of the sources are ASCII, where the two agree, and a
`String` here is a literal's bytes read one `Char` each. `StrT("...")` builds one from a string
literal. It reads the literal's first `64` characters with `tygrab`, clamped to the final
NUL, and `typeek` keeps them up to the first NUL. `SplitStringT<Str, '/'>` splits a `StringT`
into the `StringT`s between delimiters, dropping empty ones; API queries are split so.

`strT_eq_take` says that `StrT` is the literal cut to `64` characters, so that a longer name is
truncated without error. `splitStringT_eq_splitPieces` says that `SplitStringT` splits at every
delimiter and drops the empty pieces, and `splitStringT_intercalate` that it takes a path joined
with the delimiter back to its pieces.
-/

namespace PeerplaysContractNode

namespace Infra

/-- The NUL character that ends a C string literal. -/
def nul : Char := Char.ofNat 0

/-! ## `StrT` -/

/-- `tygrab<N>(c)`: character `N` of the literal `c`, a `char[M]` whose last character is its NUL,
or that NUL past the end. -/
def tygrab (n : Nat) (c : List Char) : Char :=
  c.getD (if n < c.length then n else c.length - 1) nul

/-- `typoke(acc, StringT<a>, rest...)`, its overloads from the most specialized: a NUL after the
accumulator `StringT<'\0'>` gives `StringT<>`, any other NUL ends the string, any other
character is appended; with nothing left, the accumulator is the string. -/
def typoke : List Char → List Char → List Char
  | acc, [] => acc
  | acc, a :: rest =>
    if acc = [nul] ∧ a = nul then [] else if a = nul then acc else typoke (acc ++ [a]) rest

/-- `typeek(StringT<C...>)`: `typoke` over the one-character `StringT`s of the pack. -/
def typeek : List Char → List Char
  | [] => []
  | c :: cs => typoke [c] cs

/-- `StrT(x)` at the default `USE_STRINGT`: `typeek` of `StringT<STRINGT64(,x)>`, the literal's
first `64` characters as `tygrab` reads them. Each `Char` of `x` is one `char` (byte) of the
literal. -/
def strT (x : String) : List Char :=
  typeek ((List.range 64).map fun n => tygrab n (x.toList ++ [nul]))

theorem typoke_append (acc : List Char) {s : List Char} (hs : nul ∉ s) (rest : List Char) :
    typoke acc (s ++ rest) = typoke (acc ++ s) rest := by
  induction s generalizing acc with
  | nil => simp
  | cons a s ih =>
    have ha : a ≠ nul := fun h => hs (h ▸ List.mem_cons_self a s)
    rw [List.cons_append, typoke, if_neg (fun h => ha h.2), if_neg ha,
      ih _ fun h => hs (List.mem_cons_of_mem a h), List.append_assoc, List.singleton_append]

theorem typoke_nul_cons {acc : List Char} (hacc : acc ≠ [nul]) (rest : List Char) :
    typoke acc (nul :: rest) = acc := by
  rw [typoke, if_neg fun h => hacc h.1, if_pos rfl]

theorem tygrab_of_lt {l : List Char} {n : Nat} (h : n < l.length) :
    tygrab n (l ++ [nul]) = l[n] := by
  rw [tygrab, if_pos (by rw [List.length_append]; omega), List.getD_eq_getElem?_getD,
    List.getElem?_append_left h, List.getElem?_eq_getElem h, Option.getD_some]

theorem tygrab_of_le {l : List Char} {n : Nat} (h : l.length ≤ n) :
    tygrab n (l ++ [nul]) = nul := by
  have hidx : (if n < (l ++ [nul]).length then n else (l ++ [nul]).length - 1) = l.length := by
    rw [List.length_append, List.length_singleton]
    split_ifs <;> omega
  rw [tygrab, hidx, List.getD_eq_getElem?_getD, List.getElem?_append_right le_rfl, Nat.sub_self]
  rfl

/-- `tygrab` reads the literal's characters, then its NUL. -/
theorem map_tygrab_range (l : List Char) : ∀ n : Nat,
    (List.range n).map (fun i => tygrab i (l ++ [nul])) =
      l.take n ++ List.replicate (n - l.length) nul
  | 0 => by simp
  | n + 1 => by
    rw [List.range_succ, List.map_append, map_tygrab_range l n, List.map_singleton]
    by_cases hn : n < l.length
    · rw [tygrab_of_lt hn, List.take_succ, List.getElem?_eq_getElem hn, Nat.sub_eq_zero_of_le hn,
        Nat.sub_eq_zero_of_le hn.le]
      simp
    · rw [tygrab_of_le (Nat.le_of_not_lt hn), List.take_of_length_le (by omega),
        List.take_of_length_le (by omega), Nat.succ_sub (Nat.le_of_not_lt hn), List.replicate_succ',
        List.append_assoc]

/-- `StrT` is the literal cut to `64` characters. For a literal without a NUL, `StrT(x)` is the
`StringT` of its first `64` characters: shorter literals are kept whole, and longer ones are
truncated without error, so that two literals that agree on their first `64` characters name
one type. -/
theorem strT_eq_take (x : String) (hx : nul ∉ x.toList) : strT x = x.toList.take 64 := by
  rw [strT, map_tygrab_range]
  cases hl : x.toList with
  | nil => decide
  | cons c l =>
    have hc : c ≠ nul := fun h => hx (by rw [hl, h]; exact List.mem_cons_self _ _)
    have hl' : nul ∉ l.take 63 := fun h =>
      hx (by rw [hl]; exact List.mem_cons_of_mem c (List.mem_of_mem_take h))
    rw [List.take_succ_cons, List.cons_append, typeek, typoke_append _ hl', List.singleton_append]
    cases hn : 64 - (c :: l).length with
    | zero => rfl
    | succ k => exact typoke_nul_cons (by simp [hc]) _

def seventyChars : String := "abcdefghijklmnopqrstuvwxyzABCDEFGHIJKLMNOPQRSTUVWXYZ0123456789abcdefgh"

theorem strT_eq_take_on_seventy_chars :
    nul ∉ seventyChars.toList ∧ strT seventyChars = seventyChars.toList.take 64 :=
  ⟨by decide, strT_eq_take seventyChars (by decide)⟩

/-! ## `StringT` equality -/

/-- `operator==` on `StringT`s: the sizes agree and so does each pair of characters. -/
def stringTEq (s1 s2 : List Char) : Bool :=
  if s1.length ≠ s2.length then false else (s1.zip s2).all fun p => p.1 == p.2

theorem stringTEq_cons (a b : Char) (s1 s2 : List Char) :
    stringTEq (a :: s1) (b :: s2) = (a == b && stringTEq s1 s2) := by
  by_cases h : s1.length = s2.length <;> simp [stringTEq, h]

@[simp] theorem stringTEq_iff {s1 s2 : List Char} : stringTEq s1 s2 = true ↔ s1 = s2 := by
  induction s1 generalizing s2 with
  | nil => cases s2 <;> simp [stringTEq]
  | cons a s1 ih =>
    cases s2 with
    | nil => simp [stringTEq]
    | cons b s2 => simp [stringTEq_cons, ih]

/-! ## `SplitStringT` -/

/-- `SplitStringImpl<Str, Delimiter, Current, Result>`: walk the characters collecting the current
piece; a delimiter closes a nonempty piece into the result and is skipped after an empty one; at
the end a nonempty piece joins the result. -/
def splitStringImpl (delimiter : Char) :
    List Char → List Char → List (List Char) → List (List Char)
  | first :: rest, current@(_ :: _), result =>
    if first = delimiter then splitStringImpl delimiter rest [] (result ++ [current])
    else splitStringImpl delimiter rest (current ++ [first]) result
  | first :: rest, [], result =>
    if first = delimiter then splitStringImpl delimiter rest [] result
    else splitStringImpl delimiter rest [first] result
  | [], current, result => if current.length ≠ 0 then result ++ [current] else result

/-- `SplitStringT<Str, Delimiter>`. -/
def splitStringT (str : List Char) (delimiter : Char) : List (List Char) :=
  splitStringImpl delimiter str [] []

/-- The pieces of `str` between delimiters, the empty ones dropped. -/
def splitPieces (str : List Char) (delimiter : Char) : List (List Char) :=
  (str.splitOn delimiter).filter (!·.isEmpty)

theorem splitOn_append_cons {d : Char} {current : List Char} (hcur : d ∉ current)
    (rest : List Char) : (current ++ d :: rest).splitOn d = current :: rest.splitOn d :=
  List.splitOnP_first _ _ (fun x hx (h : (x == d) = true) => hcur (beq_iff_eq.1 h ▸ hx)) d
    (beq_self_eq_true d) rest

theorem splitOn_of_not_mem {d : Char} {current : List Char} (hcur : d ∉ current) :
    current.splitOn d = [current] :=
  List.splitOnP_eq_single _ _ fun x hx (h : (x == d) = true) => hcur (beq_iff_eq.1 h ▸ hx)

theorem not_mem_of_mem_splitOn {d : Char} : ∀ {str : List Char}, ∀ p ∈ str.splitOn d, d ∉ p
  | [], p, h => by
    rw [List.splitOn_nil, List.mem_singleton] at h
    exact h ▸ List.not_mem_nil d
  | x :: xs, p, h => by
    have ih := @not_mem_of_mem_splitOn d xs
    rw [List.splitOn] at h ih
    rw [List.splitOnP_cons] at h
    split_ifs at h with hx
    · rcases List.mem_cons.1 h with rfl | h
      · exact List.not_mem_nil d
      · exact ih p h
    · obtain ⟨q, qs, hq⟩ := List.exists_cons_of_ne_nil (List.splitOnP_ne_nil _ xs)
      rw [hq] at h ih
      simp only [List.modifyHead, List.mem_cons] at h
      rcases h with rfl | h
      · rw [List.mem_cons, not_or]
        exact ⟨fun h => hx (beq_iff_eq.2 h.symm), ih q (List.mem_cons_self q qs)⟩
      · exact ih p (List.mem_cons_of_mem q h)

/-- The loop of `SplitStringImpl`, from a piece without a delimiter: the result so far, then the
pieces of the current piece followed by the rest. -/
theorem splitStringImpl_eq {d : Char} : ∀ (str current : List Char) (result : List (List Char)),
    d ∉ current →
    splitStringImpl d str current result = result ++ splitPieces (current ++ str) d
  | [], current, result, hcur => by
    rw [splitStringImpl, List.append_nil, splitPieces, splitOn_of_not_mem hcur]
    cases current <;> simp
  | first :: rest, [], result, _ => by
    rw [splitStringImpl]
    split_ifs with hfirst
    · rw [splitStringImpl_eq rest [] result (List.not_mem_nil d), hfirst]
      simp [splitPieces, List.splitOn, List.splitOnP_cons]
    · rw [splitStringImpl_eq rest [first] result (by simpa [eq_comm] using hfirst)]
      rfl
  | first :: rest, c :: cs, result, hcur => by
    rw [splitStringImpl]
    split_ifs with hfirst
    · rw [splitStringImpl_eq rest [] _ (List.not_mem_nil d), hfirst, splitPieces,
        splitPieces, splitOn_append_cons hcur]
      simp
    · have hcur' : d ∉ c :: cs ++ [first] := by
        rw [List.mem_append, List.mem_singleton, not_or]
        exact ⟨hcur, fun h => hfirst h.symm⟩
      rw [splitStringImpl_eq rest _ result hcur']
      simp

theorem splitStringT_eq_splitPieces (str : List Char) (d : Char) :
    splitStringT str d = splitPieces str d := by
  rw [splitStringT, splitStringImpl_eq str [] [] (List.not_mem_nil d)]
  rfl

/-- Every piece `SplitStringT` gives is nonempty and holds no delimiter. -/
theorem mem_splitStringT {str : List Char} {d : Char} {p : List Char}
    (hp : p ∈ splitStringT str d) : p ≠ [] ∧ d ∉ p := by
  rw [splitStringT_eq_splitPieces, splitPieces, List.mem_filter] at hp
  exact ⟨fun h => by simp [h] at hp, not_mem_of_mem_splitOn p hp.1⟩

/-- `SplitStringT` takes a path joined with the delimiter back to its pieces, when every piece
is nonempty and holds no delimiter. -/
theorem splitStringT_intercalate {d : Char} {pieces : List (List Char)}
    (hpieces : ∀ p ∈ pieces, p ≠ [] ∧ d ∉ p) :
    splitStringT ([d].intercalate pieces) d = pieces := by
  rw [splitStringT_eq_splitPieces, splitPieces]
  cases pieces with
  | nil => rfl
  | cons p ps =>
    rw [List.splitOn_intercalate _ d (fun p hp => (hpieces p hp).2) (List.cons_ne_nil p ps),
      List.filter_eq_self]
    intro q hq
    simpa using (hpieces q hq).1

/-- `SplitStringT` parses a path. For every `StringT` and delimiter it gives the pieces between
delimiters with the empty ones dropped; each piece it gives is nonempty and holds no delimiter;
and it takes the join, with the delimiter, of any such pieces back to them, so that splitting the
join of a split gives the split again. -/
theorem splitStringT_parses_path (d : Char) :
    (∀ str, splitStringT str d = splitPieces str d) ∧
      (∀ str, ∀ p ∈ splitStringT str d, p ≠ [] ∧ d ∉ p) ∧
      ∀ pieces : List (List Char), (∀ p ∈ pieces, p ≠ [] ∧ d ∉ p) →
        splitStringT ([d].intercalate pieces) d = pieces :=
  ⟨fun str => splitStringT_eq_splitPieces str d, fun _ _ => mem_splitStringT,
    fun _ => splitStringT_intercalate⟩

/-- Repeated, leading and trailing delimiters give no empty piece. -/
example : splitStringT "/chain//head/".toList '/' = ["chain".toList, "head".toList] := by
  decide

end Infra

end PeerplaysContractNode
