/-
Finite maps as strictly ascending lists of entries.

The order is part of the type, as the field `ascending`: two maps that give the same
value for every key have the same entries in the same order, so equality of maps is
equality of what they hold, and everything that prints a map prints it in one way.
-/

namespace VariantSelection

/-- Entries in the order of their keys, no key twice. -/
def Ascending {K : Type} {V : Type} [Ord K] (entries : List (K × V)) : Prop :=
  entries.Pairwise fun a b => compare a.1 b.1 = .lt

/-- A map from `K` to `V` with finitely many entries. -/
structure SortedMap (K : Type) (V : Type) [Ord K] where
  entries : List (K × V)
  ascending : Ascending entries

/-- Puts the entry `(k, v)` in its place, over an entry of the same key. -/
def insertEntry {K : Type} {V : Type} [Ord K] (k : K) (v : V) : List (K × V) → List (K × V)
  | [] => [(k, v)]
  | e :: rest =>
    match compare k e.1 with
    | .lt => (k, v) :: e :: rest
    | .eq => (k, v) :: rest
    | .gt => e :: insertEntry k v rest

section Entries
variable {K : Type} {V : Type} [Ord K]

theorem mem_insertEntry {k : K} {v : V} {a : K × V} {entries : List (K × V)}
    (h : a ∈ insertEntry k v entries) : a = (k, v) ∨ a ∈ entries := by
  induction entries with
  | nil => simpa [insertEntry] using h
  | cons e rest ih =>
    unfold insertEntry at h
    split at h <;> grind

theorem ascending_insertEntry [Std.TransOrd K] [Std.LawfulEqOrd K] (k : K) (v : V)
    {entries : List (K × V)} (h : Ascending entries) : Ascending (insertEntry k v entries) := by
  induction entries with
  | nil => simp [insertEntry, Ascending]
  | cons e rest ih =>
    obtain ⟨first, tail⟩ := List.pairwise_cons.1 h
    unfold insertEntry
    split
    case _ hlt =>
      refine List.pairwise_cons.2 ⟨fun a ha => ?_, h⟩
      rcases List.mem_cons.1 ha with rfl | ha
      · exact hlt
      · exact Std.TransCmp.lt_trans hlt (first a ha)
    case _ heq =>
      have hk : k = e.1 := Std.LawfulEqCmp.eq_of_compare heq
      exact List.pairwise_cons.2 ⟨fun a ha => by simpa [hk] using first a ha, tail⟩
    case _ hgt =>
      refine List.pairwise_cons.2 ⟨fun a ha => ?_, ih tail⟩
      rcases mem_insertEntry ha with rfl | ha
      · exact Std.OrientedCmp.lt_of_gt hgt
      · exact first a ha

end Entries

namespace SortedMap

section Basic
variable {K : Type} {V : Type} [Ord K]

instance [DecidableEq K] [DecidableEq V] : DecidableEq (SortedMap K V) := fun a b =>
  decidable_of_iff (a.entries = b.entries) <| by
    cases a; cases b; simp

/-- The map without entries. -/
def empty : SortedMap K V := ⟨[], List.Pairwise.nil⟩

instance : Inhabited (SortedMap K V) := ⟨empty⟩

/-- The value of `k`, if there is an entry for it. -/
def get? (m : SortedMap K V) (k : K) : Option V :=
  (m.entries.find? fun e => compare k e.1 == .eq).map Prod.snd

/-- Whether there is an entry for `k`. -/
def contains (m : SortedMap K V) (k : K) : Bool := (m.get? k).isSome

/-- How many entries there are. -/
def size (m : SortedMap K V) : Nat := m.entries.length

/-- Whether there is no entry. -/
def isEmpty (m : SortedMap K V) : Bool := m.entries.isEmpty

/-- The keys, ascending. -/
def keys (m : SortedMap K V) : List K := m.entries.map Prod.fst

/-- The values, in the order of their keys. -/
def values (m : SortedMap K V) : List V := m.entries.map Prod.snd

/-- The map without an entry for `k`. -/
def erase (m : SortedMap K V) (k : K) : SortedMap K V :=
  ⟨m.entries.filter fun e => compare k e.1 != .eq, m.ascending.sublist List.filter_sublist⟩

/-- The map with `f` applied to each value. -/
def mapValues {W : Type} (f : K → V → W) (m : SortedMap K V) : SortedMap K W :=
  ⟨m.entries.map fun e => (e.1, f e.1 e.2), by
    simpa [Ascending, List.pairwise_map] using m.ascending⟩

end Basic

section Insert
variable {K : Type} {V : Type} [Ord K] [Std.TransOrd K] [Std.LawfulEqOrd K]

/-- The map in which `k` has the value `v`, and every other key the value it had. -/
def insert (m : SortedMap K V) (k : K) (v : V) : SortedMap K V :=
  ⟨insertEntry k v m.entries, ascending_insertEntry k v m.ascending⟩

/-- The map of `entries`; of several entries for one key the last one counts. -/
def ofList (entries : List (K × V)) : SortedMap K V :=
  entries.foldl (fun m e => m.insert e.1 e.2) empty

/-- `m` with every entry of `top` laid on it. -/
def overlay (m top : SortedMap K V) : SortedMap K V :=
  top.entries.foldl (fun m e => m.insert e.1 e.2) m

/-- The map of `f`'s values at the entries of `m`, or the first failure in the order
of the keys. -/
def traverse {ε : Type} {W : Type} (f : K → V → Except ε W) (m : SortedMap K V) :
    Except ε (SortedMap K W) := do
  let entries ← m.entries.mapM fun e => do return (e.1, ← f e.1 e.2)
  return ofList entries

end Insert

end SortedMap

end VariantSelection
