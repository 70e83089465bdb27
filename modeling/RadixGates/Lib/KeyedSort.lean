import Mathlib.Order.Defs.LinearOrder
import Mathlib.Data.List.Perm.Basic
import Mathlib.Data.List.Sort

/-!
# Sorting by a key, without stability

A library sort that is not stable fixes its result only up to the order of
equal keys.  `SortFunc` is any such function, largest key first.  Where the
keys of a list are distinct the result is unique, and deleting elements before
or after sorting is the same.
-/

set_option autoImplicit false

namespace RadixGates.KeyedSort

section
variable {α β κ : Type} [LinearOrder κ]

def Descending (key : α → κ) (l : List α) : Prop := l.Pairwise fun x y => key y ≤ key x

/-- A sort function, given by what it guarantees: a permutation of its input
in descending order of the key. -/
structure SortFunc (α κ : Type) [LinearOrder κ] where
  run : (α → κ) → List α → List α
  perm : ∀ key l, (run key l).Perm l
  descending : ∀ key l, Descending key (run key l)

def SortFunc.insertion : SortFunc α κ where
  run key l := l.insertionSort fun x y => key y ≤ key x
  perm key l := List.perm_insertionSort (fun x y => key y ≤ key x) l
  descending key l := by
    have total : Std.Total fun x y : α => key y ≤ key x := ⟨fun x y => le_total (key y) (key x)⟩
    have transitive : IsTrans α fun x y => key y ≤ key x :=
      ⟨fun _ _ _ first second => le_trans second first⟩
    exact List.pairwise_insertionSort (fun x y => key y ≤ key x) l

theorem descending_unique (key : α → κ) (l₁ l₂ : List α)
    (distinct : ∀ a ∈ l₁, ∀ b ∈ l₁, key a = key b → a = b)
    (first : Descending key l₁) (second : Descending key l₂) (same : l₁.Perm l₂) : l₁ = l₂ := by
  refine List.Perm.eq_of_pairwise ?_ first second same
  intro a b inFirst inSecond below above
  exact distinct a inFirst b (same.symm.subset inSecond) (le_antisymm above below)

theorem Descending.map {f : α → β} {key : β → κ} {l : List α}
    (sorted : Descending (fun a => key (f a)) l) : Descending key (l.map f) :=
  List.pairwise_map.mpr sorted

theorem Descending.filter {key : α → κ} {l : List α} (sorted : Descending key l)
    (keep : α → Bool) : Descending key (l.filter keep) :=
  List.Pairwise.filter keep sorted

theorem Descending.head_largest {key : α → κ} {top : α} {rest : List α}
    (sorted : Descending key (top :: rest)) (a : α) (member : a ∈ top :: rest) :
    key a ≤ key top := by
  rcases List.mem_cons.mp member with rfl | later
  · exact le_rfl
  · exact (List.pairwise_cons.mp sorted).1 a later

theorem sorted_sublist_eq_filter (key : α → κ) (whole part sortedWhole sortedPart : List α)
    (keep : α → Bool) (kept : part.Perm (whole.filter keep))
    (distinct : ∀ a ∈ whole, ∀ b ∈ whole, key a = key b → a = b)
    (permWhole : sortedWhole.Perm whole) (descWhole : Descending key sortedWhole)
    (permPart : sortedPart.Perm part) (descPart : Descending key sortedPart) :
    sortedPart = sortedWhole.filter keep := by
  have same : sortedPart.Perm (sortedWhole.filter keep) :=
    (permPart.trans kept).trans (permWhole.filter keep).symm
  refine descending_unique key _ _ ?_ descPart (descWhole.filter keep) same
  intro a inPart b inPart' equal
  have inWhole : ∀ x ∈ sortedPart, x ∈ whole := by
    intro x member
    exact permWhole.subset (List.mem_of_mem_filter (same.subset member))
  exact distinct a (inWhole a inPart) b (inWhole b inPart') equal

end

end RadixGates.KeyedSort
