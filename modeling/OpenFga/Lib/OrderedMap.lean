import Mathlib.Data.List.Sort
import Std.Data.ExtTreeMap
import Std.Data.ExtTreeSet

/-!
# Maps and sets with ordered keys

Facts about the extensional tree maps and sets of the standard library whose keys are
linearly ordered, so that a comparison decides equality and the listing of a map is the
only sorted list of its entries.
-/

namespace OpenFga.OrderedMap

open Std List

variable {α β : Type} [LinearOrder α] {list : List (α × β)}

instance lawfulEqOrd : LawfulEqOrd α where
  eq_of_compare := fun same => by simpa using same

variable {map : ExtTreeMap α β} {key other : α} {value : β}

theorem getElem?_insert_of_ne (different : key ≠ other) :
    (map.insert key value)[other]? = map[other]? := by
  rw [ExtTreeMap.getElem?_insert, if_neg]
  exact fun same => different (LawfulEqOrd.eq_of_compare same)

theorem getElem?_erase_of_ne (different : key ≠ other) : (map.erase key)[other]? = map[other]? := by
  rw [ExtTreeMap.getElem?_erase, if_neg]
  exact fun same => different (LawfulEqOrd.eq_of_compare same)

/-- A found value is the inserted one or was there before. -/
theorem of_getElem?_insert {found : β} (present : (map.insert key value)[other]? = some found) :
    key = other ∧ value = found ∨ map[other]? = some found := by
  by_cases same : key = other
  · rw [same, ExtTreeMap.getElem?_insert_self, Option.some.injEq] at present
    exact .inl ⟨same, present⟩
  · exact .inr ((getElem?_insert_of_ne same).symm.trans present)

theorem of_getElem?_erase {found : β} (present : (map.erase key)[other]? = some found) :
    map[other]? = some found := by
  by_cases same : key = other
  · rw [same, ExtTreeMap.getElem?_erase_self] at present
    cases present
  · exact (getElem?_erase_of_ne same).symm.trans present

theorem mem_insert_iff : other ∈ map.insert key value ↔ other = key ∨ other ∈ map := by
  rw [ExtTreeMap.mem_insert, Std.compare_eq_iff_eq, eq_comm]

theorem mem_erase_iff : other ∈ map.erase key ↔ other ≠ key ∧ other ∈ map := by
  rw [ExtTreeMap.mem_erase, Ne, Std.compare_eq_iff_eq, eq_comm]

theorem mem_toList {entry : α × β} : entry ∈ map.toList ↔ map[entry.1]? = some entry.2 :=
  ExtTreeMap.mem_toList_iff_getElem?_eq_some

/-- The entries of a map are listed in the order of their keys. -/
theorem toList_sorted (map : ExtTreeMap α β) :
    map.toList.Pairwise fun first second => first.1 < second.1 := by
  refine ExtTreeMap.ordered_keys_toList.imp ?_
  intro first second less
  exact compare_lt_iff_lt.mp less

theorem set_toList_sorted (set : ExtTreeSet α) : set.toList.Pairwise (· < ·) := by
  refine ExtTreeSet.ordered_toList.imp ?_
  intro first second less
  exact compare_lt_iff_lt.mp less

/-- A list sorted by a key is determined by its members. -/
theorem eq_of_sorted {γ : Type} {keyOf : γ → α} {list list' : List γ}
    (sorted : list.Pairwise fun first second => keyOf first < keyOf second)
    (sorted' : list'.Pairwise fun first second => keyOf first < keyOf second)
    (members : ∀ entry, entry ∈ list ↔ entry ∈ list') : list = list' := by
  have irrefl : Std.Irrefl fun first second : γ => keyOf first < keyOf second :=
    ⟨fun entry => lt_irrefl (keyOf entry)⟩
  have asymm : Std.Antisymm fun first second : γ => keyOf first < keyOf second :=
    ⟨fun first second less greater => absurd greater less.asymm⟩
  exact sorted.eq_of_mem_iff sorted' members

theorem mem_set_ofList {list : List α} : key ∈ ExtTreeSet.ofList list ↔ key ∈ list := by
  rw [ExtTreeSet.mem_ofList, contains_iff_mem]

theorem keys_toList_nodup (map : ExtTreeMap α β) : (map.toList.map Prod.fst).Nodup := by
  rw [List.Nodup, pairwise_map]
  exact (toList_sorted map).imp fun less => less.ne

theorem mem_ofList_keys : key ∈ ExtTreeMap.ofList list ↔ key ∈ list.map Prod.fst := by
  rw [ExtTreeMap.mem_ofList, contains_iff_mem]

theorem keys_toList_subset : (ExtTreeMap.ofList list).toList.map Prod.fst ⊆ list.map Prod.fst := by
  intro key member
  obtain ⟨entry, listed, rfl⟩ := mem_map.mp member
  apply mem_ofList_keys.mp
  exact ExtTreeMap.isSome_getElem?_iff_mem.mp (Option.isSome_of_mem (mem_toList.mp listed))

theorem nodup_of_size_ofList (size : (ExtTreeMap.ofList list).size = list.length) :
    (list.map Prod.fst).Nodup := by
  have distinct := keys_toList_nodup (ExtTreeMap.ofList list)
  have whole := (subperm_of_subset distinct keys_toList_subset).perm_of_length_le (by
    rw [length_map, length_map, ExtTreeMap.length_toList, size])
  exact whole.nodup_iff.mp distinct

/-- A map made of a list without repeated keys has the entries of the list. -/
theorem toList_ofList_perm (distinct : (list.map Prod.fst).Nodup) :
    (ExtTreeMap.ofList list).toList.Perm list := by
  have apart : list.Pairwise fun first second => ¬ compare first.1 second.1 = .eq := by
    rw [List.Nodup, pairwise_map] at distinct
    exact distinct.imp fun different same => different (LawfulEqOrd.eq_of_compare same)
  have entries : (ExtTreeMap.ofList list).toList.Nodup := (keys_toList_nodup _).of_map
  refine (perm_ext_iff_of_nodup entries distinct.of_map).mpr fun entry => ?_
  rw [mem_toList]
  constructor
  · intro found
    have present := mem_ofList_keys.mp
      (ExtTreeMap.isSome_getElem?_iff_mem.mp (Option.isSome_of_mem found))
    obtain ⟨⟨key, value⟩, listed, same⟩ := mem_map.mp present
    cases same
    rw [ExtTreeMap.getElem?_ofList_of_mem (compare_self) apart listed] at found
    cases found
    exact listed
  · intro listed
    exact ExtTreeMap.getElem?_ofList_of_mem compare_self apart listed

/-- A map is made again of its entries. -/
theorem toList_ofList_toList (map : ExtTreeMap α β) :
    (ExtTreeMap.ofList map.toList).toList = map.toList :=
  eq_of_sorted (toList_sorted _) (toList_sorted map) fun _ =>
    (toList_ofList_perm (keys_toList_nodup map)).mem_iff

end OpenFga.OrderedMap
