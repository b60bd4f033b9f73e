import Mathlib.Algebra.BigOperators.Group.List.Basic
import Mathlib.Algebra.Ring.Nat
import Mathlib.Data.List.Nodup
import Std.Data.ExtTreeSet
import Zkie.Checked

namespace Zkie.OrderedMap

open Checked
open Std (ExtTreeMap ExtTreeSet TransCmp LawfulEqCmp)

variable {κ β ε : Type} {cmp : κ → κ → Ordering} [TransCmp cmp]

theorem nodup_toList (m : ExtTreeMap κ β cmp) : m.toList.Nodup := by
  apply List.Nodup.of_map Prod.fst
  rw [ExtTreeMap.map_fst_toList_eq_keys]
  exact ExtTreeMap.nodup_keys

variable [LawfulEqCmp cmp] {m : ExtTreeMap κ β cmp}

theorem toList_insert_perm {k : κ} {v : β} (h : k ∉ m) : (m.insert k v).toList.Perm ((k, v) :: m.toList) := by
  have hnew : (k, v) ∉ m.toList := by
    intro hmem
    rw [ExtTreeMap.mem_toList_iff_getElem?_eq_some] at hmem
    exact h (ExtTreeMap.mem_iff_isSome_getElem?.mpr (Option.isSome_of_mem hmem))
  apply (List.perm_ext_iff_of_nodup (nodup_toList _) (List.nodup_cons.mpr ⟨hnew, nodup_toList m⟩)).mpr
  rintro ⟨k', v'⟩
  rw [ExtTreeMap.mem_toList_iff_getElem?_eq_some, ExtTreeMap.getElem?_insert, List.mem_cons,
    ExtTreeMap.mem_toList_iff_getElem?_eq_some]
  by_cases hk : k = k'
  · subst hk
    have hnone : m[k]? = none := ExtTreeMap.getElem?_eq_none h
    simp [hnone, Std.ReflCmp.compare_self, eq_comm]
  · have hcmp : cmp k k' ≠ .eq := fun heq => hk (LawfulEqCmp.eq_of_compare heq)
    simp [hcmp, Ne.symm hk]

theorem nodup_setToList (s : ExtTreeSet κ cmp) : s.toList.Nodup := by
  apply ExtTreeSet.distinct_toList.imp
  rintro a b hab rfl
  exact hab Std.ReflCmp.compare_self

/-- A map and a set have the same keys in the same order, if they have the same keys at all. -/
theorem keys_eq_toList {s : ExtTreeSet κ cmp} : m.keys = s.toList ↔ ∀ k, k ∈ m ↔ k ∈ s := by
  constructor
  · intro h k
    rw [← ExtTreeMap.mem_keys, h, ExtTreeSet.mem_toList]
  · intro h
    have hperm : m.keys.Perm s.toList := by
      apply (List.perm_ext_iff_of_nodup ExtTreeMap.nodup_keys (nodup_setToList s)).mpr
      intro k
      rw [ExtTreeMap.mem_keys, ExtTreeSet.mem_toList]
      exact h k
    apply List.Perm.eq_of_pairwise _ ExtTreeMap.ordered_keys ExtTreeSet.ordered_toList hperm
    intro a b _ _ hab hba
    have hswap : cmp a b = (cmp b a).swap := Std.OrientedCmp.eq_swap
    rw [hswap, hba] at hab
    cases hab

/-- The sizes of all values together. -/
def total (size : β → ℕ) (m : ExtTreeMap κ β cmp) : ℕ := (m.toList.map fun entry => size entry.2).sum

theorem total_insert {size : β → ℕ} {k : κ} {v : β} (h : k ∉ m) : total size (m.insert k v) = size v + total size m := by
  rw [total, ((toList_insert_perm h).map _).sum_eq, List.map_cons, List.sum_cons, total]

/-- The values under the keys of a map are all of its values. -/
theorem filterMap_keys (m : ExtTreeMap κ β cmp) : (m.keys.filterMap fun k => m[k]?) = m.toList.map Prod.snd := by
  rw [← ExtTreeMap.map_fst_toList_eq_keys, List.filterMap_map, ← List.filterMap_eq_map]
  apply List.filterMap_congr
  intro entry hentry
  exact ExtTreeMap.mem_toList_iff_getElem?_eq_some.mp hentry

section Project

variable {κ' : Type} {cmp' : κ' → κ' → Ordering} [TransCmp cmp'] [LawfulEqCmp cmp']

theorem getElem?_ofList_nodup {entries : List (κ × β)} (h : (entries.map Prod.fst).Nodup) {k : κ} {v : β} :
    (ExtTreeMap.ofList entries cmp)[k]? = some v ↔ (k, v) ∈ entries := by
  let : DecidableEq κ := fun a b => decidable_of_iff (cmp a b = .eq)
    ⟨LawfulEqCmp.eq_of_compare, fun heq => heq ▸ Std.ReflCmp.compare_self⟩
  have hdistinct : entries.Pairwise fun a b => ¬cmp a.1 b.1 = .eq := by
    apply (List.pairwise_map.mp h).imp
    intro a b hne heq
    exact hne (LawfulEqCmp.eq_of_compare heq)
  constructor
  · intro hget
    by_cases hk : k ∈ entries.map Prod.fst
    · obtain ⟨⟨k', v'⟩, hmem, rfl⟩ := List.mem_map.mp hk
      rw [ExtTreeMap.getElem?_ofList_of_mem Std.ReflCmp.compare_self hdistinct hmem] at hget
      cases hget
      exact hmem
    · have hmem := ExtTreeMap.mem_iff_isSome_getElem?.mpr (Option.isSome_of_mem hget)
      rw [ExtTreeMap.mem_ofList, List.contains_iff_mem] at hmem
      exact absurd hmem hk
  · intro hmem
    exact ExtTreeMap.getElem?_ofList_of_mem Std.ReflCmp.compare_self hdistinct hmem

/-- The entries whose keys have another name, under this name. -/
def project (f : κ → Option κ') (m : ExtTreeMap κ β cmp) : ExtTreeMap κ' β cmp' :=
  ExtTreeMap.ofList (m.toList.filterMap fun entry => (f entry.1).map fun k => (k, entry.2)) cmp'

theorem getElem?_project {f : κ → Option κ'} {g : κ' → κ} (hf : ∀ k k', f k = some k' ↔ k = g k') (k : κ') :
    (project f m : ExtTreeMap κ' β cmp')[k]? = m[g k]? := by
  have hkeys : (m.toList.filterMap fun entry => (f entry.1).map fun k => (k, entry.2)).map Prod.fst = m.keys.filterMap f := by
    rw [List.map_filterMap, ← ExtTreeMap.map_fst_toList_eq_keys, List.filterMap_map]
    apply List.filterMap_congr
    intro entry _
    cases h : f entry.1 <;> simp [h]
  have hnodup : ((m.toList.filterMap fun entry => (f entry.1).map fun k => (k, entry.2)).map Prod.fst).Nodup := by
    rw [hkeys]
    apply List.Nodup.filterMap _ ExtTreeMap.nodup_keys
    intro a b k ha hb
    rw [(hf a k).mp ha, (hf b k).mp hb]
  apply Option.ext
  intro v
  rw [project, getElem?_ofList_nodup hnodup, List.mem_filterMap]
  constructor
  · rintro ⟨⟨k', v'⟩, hmem, hmap⟩
    obtain ⟨k'', hk, heq⟩ := Option.map_eq_some_iff.mp hmap
    cases heq
    rw [← (hf k' k).mp hk]
    exact ExtTreeMap.mem_toList_iff_getElem?_eq_some.mp hmem
  · intro hget
    exact ⟨(g k, v), ExtTreeMap.mem_toList_iff_getElem?_eq_some.mpr hget, by rw [(hf _ _).mpr rfl]; rfl⟩

end Project

section Unique

variable (error : κ → ε)

/-- An entry under a key that is not there yet. -/
def insertUnique [DecidableEq κ] (m : ExtTreeMap κ β cmp) (entry : κ × β) : Except ε (ExtTreeMap κ β cmp) :=
  if entry.1 ∈ m then .error (error entry.1) else .ok (m.insert entry.1 entry.2)

variable [DecidableEq κ] {error}

theorem collect_append {xs : List (κ × β)} {m' : ExtTreeMap κ β cmp} :
    xs.foldlM (insertUnique error) m = .ok m' ↔ m'.toList.Perm (m.toList ++ xs) := by
  induction xs generalizing m with
  | nil =>
      rw [List.append_nil]
      constructor
      · intro h
        cases h
        exact List.Perm.refl _
      · intro h
        rw [ExtTreeMap.ext_toList h]
        rfl
  | cons x xs ih =>
      rw [List.foldlM_cons]
      by_cases hx : x.1 ∈ m
      · rw [insertUnique, if_pos hx]
        constructor
        · intro h
          cases h
        · intro h
          have hnodup := (h.map Prod.fst).nodup_iff.mp (by
            rw [ExtTreeMap.map_fst_toList_eq_keys]
            exact ExtTreeMap.nodup_keys)
          rw [List.map_append, List.map_cons, ExtTreeMap.map_fst_toList_eq_keys] at hnodup
          exact absurd rfl ((List.nodup_append.mp hnodup).2.2 _ (ExtTreeMap.mem_keys.mpr hx) _ List.mem_cons_self)
      · rw [insertUnique, if_neg hx]
        change xs.foldlM (insertUnique error) (m.insert x.1 x.2) = .ok m' ↔ _
        rw [ih]
        have hperm : ((m.insert x.1 x.2).toList ++ xs).Perm (m.toList ++ x :: xs) :=
          ((toList_insert_perm hx).append_right xs).trans List.perm_middle.symm
        exact ⟨fun h => h.trans hperm, fun h => h.trans hperm.symm⟩

/-- The entries that make a map are those of the map in any order, each key once. -/
theorem collect_ok_iff {xs : List (κ × β)} : xs.foldlM (insertUnique error) ∅ = .ok m ↔ m.toList.Perm xs := by
  rw [collect_append, ExtTreeMap.toList_eq_nil_iff.mpr rfl, List.nil_append]

end Unique

end Zkie.OrderedMap
