import Mathlib.Algebra.BigOperators.Group.Finset.Basic
import Mathlib.Algebra.Ring.Nat
import Std.Data.ExtTreeMap
import Std.Data.ExtTreeSet
import Zkie.Worklist

namespace Zkie.ProcessTree

open Std (ExtTreeMap ExtTreeSet)
open Worklist (Reachable Searching next)

section Model

structure ProcessEntry where
  pid : UInt32
  parentPid : UInt32
  residentBytes : UInt64
  deriving DecidableEq, Repr

def saturatingAdd (a b : UInt64) : UInt64 := UInt64.ofNat (min (2 ^ 64 - 1) (a.toNat + b.toNat))

variable (entries : List ProcessEntry)

/-- The positions of the children under the pid of their parent. -/
def pushChild (byParent : ExtTreeMap UInt32 (List ℕ)) (entry : ProcessEntry × ℕ) : ExtTreeMap UInt32 (List ℕ) :=
  byParent.insert entry.1.parentPid ((byParent[entry.1.parentPid]?).getD [] ++ [entry.2])

def byParent : ExtTreeMap UInt32 (List ℕ) := entries.zipIdx.foldl pushChild ∅

/-- The pids that a visit pushes on the stack. -/
def children (pid : UInt32) : List UInt32 :=
  (((byParent entries)[pid]?).getD []).filterMap fun index => (entries[index]?).map ProcessEntry.pid

/-- The entry that the first match finds. -/
def residentOf (pid : UInt32) : UInt64 := ((entries.find? fun entry => entry.pid = pid).map ProcessEntry.residentBytes).getD 0

/-- The top of the stack is the head of the list. -/
structure Walk where
  seen : ExtTreeSet UInt32
  stack : List UInt32
  total : UInt64

def visit (walk : Walk) : Option Walk :=
  match walk.stack with
  | [] => none
  | pid :: stack =>
      if pid ∈ walk.seen then some { walk with stack }
      else some
        { seen := walk.seen.insert pid
          stack := (children entries pid).reverse ++ stack
          total := saturatingAdd walk.total (residentOf entries pid) }

/-- The loop, with a bound on its iterations. -/
def walkAll : ℕ → Walk → Option UInt64
  | 0, _ => none
  | fuel + 1, walk => (visit entries walk).elim (some walk.total) (walkAll fuel)

def descendantResidentBytes (fuel : ℕ) (roots : List UInt32) : Option UInt64 :=
  if roots = [] then some 0 else walkAll entries fuel ⟨∅, roots.reverse, 0⟩

end Model

section Links

variable {entries : List ProcessEntry} {pid : UInt32}

/-- The links from the parents to their children. -/
def links (entries : List ProcessEntry) : List (UInt32 × UInt32) := entries.map fun entry => (entry.parentPid, entry.pid)

theorem pushChild_getD (m : ExtTreeMap UInt32 (List ℕ)) (entry : ProcessEntry × ℕ) :
    ((pushChild m entry)[pid]?).getD [] = (m[pid]?).getD [] ++ if entry.1.parentPid = pid then [entry.2] else [] := by
  rw [pushChild, ExtTreeMap.getElem?_insert]
  by_cases h : entry.1.parentPid = pid
  · subst h
    simp
  · have hne : compare entry.1.parentPid pid ≠ .eq := fun heq => h (Std.LawfulEqCmp.eq_of_compare heq)
    rw [if_neg hne, if_neg h, List.append_nil]

theorem foldl_pushChild_getD (xs : List (ProcessEntry × ℕ)) (m : ExtTreeMap UInt32 (List ℕ)) :
    ((xs.foldl pushChild m)[pid]?).getD [] = (m[pid]?).getD [] ++ (xs.filter fun e => e.1.parentPid = pid).map Prod.snd := by
  induction xs generalizing m with
  | nil => rw [List.foldl_nil, List.filter_nil, List.map_nil, List.append_nil]
  | cons x xs ih =>
      rw [List.foldl_cons, ih, pushChild_getD, List.append_assoc, List.filter_cons]
      by_cases h : x.1.parentPid = pid <;> simp [h]

/-- The positions lead back to the entries that were filed there. -/
theorem children_eq (entries : List ProcessEntry) (pid : UInt32) : children entries pid = next (links entries) pid := by
  have hback : ∀ e ∈ entries.zipIdx.filter fun e => e.1.parentPid = pid, (entries[e.2]?).map ProcessEntry.pid = some e.1.pid := by
    intro e he
    have hget := List.mem_zipIdx_iff_getElem?.mp (List.mem_of_mem_filter he)
    rw [hget, Option.map_some]
  rw [children, byParent, foldl_pushChild_getD, ExtTreeMap.getElem?_empty, Option.getD_none, List.nil_append,
    List.filterMap_map, next, links, List.filter_map, List.map_map]
  calc (entries.zipIdx.filter fun e => e.1.parentPid = pid).filterMap
        ((fun index => (entries[index]?).map ProcessEntry.pid) ∘ Prod.snd)
      = (entries.zipIdx.filter fun e => e.1.parentPid = pid).filterMap fun e => some e.1.pid := List.filterMap_congr hback
    _ = ((entries.zipIdx.filter fun e => e.1.parentPid = pid).map Prod.fst).map ProcessEntry.pid := by
      rw [List.map_map, ← List.filterMap_eq_map]
      rfl
    _ = (((entries.zipIdx.map Prod.fst).filter fun entry => entry.parentPid = pid)).map ProcessEntry.pid := by
      rw [List.filter_map]
      rfl
    _ = (entries.filter fun entry => entry.parentPid = pid).map ProcessEntry.pid := by
      rw [List.zipIdx_map_fst]

end Links

section Total

variable {entries : List ProcessEntry} {roots : List UInt32} {walk walk' : Walk} {s s' : Worklist.State UInt32}

theorem toNat_saturatingAdd (a b : UInt64) : (saturatingAdd a b).toNat = min (2 ^ 64 - 1) (a.toNat + b.toNat) := by
  rw [saturatingAdd, UInt64.toNat_ofNat_of_lt']
  exact lt_of_le_of_lt (min_le_left _ _) (by decide)

/-- The bytes of all pids of a list. -/
def residentSum (entries : List ProcessEntry) (pids : List UInt32) : ℕ :=
  (pids.map fun pid => (residentOf entries pid).toNat).sum

/-- A walk carries what the search does, and the sum of what it has visited. -/
structure Follows (entries : List ProcessEntry) (walk : Walk) (s : Worklist.State UInt32) : Prop where
  seen : ∀ pid, pid ∈ walk.seen ↔ pid ∈ s.visited
  stack : walk.stack = s.stack
  total : walk.total.toNat = min (2 ^ 64 - 1) (residentSum entries s.visited)

theorem Follows.visit_none (h : Follows entries walk s) (hstep : Worklist.step (links entries) s = none) :
    visit entries walk = none := by
  obtain ⟨visited, _ | ⟨pid, stack⟩⟩ := s
  · rw [visit, h.stack]
  · cases hstep

theorem Follows.visit_some (h : Follows entries walk s) (hstep : Worklist.step (links entries) s = some s') :
    ∃ walk', visit entries walk = some walk' ∧ Follows entries walk' s' := by
  obtain ⟨visited, _ | ⟨pid, stack⟩⟩ := s
  · cases hstep
  · rw [Worklist.step] at hstep
    rw [visit, h.stack]
    by_cases hpid : pid ∈ visited
    · rw [if_pos hpid] at hstep
      cases hstep
      exact ⟨_, if_pos ((h.seen pid).mpr hpid), h.seen, rfl, h.total⟩
    · rw [if_neg hpid] at hstep
      cases hstep
      refine ⟨_, if_neg fun hmem => hpid ((h.seen pid).mp hmem), fun p => ?_, ?_, ?_⟩
      · rw [ExtTreeSet.mem_insert, Std.LawfulEqCmp.compare_eq_iff_eq, h.seen, List.mem_cons, eq_comm]
      · rw [children_eq]
      · have hsum : residentSum entries (pid :: visited) = (residentOf entries pid).toNat + residentSum entries visited := by
          rw [residentSum, List.map_cons, List.sum_cons, residentSum]
        have htotal := h.total
        rw [toNat_saturatingAdd, hsum]
        dsimp only at htotal
        omega

/-- However often the loop may run, it ends as the search does. -/
theorem walkAll_run {fuel : ℕ} {visited : List UInt32} (h : Follows entries walk s)
    (hrun : Worklist.run (links entries) fuel s = some visited) :
    ∃ total, walkAll entries fuel walk = some total ∧ total.toNat = min (2 ^ 64 - 1) (residentSum entries visited) := by
  induction fuel generalizing walk s with
  | zero => cases hrun
  | succ fuel ih =>
      rw [Worklist.run] at hrun
      rw [walkAll]
      cases hstep : Worklist.step (links entries) s with
      | none =>
          rw [hstep] at hrun
          cases hrun
          rw [h.visit_none hstep]
          exact ⟨walk.total, rfl, h.total⟩
      | some s' =>
          rw [hstep] at hrun
          obtain ⟨walk', hvisit, hfollows⟩ := h.visit_some hstep
          rw [hvisit]
          exact ih hfollows hrun

theorem reachable_congr {roots' : List UInt32} (h : ∀ p, p ∈ roots ↔ p ∈ roots') (p : UInt32) :
    Reachable (links entries) roots p ↔ Reachable (links entries) roots' p := by
  simp only [Reachable, h]

theorem not_reachable_nil (p : UInt32) : ¬Reachable (links entries) [] p := by
  rintro ⟨root, hroot, -⟩
  exact List.not_mem_nil hroot

/-- The pids that are counted, without a repetition. -/
theorem descendantResidentBytes_visits {fuel : ℕ} (hfuel : roots.length + entries.length < fuel) :
    ∃ total visited, descendantResidentBytes entries fuel roots = some total ∧ visited.Nodup ∧
      (∀ p, p ∈ visited ↔ Reachable (links entries) roots p) ∧
        total.toNat = min (2 ^ 64 - 1) (residentSum entries visited) := by
  by_cases hroots : roots = []
  · subst hroots
    exact ⟨0, [], rfl, List.nodup_nil, fun p => iff_of_false List.not_mem_nil (not_reachable_nil p), rfl⟩
  · have hremaining : Worklist.remaining (links entries) ⟨[], roots.reverse⟩ < fuel := by
      have hlength : ((links entries).filter fun e => e.1 ∉ ([] : List UInt32)).length ≤ entries.length :=
        (List.length_filter_le _ _).trans_eq (List.length_map _)
      have hstack : roots.reverse.length = roots.length := List.length_reverse
      rw [Worklist.remaining]
      dsimp only
      omega
    obtain ⟨visited, hrun⟩ := Worklist.run_total hremaining
    have hstart : Searching (links entries) roots ⟨[], roots.reverse⟩ :=
      Worklist.searching_start _ fun x => List.mem_reverse
    obtain ⟨hnodup, hvisited⟩ := Worklist.run_visits hstart hrun
    have hfollows : Follows entries ⟨∅, roots.reverse, 0⟩ ⟨[], roots.reverse⟩ := ⟨fun p => by simp, rfl, rfl⟩
    obtain ⟨total, hwalk, htotal⟩ := walkAll_run hfollows hrun
    exact ⟨total, visited, (if_neg hroots).trans hwalk, hnodup, hvisited, htotal⟩

end Total

/-- The loop ends, with the bytes of every pid that is reachable from the roots counted once, and not more than fits. -/
theorem descendant_resident_bytes_counts (entries : List ProcessEntry) (roots : List UInt32) (fuel : ℕ)
    (hfuel : roots.length + entries.length < fuel) :
    ∃ (total : UInt64) (pids : Finset UInt32), descendantResidentBytes entries fuel roots = some total ∧
      (∀ p, p ∈ pids ↔ Reachable (links entries) roots p) ∧
      total.toNat = min (2 ^ 64 - 1) (∑ p ∈ pids, (residentOf entries p).toNat) ∧
      ∀ (roots' : List UInt32) (fuel' : ℕ), (∀ p, p ∈ roots ↔ p ∈ roots') → roots'.length + entries.length < fuel' →
        descendantResidentBytes entries fuel' roots' = some total := by
  obtain ⟨total, visited, hrun, hnodup, hvisited, htotal⟩ := descendantResidentBytes_visits hfuel
  have hsum : ∑ p ∈ visited.toFinset, (residentOf entries p).toNat = residentSum entries visited :=
    List.sum_toFinset _ hnodup
  refine ⟨total, visited.toFinset, hrun, fun p => List.mem_toFinset.trans (hvisited p), by rw [hsum, htotal], ?_⟩
  intro roots' fuel' hsame hfuel'
  obtain ⟨total', visited', hrun', hnodup', hvisited', htotal'⟩ := descendantResidentBytes_visits hfuel'
  have hperm : visited.Perm visited' := (List.perm_ext_iff_of_nodup hnodup hnodup').mpr fun p =>
    (hvisited p).trans ((reachable_congr hsame p).trans (hvisited' p).symm)
  have hequal : residentSum entries visited = residentSum entries visited' := (hperm.map _).sum_eq
  rw [hrun']
  exact congrArg some (UInt64.toNat_inj.mp (by rw [htotal, htotal', hequal]))

/-- A cycle, a pid with two entries and a parent that is missing. -/
def tangled : List ProcessEntry := [⟨1, 2, 10⟩, ⟨2, 1, 20⟩, ⟨2, 1, 40⟩, ⟨3, 9, 80⟩]

theorem descendant_resident_bytes_counts_tangled :
    descendantResidentBytes tangled 7 [1, 1] = some 30 ∧ descendantResidentBytes tangled 6 [1] = some 30 := by
  have hcomputed : descendantResidentBytes tangled 7 [1, 1] = some 30 := by
    decide +kernel
  obtain ⟨total, pids, hrun, -, -, hsame⟩ := descendant_resident_bytes_counts tangled [1, 1] 7 (by decide)
  have htotal : total = 30 := Option.some_inj.mp (hrun.symm.trans hcomputed)
  have hother := hsame [1] 6 (by simp) (by decide)
  rw [htotal] at hother
  exact ⟨hcomputed, hother⟩

end Zkie.ProcessTree
