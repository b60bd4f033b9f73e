import Zkie.RunQueue
import Mathlib.Algebra.Ring.Int.Defs
import Mathlib.Algebra.Ring.Nat
import Mathlib.Data.List.Perm.Basic
import Mathlib.Data.Prod.Lex

namespace Zkie.Scheduler

open RunState RunDatabase RunDatabase.RunDb Interruptible RunQueue

section Model

structure SchedulerConfig where
  capacity : ResourceCapacity
  agingSeconds : Int64

def defaultAgingSeconds : Int64 := 600

def SchedulerConfig.new (capacity : ResourceCapacity) : SchedulerConfig := ⟨capacity, defaultAgingSeconds⟩

structure SchedulerDecision where
  selected : List JobId
  remaining : ResourceCapacity
  reservedFor : Option JobId
  deriving DecidableEq

/-- The errors; the last one stands for a panic. -/
inductive SchedulerError where
  | database (e : DbError)
  | duplicateCandidate (job : JobId)
  | panicked (message : String)
  deriving DecidableEq

def checkedSub (a b : ℕ) : Except SchedulerError ℕ :=
  if b ≤ a then .ok (a - b) else .error (.panicked "attempt to subtract with overflow")

/-- What a request leaves of a capacity, if it fits. -/
def checkedReserve (c : ResourceCapacity) (r : ResourceRequest) : Except SchedulerError (Option ResourceCapacity) :=
  if c.Fits r then do
    let gpuCount ← checkedSub c.gpuCount r.gpuCount
    let cpuCores ← checkedSub c.cpuCores r.cpuCores
    let ramBytes ← checkedSub c.ramBytes r.ramBytes
    return some ⟨cpuCores, ramBytes, gpuCount, if gpuCount ≠ 0 then c.gpuVramBytesPerDevice else 0⟩
  else return none

def reserveOrPanic (message : String) (c : ResourceCapacity) (r : ResourceRequest) :
    Except SchedulerError ResourceCapacity := do
  match ← checkedReserve c r with
  | some remaining => return remaining
  | none => throw (.panicked message)

def fitScore (r : ResourceRequest) (c : ResourceCapacity) : Except SchedulerError ℕ := do
  let ram ← checkedSub c.ramBytes r.ramBytes
  let cpu ← checkedSub c.cpuCores r.cpuCores
  let score := normalizedLeftover ram c.ramBytes + normalizedLeftover cpu c.cpuCores
  if c.gpuCount ≠ 0 then do
    let gpu ← checkedSub c.gpuCount r.gpuCount
    let score := score + normalizedLeftover gpu c.gpuCount
    if r.gpuCount ≠ 0 then do
      let vram ← checkedSub c.gpuVramBytesPerDevice r.gpuVramBytesPerDevice
      return score + normalizedLeftover vram c.gpuVramBytesPerDevice
    else return score
  else return score

def compareFit (left right : SchedulableJob) (available : ResourceCapacity) : Except SchedulerError Ordering := do
  let leftScore ← fitScore left.request available
  let rightScore ← fitScore right.request available
  return (compare leftScore rightScore).then
    ((compare left.readySince right.readySince).then (compare left.jobId.text right.jobId.text))

/-- The first of the least elements. -/
def minBy {α ε : Type} (compare : α → α → Except ε Ordering) : List α → Except ε (Option α)
  | [] => .ok none
  | x :: xs => do
      let least ← xs.foldlM (fun least y => do return if (← compare least y) = Ordering.gt then y else least) x
      return some least

/-- The index of the candidate that fits best. -/
def bestIndex (eligible : List SchedulableJob) (remaining : ResourceCapacity) : Except SchedulerError (Option ℕ) := do
  let best ← minBy (fun left right : SchedulableJob × ℕ => compareFit left.1 right.1 remaining)
    (eligible.zipIdx.filter fun entry => remaining.Fits entry.1.request)
  return best.map Prod.snd

/-- The best-fit rounds; every round takes one candidate out, so the number of candidates bounds them. -/
def bestFit : ℕ → List SchedulableJob → ResourceCapacity → List JobId → Except SchedulerError SchedulerDecision
  | 0, _, remaining, selected => return ⟨selected, remaining, none⟩
  | fuel + 1, eligible, remaining, selected => do
      match ← bestIndex eligible remaining with
      | none => return ⟨selected, remaining, none⟩
      | some index =>
          match eligible[index]? with
          | none => throw (.panicked "removal index should be < len")
          | some best =>
              let remaining ← reserveOrPanic "best-fit request was checked to fit" remaining best.request
              bestFit fuel (eligible.eraseIdx index) remaining (selected ++ [best.jobId])

def saturatingSub (a b : ℤ) : ℤ := max (-2 ^ 63) (min (2 ^ 63 - 1) (a - b))

/-- The oldest candidate that has waited for long enough and would fit an idle machine. -/
def aged? (config : SchedulerConfig) (now : ℤ) (eligible : List SchedulableJob) : Option SchedulableJob :=
  eligible.find? fun c =>
    config.capacity.Fits c.request ∧ config.agingSeconds.toInt ≤ saturatingSub now c.readySince

/-- What is decided for eligible candidates in the order of the queue. -/
def select (config : SchedulerConfig) (available : ResourceCapacity) (now : ℤ) (eligible : List SchedulableJob) :
    Except SchedulerError SchedulerDecision :=
  match aged? config now eligible with
  | none => bestFit eligible.length eligible available []
  | some aged =>
      if available.Fits aged.request then do
        let remaining ← reserveOrPanic "aged request was checked to fit" available aged.request
        bestFit eligible.length (eligible.filter fun c => c.jobId ≠ aged.jobId) remaining [aged.jobId]
      else return ⟨[], available, some aged.jobId⟩

abbrev Decision : Type → Type := Process RunDb Unit SchedulerError

def eligibleCandidate (eligible : List SchedulableJob) (candidate : SchedulableJob) : Decision (List SchedulableJob) := do
  let db ← read
  let row ← orFail (.database (.jobNotFound candidate.jobId)) (db.job? candidate.jobId)
  return if row.state = .ready ∧ RequiredPredecessorsVerified db candidate.jobId then eligible ++ [candidate]
    else eligible

def orPanic {α : Type} : Except SchedulerError α → Decision α
  | .ok a => pure a
  | .error e => fail e

def decide (config : SchedulerConfig) (available : ResourceCapacity) (now : ℤ) (candidates : List SchedulableJob) :
    Decision SchedulerDecision := do
  match duplicate? [] candidates with
  | some job => fail (.duplicateCandidate job)
  | none =>
      let _ ← transact .database (fun _ => []) refreshReadiness
      let eligible ← foldEach eligibleCandidate [] candidates
      orPanic (select config (available.usable config.capacity) now (eligible.insertionSort Precedes))

end Model

section Arithmetic

variable {c : ResourceCapacity} {r : ResourceRequest} {left right : SchedulableJob}

theorem checkedSub_of_le {a b : ℕ} (h : b ≤ a) : checkedSub a b = .ok (a - b) := if_pos h

theorem checkedReserve_of_fits (h : c.Fits r) : checkedReserve c r = .ok (some (c.reserve r)) := by
  rw [checkedReserve, if_pos h, checkedSub_of_le h.2.2.1, checkedSub_of_le h.1, checkedSub_of_le h.2.1]
  rfl

theorem reserveOrPanic_of_fits {message : String} (h : c.Fits r) : reserveOrPanic message c r = .ok (c.reserve r) := by
  rw [reserveOrPanic, checkedReserve_of_fits h]
  rfl

/-- No subtraction underflows for a request that fits. -/
theorem fitScore_of_fits (h : c.Fits r) : fitScore r c = .ok (RunQueue.fitScore r c) := by
  obtain ⟨hcpu, hram, hgpu, hvram⟩ := h
  rw [fitScore, checkedSub_of_le hcpu, checkedSub_of_le hram, checkedSub_of_le hgpu, checkedSub_of_le hvram]
  rw [RunQueue.fitScore]
  by_cases hcount : c.gpuCount = 0
  · simp [hcount, bind, Except.bind, pure, Except.pure]
  · by_cases hrequest : r.gpuCount = 0
    · simp [hcount, hrequest, bind, Except.bind, pure, Except.pure]
    · simp [hcount, hrequest, bind, Except.bind, pure, Except.pure, Nat.add_assoc]

/-- The comparison of two requests that fit. -/
def order (c : ResourceCapacity) (left right : SchedulableJob) : Ordering :=
  (compare (RunQueue.fitScore left.request c) (RunQueue.fitScore right.request c)).then
    ((compare left.readySince right.readySince).then (compare left.jobId.text right.jobId.text))

theorem compareFit_of_fits (hleft : c.Fits left.request) (hright : c.Fits right.request) :
    compareFit left right c = .ok (order c left right) := by
  rw [compareFit, fitScore_of_fits hleft, fitScore_of_fits hright]
  rfl

/-- What candidates are compared by. -/
def fitKey (c : ResourceCapacity) (job : SchedulableJob) : ℕ ×ₗ ℤ ×ₗ String :=
  toLex (RunQueue.fitScore job.request c, toLex (job.readySince, job.jobId.text))

theorem order_eq_gt : order c left right = .gt ↔ fitKey c right < fitKey c left := by
  rw [order, Ordering.then_eq_gt, Ordering.then_eq_gt, fitKey, fitKey, Prod.Lex.toLex_lt_toLex, Prod.Lex.toLex_lt_toLex]
  simp only [compare_gt_iff_gt, compare_eq_iff_eq]
  rw [eq_comm (a := RunQueue.fitScore left.request c), eq_comm (a := left.readySince)]

theorem fitsBetter_iff : FitsBetter c left right ↔ fitKey c left ≤ fitKey c right := by
  rw [fitKey, fitKey, Prod.Lex.toLex_le_toLex, Prod.Lex.toLex_le_toLex]
  rfl

end Arithmetic

section Least

variable {α ε κ : Type} [LinearOrder κ] (compare : α → α → Except ε Ordering) (key : α → κ)

theorem foldlM_least {xs : List α} {x : α} (h : ∀ a ∈ x :: xs, ∀ b ∈ x :: xs, ∃ o, compare a b = .ok o ∧ (o = Ordering.gt ↔ key b < key a)) :
    ∃ m ∈ x :: xs, (xs.foldlM (fun least y => do return if (← compare least y) = Ordering.gt then y else least) x) = .ok m ∧
      ∀ y ∈ x :: xs, key m ≤ key y := by
  induction xs generalizing x with
  | nil => exact ⟨x, List.mem_cons_self, rfl, fun y hy => by rw [List.mem_singleton.mp hy]⟩
  | cons y xs ih =>
      obtain ⟨o, hcompare, hgt⟩ := h x (by simp) y (by simp)
      have hsub : ∀ z, z ∈ (if o = .gt then y else x) :: xs → z ∈ x :: y :: xs := by
        intro z hz
        rcases List.mem_cons.mp hz with rfl | hz
        · split <;> simp
        · simp [hz]
      obtain ⟨m, hm, hrun, hleast⟩ := ih fun a ha b hb => h a (hsub a ha) b (hsub b hb)
      have hhead := hleast _ List.mem_cons_self
      refine ⟨m, hsub m hm, ?_, ?_⟩
      · rw [List.foldlM_cons, hcompare]
        exact hrun
      · intro z hz
        rcases List.mem_cons.mp hz with rfl | hz
        · by_cases ho : o = .gt
          · rw [if_pos ho] at hhead
            exact hhead.trans (hgt.mp ho).le
          · rwa [if_neg ho] at hhead
        · rcases List.mem_cons.mp hz with rfl | hz
          · by_cases ho : o = .gt
            · rwa [if_pos ho] at hhead
            · rw [if_neg ho] at hhead
              exact hhead.trans (not_lt.mp fun hlt => ho (hgt.mpr hlt))
          · exact hleast z (List.mem_cons_of_mem _ hz)

/-- The minimum of a nonempty list, for a comparison that orders the elements by a key. -/
theorem minBy_spec (xs : List α) (h : ∀ a ∈ xs, ∀ b ∈ xs, ∃ o, compare a b = .ok o ∧ (o = Ordering.gt ↔ key b < key a)) :
    (xs = [] ∧ minBy compare xs = .ok none) ∨ ∃ m ∈ xs, minBy compare xs = .ok (some m) ∧ ∀ y ∈ xs, key m ≤ key y := by
  cases xs with
  | nil => exact Or.inl ⟨rfl, rfl⟩
  | cons x xs =>
      obtain ⟨m, hm, hrun, hleast⟩ := foldlM_least compare key h
      refine Or.inr ⟨m, hm, ?_, hleast⟩
      rw [minBy, hrun]
      rfl

end Least

section Packing

/-- The jobs are taken out of the eligible ones and out of the capacity, and no other job fits what remains. -/
structure Packs (capacity : ResourceCapacity) (eligible jobs : List SchedulableJob) (remaining : ResourceCapacity) : Prop where
  maximal : ∃ rest, (jobs ++ rest).Perm eligible ∧ ∀ job ∈ rest, ¬remaining.Fits job.request
  cpuCores : (jobs.map (·.request.cpuCores)).sum + remaining.cpuCores = capacity.cpuCores
  ramBytes : (jobs.map (·.request.ramBytes)).sum + remaining.ramBytes = capacity.ramBytes
  gpuCount : (jobs.map (·.request.gpuCount)).sum + remaining.gpuCount = capacity.gpuCount
  vram : ∀ job ∈ jobs, job.request.gpuVramBytesPerDevice ≤ capacity.gpuVramBytesPerDevice
  left : remaining.gpuCount ≠ 0 → remaining.gpuVramBytesPerDevice = capacity.gpuVramBytesPerDevice

variable {capacity remaining : ResourceCapacity} {eligible rest jobs : List SchedulableJob} {job : SchedulableJob}

theorem Packs.nil (h : ∀ job ∈ eligible, ¬capacity.Fits job.request) : Packs capacity eligible [] capacity where
  maximal := ⟨eligible, .refl _, h⟩
  cpuCores := by simp
  ramBytes := by simp
  gpuCount := by simp
  vram := by simp
  left := by simp

theorem Packs.cons (hfits : capacity.Fits job.request) (hperm : (job :: rest).Perm eligible)
    (h : Packs (capacity.reserve job.request) rest jobs remaining) : Packs capacity eligible (job :: jobs) remaining := by
  obtain ⟨hcpu, hram, hgpu, hvram⟩ := hfits
  obtain ⟨left, hleft, hnot⟩ := h.maximal
  have hcores := h.cpuCores
  have hbytes := h.ramBytes
  have hcount := h.gpuCount
  simp only [ResourceCapacity.reserve] at hcores hbytes hcount
  refine ⟨⟨left, (hleft.cons job).trans hperm, hnot⟩, ?_, ?_, ?_, ?_, ?_⟩
  · rw [List.map_cons, List.sum_cons]
    omega
  · rw [List.map_cons, List.sum_cons]
    omega
  · rw [List.map_cons, List.sum_cons]
    omega
  · intro other hother
    rcases List.mem_cons.mp hother with rfl | hother
    · exact hvram
    · refine (h.vram other hother).trans ?_
      simp only [ResourceCapacity.reserve]
      split
      · exact le_rfl
      · exact Nat.zero_le _
  · intro hne
    rw [h.left hne]
    simp only [ResourceCapacity.reserve]
    rw [if_pos]
    omega

/-- The candidate that is taken out is one that fits best. -/
theorem bestIndex_spec (eligible : List SchedulableJob) (capacity : ResourceCapacity) :
    (bestIndex eligible capacity = .ok none ∧ ∀ job ∈ eligible, ¬capacity.Fits job.request) ∨
    ∃ i job, bestIndex eligible capacity = .ok (some i) ∧ eligible[i]? = some job ∧ capacity.Fits job.request ∧
      ∀ other ∈ eligible, capacity.Fits other.request → fitKey capacity job ≤ fitKey capacity other := by
  have hmem : ∀ entry : SchedulableJob × ℕ, entry ∈ (eligible.zipIdx.filter fun entry => capacity.Fits entry.1.request) ↔
      eligible[entry.2]? = some entry.1 ∧ capacity.Fits entry.1.request := by
    intro entry
    rw [List.mem_filter, List.mem_zipIdx_iff_getElem?, decide_eq_true_iff]
  rcases minBy_spec (fun left right : SchedulableJob × ℕ => compareFit left.1 right.1 capacity)
    (fun entry => fitKey capacity entry.1) (eligible.zipIdx.filter fun entry => capacity.Fits entry.1.request)
    fun a ha b hb => ⟨_, compareFit_of_fits ((hmem a).mp ha).2 ((hmem b).mp hb).2, order_eq_gt⟩ with
    ⟨hnil, hrun⟩ | ⟨entry, hentry, hrun, hleast⟩
  · left
    constructor
    · rw [bestIndex, hrun]
      rfl
    · intro job hjob hfits
      obtain ⟨i, hi⟩ := List.mem_iff_getElem?.mp hjob
      have hin := (hmem (job, i)).mpr ⟨hi, hfits⟩
      rw [hnil] at hin
      cases hin
  · right
    obtain ⟨hget, hfits⟩ := (hmem entry).mp hentry
    refine ⟨entry.2, entry.1, ?_, hget, hfits, ?_⟩
    · rw [bestIndex, hrun]
      rfl
    · intro other hother hotherFits
      obtain ⟨i, hi⟩ := List.mem_iff_getElem?.mp hother
      exact hleast (other, i) ((hmem (other, i)).mpr ⟨hi, hotherFits⟩)

theorem fitKey_inj {c : ResourceCapacity} {left right : SchedulableJob} (h : fitKey c left = fitKey c right) :
    left.jobId = right.jobId := by
  have htext := congrArg (fun key => (ofLex (ofLex key).2).2) h
  cases hleft : left.jobId
  cases hright : right.jobId
  simp only [fitKey, hleft, hright, ofLex_toLex] at htext
  subst htext
  rfl

theorem best_spec (c : ResourceCapacity) (jobs : List SchedulableJob) : (best c jobs = none ∧ jobs = []) ∨
    ∃ job ∈ jobs, best c jobs = some job ∧ ∀ other ∈ jobs, fitKey c job ≤ fitKey c other := by
  induction jobs with
  | nil => exact Or.inl ⟨rfl, rfl⟩
  | cons first jobs ih =>
      right
      rcases ih with ⟨hbest, rfl⟩ | ⟨job, hjob, hbest, hleast⟩
      · exact ⟨first, List.mem_cons_self, by simp [best], by simp⟩
      · by_cases hfirst : FitsBetter c first job
        · have hle := fitsBetter_iff.mp hfirst
          refine ⟨first, List.mem_cons_self, by simp only [best, hbest, if_pos hfirst], ?_⟩
          intro other hother
          rcases List.mem_cons.mp hother with rfl | hother
          · exact le_rfl
          · exact hle.trans (hleast other hother)
        · have hle := le_of_lt (not_le.mp (mt fitsBetter_iff.mpr hfirst))
          refine ⟨job, List.mem_cons_of_mem _ hjob, by simp only [best, hbest, if_neg hfirst], ?_⟩
          intro other hother
          rcases List.mem_cons.mp hother with rfl | hother
          · exact hle
          · exact hleast other hother

theorem eq_of_jobId {left right : SchedulableJob} (hids : (eligible.map (·.jobId)).Nodup) (hleft : left ∈ eligible)
    (hright : right ∈ eligible) (h : left.jobId = right.jobId) : left = right :=
  List.inj_on_of_nodup_map hids hleft hright h

/-- Taking a candidate out by its index is taking it out by its id. -/
theorem eraseIdx_eq_filter {i : ℕ} (hids : (eligible.map (·.jobId)).Nodup) (hget : eligible[i]? = some job) :
    eligible.eraseIdx i = eligible.filter fun other => other.jobId ≠ job.jobId := by
  induction eligible generalizing i with
  | nil => cases hget
  | cons first eligible ih =>
      obtain ⟨hnot, hids⟩ := List.nodup_cons.mp hids
      cases i with
      | zero =>
          cases hget
          have hfilter : (eligible.filter fun other => other.jobId ≠ job.jobId) = eligible := by
            rw [List.filter_eq_self]
            intro other hother
            rw [decide_eq_true_iff]
            rintro heq
            exact hnot (List.mem_map.mpr ⟨other, hother, heq⟩)
          rw [List.filter_cons_of_neg (by simp), hfilter]
          rfl
      | succ i =>
          rw [List.getElem?_cons_succ] at hget
          have hmem := List.mem_of_getElem? hget
          have hne : first.jobId ≠ job.jobId := by
            rintro heq
            exact hnot (List.mem_map.mpr ⟨job, hmem, heq.symm⟩)
          rw [List.filter_cons_of_pos (by simpa using hne), List.eraseIdx_cons_succ, ih hids hget]

theorem bestFit_packs (fuel : ℕ) (capacity : ResourceCapacity) (hfuel : eligible.length ≤ fuel) (selected : List JobId) :
    ∃ jobs remaining, bestFit fuel eligible capacity selected = .ok ⟨selected ++ jobs.map (·.jobId), remaining, none⟩ ∧
      Packs capacity eligible jobs remaining := by
  induction fuel generalizing eligible capacity selected with
  | zero =>
      obtain rfl := List.length_eq_zero_iff.mp (Nat.le_zero.mp hfuel)
      exact ⟨[], capacity, by simp [bestFit, pure, Except.pure], Packs.nil (by simp)⟩
  | succ fuel ih =>
      rcases bestIndex_spec eligible capacity with ⟨hnone, hnot⟩ | ⟨i, job, hsome, hget, hfits, -⟩
      · refine ⟨[], capacity, ?_, Packs.nil hnot⟩
        rw [bestFit, hnone]
        simp [bind, Except.bind, pure, Except.pure]
      · obtain ⟨hi, hjob⟩ := List.getElem?_eq_some_iff.mp hget
        have hlength : (eligible.eraseIdx i).length ≤ fuel := by
          rw [List.length_eraseIdx_of_lt hi]
          omega
        obtain ⟨jobs, remaining, hrun, hpacks⟩ := ih (capacity.reserve job.request) hlength (selected ++ [job.jobId])
        refine ⟨job :: jobs, remaining, ?_, hpacks.cons hfits ?_⟩
        · rw [bestFit, hsome]
          simp only [bind, Except.bind, hget, reserveOrPanic_of_fits hfits]
          rw [hrun, List.append_assoc]
          rfl
        · rw [← hjob]
          exact List.getElem_cons_eraseIdx_perm hi

variable {config : SchedulerConfig} {available : ResourceCapacity} {now : ℤ}

theorem perm_cons_filter (hmem : job ∈ eligible) (hids : (eligible.map (·.jobId)).Nodup) :
    (job :: eligible.filter fun other => other.jobId ≠ job.jobId).Perm eligible := by
  obtain ⟨i, hget⟩ := List.mem_iff_getElem?.mp hmem
  obtain ⟨hi, hjob⟩ := List.getElem?_eq_some_iff.mp hget
  rw [← eraseIdx_eq_filter hids hget, ← hjob]
  exact List.getElem_cons_eraseIdx_perm hi

/-- A decision reserves the machine for an aged job that does not fit, or it packs jobs, the aged one first. -/
theorem select_spec (config : SchedulerConfig) (available : ResourceCapacity) (now : ℤ) (hids : (eligible.map (·.jobId)).Nodup) :
    (∃ job, aged? config now eligible = some job ∧ ¬available.Fits job.request ∧
      select config available now eligible = .ok ⟨[], available, some job.jobId⟩) ∨
    ∃ jobs remaining, select config available now eligible = .ok ⟨jobs.map (·.jobId), remaining, none⟩ ∧
      Packs available eligible jobs remaining ∧ ∀ job, aged? config now eligible = some job → jobs.head? = some job := by
  rw [select]
  cases haged : aged? config now eligible with
  | none =>
      obtain ⟨jobs, remaining, hrun, hpacks⟩ := bestFit_packs eligible.length available le_rfl []
      exact Or.inr ⟨jobs, remaining, hrun, hpacks, fun _ h => by cases h⟩
  | some aged =>
      by_cases hfits : available.Fits aged.request
      · obtain ⟨jobs, remaining, hrun, hpacks⟩ := bestFit_packs eligible.length
          (available.reserve aged.request) (List.length_filter_le (fun job => job.jobId ≠ aged.jobId) eligible) [aged.jobId]
        right
        refine ⟨aged :: jobs, remaining, ?_, hpacks.cons hfits ?_, fun job h => by rw [List.head?_cons, h]⟩
        · simp only [if_pos hfits, bind, Except.bind, reserveOrPanic_of_fits hfits]
          exact hrun
        · exact perm_cons_filter (List.mem_of_find?_eq_some haged) hids
      · exact Or.inl ⟨aged, rfl, hfits, if_neg hfits⟩

/-- The aged job is the oldest one, since the candidates are in the order of the queue. -/
theorem aged?_eq_some {aged : SchedulableJob} (hsorted : eligible.Pairwise Precedes)
    (h : aged? config now eligible = some aged) : config.capacity.Fits aged.request ∧
      config.agingSeconds.toInt ≤ saturatingSub now aged.readySince ∧
      ∀ job ∈ eligible, config.capacity.Fits job.request → config.agingSeconds.toInt ≤ saturatingSub now job.readySince →
        job = aged ∨ Precedes aged job := by
  obtain ⟨hholds, before, after, rfl, hbefore⟩ := List.find?_eq_some_iff_append.mp h
  rw [decide_eq_true_iff] at hholds
  refine ⟨hholds.1, hholds.2, ?_⟩
  intro job hjob hfits hwaited
  rcases List.mem_append.mp hjob with hjob | hjob
  · have hnot := hbefore job hjob
    simp [hfits, hwaited] at hnot
  · rcases List.mem_cons.mp hjob with rfl | hjob
    · exact Or.inl rfl
    · exact Or.inr ((List.pairwise_cons.mp (List.pairwise_append.mp hsorted).2.1).1 job hjob)

/-- The saturation of the difference does not change who has waited for long enough. -/
theorem le_saturatingSub {aging : Int64} {a b : ℤ} (h : aging.toInt ≤ a - b) : aging.toInt ≤ saturatingSub a b := by
  have hlt := aging.toInt_lt
  rw [saturatingSub, le_max_iff, le_min_iff]
  right
  constructor
  · omega
  · exact h

theorem precedes_iff {left right : SchedulableJob} :
    Precedes left right ↔ toLex (left.readySince, left.jobId.text) ≤ toLex (right.readySince, right.jobId.text) := by
  rw [Prod.Lex.toLex_le_toLex]
  rfl

instance : Std.Total Precedes := ⟨fun a b => by rw [precedes_iff, precedes_iff]; exact le_total _ _⟩

instance : IsTrans SchedulableJob Precedes := ⟨fun a b c => by rw [precedes_iff, precedes_iff, precedes_iff]; exact le_trans⟩

/-- The rounds select what the queue's model of them selects. -/
theorem bestFit_selected (fuel : ℕ) (capacity : ResourceCapacity) (hids : (eligible.map (·.jobId)).Nodup) (selected : List JobId) :
    ∃ remaining, bestFit fuel eligible capacity selected = .ok ⟨selected ++ fill fuel eligible capacity, remaining, none⟩ := by
  induction fuel generalizing eligible capacity selected with
  | zero => exact ⟨capacity, by simp [bestFit, fill, pure, Except.pure]⟩
  | succ fuel ih =>
      have hmem : ∀ other, other ∈ (eligible.filter fun job => capacity.Fits job.request) ↔
          other ∈ eligible ∧ capacity.Fits other.request := by simp
      rcases bestIndex_spec eligible capacity with ⟨hnone, hnot⟩ | ⟨i, job, hsome, hget, hfits, hleast⟩
      · have hfilter : (eligible.filter fun job => capacity.Fits job.request) = [] := by
          rw [List.filter_eq_nil_iff]
          intro job hjob
          simpa using hnot job hjob
        refine ⟨capacity, ?_⟩
        rw [bestFit, hnone, fill, hfilter, best]
        simp [bind, Except.bind, pure, Except.pure]
      · have hjob := List.mem_of_getElem? hget
        have hbest : best capacity (eligible.filter fun job => capacity.Fits job.request) = some job := by
          rcases best_spec capacity (eligible.filter fun job => capacity.Fits job.request) with
            ⟨-, hempty⟩ | ⟨other, hother, hbest, hother'⟩
          · have hin := (hmem job).mpr ⟨hjob, hfits⟩
            rw [hempty] at hin
            cases hin
          · obtain ⟨hotherIn, hotherFits⟩ := (hmem other).mp hother
            have hkey := le_antisymm (hother' job ((hmem job).mpr ⟨hjob, hfits⟩)) (hleast other hotherIn hotherFits)
            rw [hbest, eq_of_jobId hids hotherIn hjob (fitKey_inj hkey)]
        have hrest := hids.sublist ((List.filter_sublist (p := fun other => other.jobId ≠ job.jobId)).map _)
        obtain ⟨remaining, hrun⟩ := ih (capacity.reserve job.request) hrest (selected ++ [job.jobId])
        refine ⟨remaining, ?_⟩
        rw [bestFit, hsome, fill, hbest]
        simp only [bind, Except.bind, hget, reserveOrPanic_of_fits hfits]
        rw [eraseIdx_eq_filter hids hget, hrun, List.append_assoc]
        rfl

/-- With the default aging, a decision selects what the queue's model of it selects. -/
theorem select_selected (hids : (eligible.map (·.jobId)).Nodup) : ∃ decision,
    select (.new capacity) available now eligible = .ok decision ∧
      decision.selected = RunQueue.select capacity available now eligible := by
  have hwaited : ∀ c : SchedulableJob, defaultAgingSeconds.toInt ≤ saturatingSub now c.readySince ↔
      RunQueue.agingSeconds ≤ now - c.readySince := by
    intro c
    have hseconds : defaultAgingSeconds.toInt = 600 := by rfl
    rw [hseconds, saturatingSub, RunQueue.agingSeconds]
    omega
  have haged : aged? (.new capacity) now eligible =
      eligible.find? fun c => capacity.Fits c.request ∧ RunQueue.agingSeconds ≤ now - c.readySince := by
    rw [aged?]
    congr 1
    funext c
    simp only [SchedulerConfig.new, hwaited]
  rw [select, RunQueue.select, haged]
  cases hfind : eligible.find? fun c => capacity.Fits c.request ∧ RunQueue.agingSeconds ≤ now - c.readySince with
  | none =>
      obtain ⟨remaining, hrun⟩ := bestFit_selected eligible.length available hids []
      exact ⟨_, hrun, rfl⟩
  | some aged =>
      by_cases hfits : available.Fits aged.request
      · have hrest := hids.sublist ((List.filter_sublist (p := fun other => other.jobId ≠ aged.jobId)).map _)
        obtain ⟨remaining, hrun⟩ := bestFit_selected eligible.length (available.reserve aged.request) hrest [aged.jobId]
        simp only [if_pos hfits, bind, Except.bind, reserveOrPanic_of_fits hfits]
        exact ⟨_, hrun, rfl⟩
      · exact ⟨_, if_neg hfits, (if_neg hfits).symm⟩

end Packing

section Decision

variable {config : SchedulerConfig} {available : ResourceCapacity} {now : ℤ} {candidates : List SchedulableJob}
  {db : RunDb} {job : SchedulableJob} {decision : SchedulerDecision}

/-- The job is ready and each of its persisted predecessors is verified. -/
structure Eligible (db : RunDb) (job : SchedulableJob) : Prop where
  ready : ∃ row, db.job? job.jobId = some row ∧ row.state = .ready
  predecessors : ∀ p row, (p, job.jobId) ∈ db.dependencies → db.job? p = some row → row.state = .verified

/-- The job would fit the idle machine, and it has waited for long enough. -/
structure Aged (config : SchedulerConfig) (now : ℤ) (job : SchedulableJob) : Prop where
  fits : config.capacity.Fits job.request
  waited : config.agingSeconds.toInt ≤ now - job.readySince

/-- What a decision that selects `jobs` promises. -/
structure Schedules (config : SchedulerConfig) (available : ResourceCapacity) (now : ℤ) (candidates : List SchedulableJob)
    (db : RunDb) (decision : SchedulerDecision) (jobs : List SchedulableJob) : Prop where
  selected : decision.selected = jobs.map (·.jobId)
  distinct : decision.selected.Nodup
  eligible : ∀ job ∈ jobs, job ∈ candidates ∧ Eligible db job
  cpuCores : (jobs.map (·.request.cpuCores)).sum + decision.remaining.cpuCores =
    min available.cpuCores config.capacity.cpuCores
  ramBytes : (jobs.map (·.request.ramBytes)).sum + decision.remaining.ramBytes =
    min available.ramBytes config.capacity.ramBytes
  gpuCount : (jobs.map (·.request.gpuCount)).sum + decision.remaining.gpuCount =
    min available.gpuCount config.capacity.gpuCount
  vram : ∀ job ∈ jobs, job.request.gpuVramBytesPerDevice ≤
    min available.gpuVramBytesPerDevice config.capacity.gpuVramBytesPerDevice
  left : decision.remaining.gpuCount ≠ 0 → decision.remaining.gpuVramBytesPerDevice =
    min available.gpuVramBytesPerDevice config.capacity.gpuVramBytesPerDevice
  maximal : decision.reservedFor = none → ∀ job ∈ candidates, Eligible db job → job ∉ jobs →
    ¬decision.remaining.Fits job.request
  oldest : ∀ job ∈ candidates, Eligible db job → Aged config now job →
    (∀ other ∈ candidates, Eligible db other → Aged config now other → Precedes job other) →
    decision.selected.head? = some job.jobId ∨ decision.reservedFor = some job.jobId ∧ decision.selected = []

theorem mem_predecessorStates {row : JobRow} {id : JobId} :
    row ∈ db.predecessorStates id ↔ ∃ p, (p, id) ∈ db.dependencies ∧ db.job? p = some row := by
  simp [predecessorStates, sortIds, predecessors, List.mem_filterMap]

theorem eligible_iff : Eligible db job ↔
    (∃ row, db.job? job.jobId = some row ∧ row.state = .ready) ∧ RequiredPredecessorsVerified db job.jobId := by
  simp only [RequiredPredecessorsVerified, mem_predecessorStates]
  constructor
  · rintro ⟨hready, hpredecessors⟩
    exact ⟨hready, fun row ⟨p, hp, hrow⟩ => hpredecessors p row hp hrow⟩
  · rintro ⟨hready, hpredecessors⟩
    exact ⟨hready, fun p row hp hrow => hpredecessors row ⟨p, hp, hrow⟩⟩

open Classical in
/-- The candidates seen so far, without those that are not eligible. -/
def Filtered (db : RunDb) (candidates left eligible : List SchedulableJob) : Prop :=
  ∃ seen, candidates = seen ++ left ∧ eligible = seen.filter fun job => Eligible db job

theorem eligibleCandidate_filters (rest eligible : List SchedulableJob) :
    Spec (fun st _ => st = db ∧ Filtered db candidates (job :: rest) eligible) (eligibleCandidate eligible job)
      (fun eligible st _ => st = db ∧ Filtered db candidates rest eligible) fun _ _ => True := by
  apply Spec.bind (Q := fun d st _ => d = db ∧ st = db ∧ Filtered db candidates (job :: rest) eligible)
  · exact .read fun st _ h => ⟨h.1, h⟩
  intro d
  apply Spec.given
  rintro rfl
  apply Spec.bind (Q := fun row st _ => d.job? job.jobId = some row ∧ st = d ∧ Filtered d candidates (job :: rest) eligible)
  · exact .orFail (fun _ _ _ => trivial) fun row hrow _ _ h => ⟨hrow, h⟩
  intro row
  apply Spec.given
  intro hrow
  apply Spec.pure
  rintro st - ⟨rfl, seen, rfl, rfl⟩
  refine ⟨rfl, seen ++ [job], by simp, ?_⟩
  have hiff : Eligible st job ↔ row.state = .ready ∧ RequiredPredecessorsVerified st job.jobId := by
    simp [eligible_iff, hrow]
  rw [List.filter_append]
  by_cases heligible : Eligible st job
  · rw [if_pos (hiff.mp heligible), List.filter_cons_of_pos (by simpa using heligible), List.filter_nil]
  · rw [if_neg (mt hiff.mpr heligible), List.filter_cons_of_neg (by simpa using heligible), List.filter_nil, List.append_nil]

theorem eligible_filters (candidates : List SchedulableJob) :
    Spec (fun st _ => st = db) (foldEach eligibleCandidate [] candidates)
      (fun eligible st _ => st = db ∧ Filtered db candidates [] eligible) fun _ _ => True := by
  have hloop : Spec (fun st _ => st = db ∧ Filtered db candidates candidates []) (foldEach eligibleCandidate [] candidates)
      (fun eligible st _ => st = db ∧ Filtered db candidates [] eligible) fun _ _ => True :=
    Spec.foldEach (I := fun left eligible st _ => st = db ∧ Filtered db candidates left eligible)
      fun job rest eligible => eligibleCandidate_filters rest eligible
  exact hloop.mono (fun st _ h => ⟨h, [], rfl, rfl⟩) fun _ _ _ => id

theorem Filtered.sublist {eligible : List SchedulableJob} (h : Filtered db candidates [] eligible) : eligible.Sublist candidates := by
  obtain ⟨seen, rfl, rfl⟩ := h
  rw [List.append_nil]
  exact List.filter_sublist

theorem Filtered.mem_iff {eligible : List SchedulableJob} (h : Filtered db candidates [] eligible) :
    job ∈ eligible ↔ job ∈ candidates ∧ Eligible db job := by
  obtain ⟨seen, rfl, rfl⟩ := h
  simp

theorem duplicate?_eq_none (hdistinct : (candidates.map (·.jobId)).Nodup) {seen : List JobId}
    (hnew : ∀ job ∈ candidates, job.jobId ∉ seen) : duplicate? seen candidates = none := by
  induction candidates generalizing seen with
  | nil => rfl
  | cons job candidates ih =>
      obtain ⟨hnot, hdistinct⟩ := List.nodup_cons.mp hdistinct
      rw [duplicate?, if_neg (hnew job List.mem_cons_self)]
      apply ih hdistinct
      intro other hother hmem
      rcases List.mem_cons.mp hmem with heq | hmem
      · exact hnot (List.mem_map.mpr ⟨other, hother, heq⟩)
      · exact hnew other (List.mem_cons_of_mem _ hother) hmem

theorem usable_left (h : (available.usable config.capacity).gpuCount ≠ 0) :
    (available.usable config.capacity).gpuVramBytesPerDevice =
      min available.gpuVramBytesPerDevice config.capacity.gpuVramBytesPerDevice := if_neg h

/-- What is selected from the eligible candidates keeps the promises. -/
theorem select_schedules (config : SchedulerConfig) (available : ResourceCapacity) (now : ℤ)
    {eligible : List SchedulableJob} (hids : (candidates.map (·.jobId)).Nodup)
    (h : Filtered db candidates [] eligible) : ∃ decision jobs,
      select config (available.usable config.capacity) now (eligible.insertionSort Precedes) = .ok decision ∧
        Schedules config available now candidates db decision jobs := by
  have hperm := List.perm_insertionSort Precedes eligible
  have hmem : ∀ job, job ∈ eligible.insertionSort Precedes ↔ job ∈ candidates ∧ Eligible db job := fun job =>
    hperm.mem_iff.trans h.mem_iff
  have hnodup : ((eligible.insertionSort Precedes).map (·.jobId)).Nodup :=
    (hperm.map _).nodup_iff.mpr (hids.sublist (h.sublist.map _))
  have holdest : ∀ job ∈ candidates, Eligible db job → Aged config now job →
      (∀ other ∈ candidates, Eligible db other → Aged config now other → Precedes job other) →
      ∃ aged, aged? config now (eligible.insertionSort Precedes) = some aged ∧ aged.jobId = job.jobId := by
    intro job hjob heligible haged hfirst
    obtain ⟨aged, hsome⟩ : ∃ aged, aged? config now (eligible.insertionSort Precedes) = some aged := by
      rw [← Option.isSome_iff_exists, aged?, List.find?_isSome]
      exact ⟨job, (hmem job).mpr ⟨hjob, heligible⟩, by simpa using ⟨haged.fits, le_saturatingSub haged.waited⟩⟩
    obtain ⟨hfits, -, hleast⟩ := aged?_eq_some (List.pairwise_insertionSort Precedes eligible) hsome
    refine ⟨aged, hsome, ?_⟩
    rcases hleast job ((hmem job).mpr ⟨hjob, heligible⟩) haged.fits (le_saturatingSub haged.waited) with rfl | hprecedes
    · rfl
    · obtain ⟨hin, hel⟩ := (hmem aged).mp (List.mem_of_find?_eq_some hsome)
      have hwaited : config.agingSeconds.toInt ≤ now - aged.readySince := by
        have hjobWaited := haged.waited
        have hsince : aged.readySince ≤ job.readySince := hprecedes.elim le_of_lt fun heq => heq.1.le
        omega
      have hback := hfirst aged hin hel ⟨hfits, hwaited⟩
      rw [precedes_iff] at hprecedes hback
      have hkey := congrArg (fun key => (ofLex key).2) (le_antisymm hprecedes hback)
      cases hleft : aged.jobId
      cases hright : job.jobId
      simp only [hleft, hright, ofLex_toLex] at hkey
      subst hkey
      rfl
  rcases select_spec config (available.usable config.capacity) now hnodup with
    ⟨aged, hsome, hnot, hrun⟩ | ⟨jobs, remaining, hrun, hpacks, hfirst⟩
  · refine ⟨_, [], hrun, ?_⟩
    exact
      { selected := rfl
        distinct := List.nodup_nil
        eligible := by simp
        cpuCores := by simp [ResourceCapacity.usable]
        ramBytes := by simp [ResourceCapacity.usable]
        gpuCount := by simp [ResourceCapacity.usable]
        vram := by simp
        left := usable_left
        maximal := by simp
        oldest := by
          intro job hjob heligible haged hleast
          obtain ⟨aged', hsome', hid⟩ := holdest job hjob heligible haged hleast
          rw [hsome] at hsome'
          cases hsome'
          exact Or.inr ⟨by rw [hid], rfl⟩ }
  · obtain ⟨rest, hrest, hfull⟩ := hpacks.maximal
    have hjobs : ∀ job ∈ jobs, job ∈ eligible.insertionSort Precedes := fun job hjob =>
      hrest.subset (List.mem_append_left _ hjob)
    refine ⟨_, jobs, hrun, ?_⟩
    exact
      { selected := rfl
        distinct := ((hrest.map _).nodup_iff.mpr hnodup).sublist ((List.sublist_append_left jobs rest).map _)
        eligible := fun job hjob => (hmem job).mp (hjobs job hjob)
        cpuCores := hpacks.cpuCores
        ramBytes := hpacks.ramBytes
        gpuCount := hpacks.gpuCount
        vram := by
          intro job hjob
          refine (hpacks.vram job hjob).trans ?_
          simp only [ResourceCapacity.usable]
          split
          · exact Nat.zero_le _
          · exact le_rfl
        left := by
          intro hne
          have hne' : remaining.gpuCount ≠ 0 := hne
          have hcount := hpacks.gpuCount
          exact (hpacks.left hne').trans (usable_left (by omega))
        maximal := by
          intro _ job hjob heligible hunselected
          have hin := hrest.symm.subset ((hmem job).mpr ⟨hjob, heligible⟩)
          exact hfull job ((List.mem_append.mp hin).resolve_left hunselected)
        oldest := by
          intro job hjob heligible haged hleast
          obtain ⟨aged, hsome, hid⟩ := holdest job hjob heligible haged hleast
          left
          rw [List.head?_map, hfirst aged hsome, Option.map_some, hid] }

theorem eligibleCandidate_raises (eligible : List SchedulableJob) (job : SchedulableJob) :
    Raises (fun _ _ => True) (eligibleCandidate eligible job) fun e => ∃ d, e = .database d := by
  have hquery : ∀ db : RunDb, Raises (fun _ _ => True)
      (orFail (σ := RunDb) (τ := Unit) (SchedulerError.database (.jobNotFound job.jobId)) (db.job? job.jobId))
      fun e => ∃ d, e = .database d := fun db => .orFail ⟨_, rfl⟩
  have hread : Spec (fun _ _ => True) (read (σ := RunDb) (τ := Unit) (ε := SchedulerError)) (fun _ _ _ => True)
      fun _ _ => True := .read fun _ _ _ => trivial
  have hrow : ∀ db : RunDb, Spec (fun _ _ => True)
      (orFail (σ := RunDb) (τ := Unit) (SchedulerError.database (.jobNotFound job.jobId)) (db.job? job.jobId))
      (fun _ _ _ => True) fun _ _ => True := fun db => .orFail (fun _ _ _ => trivial) fun _ _ _ _ _ => trivial
  exact Raises.read.bind hread fun db => (hquery db).bind (hrow db) fun row => .pure

theorem decide_spec (config : SchedulerConfig) (available : ResourceCapacity) (now : ℤ) (hdistinct : (candidates.map (·.jobId)).Nodup) :
    Spec (fun _ _ => True) (decide config available now candidates)
      (fun decision db _ => ∃ jobs, Schedules config available now candidates db decision jobs) (fun _ _ => True) ∧
    Raises (fun _ _ => True) (decide config available now candidates) (fun e => ∃ d, e = .database d) := by
  have hrefresh : Spec (fun _ _ => True) (transact (τ := Unit) SchedulerError.database (fun _ => []) refreshReadiness)
      (fun _ _ _ => True) fun _ _ => True := .transact (fun _ _ _ => trivial) fun _ _ _ _ _ _ => trivial
  have hfilter : Spec (fun _ _ => True) (foldEach eligibleCandidate [] candidates)
      (fun eligible db _ => Filtered db candidates [] eligible) fun _ _ => True := by
    intro s _
    exact Settles.mono (eligible_filters candidates s rfl) fun _ _ _ h => h.1 ▸ h.2
  have hdecided : ∀ eligible db, Filtered db candidates [] eligible → ∃ decision jobs,
      orPanic (select config (available.usable config.capacity) now (eligible.insertionSort Precedes)) = pure decision ∧
        Schedules config available now candidates db decision jobs := by
    intro eligible db h
    obtain ⟨decision, jobs, hrun, hschedules⟩ := select_schedules config available now hdistinct h
    exact ⟨decision, jobs, by rw [hrun, orPanic], hschedules⟩
  rw [decide, duplicate?_eq_none hdistinct (by simp)]
  dsimp only
  constructor
  · apply hrefresh.bind
    intro _
    apply hfilter.bind
    intro eligible s h
    obtain ⟨decision, jobs, hrun, hschedules⟩ := hdecided eligible s.store h
    rw [hrun]
    exact ⟨jobs, hschedules⟩
  · apply Raises.bind (B := fun e => ∃ d, e = SchedulerError.database d) (.transact fun d => ⟨d, rfl⟩) hrefresh
    intro _
    apply Raises.bind (.foldEach fun _ _ => eligibleCandidate_raises _ _) hfilter
    intro eligible s h e hfail
    obtain ⟨decision, jobs, hrun, -⟩ := hdecided eligible s.store h
    rw [hrun] at hfail
    cases hfail

/-- Whatever the database says, a decision on distinct candidates only fails where the database does, and what it
selects keeps the promises. -/
theorem decide_schedules (config : SchedulerConfig) (available : ResourceCapacity) (now : ℤ)
    (candidates : List SchedulableJob) (hdistinct : (candidates.map (·.jobId)).Nodup) :
    (∀ s e, (decide config available now candidates s).1 = .error (.failed e) → ∃ d, e = .database d) ∧
    ∀ s decision s', decide config available now candidates s = (.ok decision, s') →
      ∃ jobs, Schedules config available now candidates s'.store decision jobs := by
  obtain ⟨hspec, hraises⟩ := decide_spec config available now hdistinct
  constructor
  · intro s e
    exact hraises s trivial e
  · intro s decision s' hrun
    have hsettles := hspec s trivial
    rw [hrun] at hsettles
    exact hsettles

theorem firstJob_valid : IsIdentifier "run:first" := by decide

theorem secondJob_valid : IsIdentifier "run:second" := by decide

def firstJob : JobId := ⟨"run:first", firstJob_valid⟩

def secondJob : JobId := ⟨"run:second", secondJob_valid⟩

def readyRow (id : JobId) (logicalId : String) : JobRow := ⟨id, logicalId, .leafProof, .ready, none, 0, 0, 0, false, none⟩

/-- A run with two jobs that are ready. -/
def twoReady : RunDb := { RunDb.empty "run" with jobs := [readyRow firstJob "first", readyRow secondJob "second"] }

theorem oneGpu_consistent : 1 = 0 ↔ 1 = 0 := Iff.rfl

/-- One core and one device with one byte of memory. -/
def oneGpu : ResourceRequest := ⟨1, 0, 1, 1, Nat.one_pos, oneGpu_consistent⟩

def twoCandidates : List SchedulableJob := [⟨firstJob, oneGpu, 0⟩, ⟨secondJob, oneGpu, 0⟩]

theorem decide_schedules_two : ∃ decision s',
    decide (.new ⟨4, 8, 2, 1⟩) ⟨8, 8, 8, 1⟩ 600 twoCandidates ⟨twoReady, [], none⟩ = (.ok decision, s') ∧
      decision.selected = [firstJob, secondJob] ∧
      ∃ jobs, Schedules (.new ⟨4, 8, 2, 1⟩) ⟨8, 8, 8, 1⟩ 600 twoCandidates s'.store decision jobs := by
  have hrun : decide (.new ⟨4, 8, 2, 1⟩) ⟨8, 8, 8, 1⟩ 600 twoCandidates ⟨twoReady, [], none⟩ =
      (.ok ⟨[firstJob, secondJob], ⟨2, 8, 0, 0⟩, none⟩, ⟨twoReady, [], none⟩) := by rfl
  exact ⟨_, _, hrun, rfl, (decide_schedules _ _ _ twoCandidates (by decide)).2 _ _ _ hrun⟩

end Decision

end Zkie.Scheduler
