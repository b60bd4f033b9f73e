import Mathlib.Data.List.TakeWhile
import Mathlib.Data.UInt

namespace Zkie.Admission

section Model

inductive MonitorError where
  | invalidLimits
  deriving DecidableEq, Repr

/-- The number of samples above the hard limit, one after the other, that cost a worker its life. -/
def hardBreachSamples : UInt32 := 3

structure MemoryLimits where
  admissionBytes : UInt64
  hardLimitBytes : UInt64
  nonzero : admissionBytes ≠ 0
  above : admissionBytes < hardLimitBytes

def MemoryLimits.new (admissionBytes hardLimitBytes : UInt64) : Except MonitorError MemoryLimits :=
  if h : admissionBytes = 0 ∨ hardLimitBytes ≤ admissionBytes then .error .invalidLimits
  else .ok ⟨admissionBytes, hardLimitBytes, fun hzero => h (.inl hzero), UInt64.not_le.mp fun hle => h (.inr hle)⟩

def gibibyte : ℕ := 1073741824

/-- `u64::checked_mul` with the size of a gibibyte. -/
def checkedGib (count : UInt64) : Except MonitorError UInt64 :=
  if count.toNat * gibibyte < 2 ^ 64 then .ok (UInt64.ofNat (count.toNat * gibibyte)) else .error .invalidLimits

def MemoryLimits.gib (admissionGib hardLimitGib : UInt64) : Except MonitorError MemoryLimits := do
  let admissionBytes ← checkedGib admissionGib
  let hardLimitBytes ← checkedGib hardLimitGib
  MemoryLimits.new admissionBytes hardLimitBytes

inductive MemoryAction where
  | admits
  | freezeAdmission
  | terminateNewest
  deriving DecidableEq, Repr

structure AdmissionPolicy where
  limits : MemoryLimits
  consecutiveHardBreaches : UInt32

def AdmissionPolicy.new (limits : MemoryLimits) : AdmissionPolicy := ⟨limits, 0⟩

def AdmissionPolicy.observe (policy : AdmissionPolicy) (residentBytes : UInt64) : MemoryAction × AdmissionPolicy :=
  if policy.limits.hardLimitBytes < residentBytes then
    let breaches := policy.consecutiveHardBreaches + 1
    if hardBreachSamples ≤ breaches then (.terminateNewest, ⟨policy.limits, 0⟩)
    else (.freezeAdmission, ⟨policy.limits, breaches⟩)
  else if policy.limits.admissionBytes < residentBytes then (.freezeAdmission, ⟨policy.limits, 0⟩)
  else (.admits, ⟨policy.limits, 0⟩)

/-- The actions for a sequence of samples, and the policy behind them. -/
def AdmissionPolicy.observeAll (policy : AdmissionPolicy) : List UInt64 → List MemoryAction × AdmissionPolicy
  | [] => ([], policy)
  | sample :: samples =>
      let (action, next) := policy.observe sample
      let (actions, last) := next.observeAll samples
      (action :: actions, last)

end Model

section Runs

variable {limits : MemoryLimits} {policy : AdmissionPolicy} {samples : List UInt64} {sample : UInt64}

/-- The length of the run of samples above the hard limit that ends a sequence. -/
def hardRun (limits : MemoryLimits) (samples : List UInt64) : ℕ :=
  (samples.reverse.takeWhile fun sample => limits.hardLimitBytes < sample).length

theorem hardRun_append_of_lt (h : limits.hardLimitBytes < sample) :
    hardRun limits (samples ++ [sample]) = hardRun limits samples + 1 := by
  rw [hardRun, List.reverse_append, List.reverse_singleton, List.singleton_append, List.takeWhile_cons_of_pos (by simpa using h),
    List.length_cons, hardRun]

theorem hardRun_append_of_le (h : sample ≤ limits.hardLimitBytes) : hardRun limits (samples ++ [sample]) = 0 := by
  rw [hardRun, List.reverse_append, List.reverse_singleton, List.singleton_append,
    List.takeWhile_cons_of_neg (by simpa using h), List.length_nil]

theorem observeAll_append (policy : AdmissionPolicy) (samples : List UInt64) (sample : UInt64) :
    policy.observeAll (samples ++ [sample]) =
      ((policy.observeAll samples).1 ++ [((policy.observeAll samples).2.observe sample).1],
        ((policy.observeAll samples).2.observe sample).2) := by
  induction samples generalizing policy with
  | nil => rfl
  | cons first samples ih => simp only [List.cons_append, AdmissionPolicy.observeAll, ih]

theorem observeAll_length (policy : AdmissionPolicy) (samples : List UInt64) :
    (policy.observeAll samples).1.length = samples.length := by
  induction samples generalizing policy with
  | nil => rfl
  | cons first samples ih => simp only [AdmissionPolicy.observeAll, List.length_cons, ih]

/-- An action is that of the policy after the samples before its own. -/
theorem observeAll_getElem? (policy : AdmissionPolicy) (before : List UInt64) (sample : UInt64) (after : List UInt64) :
    (policy.observeAll (before ++ sample :: after)).1[before.length]? =
      some ((policy.observeAll before).2.observe sample).1 := by
  induction before generalizing policy with
  | nil => rfl
  | cons first before ih => exact ih _

/-- The counter of the policy after some samples. -/
structure Counts (limits : MemoryLimits) (samples : List UInt64) (policy : AdmissionPolicy) : Prop where
  same : policy.limits = limits
  breaches : policy.consecutiveHardBreaches.toNat = hardRun limits samples % hardBreachSamples.toNat

theorem Counts.lt (h : Counts limits samples policy) : policy.consecutiveHardBreaches < hardBreachSamples := by
  rw [UInt32.lt_iff_toNat_lt, h.breaches]
  exact Nat.mod_lt _ (by decide)

theorem Counts.next_toNat (h : Counts limits samples policy) :
    (policy.consecutiveHardBreaches + 1).toNat = policy.consecutiveHardBreaches.toNat + 1 := by
  have hlt := UInt32.lt_iff_toNat_lt.mp h.lt
  rw [hardBreachSamples] at hlt
  simp only [UInt32.toNat_add, UInt32.reduceToNat] at hlt ⊢
  omega

/-- What the counter says about the run up to the next sample. -/
theorem Counts.breach_iff (h : Counts limits samples policy) (hsample : limits.hardLimitBytes < sample) :
    hardBreachSamples ≤ policy.consecutiveHardBreaches + 1 ↔
      hardBreachSamples.toNat ∣ hardRun limits (samples ++ [sample]) := by
  have hlt := UInt32.lt_iff_toNat_lt.mp h.lt
  have hbreaches := h.breaches
  rw [UInt32.le_iff_toNat_le, h.next_toNat, hardRun_append_of_lt hsample]
  simp only [hardBreachSamples, UInt32.reduceToNat] at hlt hbreaches ⊢
  omega

theorem Counts.observe (h : Counts limits samples policy) (sample : UInt64) :
    Counts limits (samples ++ [sample]) (policy.observe sample).2 := by
  rw [AdmissionPolicy.observe, h.same]
  by_cases hsample : limits.hardLimitBytes < sample
  · rw [if_pos hsample]
    have hiff := h.breach_iff hsample
    have hnext := h.next_toNat
    have hbreaches := h.breaches
    by_cases hbreach : hardBreachSamples ≤ policy.consecutiveHardBreaches + 1
    · simp only [hbreach, if_true]
      exact ⟨rfl, (Nat.mod_eq_zero_of_dvd (hiff.mp hbreach)).symm⟩
    · simp only [hbreach, if_false]
      refine ⟨rfl, ?_⟩
      rw [hnext, hbreaches]
      rw [hiff] at hbreach
      rw [hardRun_append_of_lt hsample] at hbreach ⊢
      simp only [hardBreachSamples, UInt32.reduceToNat] at hbreach ⊢
      omega
  · have hrun : hardRun limits (samples ++ [sample]) = 0 := hardRun_append_of_le (UInt64.not_lt.mp hsample)
    rw [if_neg hsample]
    by_cases hadmission : limits.admissionBytes < sample
    · rw [if_pos hadmission]
      exact ⟨rfl, by rw [hrun]; rfl⟩
    · rw [if_neg hadmission]
      exact ⟨rfl, by rw [hrun]; rfl⟩

theorem observeAll_counts (limits : MemoryLimits) (samples : List UInt64) :
    Counts limits samples ((AdmissionPolicy.new limits).observeAll samples).2 := by
  induction samples using List.reverseRecOn with
  | nil => exact ⟨rfl, rfl⟩
  | append_singleton samples sample ih =>
      rw [observeAll_append]
      exact ih.observe sample

/-- The action for a sample, from the run that it ends. -/
def expectedAction (limits : MemoryLimits) (samples : List UInt64) (sample : UInt64) : MemoryAction :=
  if sample ≤ limits.admissionBytes then .admits
  else if limits.hardLimitBytes < sample ∧ hardBreachSamples.toNat ∣ hardRun limits (samples ++ [sample]) then .terminateNewest
  else .freezeAdmission

theorem Counts.action (h : Counts limits samples policy) (sample : UInt64) :
    (policy.observe sample).1 = expectedAction limits samples sample := by
  have habove := limits.above
  rw [AdmissionPolicy.observe, h.same, expectedAction]
  by_cases hsample : limits.hardLimitBytes < sample
  · have hnot : ¬sample ≤ limits.admissionBytes := by
      rw [UInt64.not_le]
      exact UInt64.lt_trans habove hsample
    rw [if_pos hsample, if_neg hnot]
    by_cases hbreach : hardBreachSamples ≤ policy.consecutiveHardBreaches + 1
    · simp only [hbreach, if_true]
      exact (if_pos ⟨hsample, (h.breach_iff hsample).mp hbreach⟩).symm
    · simp only [hbreach, if_false]
      exact (if_neg fun hboth => hbreach ((h.breach_iff hsample).mpr hboth.2)).symm
  · rw [if_neg hsample]
    by_cases hadmission : limits.admissionBytes < sample
    · rw [if_pos hadmission, if_neg (UInt64.not_le.mpr hadmission), if_neg fun hboth => hsample hboth.1]
    · rw [if_neg hadmission, if_pos (UInt64.not_lt.mp hadmission)]

end Runs

/-- Over a whole sequence of samples, a worker is terminated exactly at every third sample of a run above the hard limit,
work is admitted exactly up to the budget, and the counter never reaches its bound. -/
theorem observe_timing (limits : MemoryLimits) (before : List UInt64) (sample : UInt64) (after : List UInt64) :
    let actions := ((AdmissionPolicy.new limits).observeAll (before ++ sample :: after)).1
    actions.length = (before ++ sample :: after).length ∧
    (actions[before.length]? = some .terminateNewest ↔
      limits.hardLimitBytes < sample ∧ hardBreachSamples.toNat ∣ hardRun limits (before ++ [sample])) ∧
    (actions[before.length]? = some .admits ↔ sample ≤ limits.admissionBytes) ∧
    (actions[before.length]? = some .freezeAdmission ↔
      ¬sample ≤ limits.admissionBytes ∧
        ¬(limits.hardLimitBytes < sample ∧ hardBreachSamples.toNat ∣ hardRun limits (before ++ [sample]))) ∧
    ((AdmissionPolicy.new limits).observeAll (before ++ sample :: after)).2.consecutiveHardBreaches < hardBreachSamples := by
  intro actions
  have haction : actions[before.length]? = some (expectedAction limits before sample) := by
    rw [observeAll_getElem?, (observeAll_counts limits before).action]
  have hdisjoint : limits.hardLimitBytes < sample → ¬sample ≤ limits.admissionBytes := by
    intro hsample
    rw [UInt64.not_le]
    exact UInt64.lt_trans limits.above hsample
  refine ⟨observeAll_length _ _, ?_, ?_, ?_, (observeAll_counts limits _).lt⟩
  all_goals
    rw [haction, Option.some_inj, expectedAction]
    split_ifs with hallowed hterminate
  · exact iff_of_false (fun h => nomatch h) fun h => hdisjoint h.1 hallowed
  · exact iff_of_true rfl hterminate
  · exact iff_of_false (fun h => nomatch h) hterminate
  · exact iff_of_true rfl hallowed
  · exact iff_of_false (fun h => nomatch h) hallowed
  · exact iff_of_false (fun h => nomatch h) hallowed
  · exact iff_of_false (fun h => nomatch h) fun h => h.1 hallowed
  · exact iff_of_false (fun h => nomatch h) fun h => h.2 hterminate
  · exact iff_of_true rfl ⟨hallowed, hterminate⟩

end Zkie.Admission
