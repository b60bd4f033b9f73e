import Zkie.Checked
import Zkie.Scheduler
import Zkie.Worker

namespace Zkie.GpuPlacement

open RunState RunDatabase Interruptible RunQueue Scheduler
open Worker (WorkerJob WorkerSpec ProtocolError workerSchemaVersion checkDevices)

section Model

/-- The devices below a count. -/
def deviceRange (count : ℕ) : List UInt32 := (List.range count).map UInt32.ofNat

/-- Threads and devices are derived from the request. -/
def workerSpec (runDigest : Digest32) (jobId : JobId) (attemptId : AttemptId) (job : WorkerJob) (stagedOutputDir : String)
    (request : ResourceRequest) : Except ProtocolError WorkerSpec := do
  let spec : WorkerSpec := ⟨workerSchemaVersion, runDigest, jobId, attemptId, job, stagedOutputDir,
    UInt32.ofNat request.cpuCores, deviceRange request.gpuCount⟩
  spec.validate
  return spec

def specFor (candidate : SchedulableJob) (runDigest : Digest32) (attemptId : AttemptId) (job : WorkerJob)
    (stagedOutputDir : String) : Except ProtocolError WorkerSpec :=
  workerSpec runDigest candidate.jobId attemptId job stagedOutputDir candidate.request

/-- A worker spec of a candidate, with whatever is to be run for it. -/
def IsSpecOf (spec : WorkerSpec) (candidate : SchedulableJob) : Prop :=
  ∃ runDigest attemptId job stagedOutputDir, specFor candidate runDigest attemptId job stagedOutputDir = .ok spec

/-- Worker specs of the jobs never share a device, and have none beyond the configured ones. -/
def Exclusive (config : SchedulerConfig) (jobs : List SchedulableJob) : Prop :=
  ∀ specOf : SchedulableJob → WorkerSpec, (∀ job ∈ jobs, IsSpecOf (specOf job) job) →
    jobs.Pairwise (fun a b => (specOf a).cudaDevices.Disjoint (specOf b).cudaDevices) ∧
      ∀ job ∈ jobs, ∀ device ∈ (specOf job).cudaDevices, device.toNat < config.capacity.gpuCount

/-- The candidates that a decision selects. -/
structure Chosen (candidates : List SchedulableJob) (decision : SchedulerDecision) (jobs : List SchedulableJob) : Prop where
  selected : decision.selected = jobs.map (·.jobId)
  candidates : ∀ job ∈ jobs, job ∈ candidates

/-- At most one of the jobs requests devices. -/
def OneGpuJob (jobs : List SchedulableJob) : Prop :=
  jobs.Pairwise fun a b => a.request.gpuCount = 0 ∨ b.request.gpuCount = 0

/-- There is no room for two jobs that request devices: each needs a core, a device and memory on it. -/
def NoRoomForTwo (c : ResourceCapacity) : Prop := c.gpuCount ≤ 1 ∨ c.cpuCores ≤ 1 ∨ c.gpuVramBytesPerDevice = 0

end Model

section Specs

variable {spec : WorkerSpec} {candidate : SchedulableJob}

theorem checkDevices_of_nodup {devices seen : List UInt32} (h : devices.Nodup) (hnew : ∀ d ∈ devices, d ∉ seen) :
    checkDevices seen devices = .ok () := by
  induction devices generalizing seen with
  | nil => rfl
  | cons device devices ih =>
      obtain ⟨hnot, h⟩ := List.nodup_cons.mp h
      rw [checkDevices, if_neg (hnew device List.mem_cons_self)]
      apply ih h
      intro other hother hmem
      rcases List.mem_append.mp hmem with hmem | hmem
      · exact hnew other (List.mem_cons_of_mem _ hother) hmem
      · exact hnot (List.mem_singleton.mp hmem ▸ hother)

theorem IsSpecOf.devices (h : IsSpecOf spec candidate) :
    spec.cudaDevices = deviceRange candidate.request.gpuCount := by
  obtain ⟨runDigest, attemptId, job, dir, hspec⟩ := h
  obtain ⟨_, -, hpure⟩ := Checked.bind_eq_ok.mp hspec
  cases hpure
  rfl

theorem mem_deviceRange {n : ℕ} (hn : n < 2 ^ 32) {device : UInt32} : device ∈ deviceRange n ↔ device.toNat < n := by
  rw [deviceRange, List.mem_map]
  constructor
  · rintro ⟨i, hi, rfl⟩
    have hlt := List.mem_range.mp hi
    rwa [UInt32.toNat_ofNat_of_lt' (hlt.trans hn)]
  · intro hlt
    exact ⟨device.toNat, List.mem_range.mpr hlt, UInt32.ofNat_toNat⟩

def placedWork : WorkerJob := ⟨.leafProof, .empty, Nat.zero_le _⟩

def placedSpec : WorkerSpec := ⟨workerSchemaVersion, ⟨Vector.replicate 32 0⟩, firstJob, firstJob, placedWork, "/", 1, []⟩

/-- A request of 32-bit size has a worker spec. -/
theorem exists_spec (hcores : candidate.request.cpuCores < 2 ^ 32) (hgpus : candidate.request.gpuCount < 2 ^ 32) :
    ∃ spec, IsSpecOf spec candidate := by
  have hthreads : UInt32.ofNat candidate.request.cpuCores ≠ 0 := by
    intro hzero
    have hpos := candidate.request.cpuCores_pos
    have hval := congrArg UInt32.toNat hzero
    rw [UInt32.toNat_ofNat_of_lt' hcores] at hval
    exact hpos.ne' hval
  have hnodup : (deviceRange candidate.request.gpuCount).Nodup := by
    apply List.Nodup.map_on _ List.nodup_range
    intro a ha b hb heq
    have hval := congrArg UInt32.toNat heq
    rwa [UInt32.toNat_ofNat_of_lt' ((List.mem_range.mp ha).trans hgpus),
      UInt32.toNat_ofNat_of_lt' ((List.mem_range.mp hb).trans hgpus)] at hval
  refine ⟨_, ⟨Vector.replicate 32 0⟩, candidate.jobId, placedWork, "/", Checked.bind_eq_ok.mpr ⟨(), ?_, rfl⟩⟩
  rw [WorkerSpec.validate, if_neg (by simp), if_neg (by simp), if_neg hthreads]
  exact checkDevices_of_nodup hnodup (by simp)

end Specs

section Placement

variable {config : SchedulerConfig} {available : ResourceCapacity} {now : ℤ} {candidates jobs : List SchedulableJob}
  {db : RunDb} {decision : SchedulerDecision}

/-- Two device ranges share device 0 unless one of them is empty. -/
theorem disjoint_deviceRange {m n : ℕ} (hm : m < 2 ^ 32) (hn : n < 2 ^ 32) :
    (deviceRange m).Disjoint (deviceRange n) ↔ m = 0 ∨ n = 0 := by
  constructor
  · intro hdisjoint
    by_contra hboth
    obtain ⟨hleft, hright⟩ := not_or.mp hboth
    have hzero : (0 : UInt32).toNat = 0 := UInt32.toNat_zero
    have hm' : (0 : UInt32) ∈ deviceRange m := (mem_deviceRange hm).mpr (by omega)
    exact hdisjoint hm' ((mem_deviceRange hn).mpr (by omega))
  · rintro (rfl | rfl)
    · exact List.disjoint_nil_left _
    · exact List.disjoint_nil_right _

/-- Worker specs of jobs that fit the configured machine exclude each other exactly if at most one job has devices. -/
theorem exclusive_iff (hcores : config.capacity.cpuCores < 2 ^ 32) (hgpus : config.capacity.gpuCount < 2 ^ 32)
    (hjobs : ∀ job ∈ jobs, job.request.cpuCores ≤ config.capacity.cpuCores ∧ job.request.gpuCount ≤ config.capacity.gpuCount) :
    Exclusive config jobs ↔ OneGpuJob jobs := by
  have hiff : ∀ specOf : SchedulableJob → WorkerSpec, (∀ job ∈ jobs, IsSpecOf (specOf job) job) →
      (jobs.Pairwise (fun a b => (specOf a).cudaDevices.Disjoint (specOf b).cudaDevices) ↔ OneGpuJob jobs) := by
    intro specOf hspecs
    apply List.Pairwise.iff_of_mem
    intro a b ha hb
    rw [(hspecs a ha).devices, (hspecs b hb).devices]
    exact disjoint_deviceRange ((hjobs a ha).2.trans_lt hgpus) ((hjobs b hb).2.trans_lt hgpus)
  constructor
  · intro hexclusive
    have hexists : ∀ job, ∃ spec, job ∈ jobs → IsSpecOf spec job := by
      intro job
      by_cases hjob : job ∈ jobs
      · obtain ⟨spec, hspec⟩ := exists_spec ((hjobs job hjob).1.trans_lt hcores) ((hjobs job hjob).2.trans_lt hgpus)
        exact ⟨spec, fun _ => hspec⟩
      · exact ⟨placedSpec, fun h => absurd h hjob⟩
    choose specOf hspecs using hexists
    exact (hiff specOf hspecs).mp (hexclusive specOf hspecs).1
  · intro hone specOf hspecs
    refine ⟨(hiff specOf hspecs).mpr hone, ?_⟩
    intro job hjob device hdevice
    rw [(hspecs job hjob).devices, mem_deviceRange ((hjobs job hjob).2.trans_lt hgpus)] at hdevice
    exact hdevice.trans_le (hjobs job hjob).2

theorem nodup_of_duplicate? {seen : List JobId} (h : duplicate? seen candidates = none) :
    (candidates.map (·.jobId)).Nodup ∧ ∀ job ∈ candidates, job.jobId ∉ seen := by
  induction candidates generalizing seen with
  | nil => exact ⟨List.nodup_nil, by simp⟩
  | cons job candidates ih =>
      rw [duplicate?] at h
      split at h
      · cases h
      · rename_i hnew
        obtain ⟨hnodup, hrest⟩ := ih h
        constructor
        · rw [List.map_cons, List.nodup_cons]
          refine ⟨?_, hnodup⟩
          intro hmem
          obtain ⟨other, hother, heq⟩ := List.mem_map.mp hmem
          exact hrest other hother (heq ▸ List.mem_cons_self)
        · intro other hother
          rcases List.mem_cons.mp hother with rfl | hother
          · exact hnew
          · exact fun hmem => hrest other hother (List.mem_cons_of_mem _ hmem)

theorem eq_of_map_jobId {jobs' : List SchedulableJob} (hnodup : (candidates.map (·.jobId)).Nodup)
    (hjobs : ∀ job ∈ jobs, job ∈ candidates) (hjobs' : ∀ job ∈ jobs', job ∈ candidates)
    (h : jobs.map (·.jobId) = jobs'.map (·.jobId)) : jobs = jobs' := by
  induction jobs generalizing jobs' with
  | nil => exact (List.map_eq_nil_iff.mp h.symm).symm
  | cons job jobs ih =>
      cases jobs' with
      | nil => cases h
      | cons job' jobs' =>
          obtain ⟨hid, hrest⟩ := List.cons.inj h
          obtain ⟨hjob, hjobs⟩ := List.forall_mem_cons.mp hjobs
          obtain ⟨hjob', hjobs'⟩ := List.forall_mem_cons.mp hjobs'
          rw [eq_of_jobId hnodup hjob hjob' hid, ih hjobs hjobs' hrest]

/-- The jobs of a decision are those that its promises are about. -/
theorem schedules_of_decided {s s' : Session RunDb Unit} (hrun : Scheduler.decide config available now candidates s = (.ok decision, s'))
    (hchosen : Chosen candidates decision jobs) : Schedules config available now candidates s'.store decision jobs := by
  have hnodup : (candidates.map (·.jobId)).Nodup := by
    cases hduplicate : duplicate? [] candidates with
    | none => exact (nodup_of_duplicate? hduplicate).1
    | some job =>
        rw [Scheduler.decide, hduplicate] at hrun
        cases hrun
  obtain ⟨jobs', hschedules⟩ := (decide_schedules config available now candidates hnodup).2 s decision s' hrun
  have hids : jobs.map (·.jobId) = jobs'.map (·.jobId) := hchosen.selected.symm.trans hschedules.selected
  rw [eq_of_map_jobId hnodup hchosen.candidates (fun job hjob => (hschedules.eligible job hjob).1) hids]
  exact hschedules

theorem le_sum_of_sublist {f : SchedulableJob → ℕ} {a b : SchedulableJob} (h : [a, b].Sublist jobs) :
    f a + f b ≤ (jobs.map f).sum := by
  have hle := (h.map f).sum_le_sum fun _ _ => Nat.zero_le _
  simpa using hle

theorem oneGpuJob_of_noRoom (hnoRoom : NoRoomForTwo config.capacity)
    (h : Schedules config available now candidates db decision jobs) : OneGpuJob jobs := by
  rw [OneGpuJob, List.pairwise_iff_forall_sublist]
  intro a b hsub
  by_contra hboth
  obtain ⟨ha, hb⟩ := not_or.mp hboth
  have hcores := le_sum_of_sublist (f := (·.request.cpuCores)) hsub
  have hgpus := le_sum_of_sublist (f := (·.request.gpuCount)) hsub
  have hvram := h.vram a (hsub.subset List.mem_cons_self)
  have hcpu := h.cpuCores
  have hgpu := h.gpuCount
  have hcoresA := a.request.cpuCores_pos
  have hcoresB := b.request.cpuCores_pos
  have hvramA := mt a.request.gpu.mpr ha
  rcases hnoRoom with hroom | hroom | hroom
  · omega
  · omega
  · omega

theorem usable_self {c : ResourceCapacity} (h : c.gpuCount ≠ 0) : c.usable c = c := by
  cases c
  simp_all [ResourceCapacity.usable]

theorem sum_oneGpu {f : ResourceRequest → ℕ} (hf : f oneGpu = 1) (hjobs : ∀ job ∈ jobs, job.request = oneGpu) :
    (jobs.map fun job => f job.request).sum = jobs.length := by
  have hmap : (jobs.map fun job => f job.request) = List.replicate jobs.length 1 := by
    rw [List.eq_replicate_iff]
    refine ⟨by simp, ?_⟩
    intro n hn
    obtain ⟨job, hjob, rfl⟩ := List.mem_map.mp hn
    rw [hjobs job hjob, hf]
  rw [hmap, List.sum_replicate, smul_eq_mul, Nat.mul_one]

/-- Where there is room for two jobs with devices, both are packed. -/
theorem packs_both {c remaining : ResourceCapacity} {eligible : List SchedulableJob} (hroom : ¬NoRoomForTwo c)
    (heligible : eligible.length = 2) (hrequests : ∀ job ∈ eligible, job.request = oneGpu)
    (h : Packs c eligible jobs remaining) : jobs.Perm eligible := by
  obtain ⟨rest, hperm, hfull⟩ := h.maximal
  have hlength := hperm.length_eq
  rw [List.length_append, heligible] at hlength
  have hjobs : ∀ job ∈ jobs, job.request = oneGpu := fun job hjob =>
    hrequests job (hperm.subset (List.mem_append_left _ hjob))
  have hcores := sum_oneGpu (f := (·.cpuCores)) rfl hjobs
  have hgpus := sum_oneGpu (f := (·.gpuCount)) rfl hjobs
  cases rest with
  | nil => simpa using hperm
  | cons job rest =>
      exfalso
      simp only [NoRoomForTwo, not_or, not_le] at hroom
      have hcpu := h.cpuCores
      have hgpu := h.gpuCount
      have hleft := h.left
      simp only [List.length_cons] at hlength
      apply hfull job List.mem_cons_self
      rw [hrequests job (hperm.subset (List.mem_append_right _ List.mem_cons_self))]
      refine ⟨?_, Nat.zero_le _, ?_, ?_⟩
      · change 1 ≤ remaining.cpuCores
        omega
      · change 1 ≤ remaining.gpuCount
        omega
      · change 1 ≤ remaining.gpuVramBytesPerDevice
        omega

/-- A decision on two ready jobs with devices selects both, if the machine is idle and has room for them. -/
theorem decide_both (config : SchedulerConfig) (hroom : ¬NoRoomForTwo config.capacity) :
    ∃ decision jobs, Scheduler.decide config config.capacity 0 twoCandidates ⟨twoReady, [], none⟩ =
        (.ok decision, ⟨twoReady, [], none⟩) ∧ Chosen twoCandidates decision jobs ∧ ¬OneGpuJob jobs := by
  have hrun : Scheduler.decide config config.capacity 0 twoCandidates ⟨twoReady, [], none⟩ =
      orPanic (Scheduler.select config (config.capacity.usable config.capacity) 0 twoCandidates) ⟨twoReady, [], none⟩ := by
    rfl
  have husable : config.capacity.usable config.capacity = config.capacity := usable_self fun hzero =>
    hroom (Or.inl (by omega))
  have hids : (twoCandidates.map (·.jobId)).Nodup := by decide
  rw [husable] at hrun
  rcases select_spec config config.capacity 0 hids with ⟨aged, hsome, hnot, -⟩ | ⟨jobs, remaining, hselect, hpacks, -⟩
  · have hfits := List.find?_some hsome
    rw [decide_eq_true_iff] at hfits
    exact absurd hfits.1 hnot
  · have hperm := packs_both hroom rfl (by decide) hpacks
    refine ⟨_, jobs, by rw [hrun, hselect]; rfl, ⟨rfl, fun job hjob => hperm.subset hjob⟩, ?_⟩
    intro hone
    have htwo : OneGpuJob twoCandidates := (hperm.pairwise_iff fun h => h.symm).mp hone
    exact absurd htwo (by rw [OneGpuJob]; decide)

/-- Of one decision, the worker specs exclude each other exactly if at most one selected job has devices; and they do so
in every decision of a scheduler exactly if its configured machine has no room for two such jobs. -/
theorem placement_exclusive_iff (config : SchedulerConfig) (hcores : config.capacity.cpuCores < 2 ^ 32)
    (hgpus : config.capacity.gpuCount < 2 ^ 32) :
    (∀ available now candidates s decision s' jobs, Scheduler.decide config available now candidates s = (.ok decision, s') →
      Chosen candidates decision jobs → (Exclusive config jobs ↔ OneGpuJob jobs)) ∧
    ((∀ available now candidates s decision s' jobs, Scheduler.decide config available now candidates s = (.ok decision, s') →
      Chosen candidates decision jobs → Exclusive config jobs) ↔ NoRoomForTwo config.capacity) := by
  have hdecision : ∀ available now candidates s decision s' jobs,
      Scheduler.decide config available now candidates s = (.ok decision, s') → Chosen candidates decision jobs →
      (Exclusive config jobs ↔ OneGpuJob jobs) := by
    intro available now candidates s decision s' jobs hrun hchosen
    have hschedules := schedules_of_decided hrun hchosen
    apply exclusive_iff hcores hgpus
    intro job hjob
    have hcpu := List.single_le_sum (fun _ _ => Nat.zero_le _) _ (List.mem_map_of_mem (f := (·.request.cpuCores)) hjob)
    have hgpu := List.single_le_sum (fun _ _ => Nat.zero_le _) _ (List.mem_map_of_mem (f := (·.request.gpuCount)) hjob)
    have hcpuSum := hschedules.cpuCores
    have hgpuSum := hschedules.gpuCount
    omega
  refine ⟨hdecision, ?_, ?_⟩
  · intro hall
    by_contra hroom
    obtain ⟨decision, jobs, hrun, hchosen, hnot⟩ := decide_both config hroom
    have hexclusive := hall _ _ _ _ _ _ _ hrun hchosen
    exact hnot ((hdecision _ _ _ _ _ _ _ hrun hchosen).mp hexclusive)
  · intro hnoRoom available now candidates s decision s' jobs hrun hchosen
    have hone := oneGpuJob_of_noRoom hnoRoom (schedules_of_decided hrun hchosen)
    exact (hdecision _ _ _ _ _ _ _ hrun hchosen).mpr hone

/-- A single device is never handed out twice. -/
theorem placement_exclusive_iff_single : NoRoomForTwo ⟨4, 8, 1, 1⟩ ∧
    ∀ available now candidates s decision s' jobs,
      Scheduler.decide (.new ⟨4, 8, 1, 1⟩) available now candidates s = (.ok decision, s') →
        Chosen candidates decision jobs → Exclusive (.new ⟨4, 8, 1, 1⟩) jobs := by
  have hsingle : NoRoomForTwo ⟨4, 8, 1, 1⟩ := Or.inl le_rfl
  exact ⟨hsingle, (placement_exclusive_iff (.new ⟨4, 8, 1, 1⟩) (by decide) (by decide)).2.mpr hsingle⟩

/-- Of two devices, device 0 is handed out twice. -/
theorem placement_overlaps : ∃ decision s',
    Scheduler.decide (.new ⟨4, 8, 2, 1⟩) ⟨4, 8, 2, 1⟩ 0 twoCandidates ⟨twoReady, [], none⟩ = (.ok decision, s') ∧
      Chosen twoCandidates decision twoCandidates ∧ ¬Exclusive (.new ⟨4, 8, 2, 1⟩) twoCandidates := by
  have hrun : Scheduler.decide (.new ⟨4, 8, 2, 1⟩) ⟨4, 8, 2, 1⟩ 0 twoCandidates ⟨twoReady, [], none⟩ =
      (.ok ⟨[firstJob, secondJob], ⟨2, 8, 0, 0⟩, none⟩, ⟨twoReady, [], none⟩) := by rfl
  refine ⟨_, _, hrun, ⟨rfl, fun _ => id⟩, ?_⟩
  rw [exclusive_iff (by decide) (by decide) (by decide), OneGpuJob]
  decide

end Placement

end Zkie.GpuPlacement
