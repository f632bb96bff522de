import Mathlib.Data.List.DropRight
import Datacenter.Proofs.PassFaults

/-!
# Recent samples

What monitoring knows of a host and a resource are its latest samples, as many as the window has
room for. Samples of other hosts, or of the other resource, do not count.

Main statements: `history_recordAll`, `run_eq` and `history_is_latest`.
-/

namespace Datacenter

/-- A utilization that has been observed. -/
structure Sample (α : Type) where
  host : HostId
  resource : ResourceKind
  value : α

variable {α : Type}

/-- The values for a host and a resource, oldest first. -/
def Sample.values (samples : List (Sample α)) (host : HostId) (resource : ResourceKind) : List α :=
  (samples.filter fun s => s.host = host ∧ s.resource = resource).map (·.value)

theorem rtake_append_singleton {β : Type} {n : Nat} (hn : 0 < n) (xs : List β) (x : β) :
    (xs ++ [x]).rtake n
      = (if (xs.rtake n).length = n then (xs.rtake n).tail else xs.rtake n) ++ [x] := by
  have hlength : (xs.rtake n).length = xs.length - (xs.length - n) := by
    simp [List.rtake]
  split
  · rename_i hfull
    have hle : xs.length - n + 1 ≤ xs.length := by omega
    have hsub : xs.length + 1 - n = xs.length - n + 1 := by omega
    simp only [List.rtake, List.length_append, List.length_singleton, hsub, List.tail_drop]
    rw [List.drop_append_of_le_length hle]
  · have hshort : xs.length + 1 - n = 0 := by omega
    have hzero : xs.length - n = 0 := by omega
    simp [List.rtake, hshort, hzero]

namespace Monitoring

/-! ### Single samples -/

theorem history_ofLength (n : Nat) (host : HostId) (resource : ResourceKind) :
    (ofLength n : Monitoring α).history host resource = [] := by
  cases resource <;> simp [ofLength, history, samples]

theorem window_record (m : Monitoring α) (host : HostId) (resource : ResourceKind) (x : α) :
    (m.record host resource x).window = m.window := by
  cases resource <;> rfl

theorem samples_withSamples (m : Monitoring α) (host h : HostId) (resource r : ResourceKind)
    (kept : Queue α) :
    (m.withSamples host kept resource).samples h r
      = if h = host ∧ r = resource then kept else m.samples h r := by
  cases resource <;> cases r <;> simp only [withSamples, samples, reduceCtorEq, and_false, and_true]
  all_goals
    by_cases hhost : h = host
    · simp [hhost]
    · simp [hhost]

/-- A full window loses its oldest sample. -/
theorem history_record (m : Monitoring α) (host h : HostId) (resource r : ResourceKind) (x : α) :
    (m.record host resource x).history h r
      = if h = host ∧ r = resource then
          (if (m.history h r).length = m.window then (m.history h r).tail else m.history h r) ++ [x]
        else m.history h r := by
  simp only [record, history, samples_withSamples]
  by_cases hkey : h = host ∧ r = resource
  · obtain ⟨rfl, rfl⟩ := hkey
    by_cases hfull : (m.samples h r).toList.length = m.window
    · simp [Queue.size_eq_length, hfull]
    · simp [Queue.size_eq_length, hfull]
  · rw [if_neg hkey, if_neg hkey]

/-! ### Many samples -/

def recordAll (m : Monitoring α) (samples : List (Sample α)) : Monitoring α :=
  samples.foldl (fun m s => m.record s.host s.resource s.value) m

/-- If the history is what a window keeps of earlier values, it is what the window keeps of all. -/
theorem history_recordAll {m : Monitoring α} {host : HostId} {resource : ResourceKind}
    {earlier : List α} (hwindow : 0 < m.window)
    (h : m.history host resource = earlier.rtake m.window) (samples : List (Sample α)) :
    (m.recordAll samples).history host resource
      = (earlier ++ Sample.values samples host resource).rtake m.window := by
  induction samples generalizing m earlier with
  | nil => simpa [recordAll, Sample.values] using h
  | cons s rest ih =>
    have hwindow' := window_record m s.host s.resource s.value
    show ((m.record s.host s.resource s.value).recordAll rest).history host resource = _
    by_cases hkey : host = s.host ∧ resource = s.resource
    · obtain ⟨rfl, rfl⟩ := hkey
      have hnext : (m.record s.host s.resource s.value).history s.host s.resource
          = (earlier ++ [s.value]).rtake m.window := by
        rw [history_record, if_pos ⟨rfl, rfl⟩, h, rtake_append_singleton hwindow]
      have hall := ih (by rw [hwindow']; exact hwindow) (by rw [hwindow']; exact hnext)
      rw [hall, hwindow']
      simp [Sample.values]
    · have hnext : (m.record s.host s.resource s.value).history host resource
          = earlier.rtake m.window := by
        rw [history_record, if_neg hkey, h]
      have hall := ih (by rw [hwindow']; exact hwindow) (by rw [hwindow']; exact hnext)
      have hother : ¬(s.host = host ∧ s.resource = resource) := by
        intro hsame
        exact hkey ⟨hsame.1.symm, hsame.2.symm⟩
      rw [hall, hwindow']
      simp [Sample.values, hother]

end Monitoring

/-! ### Observations -/

variable [Scalar α]

/-- The planning utilizations of a host, as samples. -/
def Pool.samplesOf (pool : Pool α) (host : HostId) : Checked (List (Sample α)) := do
  let cpu ← pool.cpuUtilization host
  let ram ← pool.ramUtilization host
  return [⟨host, .cpu, cpu⟩, ⟨host, .ram, ram⟩]

/-- What is told to monitoring: a single sample, or the samples of all hosts of a pool. -/
inductive Observation (α : Type) where
  | sample (s : Sample α)
  | collect (pool : Pool α)

/-- The samples of an observation, host by host. -/
def Observation.samples : Observation α → Checked (List (Sample α))
  | .sample s => .ok [s]
  | .collect pool => List.flatten <$> pool.hostIds.mapM pool.samplesOf

/-- All samples, in the order in which they are recorded. -/
def Observation.allSamples (observations : List (Observation α)) : Checked (List (Sample α)) :=
  List.flatten <$> observations.mapM samples

namespace Monitoring

def observe (m : Monitoring α) : Observation α → Checked (Monitoring α)
  | .sample s => .ok (m.record s.host s.resource s.value)
  | .collect pool => m.collect pool

def run (m : Monitoring α) (observations : List (Observation α)) : Checked (Monitoring α) :=
  observations.foldlM observe m

omit [Scalar α] in
theorem recordAll_append (m : Monitoring α) (xs ys : List (Sample α)) :
    m.recordAll (xs ++ ys) = (m.recordAll xs).recordAll ys := by
  simp [recordAll]

omit [Scalar α] in
/-- Steps that each record some samples record all of them, or end with the same fault. -/
theorem foldlM_recordAll {β : Type} {step : Monitoring α → β → Checked (Monitoring α)}
    {samples : β → Checked (List (Sample α))}
    (hstep : ∀ m x, step m x = m.recordAll <$> samples x) (m : Monitoring α) (xs : List β) :
    xs.foldlM step m = (fun parts => m.recordAll parts.flatten) <$> xs.mapM samples := by
  induction xs generalizing m with
  | nil => rfl
  | cons x rest ih =>
    rw [List.foldlM_cons, List.mapM_cons, hstep]
    cases samples x with
    | error e => rfl
    | ok part =>
      show rest.foldlM step (m.recordAll part) = _
      rw [ih, Checked.ok_bind]
      cases rest.mapM samples with
      | error e => rfl
      | ok parts =>
        show Except.ok ((m.recordAll part).recordAll parts.flatten) = _
        rw [← recordAll_append]
        rfl

theorem collect_eq (m : Monitoring α) (pool : Pool α) :
    m.collect pool = m.recordAll <$> (Observation.collect pool).samples := by
  have hstep : ∀ (m : Monitoring α) host, (do
      let cpu ← pool.cpuUtilization host
      let ram ← pool.ramUtilization host
      return (m.record host .cpu cpu).record host .ram ram)
        = m.recordAll <$> pool.samplesOf host := by
    intro m host
    rw [Pool.samplesOf]
    cases pool.cpuUtilization host with
    | error e => rfl
    | ok cpu =>
      cases pool.ramUtilization host with
      | error e => rfl
      | ok ram => rfl
  rw [collect, foldlM_recordAll hstep, Observation.samples, Functor.map_map]

/-- A run records all samples of its observations, and nothing else. -/
theorem run_eq (m : Monitoring α) (observations : List (Observation α)) :
    m.run observations = m.recordAll <$> Observation.allSamples observations := by
  have hstep : ∀ (m : Monitoring α) x, m.observe x = m.recordAll <$> x.samples := by
    intro m x
    cases x with
    | sample s => rfl
    | collect pool => exact m.collect_eq pool
  rw [run, foldlM_recordAll hstep, Observation.allSamples, Functor.map_map]

end Monitoring

theorem Observation.samples_eq_ok {x : Observation α}
    (h : ∀ pool, x = .collect pool → pool.Reachable) : ∃ samples, x.samples = .ok samples := by
  cases x with
  | sample s => exact ⟨[s], rfl⟩
  | collect pool =>
    have hr := h pool rfl
    have hhost : ∀ host ∈ pool.hostIds, ∃ samples, pool.samplesOf host = .ok samples := by
      intro host hmem
      obtain ⟨record, hrecord⟩ := (Table.mem_keys_iff _ _).mp hmem
      obtain ⟨cpu, hcpu⟩ := hr.cpuUtilization_eq_ok hrecord
      obtain ⟨ram, hram⟩ := hr.ramUtilization_eq_ok hrecord
      rw [Pool.samplesOf, hcpu, Checked.ok_bind, hram]
      exact ⟨_, rfl⟩
    obtain ⟨parts, hparts, -⟩ := Checked.mapM_of_eq_ok hhost
    rw [Observation.samples, hparts]
    exact ⟨_, rfl⟩

theorem Observation.allSamples_eq_ok {observations : List (Observation α)}
    (h : ∀ pool, .collect pool ∈ observations → pool.Reachable) :
    ∃ samples, allSamples observations = .ok samples := by
  have heach : ∀ x ∈ observations, ∃ samples, x.samples = .ok samples := by
    intro x hx
    refine samples_eq_ok fun pool heq => h pool ?_
    rw [← heq]
    exact hx
  obtain ⟨parts, hparts, -⟩ := Checked.mapM_of_eq_ok heach
  rw [allSamples, hparts]
  exact ⟨_, rfl⟩

namespace Monitoring

/-! ### Averages -/

theorem average_eq (m : Monitoring α) (host : HostId) (resource : ResourceKind) :
    m.average host resource
      = if m.history host resource = [] then none
        else some (Scalar.sum (m.history host resource)
          / Scalar.ofNat (m.history host resource).length) := by
  simp only [average, Queue.foldl_eq, Queue.size_eq_length, List.length_eq_zero_iff]
  rfl

/-- Whatever single samples are recorded and whatever pools are looked at: the history of a host
and a resource is the latest of their samples, as many as the window has room for, and their
average is the mean of the history, if there is any sample. -/
theorem history_is_latest (n : Nat) {observations : List (Observation α)}
    (h : ∀ pool, .collect pool ∈ observations → pool.Reachable) :
    ∃ m samples, (ofLength n).run observations = .ok m
      ∧ Observation.allSamples observations = .ok samples
      ∧ ∀ host resource,
        m.history host resource = (Sample.values samples host resource).rtake (max n 1)
        ∧ (m.average host resource = none ↔ Sample.values samples host resource = [])
        ∧ (Sample.values samples host resource ≠ [] →
          m.average host resource = some (Scalar.sum (m.history host resource)
            / Scalar.ofNat (m.history host resource).length)) := by
  obtain ⟨samples, hsamples⟩ := Observation.allSamples_eq_ok h
  have hwindow : (ofLength n : Monitoring α).window = max n 1 := rfl
  have hpos : 0 < (ofLength n : Monitoring α).window := by omega
  refine ⟨(ofLength n).recordAll samples, samples, ?_, hsamples, ?_⟩
  · rw [run_eq, hsamples]
    rfl
  · intro host resource
    have hstart : (ofLength n : Monitoring α).history host resource
        = [].rtake (ofLength n : Monitoring α).window := by
      simp [history_ofLength]
    have hhistory := history_recordAll hpos hstart samples
    rw [List.nil_append, hwindow] at hhistory
    have hempty : ((ofLength n).recordAll samples).history host resource = []
        ↔ Sample.values samples host resource = [] := by
      rw [hhistory, List.rtake, List.drop_eq_nil_iff]
      constructor
      · intro hle
        apply List.eq_nil_of_length_eq_zero
        omega
      · intro hnil
        simp [hnil]
    refine ⟨hhistory, ?_, ?_⟩
    · rw [average_eq, ← hempty, ite_eq_left_iff]
      simp
    · intro hne
      rw [average_eq, if_neg (mt hempty.mp hne)]

/-- A quarter of the first host is in use. -/
def watchedRun : List (Pool.Op ℚ) :=
  let host : HostSpec ℚ := ⟨"host", 4, 1000, 8192, 1000, 100000, .linear 200 (1 / 2)⟩
  [.addHost host, .addHost host, .addVm ⟨"tenant", 1, 1000, 1024, 100, 1000⟩, .allocate 0 0]

def watching (pool : Pool ℚ) : List (Observation ℚ) :=
  [.sample ⟨0, .cpu, 1 / 10⟩, .collect pool, .sample ⟨1, .ram, 1 / 2⟩, .sample ⟨0, .cpu, 9 / 10⟩]

/-- Two of three samples are kept, and nothing is known of a third host. -/
theorem watchedRun_history : ∃ pool : Pool ℚ, Pool.empty.run watchedRun = .ok pool
    ∧ pool.Reachable
    ∧ ∃ m samples, (ofLength 2).run (watching pool) = .ok m
      ∧ Observation.allSamples (watching pool) = .ok samples
      ∧ Sample.values samples 0 .cpu = [1 / 10, 1 / 4, 9 / 10]
      ∧ m.history 0 .cpu = [1 / 4, 9 / 10] ∧ m.average 0 .cpu = some (23 / 40)
      ∧ m.history 1 .ram = [0, 1 / 2] ∧ m.average 2 .cpu = none := by
  have hrun : ((Pool.empty.run watchedRun).toOption.any fun pool =>
      (Observation.allSamples (watching pool)).toOption.any fun samples =>
        Sample.values samples 0 .cpu == [1 / 10, 1 / 4, 9 / 10]
          && Sample.values samples 1 .ram == [0, 1 / 2]
          && Sample.values samples 2 .cpu == []) = true := by
    decide +kernel
  obtain ⟨pool, hp, htest⟩ := Checked.eq_ok_of_any hrun
  obtain ⟨known, hknown, htest⟩ := Checked.eq_ok_of_any htest
  simp only [Bool.and_eq_true, beq_iff_eq] at htest
  obtain ⟨⟨hcpu, hram⟩, hnone⟩ := htest
  have hr := Pool.reachable_of_run hp
  have hpools : ∀ pool', .collect pool' ∈ watching pool → pool'.Reachable := by
    intro pool' hmem
    simp only [watching, List.mem_cons, reduceCtorEq, Observation.collect.injEq, false_or,
      List.not_mem_nil, or_false] at hmem
    rw [hmem]
    exact hr
  obtain ⟨m, samples, hm, hsamples, hall⟩ := history_is_latest 2 hpools
  cases hknown.symm.trans hsamples
  obtain ⟨hhistory, -, haverage⟩ := hall 0 .cpu
  obtain ⟨hhistory', -, -⟩ := hall 1 .ram
  have hkept : m.history 0 .cpu = [1 / 4, 9 / 10] := by
    rw [hhistory, hcpu]
    rfl
  refine ⟨pool, hp, hr, m, known, hm, hsamples, hcpu, hkept, ?_, ?_, ?_⟩
  · rw [haverage (by simp [hcpu]), hkept]
    decide +kernel
  · rw [hhistory', hram]
    rfl
  · exact (hall 2 .cpu).2.1.mpr hnone

end Monitoring

end Datacenter
