import Datacenter.Proofs.ExactScalar
import Datacenter.Proofs.PlannerSteps

/-!
# Failed consolidations

To empty a host, VMs are planned one after the other before it is known whether all of them find a
target. If not, none of these plans is left, but the tally may hold the loads of hosts that were
asked for on the way. These are the loads that it would give anyway: whatever the planner is asked
for afterwards, it replies as if the call had not been made.

Main statements: `replies_eq`, `outlook_of_consolidate_eq_nil` and `replies_after_failure`.
-/

namespace Datacenter.Planner

open Checked (Agree)

variable {α : Type} [Scalar α]

/-! ### Conversations with a planner -/

/-- What a planner and its tally can be asked for. -/
inductive Query (α : Type) where
  | call (call : Call α)
  | isPlannedTarget (host : HostId)
  | load (host : HostId)
  | cpuUtilization (host : HostId)
  | ramUtilization (host : HostId)
  | fits (host : HostId) (demand : Resources α) (upper : α)

inductive Reply (α : Type) where
  | migrations (migrations : List (Migration α))
  | verdict (verdict : Bool)
  | load (load : PlannedLoad α)
  | share (share : α)

omit [Scalar α] in
/-- What the tally of the planner answers about its pool. It may hold more loads after that. -/
def ask {β γ : Type} (p : Planner α) (query : Tally α → Pool α → Checked (β × Tally α))
    (reply : β → γ) : Checked (γ × Planner α) := do
  let (answer, tally) ← query p.tally p.pool
  return (reply answer, { p with tally })

/-- The reply to a query, and the planner after it. -/
def reply (p : Planner α) : Query α → Checked (Reply α × Planner α)
  | .call call => do
    let (migrations, p) ← call.answer p
    return (.migrations migrations, p)
  | .isPlannedTarget host => return (.verdict (p.isPlannedTarget host), p)
  | .load host => p.ask (·.load · host) .load
  | .cpuUtilization host => p.ask (·.cpuUtilization · host) .share
  | .ramUtilization host => p.ask (·.ramUtilization · host) .share
  | .fits host demand upper => p.ask (·.fits · host demand upper) .verdict

/-- The replies to queries that are made one after the other. -/
def replies (p : Planner α) : List (Query α) → Checked (List (Reply α))
  | [] => .ok []
  | query :: rest => do
    let (reply, p) ← p.reply query
    let later ← p.replies rest
    return reply :: later

/-! ### Planners with the same outlook -/

/-- The same answer, and planners with the same outlook. -/
structure Alike {β : Type} (r r' : β × Planner α) : Prop where
  answer : r.1 = r'.1
  outlook : r.2.outlook = r'.2.outlook

section

variable {p q : Planner α}

theorem alike_of_agrees {β : Type} {x y : Checked (β × Planner α)} {answer : Checked β}
    (hsame : p.outlook = q.outlook) (hx : Agree p.Answered x answer)
    (hy : Agree q.Answered y answer) : Agree Alike x y :=
  (hx.join hy).mono fun _ _ ⟨_, h, h'⟩ =>
    ⟨h.answer.trans h'.answer.symm, h.outlook.trans (hsame.trans h'.outlook.symm)⟩

theorem firstFit_alike (hsame : p.outlook = q.outlook) (demand : Resources α) (source : HostId)
    (skip : Std.TreeSet HostId) (upper : α) (targets : List HostId) :
    Agree Alike (p.firstFit demand source skip upper targets)
      (q.firstFit demand source skip upper targets) :=
  alike_of_agrees hsame (firstFit_agrees p ..) (hsame ▸ firstFit_agrees q ..)

theorem isRelieved_alike (hsame : p.outlook = q.outlook) (host : HostId) (upper : α) :
    Agree Alike (p.isRelieved host upper) (q.isRelieved host upper) :=
  alike_of_agrees hsame (isRelieved_agrees p ..) (hsame ▸ isRelieved_agrees q ..)

theorem plan_alike (hsame : p.outlook = q.outlook) (v : VmId) (source target : HostId)
    (reason : MigrationReason) :
    Agree Alike (p.plan v source target reason) (q.plan v source target reason) := by
  obtain ⟨pool, id, t, targets, vms⟩ := p
  obtain ⟨_, _, t', _, _⟩ := q
  simp only [outlook, Outlook.mk.injEq] at hsame
  obtain ⟨rfl, rfl, hview, rfl, rfl⟩ := hsame
  refine (Agree.refl (pool.vm v)).bind ?_
  rintro vm _ rfl
  have hmoved := Tally.moveDemand_agrees t pool source target vm.demand
  rw [hview] at hmoved
  refine (hmoved.join (Tally.moveDemand_agrees t' pool source target vm.demand)).bind ?_
  rintro tally tally' ⟨view, hleft, hright⟩
  refine (Agree.refl (Migration.plan pool v source target id reason)).bind ?_
  rintro m _ rfl
  refine ⟨rfl, ?_⟩
  simp only [outlook, hleft, hright]

omit [Scalar α] in
theorem candidateVms_eq (hpool : p.pool = q.pool) (hvms : p.plannedVms = q.plannedVms)
    (source : HostId) : p.candidateVms source = q.candidateVms source := by
  rw [candidateVms, candidateVms, hpool, hvms]

theorem distributeVms_alike (hsame : p.outlook = q.outlook) (source : HostId)
    (targets : List HostId) (upper : α) (vms : List VmId) :
    Agree Alike (p.distributeVms source targets upper vms)
      (q.distributeVms source targets upper vms) := by
  induction vms generalizing p q with
  | nil => exact ⟨rfl, hsame⟩
  | cons v rest ih =>
    have hpool : p.pool = q.pool := congrArg Outlook.pool hsame
    rw [distributeVms, distributeVms, hpool]
    refine (Agree.refl (q.pool.vm v)).bind ?_
    rintro vm _ rfl
    refine (firstFit_alike hsame vm.demand source ∅ upper targets).bind ?_
    rintro ⟨choice, p⟩ ⟨_, q⟩ ⟨rfl, hsame⟩
    cases choice with
    | none => exact ih hsame
    | some target =>
      refine (plan_alike hsame v source target .distribute).bind ?_
      rintro ⟨m, p⟩ ⟨_, q⟩ ⟨rfl, hsame⟩
      refine (isRelieved_alike hsame source upper).bind ?_
      rintro ⟨relieved, p⟩ ⟨_, q⟩ ⟨rfl, hsame⟩
      refine Agree.ite (fun _ => ⟨rfl, hsame⟩) fun _ => (ih hsame).bind ?_
      rintro ⟨later, p⟩ ⟨_, q⟩ ⟨rfl, hsame⟩
      exact ⟨rfl, hsame⟩

theorem emptyVms_alike (hsame : p.outlook = q.outlook) (source : HostId) (targets : List HostId)
    (excluded : Std.TreeSet HostId) (upper : α) (vms : List VmId) :
    Agree Alike (p.emptyVms source targets excluded upper vms)
      (q.emptyVms source targets excluded upper vms) := by
  induction vms generalizing p q with
  | nil => exact ⟨rfl, hsame⟩
  | cons v rest ih =>
    have hpool : p.pool = q.pool := congrArg Outlook.pool hsame
    rw [emptyVms, emptyVms, hpool]
    refine (Agree.refl (q.pool.vm v)).bind ?_
    rintro vm _ rfl
    refine (firstFit_alike hsame vm.demand source excluded upper targets).bind ?_
    rintro ⟨choice, p⟩ ⟨_, q⟩ ⟨rfl, hsame⟩
    cases choice with
    | none => exact ⟨rfl, hsame⟩
    | some target =>
      refine (plan_alike hsame v source target .consolidate).bind ?_
      rintro ⟨m, p⟩ ⟨_, q⟩ ⟨rfl, hsame⟩
      refine (ih hsame).bind ?_
      rintro ⟨later, p⟩ ⟨_, q⟩ ⟨rfl, hsame⟩
      exact ⟨rfl, hsame⟩

/-- A query that is answered from the view has the same answer for both planners. -/
theorem ask_alike {β γ : Type} (hsame : p.outlook = q.outlook)
    {query : Tally α → Pool α → Checked (β × Tally α)} (answer : Tally.View α → Pool α → Checked β)
    (h : ∀ t pool, Agree (t.Answered pool) (query t pool) (answer (t.view pool) pool))
    (reply : β → γ) : Agree Alike (p.ask query reply) (q.ask query reply) := by
  have hpool : p.pool = q.pool := congrArg Outlook.pool hsame
  have hview : p.tally.view p.pool = q.tally.view q.pool := congrArg Outlook.view hsame
  have hp := h p.tally p.pool
  rw [hview, congrArg (answer _) hpool] at hp
  refine (hp.join (h q.tally q.pool)).bind ?_
  rintro ⟨_, t⟩ ⟨_, t'⟩ ⟨_, ⟨rfl, hview⟩, ⟨rfl, hview'⟩⟩
  exact ⟨rfl, (outlook_with_tally hview).trans (hsame.trans (outlook_with_tally hview').symm)⟩

theorem consolidate_alike (hsame : p.outlook = q.outlook) (source : HostId)
    (targets : List HostId) (excluded : Std.TreeSet HostId) (upper : α) :
    Agree Alike (p.consolidate source targets excluded upper)
      (q.consolidate source targets excluded upper) := by
  have hpool : p.pool = q.pool := congrArg Outlook.pool hsame
  rw [consolidate, consolidate, hpool,
    candidateVms_eq hpool (congrArg Outlook.plannedVms hsame) source]
  refine Agree.ite (fun _ => ⟨rfl, hsame⟩) fun _ => (Agree.refl (q.candidateVms source)).bind ?_
  rintro vms _ rfl
  refine (emptyVms_alike hsame source targets excluded upper vms).bind ?_
  rintro ⟨moved, planned⟩ ⟨_, planned'⟩ ⟨rfl, hplanned⟩
  have hview : planned.tally.view planned.pool = planned'.tally.view planned'.pool :=
    congrArg Outlook.view hplanned
  have hload := Tally.load_agrees planned.tally planned.pool source
  rw [hview] at hload
  refine (hload.join (Tally.load_agrees planned'.tally planned'.pool source)).bind ?_
  rintro ⟨load, t⟩ ⟨_, t'⟩ ⟨_, ⟨rfl, hkept⟩, ⟨rfl, hkept'⟩⟩
  refine Agree.ite (fun _ => ⟨rfl, hsame⟩) fun _ => ⟨rfl, ?_⟩
  exact (outlook_with_tally hkept).trans (hplanned.trans (outlook_with_tally hkept').symm)

theorem answer_alike (hsame : p.outlook = q.outlook) (call : Call α) :
    Agree Alike (call.answer p) (call.answer q) := by
  cases call with
  | distribute source targets upper =>
    have hcandidates := candidateVms_eq (congrArg Outlook.pool hsame)
      (congrArg Outlook.plannedVms hsame) source
    rw [Call.answer, Call.answer, distribute, distribute, hcandidates]
    refine (Agree.refl (q.candidateVms source)).bind ?_
    rintro vms _ rfl
    exact distributeVms_alike hsame source targets upper vms
  | consolidate source targets excluded upper =>
    exact consolidate_alike hsame source targets excluded upper

theorem reply_alike (hsame : p.outlook = q.outlook) (query : Query α) :
    Agree Alike (p.reply query) (q.reply query) := by
  cases query with
  | call call =>
    refine (answer_alike hsame call).bind ?_
    rintro ⟨ms, p⟩ ⟨_, q⟩ ⟨rfl, hsame⟩
    exact ⟨rfl, hsame⟩
  | isPlannedTarget host =>
    have hplanned : p.isPlannedTarget host = q.isPlannedTarget host :=
      congrArg (Outlook.isPlannedTarget · host) hsame
    exact ⟨congrArg Reply.verdict hplanned, hsame⟩
  | load host =>
    exact ask_alike hsame (fun view _ => view host) (Tally.load_agrees · · host) _
  | cpuUtilization host =>
    exact ask_alike hsame (·.cpuUtilization · host) (Tally.cpuUtilization_agrees · · host) _
  | ramUtilization host =>
    exact ask_alike hsame (·.ramUtilization · host) (Tally.ramUtilization_agrees · · host) _
  | fits host demand upper =>
    exact ask_alike hsame (·.fits · host demand upper)
      (Tally.fits_agrees · · host demand upper) _

/-- A planner replies from its outlook alone. -/
theorem replies_eq (hsame : p.outlook = q.outlook) (queries : List (Query α)) :
    p.replies queries = q.replies queries := by
  refine Agree.eq ?_
  induction queries generalizing p q with
  | nil => exact rfl
  | cons query rest ih =>
    refine (reply_alike hsame query).bind ?_
    rintro ⟨reply, p⟩ ⟨_, q⟩ ⟨rfl, hsame⟩
    refine (ih hsame).bind ?_
    rintro later _ rfl
    exact rfl

end

/-! ### Consolidations that fail -/

variable {p p' : Planner α} {source : HostId} {targets : List HostId}
  {excluded : Std.TreeSet HostId} {upper : α} {vms : List VmId}

/-- Emptying a host changes the outlook only along with a migration. -/
theorem outlook_of_emptyVms_eq_nil
    (h : p.emptyVms source targets excluded upper vms = .ok ([], p')) :
    p'.outlook = p.outlook := by
  cases vms with
  | nil =>
    rw [emptyVms, Except.ok.injEq, Prod.mk.injEq] at h
    rw [h.2]
  | cons v rest =>
    simp only [emptyVms, Checked.bind_eq_ok_iff] at h
    obtain ⟨vm, -, ⟨choice, asked⟩, hasked, h⟩ := h
    cases choice with
    | none =>
      obtain ⟨-, rfl⟩ := Checked.pure_pair_eq_ok_iff.mp h
      exact (eq_ok_of_agrees (firstFit_agrees ..) hasked).2
    | some target =>
      simp only [Checked.bind_eq_ok_iff] at h
      obtain ⟨⟨m, between⟩, -, ⟨later, last⟩, -, h⟩ := h
      exact absurd (Checked.pure_pair_eq_ok_iff.mp h).1 (List.cons_ne_nil m later)

/-- A consolidation that answers no migrations leaves the outlook as it was: the host is unknown,
what was planned for it is dropped, or nothing was planned for it. In the last case the tally keeps
the loads that it was asked for. -/
theorem outlook_of_consolidate_eq_nil
    (h : p.consolidate source targets excluded upper = .ok ([], p')) :
    p'.outlook = p.outlook := by
  rcases consolidate_cases h with ⟨-, rfl⟩ | ⟨_, _, _, planned, -, -, hempty, hsame, -⟩
  · rfl
  · exact hsame.trans (outlook_of_emptyVms_eq_nil hempty)

/-- After a consolidation that answered no migrations, a planner replies to all that it is asked for
as if that call had not been made. -/
theorem replies_after_failure
    (h : p.consolidate source targets excluded upper = .ok ([], p')) (later : List (Query α)) :
    p'.replies later = p.replies later
      ∧ p.replies (.call (.consolidate source targets excluded upper) :: later)
        = (.migrations [] :: ·) <$> p.replies later := by
  have hreplies : p'.replies later = p.replies later :=
    replies_eq (outlook_of_consolidate_eq_nil h) later
  refine ⟨hreplies, ?_⟩
  rw [replies, reply, Call.answer, h, ← hreplies]
  rfl

/-- Two VMs, of which a busy host can take only the first one, a host that gives it another VM
before, and a host with a VM that asks for nothing but much bandwidth. -/
def halfwayRun : List (Pool.Op ℚ) :=
  let host : HostSpec ℚ := ⟨"host", 10, 1000, 8192, 1000, 100000, .linear 200 (1 / 2)⟩
  let vm (mips : ℚ) : VmSpec ℚ := ⟨"tenant", 1, mips, 1024, 100, 1000⟩
  [.addHost host, .addHost host, .addHost host, .addHost host, .addVm (vm 500), .addVm (vm 500),
    .addVm (vm 7000), .addVm (vm 200), .addVm (vm 8500), .addVm ⟨"tenant", 1, 0, 0, 950, 1000⟩,
    .allocate 0 0, .allocate 1 0, .allocate 2 1, .allocate 3 2, .allocate 4 2, .allocate 5 3]

/-- What is asked for after the failure. -/
def halfwayQueries : List (Query ℚ) :=
  [.isPlannedTarget 1, .cpuUtilization 0, .cpuUtilization 1, .load 3,
    .call (.distribute 0 [1] (1 / 100))]

/-- One consolidation is undone, and the tally is the one from before. Another one plans nothing,
and the tally holds the loads of two more hosts. Neither is noticed later on. -/
theorem halfwayRun_forgotten : ∃ (pool : Pool ℚ) (plans : List (List (Migration ℚ)))
    (p planned p' p'' : Planner ℚ) (vms : List VmId) (tried : List (Migration ℚ))
    (rs : List (Reply ℚ)),
    Pool.empty.run halfwayRun = .ok pool ∧ pool.Reachable
    ∧ (Planner.start pool 1).answers [.distribute 2 [1] (4 / 5)] = .ok (plans, p)
    ∧ p.candidateVms 0 = .ok vms ∧ p.emptyVms 0 [1] ∅ (4 / 5) vms = .ok (tried, planned)
    ∧ tried.map (·.vm) = [0]
    ∧ p.consolidate 0 [1] ∅ (4 / 5) = .ok ([], p')
    ∧ p'.replies halfwayQueries = p.replies halfwayQueries
    ∧ p.replies (.call (.consolidate 0 [1] ∅ (4 / 5)) :: halfwayQueries)
      = (.migrations [] :: ·) <$> p.replies halfwayQueries
    ∧ p.consolidate 3 [0] ∅ (4 / 5) = .ok ([], p'')
    ∧ p.tally.loads.keys = [1, 2] ∧ p''.tally.loads.keys = [1, 2, 0, 3]
    ∧ p''.replies halfwayQueries = p.replies halfwayQueries
    ∧ p.replies halfwayQueries = .ok rs ∧ rs.length = 5 := by
  have hrun : (Pool.empty.run halfwayRun).toOption.any (fun pool =>
      ((Planner.start pool 1).answers [.distribute 2 [1] (4 / 5)]).toOption.any fun r =>
        ((r.2.candidateVms 0).toOption.any fun vms =>
          (r.2.emptyVms 0 [1] ∅ (4 / 5) vms).toOption.any fun tried =>
            tried.1.map (·.vm) == [0])
        && ((r.2.consolidate 0 [1] ∅ (4 / 5)).toOption.any fun failed => failed.1.isEmpty)
        && ((r.2.consolidate 3 [0] ∅ (4 / 5)).toOption.any fun failed => failed.1.isEmpty
          && (r.2.tally.loads.keys == [1, 2] && failed.2.tally.loads.keys == [1, 2, 0, 3]))
        && (r.2.replies halfwayQueries).toOption.any fun rs => rs.length == 5) = true := by
    decide +kernel
  obtain ⟨pool, hp, htest⟩ := Checked.eq_ok_of_any hrun
  obtain ⟨⟨plans, p⟩, hanswers, htest⟩ := Checked.eq_ok_of_any htest
  rw [Bool.and_eq_true, Bool.and_eq_true, Bool.and_eq_true] at htest
  obtain ⟨⟨⟨htried, hundone⟩, hkept⟩, hreplies⟩ := htest
  obtain ⟨vms, hvms, htried⟩ := Checked.eq_ok_of_any htried
  obtain ⟨⟨tried, planned⟩, hempty, htried⟩ := Checked.eq_ok_of_any htried
  obtain ⟨⟨ms, p'⟩, hfirst, hnone⟩ := Checked.eq_ok_of_any hundone
  obtain ⟨⟨ms', p''⟩, hsecond, hkept⟩ := Checked.eq_ok_of_any hkept
  rw [Bool.and_eq_true, Bool.and_eq_true] at hkept
  obtain ⟨rs, hrs, hlength⟩ := Checked.eq_ok_of_any hreplies
  obtain rfl : ms = [] := List.isEmpty_iff.mp hnone
  obtain rfl : ms' = [] := List.isEmpty_iff.mp hkept.1
  obtain ⟨hsame, hcall⟩ := replies_after_failure hfirst halfwayQueries
  exact ⟨pool, plans, p, planned, p', p'', vms, tried, rs, hp, Pool.reachable_of_run hp, hanswers,
    hvms, hempty, beq_iff_eq.mp htried, hfirst, hsame, hcall, hsecond, beq_iff_eq.mp hkept.2.1,
    beq_iff_eq.mp hkept.2.2, (replies_after_failure hsecond halfwayQueries).1, hrs,
    beq_iff_eq.mp hlength⟩

end Datacenter.Planner
