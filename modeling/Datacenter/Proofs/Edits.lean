import Datacenter.Proofs.Admissions

/-!
# Operations in place

The operations of a pool are functions from pools to pools, and a refused one gives no pool back. A
program that changes its records where they are has no such choice: what it has written before it
is refused stays written. Here the operations are sequences of writes, with each look-up where it
is made. A look-up that ownership rules out leaves a lapse behind.

In a reachable pool the writes come to what the operation gives. A refusal leaves all records as
they were, and no lapse is met.

Main statements: `allocating_performs` to `resizing_performs`.
-/

namespace Datacenter

namespace Outcome

variable {ε β γ : Type}

/-- The value, or a refusal for what went wrong. -/
def ofExcept : Except ε β → Outcome ε β
  | .ok value => done value
  | .error reason => refused reason

@[simp] theorem map_done (f : β → γ) (value : β) :
    f <$> (done value : Outcome ε β) = done (f value) := rfl

@[simp] theorem map_refused (f : β → γ) (reason : ε) :
    f <$> (refused reason : Outcome ε β) = refused reason := rfl

end Outcome

/-- What an operation finds only if hosts and records contradict each other. -/
inductive Lapse where
  /-- The host that is to take a VM has it already. -/
  | held (vm : VmId)
  /-- The host has nothing of the VM that is to land or to be resized on it. -/
  | notHeld (vm : VmId)
  /-- A record names a host that does not exist. -/
  | missing (host : HostId)
  deriving DecidableEq

/-- A state that is being changed, and the lapses so far. -/
structure Draft (σ : Type) where
  state : σ
  lapses : List Lapse

/-- Writes to a state that end with a value or without one. What has been written stays. -/
structure Edit (σ ε β : Type) where
  run : Draft σ → Outcome ε β × Draft σ

namespace Edit

variable {σ ε δ β γ : Type}

protected def bind (x : Edit σ ε β) (f : β → Edit σ ε γ) : Edit σ ε γ where
  run draft :=
    match x.run draft with
    | (.done value, draft) => (f value).run draft
    | (.refused reason, draft) => (.refused reason, draft)
    | (.fault e, draft) => (.fault e, draft)

instance : Monad (Edit σ ε) where
  pure value := ⟨fun draft => (.done value, draft)⟩
  bind := Edit.bind

/-- Writes nothing. -/
def answer (x : Outcome ε β) : Edit σ ε β := ⟨fun draft => (x, draft)⟩

instance : MonadLift (Outcome ε) (Edit σ ε) := ⟨answer⟩

/-- The value, or a refusal if there is none. -/
def ofOption (reason : ε) (x : Option β) : Edit σ ε β := answer (Outcome.ofOption reason x)

def read : Edit σ ε σ := ⟨fun draft => (.done draft.state, draft)⟩

def write (f : σ → σ) : Edit σ ε Unit :=
  ⟨fun draft => (.done (), { draft with state := f draft.state })⟩

def note (lapse : Lapse) : Edit σ ε Unit :=
  ⟨fun draft => (.done (), { draft with lapses := draft.lapses ++ [lapse] })⟩

/-- Names the same refusals in other words. -/
def mapRefusal (f : ε → δ) (edit : Edit σ ε β) : Edit σ δ β where
  run draft := ((edit.run draft).1.mapRefusal f, (edit.run draft).2)

/-! ### Running -/

@[simp] theorem run_pure (value : β) (draft : Draft σ) :
    (pure value : Edit σ ε β).run draft = (.done value, draft) := rfl

@[simp] theorem run_bind (x : Edit σ ε β) (f : β → Edit σ ε γ) (draft : Draft σ) :
    (x >>= f).run draft
      = match x.run draft with
        | (.done value, draft) => (f value).run draft
        | (.refused reason, draft) => (.refused reason, draft)
        | (.fault e, draft) => (.fault e, draft) := rfl

@[simp] theorem run_answer (x : Outcome ε β) (draft : Draft σ) :
    (answer x).run draft = (x, draft) := rfl

@[simp] theorem run_some (reason : ε) (value : β) (draft : Draft σ) :
    (ofOption reason (some value)).run draft = (.done value, draft) := rfl

@[simp] theorem lift_outcome (x : Outcome ε β) : (liftM x : Edit σ ε β) = answer x := rfl

@[simp] theorem lift_checked (x : Checked β) :
    (liftM x : Edit σ ε β) = answer (Outcome.ofChecked x) := rfl

@[simp] theorem run_read (draft : Draft σ) :
    (read : Edit σ ε σ).run draft = (.done draft.state, draft) := rfl

@[simp] theorem run_write (f : σ → σ) (draft : Draft σ) :
    (write f : Edit σ ε Unit).run draft = (.done (), { draft with state := f draft.state }) := rfl

/-- The edit does what the operation says. If that is a refusal, the state is as it was. In either
case no lapse is met, and there is no fault. -/
def Performs (edit : Edit σ ε β) (state : σ) : Outcome ε (β × σ) → Prop
  | .done (value, after) => edit.run ⟨state, []⟩ = (.done value, ⟨after, []⟩)
  | .refused reason => edit.run ⟨state, []⟩ = (.refused reason, ⟨state, []⟩)
  | .fault _ => False

section

variable {state : σ} {x : Outcome ε (β × σ)}

@[simp] theorem performs_read_bind (f : σ → Edit σ ε β) :
    (read >>= f).Performs state x ↔ (f state).Performs state x := by
  cases x <;> exact Iff.rfl

@[simp] theorem performs_some_bind (reason : ε) (value : γ) (f : γ → Edit σ ε β) :
    (ofOption reason (some value) >>= f).Performs state x ↔ (f value).Performs state x := by
  cases x <;> exact Iff.rfl

@[simp] theorem none_bind_performs (reason : ε) (f : γ → Edit σ ε β) :
    (ofOption reason none >>= f).Performs state (.refused reason) := rfl

@[simp] theorem refused_performs (reason : ε) :
    (answer (.refused reason) : Edit σ ε β).Performs state (.refused reason) := rfl

end

end Edit

/-! ### Hosts -/

namespace Host

variable {α : Type} [Scalar α] {host : Host α} {v : VmId} {demand : Resources α}

/-- Both ways to take a demand: tests, then the entry and then the total. -/
def admitting (v : VmId) (demand : Resources α) (enter : Host α → Host α)
    (total : Host α → Resources α) (setTotal : Resources α → Host α → Host α) :
    Edit (Host α) Refusal Unit := do
  let host ← Edit.read
  if host.holds v then do
    Edit.note (.held v)
    Edit.answer (.refused .alreadyAllocated)
  else do
    let shortage ← host.shortage demand
    roomOrRefuse shortage
    Edit.write enter
    let host ← Edit.read
    let sum ← (total host).add demand
    Edit.write (setTotal sum)

def allocating (v : VmId) (demand : Resources α) : Edit (Host α) Refusal Unit :=
  admitting v demand (fun host => { host with resident := host.resident.insert v demand })
    (·.residentTotal) fun total host => { host with residentTotal := total }

def reserving (v : VmId) (demand : Resources α) : Edit (Host α) Refusal Unit :=
  admitting v demand (fun host => { host with incoming := host.incoming.insert v demand })
    (·.incomingTotal) fun total host => { host with incomingTotal := total }

def landing (v : VmId) : Edit (Host α) Refusal Unit := do
  let host ← Edit.read
  match host.incoming.get? v with
  | none => do
    Edit.note (.notHeld v)
    Edit.answer (.refused .notAllocated)
  | some demand => do
    Edit.write (·.cancel v)
    Edit.write fun host => { host with resident := host.resident.insert v demand }
    let host ← Edit.read
    let total ← host.residentTotal.add demand
    Edit.write fun host => { host with residentTotal := total }

def resizing (v : VmId) (demand : Resources α) : Edit (Host α) Refusal Unit := do
  let host ← Edit.read
  match host.resident.get? v with
  | none => do
    Edit.note (.notHeld v)
    Edit.answer (.refused .notAllocated)
  | some current => do
    let available ← host.available
    let available ← available.add current
    roomOrRefuse (available.shortage demand)
    Edit.write fun host => { host with residentTotal := host.residentTotal.sub current }
    let host ← Edit.read
    let total ← host.residentTotal.add demand
    Edit.write fun host => { host with residentTotal := total }
    Edit.write fun host => { host with resident := host.resident.insert v demand }

/-! ### Writes of hosts -/

theorem admitting_performs (hb : host.Balanced) (hr : host.resident.get? v = none)
    (hi : host.incoming.get? v = none) {enter : Host α → Host α} {total : Host α → Resources α}
    {setTotal : Resources α → Host α → Host α}
    (htotal : ∀ k, (total (enter host)).stock k
      ≤ host.residentTotal.stock k + host.incomingTotal.stock k)
    {admitted : Outcome Refusal (Host α)}
    (ha : admitted = if host.holds v then .refused .alreadyAllocated
      else do
        roomOrRefuse (← host.shortage demand)
        let sum ← (total (enter host)).add demand
        return setTotal sum (enter host)) :
    (admitting v demand enter total setTotal).Performs host (Prod.mk () <$> admitted) := by
  obtain ⟨shortage, hs⟩ := hb.shortage demand
  have hfree := (holds_eq_false_iff host v).mpr ⟨hr, hi⟩
  subst ha
  cases shortage with
  | some d => simp [Edit.Performs, admitting, hfree, hs, roomOrRefuse, Outcome.lift_eq]
  | none =>
    obtain ⟨sum, hsum⟩ := hb.add_eq_ok hs htotal
    simp [Edit.Performs, admitting, hfree, hs, hsum, roomOrRefuse, Outcome.lift_eq]

theorem allocating_performs (hb : host.Balanced) (hr : host.resident.get? v = none)
    (hi : host.incoming.get? v = none) (demand : Resources α) :
    (allocating v demand).Performs host (Prod.mk () <$> host.allocate v demand) :=
  admitting_performs hb hr hi (fun _ => Nat.le_add_right _ _) rfl

theorem reserving_performs (hb : host.Balanced) (hr : host.resident.get? v = none)
    (hi : host.incoming.get? v = none) (demand : Resources α) :
    (reserving v demand).Performs host (Prod.mk () <$> host.reserve v demand) :=
  admitting_performs hb hr hi (fun _ => Nat.le_add_left _ _) rfl

theorem landing_performs (hb : host.Balanced) (hi : host.incoming.get? v = some demand) :
    (landing v).Performs host (Prod.mk () <$> host.land v) := by
  obtain ⟨total, ht⟩ := hb.add_landing_eq_ok hi
  simp [Edit.Performs, landing, land, hi, cancel_of_get? hi, ht, Outcome.lift_eq]

theorem resizing_performs (hb : host.Balanced) {current : Resources α}
    (hr : host.resident.get? v = some current) (demand : Resources α) :
    (resizing v demand).Performs host (Prod.mk () <$> host.resize v demand) := by
  obtain ⟨available, room, ha, hroom, htotal⟩ := hb.add_resizing_eq_ok hr demand
  cases hs : room.shortage demand with
  | some d =>
    simp [Edit.Performs, resizing, resize, hr, ha, hroom, hs, roomOrRefuse, Outcome.lift_eq]
  | none =>
    obtain ⟨total, ht⟩ := htotal hs
    simp [Edit.Performs, resizing, resize, hr, ha, hroom, hs, ht, roomOrRefuse, Outcome.lift_eq]

end Host

end Datacenter
