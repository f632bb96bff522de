/-!
# Reasons to refuse a change of the pool
-/

namespace Datacenter

/-- What a host can run out of. -/
inductive Dimension where
  | cpu
  | memory
  | bandwidth
  | storage
  deriving DecidableEq, Repr

def Dimension.name : Dimension → String
  | .cpu => "CPU"
  | .memory => "memory"
  | .bandwidth => "bandwidth"
  | .storage => "storage"

/-- Why a VM is not placed, moved or resized. -/
inductive Refusal where
  | notEnough (dimension : Dimension)
  | hostNotFound
  | vmNotFound
  | alreadyAllocated
  | notAllocated
  | vmMigrating
  | sameHost
  deriving DecidableEq, Repr

def Refusal.message : Refusal → String
  | .notEnough dimension => "not enough " ++ dimension.name
  | .hostNotFound => "host not found"
  | .vmNotFound => "vm not found"
  | .alreadyAllocated => "vm is already allocated"
  | .notAllocated => "vm is not allocated"
  | .vmMigrating => "vm is migrating"
  | .sameHost => "source and target hosts are the same"

end Datacenter
