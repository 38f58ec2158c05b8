import SinkFencing.Pass
import SinkFencing.Scope

namespace SinkFencing.Probing

variable {σ : Type}

def nextSequence (s : UInt64) : Option UInt64 :=
  if s.toNat + 1 < UInt64.size then some (s + 1) else none

theorem toNat_nextSequence {s s' : UInt64} (h : nextSequence s = some s') :
    s'.toNat = s.toNat + 1 := by
  unfold nextSequence at h
  split at h
  · cases h
    rw [UInt64.toNat_add]
    exact Nat.mod_eq_of_lt ‹_›
  · cases h

theorem lt_nextSequence {s s' : UInt64} (h : nextSequence s = some s') :
    UInt64.size - s'.toNat < UInt64.size - s.toNat := by
  have h₁ := toNat_nextSequence h
  have h₂ : s'.toNat < UInt64.size := s'.toNat_lt
  omega

def probe (client : Client σ) (id : TxnId) : Pass σ Epoch := do
  let epoch ← Pass.abort client id
  Pass.note (.probed id epoch)
  return epoch

/-- Fences an owner's ids from a sequence on up to the first unused one, and counts the used. There are no
more than `2 ^ 64` sequences, and the count stays below as no run uses all of them. -/
def usedFrom (client : Client σ) (stem : String) (owner : UInt32) (sequence : UInt64) :
    Pass σ Nat := do
  let epoch ← probe client (.compose stem owner sequence)
  if epoch.isUnused then
    return 0
  match h : nextSequence sequence with
  | none => return 1
  | some next => return (← usedFrom client stem owner next) + 1
termination_by UInt64.size - sequence.toNat
decreasing_by exact lt_nextSequence h

theorem usedFrom_eq (client : Client σ) (stem : String) (owner : UInt32) (sequence : UInt64) :
    usedFrom client stem owner sequence = (do
      let epoch ← probe client (.compose stem owner sequence)
      if epoch.isUnused then
        return 0
      match nextSequence sequence with
      | none => return 1
      | some next => return (← usedFrom client stem owner next) + 1) := by
  rw [usedFrom]
  congr
  funext epoch
  congr
  split <;> simp_all

def walkOwner (client : Client σ) (scope : Scope) (stem : String) (owner : UInt32) :
    Pass σ Nat := do
  let used ← usedFrom client stem owner scope.start
  if 0 < used then
    Pass.note (.walked stem owner used scope.placement)
  return used

/-- An owner without a used id ends the walk: subtasks are numbered without gaps, so it is taken that no
higher owner existed either. -/
def walkOwners (client : Client σ) (scope : Scope) (stem : String) (owner : UInt32) :
    Pass σ Unit := do
  let used ← walkOwner client scope stem owner
  if used = 0 then
    return
  match _h : scope.placement.nextOwner owner with
  | none => return
  | some next => walkOwners client scope stem next
termination_by UInt32.size - owner.toNat
decreasing_by exact Placement.lt_nextOwner _h

theorem walkOwners_eq (client : Client σ) (scope : Scope) (stem : String) (owner : UInt32) :
    walkOwners client scope stem owner = (do
      let used ← walkOwner client scope stem owner
      if used = 0 then
        return
      match scope.placement.nextOwner owner with
      | none => return
      | some next => walkOwners client scope stem next) := by
  rw [walkOwners]
  congr
  funext used
  congr
  split <;> simp_all

def run (client : Client σ) (scope : Scope) : Pass σ Unit :=
  Pass.each scope.stems.elems fun stem => walkOwners client scope stem scope.placement.index

end SinkFencing.Probing
