import SinkFencing.Fault

namespace SinkFencing

structure Placement where
  index : UInt32
  parallelism : UInt32
  index_lt : index < parallelism

/-- The index of the subtask that answers for `owner`, if there are subtasks at all. -/
def heirOf (owner parallelism : UInt32) : Option UInt32 :=
  if parallelism = 0 then none else some (owner % parallelism)

namespace Placement

def make (index parallelism : UInt32) : Except Fault Placement :=
  if parallelism = 0 then .error (.refused .zeroParallelism)
  else if h : index < parallelism then .ok ⟨index, parallelism, h⟩
  else .error (.refused (.indexOutside index parallelism))

def text (p : Placement) : String := s!"{p.index}/{p.parallelism}"

def owns (p : Placement) (owner : UInt32) : Bool := owner % p.parallelism = p.index

def nextOwner (p : Placement) (owner : UInt32) : Option UInt32 :=
  if owner.toNat + p.parallelism.toNat < UInt32.size then some (owner + p.parallelism) else none

theorem parallelism_pos (p : Placement) : 0 < p.parallelism.toNat :=
  Nat.lt_of_le_of_lt (Nat.zero_le _) (UInt32.lt_iff_toNat_lt.1 p.index_lt)

theorem toNat_nextOwner {p : Placement} {o o' : UInt32} (h : p.nextOwner o = some o') :
    o'.toNat = o.toNat + p.parallelism.toNat := by
  unfold nextOwner at h
  split at h
  · cases h
    rw [UInt32.toNat_add]
    exact Nat.mod_eq_of_lt ‹_›
  · cases h

theorem lt_nextOwner {p : Placement} {o o' : UInt32} (h : p.nextOwner o = some o') :
    UInt32.size - o'.toNat < UInt32.size - o.toNat := by
  have h₁ := toNat_nextOwner h
  have h₂ := p.parallelism_pos
  have h₃ : o'.toNat < UInt32.size := o'.toNat_lt
  omega

/-- The owners below `bound` that this placement answers for, ascending. -/
def inherited (p : Placement) (bound : UInt32) : List UInt32 :=
  let step := p.parallelism.toNat
  (List.range ((bound.toNat - p.index.toNat + (step - 1)) / step)).map fun k =>
    .ofNat (p.index.toNat + k * step)

def seekFrom (parallelism owner index : UInt32) : Option Placement :=
  if h : index < parallelism then
    let p : Placement := ⟨index, parallelism, h⟩
    if p.owns owner then some p else seekFrom parallelism owner (index + 1)
  else none
termination_by parallelism.toNat - index.toNat
decreasing_by
  have h₁ := UInt32.lt_iff_toNat_lt.1 h
  have h₂ : parallelism.toNat < 4294967296 := parallelism.toNat_lt
  rw [UInt32.toNat_add, Nat.mod_eq_of_lt (by simp; omega)]
  simp; omega

def seek (parallelism owner : UInt32) : Option Placement := seekFrom parallelism owner 0

end Placement

end SinkFencing
