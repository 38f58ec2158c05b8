namespace SinkFencing

structure Epoch where
  value : Int16
deriving DecidableEq, Inhabited

namespace Epoch

def unused : Epoch := ⟨0⟩

def isUnused (e : Epoch) : Bool := e == unused

def text (e : Epoch) : String := toString e.value.toInt

/-- Counters stop at their largest value. -/
def next (e : Epoch) : Epoch := if e.value = Int16.maxValue then e else ⟨e.value + 1⟩

theorem toInt_next (e : Epoch) : e.next.value.toInt = min (e.value.toInt + 1) 32767 := by
  have hmax : Int16.maxValue.toInt = 32767 := rfl
  have hlo := e.value.le_toInt
  have hhi := e.value.toInt_le
  rw [hmax] at hhi
  unfold next
  split
  · rename_i h
    rw [h, hmax]
    rfl
  · rename_i h
    have hne : e.value.toInt ≠ 32767 := fun hv => h (Int16.toInt_inj.1 hv)
    have hone : (1 : Int16).toInt = 1 := rfl
    simp only [Int16.toInt_add, hone]
    rw [Int.bmod_eq_of_le (by omega) (by omega)]
    omega

def compare (a b : Epoch) : Ordering := Ord.compare a.value.toInt b.value.toInt

end Epoch

end SinkFencing
