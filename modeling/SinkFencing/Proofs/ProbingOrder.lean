import SinkFencing.Proofs.ProbingCourse
import SinkFencing.Proofs.TxnIdOrder

namespace SinkFencing

open TxnId

theorem Probing.lt_of_nextSequence {s s' : UInt64} (h : nextSequence s = some s') : s < s' := by
  rw [UInt64.lt_iff_toNat_lt, toNat_nextSequence h]
  exact Nat.lt_succ_self _

namespace Placement

theorem lt_of_nextOwner {p : Placement} {o o' : UInt32} (h : p.nextOwner o = some o') : o < o' := by
  have := p.parallelism_pos
  rw [UInt32.lt_iff_toNat_lt, toNat_nextOwner h]
  omega

theorem owns_iff {p : Placement} {owner : UInt32} :
    p.owns owner = true ↔ owner % p.parallelism = p.index := by simp [owns]

theorem owns_index (p : Placement) : p.owns p.index = true := by
  rw [owns_iff, ← UInt32.toNat_inj, UInt32.toNat_mod]
  exact Nat.mod_eq_of_lt (UInt32.lt_iff_toNat_lt.1 p.index_lt)

theorem owns_nextOwner {p : Placement} {o o' : UInt32} (h : p.nextOwner o = some o') :
    p.owns o' = p.owns o := by
  have : o' % p.parallelism = o % p.parallelism := by
    rw [← UInt32.toNat_inj, UInt32.toNat_mod, UInt32.toNat_mod, toNat_nextOwner h,
      Nat.add_mod_right]
  simp only [owns, this]

/-- The owners of a placement lie at strides of its parallelism. -/
theorem owns_iff_exists {p : Placement} {owner : UInt32} :
    p.owns owner = true ↔ ∃ k, owner.toNat = p.index.toNat + k * p.parallelism.toNat := by
  rw [owns_iff, ← UInt32.toNat_inj, UInt32.toNat_mod]
  constructor
  · intro h
    refine ⟨owner.toNat / p.parallelism.toNat, ?_⟩
    rw [← h, Nat.mul_comm]
    exact (Nat.mod_add_div _ _).symm
  · intro h
    obtain ⟨k, hk⟩ := h
    rw [hk, Nat.add_mul_mod_self_right]
    exact Nat.mod_eq_of_lt (UInt32.lt_iff_toNat_lt.1 p.index_lt)

end Placement

namespace Probing

variable {σ : Type} {stem : String} {scope : Scope} {events : List Event}

theorem Climb.ascend {owner : UInt32} {sequence : UInt64} {answer : Except Fault Nat}
    (h : Climb stem owner sequence events answer) :
    Ascend (fun p => p.stem = stem ∧ p.owner = owner ∧ sequence ≤ p.sequence) (calls events) := by
  induction h with
  | failed sequence fault => exact .singleton (p := ⟨_, _, _⟩) ⟨rfl, rfl, UInt64.le_refl _⟩
  | unused sequence => exact .singleton (p := ⟨_, _, _⟩) ⟨rfl, rfl, UInt64.le_refl _⟩
  | top sequence => exact .singleton (p := ⟨_, _, _⟩) ⟨rfl, rfl, UInt64.le_refl _⟩
  | @up sequence next _ _ _ _ step _ ih =>
    have hlt := lt_of_nextSequence step
    rw [calls_append, calls_probeEvents]
    refine (Ascend.singleton (P := (· = ⟨stem, owner, sequence⟩)) rfl).append ih ?_ ?_ ?_
    · intro first later hfirst hlater
      obtain ⟨hstem, howner, hle⟩ := hlater
      rw [hfirst]
      exact .inr ⟨hstem.symm, .inr ⟨howner.symm, UInt64.lt_of_lt_of_le hlt hle⟩⟩
    · intro p hp
      rw [hp]
      exact ⟨rfl, rfl, UInt64.le_refl _⟩
    · intro p hp
      obtain ⟨hstem, howner, hle⟩ := hp
      exact ⟨hstem, howner, UInt64.le_trans (UInt64.le_of_lt hlt) hle⟩

theorem Walk.ascend {owner : UInt32} {answer : Except Fault Unit}
    (h : Walk scope stem owner events answer) (owns : scope.placement.owns owner = true) :
    Ascend (fun p => p.stem = stem ∧ owner ≤ p.owner ∧ scope.placement.owns p.owner = true ∧
      scope.start ≤ p.sequence) (calls events) := by
  have widen {owner : UInt32} (owns : scope.placement.owns owner = true) (p : Parts)
      (hp : p.stem = stem ∧ p.owner = owner ∧ scope.start ≤ p.sequence) :
      p.stem = stem ∧ owner ≤ p.owner ∧ scope.placement.owns p.owner = true ∧
        scope.start ≤ p.sequence := by
    obtain ⟨hstem, howner, hstart⟩ := hp
    rw [howner]
    exact ⟨hstem, UInt32.le_refl _, owns, hstart⟩
  induction h with
  | failed climb => exact climb.ascend.mono (widen owns)
  | unused climb => exact climb.ascend.mono (widen owns)
  | top climb =>
    rw [calls_append, calls_note, calls_nil, List.append_nil]
    exact climb.ascend.mono (widen owns)
  | up climb _ step _ ih =>
    have hlt := Placement.lt_of_nextOwner step
    rw [calls_append, calls_note]
    refine climb.ascend.append (ih (Placement.owns_nextOwner step ▸ owns)) ?_ (widen owns) ?_
    · intro first later hfirst hlater
      obtain ⟨hstem, howner, -⟩ := hfirst
      obtain ⟨hstem', hnext, -⟩ := hlater
      refine .inr ⟨hstem.trans hstem'.symm, .inl ?_⟩
      rw [howner]
      exact UInt32.lt_of_lt_of_le hlt hnext
    · intro p hp
      obtain ⟨hstem, hnext, hrest⟩ := hp
      exact ⟨hstem, UInt32.le_trans (UInt32.le_of_lt hlt) hnext, hrest⟩

theorem Sweep.ascend {stems : List String} {answer : Except Fault Unit}
    (h : Sweep scope stems events answer) (ascending : stems.Pairwise (· < ·)) :
    Ascend (fun p => p.stem ∈ stems ∧ scope.placement.owns p.owner = true ∧
      scope.start ≤ p.sequence) (calls events) := by
  have widen {stem : String} {stems : List String} (p : Parts) (hp : p.stem = stem ∧
      scope.placement.index ≤ p.owner ∧ scope.placement.owns p.owner = true ∧
        scope.start ≤ p.sequence) :
      p.stem ∈ stem :: stems ∧ scope.placement.owns p.owner = true ∧ scope.start ≤ p.sequence := by
    obtain ⟨hstem, -, hrest⟩ := hp
    rw [hstem]
    exact ⟨List.mem_cons_self, hrest⟩
  induction h with
  | done => exact .nil
  | failed walk => exact (walk.ascend (Placement.owns_index _)).mono widen
  | next walk _ ih =>
    obtain ⟨hfirst, hrest⟩ := List.pairwise_cons.1 ascending
    rw [calls_append]
    refine (walk.ascend (Placement.owns_index _)).append (ih hrest) ?_ widen ?_
    · intro first later hstem hlater
      rw [← hstem.1] at hfirst
      exact .inl (hfirst _ hlater.1)
    · intro p hp
      exact ⟨List.mem_cons_of_mem _ hp.1, hp.2⟩

theorem ascend_run (client : Client σ) (scope : Scope) (s : σ) :
    Ascend (fun p => p.stem ∈ scope.stems ∧ scope.placement.owns p.owner = true ∧
      scope.start ≤ p.sequence) (run client scope s).abortCalls :=
  (sweep_run client scope s).ascend scope.stems.pairwise_lt

end Probing

end SinkFencing
