import SinkFencing.SlotPool

namespace SinkFencing.SlotPool

variable {pool pool' : SlotPool} {slot : UInt64} {id : TxnId}

theorem firstGap_not_mem {candidate : UInt64} {slots : List UInt64}
    (ascending : slots.Pairwise (· < ·)) (above : ∀ slot ∈ slots, candidate ≤ slot)
    (room : candidate.toNat + slots.length < UInt64.size) :
    candidate ≤ firstGap candidate slots ∧ firstGap candidate slots ∉ slots := by
  induction slots generalizing candidate with
  | nil => exact ⟨UInt64.le_refl _, List.not_mem_nil⟩
  | cons slot rest ih =>
    obtain ⟨hslot, hrest⟩ := List.pairwise_cons.1 ascending
    have hle := above slot List.mem_cons_self
    rw [firstGap]
    split
    · rename_i he
      subst he
      -- The candidate does not wrap, since fewer than all numbers are in the list.
      rw [List.length_cons] at room
      have hnext : (slot + 1).toNat = slot.toNat + 1 := by
        rw [UInt64.toNat_add]
        exact Nat.mod_eq_of_lt (show slot.toNat + 1 < UInt64.size by omega)
      have habove (other : UInt64) (hother : other ∈ rest) : slot + 1 ≤ other := by
        have hlt := UInt64.lt_iff_toNat_lt.1 (hslot other hother)
        exact UInt64.le_iff_toNat_le.2 (by omega)
      obtain ⟨hgap, hnot⟩ := ih hrest habove (by omega)
      have hlt : slot.toNat < (firstGap (slot + 1) rest).toNat := by
        have := UInt64.le_iff_toNat_le.1 hgap
        omega
      refine ⟨UInt64.le_iff_toNat_le.2 (by omega), fun hmem => ?_⟩
      rcases List.mem_cons.1 hmem with he | hmem
      · rw [he] at hlt
        exact absurd hlt (Nat.lt_irrefl _)
      · exact hnot hmem
    · rename_i hne
      refine ⟨UInt64.le_refl _, fun hmem => ?_⟩
      rcases List.mem_cons.1 hmem with he | hmem
      · exact hne he.symm
      · exact absurd (UInt64.lt_of_le_of_lt hle (hslot _ hmem)) (UInt64.lt_irrefl _)

theorem mem_of_lt_firstGap {candidate : UInt64} {slots : List UInt64} (le : candidate ≤ slot)
    (lt : slot < firstGap candidate slots) : slot ∈ slots := by
  induction slots generalizing candidate with
  | nil => exact absurd (UInt64.lt_of_le_of_lt le lt) (UInt64.lt_irrefl _)
  | cons first rest ih =>
    rw [firstGap] at lt
    split at lt
    · rename_i he
      by_cases hslot : slot = candidate
      · rw [hslot, he]
        exact List.mem_cons_self
      · have hlt : candidate.toNat < slot.toNat := by
          have hne : slot.toNat ≠ candidate.toNat := fun h => hslot (UInt64.toNat_inj.1 h)
          have := UInt64.le_iff_toNat_le.1 le
          omega
        have hnext : (candidate + 1).toNat = candidate.toNat + 1 := by
          rw [UInt64.toNat_add]
          exact Nat.mod_eq_of_lt (Nat.lt_of_le_of_lt hlt slot.toNat_lt)
        exact List.mem_cons_of_mem _ (ih (UInt64.le_iff_toNat_le.2 (by omega)) lt)
    · exact absurd (UInt64.lt_of_le_of_lt le lt) (UInt64.lt_irrefl _)

theorem mem_of_lt_lowestFree (lt : slot < pool.lowestFree) : slot ∈ pool.leased :=
  mem_of_lt_firstGap (UInt64.le_iff_toNat_le.2 (Nat.zero_le _)) lt

theorem lowestFree_not_mem (room : pool.leased.size < UInt64.size) :
    pool.lowestFree ∉ pool.leased := by
  refine (firstGap_not_mem pool.leased.pairwise_lt (fun slot _ => ?_) ?_).2
  · exact UInt64.le_iff_toNat_le.2 (Nat.zero_le _)
  · show 0 + pool.leased.size < UInt64.size
    omega

@[simp] theorem mem_mark {other : UInt64} :
    slot ∈ (pool.mark other).leased ↔ slot = other ∨ slot ∈ pool.leased := Ascending.mem_insert

theorem size_mark (h : slot ∉ pool.leased) : (pool.mark slot).leased.size = pool.leased.size + 1 :=
  Ascending.size_insert h

/-- The ids that a pool leases one after another. -/
def draw (pool : SlotPool) : Nat → List TxnId
  | 0 => []
  | n + 1 => pool.acquire.1 :: pool.acquire.2.draw n

/-- While the slots last, whatever is leased was not leased before. -/
theorem exists_slot_of_mem_draw {n : Nat} (room : pool.leased.size + n ≤ UInt64.size)
    (h : id ∈ pool.draw n) : ∃ slot, id = pool.idOf slot ∧ slot ∉ pool.leased := by
  induction n generalizing pool with
  | zero => cases h
  | succ n ih =>
    have hfree : pool.lowestFree ∉ pool.leased := lowestFree_not_mem (by omega)
    rcases List.mem_cons.1 h with he | h
    · exact ⟨pool.lowestFree, he, hfree⟩
    · have hsize : pool.acquire.2.leased.size = pool.leased.size + 1 := size_mark hfree
      obtain ⟨slot, he, hnot⟩ := ih (by omega) h
      exact ⟨slot, he, fun hmem => hnot (mem_mark.2 (.inr hmem))⟩

theorem of_reclaim (h : pool.reclaim id = .ok pool') : ∃ parts, id.parts = .ok parts ∧
    pool.issues parts = true ∧ parts.sequence.toNat + 1 ≠ UInt64.size ∧
      pool' = pool.mark parts.sequence := by
  rw [reclaim] at h
  cases hp : id.parts with
  | error fault =>
    rw [hp] at h
    cases h
  | ok parts =>
    rw [hp] at h
    simp only [bind, Except.bind] at h
    split at h
    · cases h
    · rename_i hissues
      split at h
      · cases h
      · rename_i hlast
        exact ⟨parts, rfl, by simpa using hissues, hlast, (Except.ok.inj h).symm⟩

theorem of_foldlM_reclaim {ids : List TxnId} (h : ids.foldlM reclaim pool = .ok pool') :
    pool'.stem = pool.stem ∧ pool'.placement = pool.placement ∧
      ∀ slot, slot ∈ pool'.leased ↔ slot ∈ pool.leased ∨
        ∃ id ∈ ids, ∃ parts, id.parts = .ok parts ∧ parts.sequence = slot := by
  induction ids generalizing pool with
  | nil =>
    have he : pool = pool' := Except.ok.inj h
    rw [he]
    exact ⟨rfl, rfl, fun slot => by simp⟩
  | cons id rest ih =>
    rw [List.foldlM_cons] at h
    cases hr : pool.reclaim id with
    | error fault =>
      rw [hr] at h
      cases h
    | ok next =>
      rw [hr] at h
      obtain ⟨parts, hparts, -, -, rfl⟩ := of_reclaim hr
      obtain ⟨hstem, hplacement, hmem⟩ := ih h
      refine ⟨hstem, hplacement, fun slot => ?_⟩
      have hhead : (∃ other, id.parts = .ok other ∧ other.sequence = slot) ↔
          slot = parts.sequence := by
        rw [hparts]
        constructor
        · intro h
          obtain ⟨other, he, hslot⟩ := h
          cases he
          exact hslot.symm
        · intro he
          exact ⟨parts, rfl, he.symm⟩
      simp only [hmem, mem_mark, List.mem_cons, exists_eq_or_imp, hhead]
      rw [or_comm (a := slot = parts.sequence), or_assoc]

/-- A restored pool has leased the slots of the given ids, and no other. -/
theorem of_restore {stem : String} {placement : Placement} {ids : List TxnId}
    (h : restore stem placement ids = .ok pool) : pool.stem = stem ∧ pool.placement = placement ∧
      ∀ slot, slot ∈ pool.leased ↔ ∃ id ∈ ids, ∃ parts, id.parts = .ok parts ∧
        parts.sequence = slot := by
  obtain ⟨hstem, hplacement, hmem⟩ := of_foldlM_reclaim h
  refine ⟨hstem, hplacement, fun slot => (hmem slot).trans (or_iff_right ?_)⟩
  exact List.not_mem_nil

end SinkFencing.SlotPool
