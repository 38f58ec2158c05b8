import Mathlib.Data.List.Perm.Subperm
import SinkFencing.Proofs.PoolCalls

namespace SinkFencing

namespace Ascending

variable {slots : Ascending UInt64} {bound : Nat}

theorem nodup_map_toNat (slots : Ascending UInt64) : (slots.elems.map UInt64.toNat).Nodup := by
  refine List.pairwise_map.2 (slots.pairwise_lt.imp fun {a b} hlt he => ?_)
  exact Nat.ne_of_lt (UInt64.lt_iff_toNat_lt.1 hlt) he

theorem size_le_of_lt (below : ∀ slot ∈ slots, slot.toNat < bound) : slots.size ≤ bound := by
  have hsub : slots.elems.map UInt64.toNat ⊆ List.range bound := by
    intro n hn
    obtain ⟨slot, hslot, rfl⟩ := List.mem_map.1 hn
    exact List.mem_range.2 (below slot hslot)
  have hle := ((nodup_map_toNat slots).subperm hsub).length_le
  rwa [List.length_map, List.length_range] at hle

theorem le_size_of_mem (full : ∀ slot : UInt64, slot.toNat < bound → slot ∈ slots)
    (fits : bound ≤ UInt64.size) : bound ≤ slots.size := by
  have hsub : List.range bound ⊆ slots.elems.map UInt64.toNat := by
    intro n hn
    have hlt := List.mem_range.1 hn
    have hnat : (UInt64.ofNat n).toNat = n := UInt64.toNat_ofNat_of_lt' (Nat.lt_of_lt_of_le hlt fits)
    exact List.mem_map.2 ⟨.ofNat n, full _ (by rw [hnat]; exact hlt), hnat⟩
  have hle := (List.nodup_range.subperm hsub).length_le
  rwa [List.length_map, List.length_range] at hle

theorem size_le_size (slots : Ascending UInt64) : slots.size ≤ UInt64.size :=
  size_le_of_lt fun slot _ => slot.toNat_lt_size

end Ascending

namespace SlotPool

variable {stem : String} {placement : Placement} {ids : List TxnId} {origin pool next : SlotPool}
  {slot : UInt64}

theorem lowestFree_le_size (pool : SlotPool) : pool.lowestFree.toNat ≤ pool.leased.size :=
  Ascending.le_size_of_mem (fun _ hlt => mem_of_lt_lowestFree (UInt64.lt_iff_toNat_lt.2 hlt))
    (Nat.le_of_lt pool.lowestFree.toNat_lt_size)

@[simp] theorem mem_vacate {other : UInt64} :
    other ∈ (pool.vacate slot).leased ↔ other ∈ pool.leased ∧ other ≠ slot := Ascending.mem_erase

theorem toNat_size_mark (pool : SlotPool) (slot : UInt64) : (pool.mark slot).size.toNat =
    if slot.toNat + 1 < UInt64.size then max pool.size.toNat (slot.toNat + 1)
    else pool.size.toNat := by
  have hmark : (pool.mark slot).size.toNat =
      max pool.size.toNat ((slot.toNat + 1) % UInt64.size) := by
    show (max pool.size (slot + 1)).toNat = _
    rw [UInt64.toNat_max, UInt64.toNat_add]
    rfl
  rw [hmark]
  split
  · rename_i fits
    rw [Nat.mod_eq_of_lt fits]
  · have hlast : slot.toNat + 1 = UInt64.size := by
      have := slot.toNat_lt_size
      omega
    rw [hlast, Nat.mod_self, Nat.max_zero]

theorem toNat_size_mark_of_lt (pool : SlotPool) (h : slot.toNat + 1 < UInt64.size) :
    (pool.mark slot).size.toNat = max pool.size.toNat (slot.toNat + 1) := by
  rw [toNat_size_mark, if_pos h]

/-- What each slot that is taken back keeps, a restored pool has. -/
theorem foldlM_reclaim_induction {P : SlotPool → Prop}
    (step : ∀ pool slot, P pool → slot.toNat + 1 < UInt64.size → P (pool.mark slot))
    (start : P origin) (h : ids.foldlM reclaim origin = .ok pool) : P pool := by
  induction ids generalizing origin with
  | nil => exact Except.ok.inj h ▸ start
  | cons id rest ih =>
    obtain ⟨slot, -, fits, hrest⟩ := foldlM_reclaim_cons_iff.1 h
    exact ih (step origin slot start fits) hrest

/-- Every leased slot has a size past it, so the last slot is not leased. -/
def Fits (pool : SlotPool) : Prop := ∀ slot ∈ pool.leased, slot.toNat + 1 < UInt64.size

namespace Fits

theorem empty (stem : String) (placement : Placement) : (fresh stem placement).Fits :=
  fun _ hslot => absurd hslot List.not_mem_nil

theorem mark (h : pool.Fits) (fits : slot.toNat + 1 < UInt64.size) : (pool.mark slot).Fits := by
  intro other hother
  rcases mem_mark.1 hother with he | hleased
  · rw [he]
    exact fits
  · exact h other hleased

theorem size_lt (h : pool.Fits) : pool.leased.size < UInt64.size := by
  have hle : pool.leased.size ≤ UInt64.size - 1 :=
    Ascending.size_le_of_lt fun slot hslot => Nat.lt_sub_of_add_lt (h slot hslot)
  exact Nat.lt_of_le_of_lt hle (by decide)

theorem of_start (start : Start stem placement ids origin) : origin.Fits := by
  cases start with
  | fresh => exact empty stem placement
  | restored h => exact foldlM_reclaim_induction (fun _ _ h fits => h.mark fits) (empty _ _) h

theorem served (h : pool.Fits) {call : Call} {reply : Reply} (served : Served pool call reply next)
    (room : next.leased.size < UInt64.size) : next.Fits := by
  cases served with
  | acquired =>
    have hfree : pool.lowestFree ∉ pool.leased := lowestFree_not_mem h.size_lt
    have hsize : (pool.mark pool.lowestFree).leased.size = pool.leased.size + 1 := size_mark hfree
    have hle := lowestFree_le_size pool
    exact h.mark (by omega)
  | freed => exact fun other hother => h other (mem_vacate.1 hother).1
  | refused => exact h

theorem after (h : pool.Fits) {calls : List Call} (room : pool.peak calls < UInt64.size) :
    (pool.after calls).Fits :=
  after_induction (fun pool call h => h.served (pool.served call)) h room

end Fits

/-- Every leased slot lies below the size, but for the last slot, which has no size past it. -/
def Sized (pool : SlotPool) : Prop :=
  ∀ slot ∈ pool.leased, slot.toNat + 1 < UInt64.size → slot < pool.size

namespace Sized

theorem mark (h : pool.Sized) (slot : UInt64) : (pool.mark slot).Sized := by
  intro other hother fits
  rw [UInt64.lt_iff_toNat_lt]
  rcases mem_mark.1 hother with he | hleased
  · rw [he] at fits ⊢
    rw [toNat_size_mark_of_lt pool fits]
    exact Nat.le_max_right _ _
  · have hlt := UInt64.lt_iff_toNat_lt.1 (h other hleased fits)
    rw [toNat_size_mark]
    split
    · exact Nat.lt_of_lt_of_le hlt (Nat.le_max_left _ _)
    · exact hlt

theorem of_start (start : Start stem placement ids origin) : origin.Sized := by
  have empty : (fresh stem placement).Sized := fun _ hslot => absurd hslot List.not_mem_nil
  cases start with
  | fresh => exact empty
  | restored h => exact foldlM_reclaim_induction (fun _ slot sized _ => sized.mark slot) empty h

theorem served (h : pool.Sized) {call : Call} {reply : Reply}
    (served : Served pool call reply next) : next.Sized := by
  cases served with
  | acquired => exact h.mark _
  | freed => exact fun other hother => h other (mem_vacate.1 hother).1
  | refused => exact h

theorem after (h : pool.Sized) (calls : List Call) : (pool.after calls).Sized := by
  induction calls generalizing pool with
  | nil => exact h
  | cons call rest ih => exact ih (h.served (pool.served call))

theorem lt_size (h : pool.Sized) (fits : pool.Fits) {slot : UInt64} (leased : slot ∈ pool.leased) :
    slot < pool.size := h slot leased (fits slot leased)

end Sized

theorem Served.size_le {call : Call} {reply : Reply}
    (h : Served pool call reply next) : pool.size ≤ next.size := by
  rw [UInt64.le_iff_toNat_le]
  cases h with
  | acquired =>
    rw [toNat_size_mark]
    split
    · exact Nat.le_max_left _ _
    · exact Nat.le_refl _
  | freed | refused => exact Nat.le_refl _

theorem size_le_after (pool : SlotPool) (calls : List Call) : pool.size ≤ (pool.after calls).size := by
  induction calls generalizing pool with
  | nil => exact UInt64.le_refl _
  | cons call rest ih => exact UInt64.le_trans (pool.served call).size_le (ih (pool.serve call).2)

/-- What a pool promises its caller, whatever it has been asked so far. -/
structure Safe (pool : SlotPool) : Prop where
  lt_size : ∀ slot ∈ pool.leased, slot < pool.size
  not_last : ∀ slot ∈ pool.leased, slot.toNat + 1 < UInt64.size
  /-- The least slot that is not leased is leased, and no other is. -/
  acquires : pool.leased.size + 1 < UInt64.size → ∃ slot next,
    pool.serve .acquire = (.leased (.compose pool.stem pool.placement.index slot), next) ∧
      slot ∉ pool.leased ∧ (∀ lower < slot, lower ∈ pool.leased) ∧
      slot.toNat ≤ pool.leased.size ∧ slot.toNat + 1 < UInt64.size ∧
      (∀ other, other ∈ next.leased ↔ other = slot ∨ other ∈ pool.leased) ∧
      next.size.toNat = max pool.size.toNat (slot.toNat + 1)
  /-- The slot that the id reads as is freed, and no other is. -/
  releases : ∀ id slot, pool.Names id slot → slot ∈ pool.leased → ∃ next,
    pool.serve (.release id) = (.freed, next) ∧
      (∀ other, other ∈ next.leased ↔ other ∈ pool.leased ∧ other ≠ slot) ∧ next.size = pool.size
  refuses : ∀ id, (∀ slot, pool.Names id slot → slot ∉ pool.leased) →
    pool.serve (.release id) = (.refused (refusal id), pool)
  size_grows : ∀ calls, pool.size ≤ (pool.after calls).size
  lists : ∃ slots : List UInt64,
    pool.leasedIds = slots.map (TxnId.compose pool.stem pool.placement.index) ∧
      slots.Pairwise (· < ·) ∧ ∀ slot, slot ∈ slots ↔ slot ∈ pool.leased

theorem Safe.of_sized (sized : pool.Sized) (fits : pool.Fits) : pool.Safe where
  lt_size _ hslot := sized.lt_size fits hslot
  not_last := fits
  acquires room := by
    have hle := lowestFree_le_size pool
    have hlt : pool.lowestFree.toNat + 1 < UInt64.size := by omega
    exact ⟨pool.lowestFree, pool.mark pool.lowestFree, rfl, lowestFree_not_mem fits.size_lt,
      fun _ hlower => mem_of_lt_lowestFree hlower, hle, hlt, fun _ => mem_mark,
      toNat_size_mark_of_lt pool hlt⟩
  releases id slot names leased :=
    ⟨pool.vacate slot, serve_of_names names leased, fun _ => mem_vacate, rfl⟩
  refuses id unleased := serve_of_not_leased unleased
  size_grows := pool.size_le_after
  lists := ⟨pool.leased.elems, rfl, pool.leased.pairwise_lt, fun _ => Iff.rfl⟩

/-- After any calls a pool is safe, as long as never all slots were leased at once. -/
theorem lease_safe (start : Start stem placement ids origin) {calls : List Call}
    (room : origin.peak calls < UInt64.size) :
    let pool := origin.after calls
    pool.stem = stem ∧ pool.placement = placement ∧ pool.Safe := by
  intro pool
  obtain ⟨hstem, hplacement⟩ := start.issuer_after calls
  exact ⟨hstem, hplacement,
    .of_sized ((Sized.of_start start).after calls) ((Fits.of_start start).after room)⟩

/-- Of the two slots that are restored, one has no other than the last above it. -/
theorem lease_safe_sparse :
    let placement : Placement := ⟨2, 4, by decide⟩
    let ids : List TxnId := [⟨"app-2-18446744073709551614"⟩, ⟨"app-2-1"⟩]
    let origin := ((fresh "app" placement).mark 18446744073709551614).mark 1
    let calls : List Call := [.acquire, .release ⟨"app-2-01"⟩, .acquire, .release ⟨"app-2-7"⟩]
    restore "app" placement ids = .ok origin ∧ origin.peak calls < UInt64.size ∧
      (origin.after calls).Safe := by
  intro placement ids origin calls
  have restored : restore "app" placement ids = .ok origin := rfl
  have room : origin.peak calls < UInt64.size := by decide
  exact ⟨restored, room, (lease_safe (.restored restored) room).2.2⟩

end SlotPool

end SinkFencing
