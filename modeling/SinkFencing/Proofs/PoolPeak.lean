import Mathlib.Data.Finset.Card
import Mathlib.Data.Finset.Range
import SinkFencing.Proofs.PoolSafety

namespace SinkFencing.SlotPool

variable {stem : String} {placement : Placement} {ids : List TxnId} {origin pool next : SlotPool}
  {slot : UInt64} {bound : Nat} {call : Call} {reply : Reply}

theorem opens_next (below : ∀ slot ∈ pool.leased, slot.toNat < bound) :
    let reach := max bound (pool.mark pool.lowestFree).leased.size
    reach = bound ∧ pool.lowestFree.toNat < bound ∨
      reach = bound + 1 ∧ pool.lowestFree.toNat = bound := by
  intro reach
  have hle := lowestFree_le_size pool
  have hsize : pool.leased.size ≤ bound := Ascending.size_le_of_lt below
  by_cases room : pool.leased.size < UInt64.size
  · have hmark : (pool.mark pool.lowestFree).leased.size = pool.leased.size + 1 :=
      size_mark (lowestFree_not_mem room)
    by_cases hlt : pool.lowestFree.toNat < bound
    · have hmarked : (pool.mark pool.lowestFree).leased.size ≤ bound := by
        refine Ascending.size_le_of_lt fun slot hslot => ?_
        rcases mem_mark.1 hslot with he | hleased
        · rw [he]
          exact hlt
        · exact below slot hleased
      exact .inl ⟨Nat.max_eq_left hmarked, hlt⟩
    · exact .inr (by omega)
  · -- All slots are leased, so there is none to open.
    have hlt := pool.lowestFree.toNat_lt_size
    have hmarked := Ascending.size_le_size (pool.mark pool.lowestFree).leased
    exact .inl (by omega)

/-- The leased slots are below `bound`, and the size has come up to it, as far as 64 bits allow. -/
structure Filled (bound : Nat) (pool : SlotPool) : Prop where
  below : ∀ slot ∈ pool.leased, slot.toNat < bound
  size_eq : pool.size.toNat = min bound (UInt64.size - 1)

namespace Filled

theorem leased_le (h : Filled bound pool) : max bound pool.leased.size = bound :=
  Nat.max_eq_left (Ascending.size_le_of_lt h.below)

theorem served (h : Filled bound pool) (served : Served pool call reply next) :
    Filled (max bound next.leased.size) next := by
  cases served with
  | acquired =>
    have hopens := opens_next h.below
    have hlt := pool.lowestFree.toNat_lt_size
    refine ⟨fun slot hslot => ?_, ?_⟩
    · rcases mem_mark.1 hslot with he | hleased
      · rw [he]
        omega
      · exact Nat.lt_of_lt_of_le (h.below slot hleased) (Nat.le_max_left _ _)
    · have hsize := h.size_eq
      rw [toNat_size_mark]
      split <;> omega
  | @freed id slot =>
    have hsize : (pool.vacate slot).leased.size ≤ pool.leased.size := Ascending.size_erase_le _ _
    have hle := h.leased_le
    have he : max bound (pool.vacate slot).leased.size = bound := by omega
    rw [he]
    exact ⟨fun other hother => h.below other (mem_vacate.1 hother).1, h.size_eq⟩
  | refused =>
    rw [h.leased_le]
    exact h

theorem peak_cons (h : Filled bound pool) (call : Call) (rest : List Call) :
    max (max bound (pool.serve call).2.leased.size) ((pool.serve call).2.peak rest) =
      max bound (pool.peak (call :: rest)) := by
  have hle := h.leased_le
  have hpeak := size_le_peak (pool.serve call).2 rest
  rw [peak]
  omega

theorem after (h : Filled bound pool) (calls : List Call) :
    Filled (max bound (pool.peak calls)) (pool.after calls) := by
  induction calls generalizing pool bound with
  | nil =>
    show Filled (max bound pool.leased.size) pool
    rw [h.leased_le]
    exact h
  | cons call rest ih =>
    rw [← h.peak_cons call rest]
    exact ih (h.served (pool.served call))

theorem of_start (start : Start stem placement ids origin) : Filled origin.size.toNat origin where
  below slot hslot :=
    UInt64.lt_iff_toNat_lt.1 ((Sized.of_start start).lt_size (Fits.of_start start) hslot)
  size_eq := by
    have := origin.size.toNat_lt_size
    omega

theorem lt_or_leased_iff (h : Filled bound pool) (served : Served pool call reply next) :
    slot.toNat < bound ∨ reply = .leased (pool.idOf slot) ↔
      slot.toNat < max bound next.leased.size := by
  cases served with
  | acquired =>
    have hid : Reply.leased (pool.idOf pool.lowestFree) = .leased (pool.idOf slot) ↔
        slot.toNat = pool.lowestFree.toNat := by
      rw [Reply.leased.injEq, idOf_inj, ← UInt64.toNat_inj, eq_comm]
    have hopens := opens_next h.below
    rw [hid]
    omega
  | @freed id freed =>
    have hsize : (pool.vacate freed).leased.size ≤ pool.leased.size := Ascending.size_erase_le _ _
    have hle := h.leased_le
    rw [or_iff_left (by intro he; cases he)]
    omega
  | refused =>
    rw [h.leased_le, or_iff_left (by intro he; cases he)]

theorem mem_handedOut_iff (h : Filled bound pool) (calls : List Call) (slot : UInt64) :
    slot.toNat < bound ∨ pool.idOf slot ∈ pool.handedOut calls ↔
      slot.toNat < max bound (pool.peak calls) := by
  induction calls generalizing pool bound with
  | nil =>
    show _ ↔ slot.toNat < max bound pool.leased.size
    rw [h.leased_le]
    exact or_iff_left List.not_mem_nil
  | cons call rest ih =>
    have served := pool.served call
    have hrest := ih (h.served served)
    rw [served.idOf_eq] at hrest
    rw [mem_handedOut_cons, ← or_assoc, h.lt_or_leased_iff served, hrest, h.peak_cons]

end Filled

theorem exists_slot_of_mem_handedOut {id : TxnId} {calls : List Call} (h : id ∈ pool.handedOut calls) :
    ∃ slot, id = pool.idOf slot := by
  induction calls generalizing pool with
  | nil => cases h
  | cons call rest ih =>
    have served := pool.served call
    rcases mem_handedOut_cons.1 h with hreply | hrest
    · rw [hreply] at served
      cases served
      exact ⟨pool.lowestFree, rfl⟩
    · obtain ⟨slot, he⟩ := ih hrest
      exact ⟨slot, he.trans served.idOf_eq⟩

theorem peak_le_size (pool : SlotPool) (calls : List Call) : pool.peak calls ≤ UInt64.size := by
  induction calls generalizing pool with
  | nil => exact pool.leased.size_le_size
  | cons call rest ih => exact Nat.max_le.2 ⟨pool.leased.size_le_size, ih _⟩

/-- The ids that a fresh pool hands out are those of the slots below the peak. -/
theorem toFinset_handedOut (stem : String) (placement : Placement) (calls : List Call) :
    let pool := fresh stem placement
    (pool.handedOut calls).toFinset =
      (Finset.range (pool.peak calls)).image fun n => pool.idOf (.ofNat n) := by
  intro pool
  have start : Start stem placement [] pool := .fresh
  have filled : Filled 0 pool := .of_start start
  have hmem (slot : UInt64) : pool.idOf slot ∈ pool.handedOut calls ↔
      slot.toNat < pool.peak calls := by
    have := filled.mem_handedOut_iff calls slot
    rwa [or_iff_right (Nat.not_lt_zero _), Nat.zero_max] at this
  ext id
  rw [List.mem_toFinset, Finset.mem_image]
  constructor
  · intro hid
    obtain ⟨slot, rfl⟩ := exists_slot_of_mem_handedOut hid
    exact ⟨slot.toNat, Finset.mem_range.2 ((hmem slot).1 hid), by rw [UInt64.ofNat_toNat]⟩
  · rintro ⟨n, hn, rfl⟩
    have hlt := Finset.mem_range.1 hn
    refine (hmem _).2 ?_
    rwa [UInt64.toNat_ofNat_of_lt' (Nat.lt_of_lt_of_le hlt (peak_le_size pool calls))]

theorem card_handedOut (stem : String) (placement : Placement) (calls : List Call) :
    ((fresh stem placement).handedOut calls).toFinset.card = (fresh stem placement).peak calls := by
  have hinj : Set.InjOn (fun n => (fresh stem placement).idOf (.ofNat n))
      (Finset.range ((fresh stem placement).peak calls)) := by
    intro a ha b hb he
    have fits (n : Nat) (hn : n ∈ (Finset.range ((fresh stem placement).peak calls) : Set Nat)) :
        n < UInt64.size :=
      Nat.lt_of_lt_of_le (Finset.mem_range.1 hn) (peak_le_size _ calls)
    have hslot := congrArg UInt64.toNat (idOf_inj.1 he)
    rwa [UInt64.toNat_ofNat_of_lt' (fits a ha), UInt64.toNat_ofNat_of_lt' (fits b hb)] at hslot
  rw [toFinset_handedOut, Finset.card_image_of_injOn hinj, Finset.card_range]

/-- After any calls the size is the most slots that were leased at once, or what it was at the start if
that is more. It is a 64-bit number, so it stays one short if really all slots were leased. A fresh pool
has handed out as many ids as were leased at once. -/
theorem size_eq_peak (start : Start stem placement ids origin) (calls : List Call) :
    (origin.after calls).size.toNat =
        min (max origin.size.toNat (origin.peak calls)) (UInt64.size - 1) ∧
      ((fresh stem placement).handedOut calls).toFinset.card = (fresh stem placement).peak calls :=
  ⟨((Filled.of_start start).after calls).size_eq, card_handedOut stem placement calls⟩

/-- Three slots are leased at once, and the size of the restored pool was larger before. -/
theorem size_eq_peak_restored :
    let placement : Placement := ⟨0, 1, by decide⟩
    let origin := ((fresh "app" placement).mark 4)
    let calls : List Call := [.acquire, .acquire, .release ⟨"app-0-0"⟩, .release ⟨"app-0-4"⟩, .acquire]
    restore "app" placement [⟨"app-0-4"⟩] = .ok origin ∧ origin.peak calls = 3 ∧
      (origin.after calls).size.toNat = 5 := by
  intro placement origin calls
  have restored : restore "app" placement [⟨"app-0-4"⟩] = .ok origin := rfl
  have hpeak : origin.peak calls = 3 := by decide
  have hsize := (size_eq_peak (.restored restored) calls).1
  rw [hpeak] at hsize
  exact ⟨restored, hpeak, hsize⟩

end SinkFencing.SlotPool
