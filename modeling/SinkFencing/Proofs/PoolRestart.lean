import SinkFencing.Proofs.PoolSafety

namespace SinkFencing.SlotPool

variable {stem : String} {placement : Placement} {ids : List TxnId}
  {origin pool other next next' : SlotPool} {id : TxnId} {slot : UInt64}

theorem exists_foldlM_reclaim_iff (origin : SlotPool) : (∃ pool, ids.foldlM reclaim origin = .ok pool) ↔
    ∀ id ∈ ids, ∃ slot, origin.Names id slot ∧ slot.toNat + 1 < UInt64.size := by
  induction ids generalizing origin with
  | nil => exact iff_of_true ⟨origin, rfl⟩ fun _ hid => absurd hid List.not_mem_nil
  | cons id rest ih =>
    rw [List.forall_mem_cons]
    constructor
    · intro h
      obtain ⟨pool, h⟩ := h
      obtain ⟨slot, names, fits, hrest⟩ := foldlM_reclaim_cons_iff.1 h
      exact ⟨⟨slot, names, fits⟩, (ih (origin.mark slot)).1 ⟨pool, hrest⟩⟩
    · intro h
      obtain ⟨⟨slot, names, fits⟩, hrest⟩ := h
      obtain ⟨pool, hpool⟩ := (ih (origin.mark slot)).2 hrest
      exact ⟨pool, foldlM_reclaim_cons_iff.2 ⟨slot, names, fits, hpool⟩⟩

theorem exists_restore_iff : (∃ pool, restore stem placement ids = .ok pool) ↔
    ∀ id ∈ ids, ∃ slot, id.parts = .ok ⟨stem, placement.index, slot⟩ ∧
      slot.toNat + 1 < UInt64.size := exists_foldlM_reclaim_iff (fresh stem placement)

/-- The size is one past the highest leased slot, and zero if there is none. -/
structure Trim (pool : SlotPool) : Prop where
  fits : pool.Fits
  sized : pool.Sized
  reached : pool.size = 0 ∨ ∃ slot ∈ pool.leased, pool.size.toNat = slot.toNat + 1

namespace Trim

theorem mark (h : pool.Trim) (fits : slot.toNat + 1 < UInt64.size) : (pool.mark slot).Trim := by
  refine ⟨h.fits.mark fits, h.sized.mark slot, .inr ?_⟩
  have hsize := toNat_size_mark_of_lt pool fits
  by_cases hle : pool.size.toNat ≤ slot.toNat + 1
  · exact ⟨slot, mem_mark.2 (.inl rfl), hsize.trans (Nat.max_eq_right hle)⟩
  · rcases h.reached with hzero | ⟨top, htop, htopsize⟩
    · rw [hzero] at hle
      exact absurd (Nat.zero_le _) hle
    · exact ⟨top, mem_mark.2 (.inr htop), by omega⟩

theorem of_restore (h : restore stem placement ids = .ok pool) : pool.Trim := by
  have empty : (fresh stem placement).Trim := ⟨Fits.of_start .fresh, Sized.of_start .fresh, .inl rfl⟩
  exact foldlM_reclaim_induction (fun _ _ trim fits => trim.mark fits) empty h

theorem size_le (h : pool.Trim) (sized : other.Sized) (same : pool.leased = other.leased) :
    pool.size ≤ other.size := by
  rw [UInt64.le_iff_toNat_le]
  rcases h.reached with hzero | ⟨top, htop, hsize⟩
  · rw [hzero]
    exact Nat.zero_le _
  · rw [hsize]
    exact UInt64.lt_iff_toNat_lt.1 (sized top (same ▸ htop) (h.fits top htop))

end Trim

/-- What a pool is that was restored from ids, in whatever order and however often each was given. -/
structure Restored (stem : String) (placement : Placement) (ids : List TxnId) (pool : SlotPool) :
    Prop where
  lists : ∃ slots : List UInt64, pool.leasedIds = slots.map (TxnId.compose stem placement.index) ∧
    slots.Pairwise (· < ·) ∧
    ∀ slot, slot ∈ slots ↔ ∃ id ∈ ids, id.parts = .ok ⟨stem, placement.index, slot⟩
  size_eq : ids = [] ∧ pool.size = 0 ∨
    ∃ slot ∈ pool.leased, (∀ other ∈ pool.leased, other ≤ slot) ∧ pool.size.toNat = slot.toNat + 1

theorem mem_leased_of_restore (h : restore stem placement ids = .ok pool) :
    slot ∈ pool.leased ↔ ∃ id ∈ ids, id.parts = .ok ⟨stem, placement.index, slot⟩ := by
  have hnames := exists_restore_iff.1 ⟨pool, h⟩
  obtain ⟨-, -, hmem⟩ := SlotPool.of_restore h
  rw [hmem]
  constructor
  · intro h
    obtain ⟨id, hid, parts, hparts, hslot⟩ := h
    obtain ⟨named, hnamed, -⟩ := hnames id hid
    rw [hparts] at hnamed
    cases hnamed
    exact ⟨id, hid, hslot ▸ hparts⟩
  · intro h
    obtain ⟨id, hid, hparts⟩ := h
    exact ⟨id, hid, _, hparts, rfl⟩

theorem Restored.of_restore (h : restore stem placement ids = .ok pool) :
    Restored stem placement ids pool := by
  obtain ⟨hstem, hplacement, -⟩ := SlotPool.of_restore h
  have trim := Trim.of_restore h
  refine ⟨⟨pool.leased.elems, ?_, pool.leased.pairwise_lt, fun slot => mem_leased_of_restore h⟩, ?_⟩
  · rw [← hstem, ← hplacement]
    rfl
  · rcases trim.reached with hzero | ⟨top, htop, hsize⟩
    · refine .inl ⟨List.eq_nil_iff_forall_not_mem.2 fun id hid => ?_, hzero⟩
      -- Any id would have leased a slot below zero.
      obtain ⟨slot, hparts, -⟩ := exists_restore_iff.1 ⟨pool, h⟩ id hid
      have hlt := trim.sized.lt_size trim.fits ((mem_leased_of_restore h).2 ⟨id, hid, hparts⟩)
      rw [hzero, UInt64.lt_iff_toNat_lt] at hlt
      exact absurd hlt (Nat.not_lt_zero _)
    · refine .inr ⟨top, htop, fun slot hslot => ?_, hsize⟩
      have hlt := UInt64.lt_iff_toNat_lt.1 (trim.sized.lt_size trim.fits hslot)
      exact UInt64.le_iff_toNat_le.2 (by omega)

/-- The other pool leases the same slots of the same issuer, and it is not larger. -/
structure Twin (pool other : SlotPool) : Prop where
  stem_eq : other.stem = pool.stem
  placement_eq : other.placement = pool.placement
  leased_eq : other.leased = pool.leased
  size_le : other.size ≤ pool.size

namespace Twin

theorem leasedIds_eq (h : Twin pool other) : other.leasedIds = pool.leasedIds := by
  unfold leasedIds idOf
  rw [h.stem_eq, h.placement_eq, h.leased_eq]

theorem names_iff (h : Twin pool other) : other.Names id slot ↔ pool.Names id slot := by
  rw [Names, Names, h.stem_eq, h.placement_eq]

theorem acquire (h : Twin pool other) : other.idOf other.lowestFree = pool.idOf pool.lowestFree ∧
    Twin (pool.mark pool.lowestFree) (other.mark other.lowestFree) := by
  have hfree : other.lowestFree = pool.lowestFree := by rw [lowestFree, h.leased_eq]; rfl
  rw [hfree]
  refine ⟨?_, h.stem_eq, h.placement_eq, ?_, ?_⟩
  · rw [idOf, h.stem_eq, h.placement_eq]
    rfl
  · show Ascending.insert _ other.leased = _
    rw [h.leased_eq]
    rfl
  · have hle := UInt64.le_iff_toNat_le.1 h.size_le
    rw [UInt64.le_iff_toNat_le, toNat_size_mark, toNat_size_mark]
    split <;> omega

theorem vacate (h : Twin pool other) : Twin (pool.vacate slot) (other.vacate slot) := by
  refine ⟨h.stem_eq, h.placement_eq, ?_, h.size_le⟩
  show Ascending.erase _ other.leased = _
  rw [h.leased_eq]
  rfl

theorem served (h : Twin pool other) {call : Call} {reply reply' : Reply}
    (served : Served pool call reply next) (served' : Served other call reply' next') :
    reply' = reply ∧ Twin next next' := by
  cases served with
  | acquired =>
    cases served'
    exact ⟨congrArg Reply.leased h.acquire.1, h.acquire.2⟩
  | freed names leased =>
    cases served' with
    | freed names' leased' =>
      rw [(h.names_iff.1 names').slot_eq names]
      exact ⟨rfl, h.vacate⟩
    | refused unleased => exact absurd (h.leased_eq ▸ leased) (unleased _ (h.names_iff.2 names))
  | refused unleased =>
    cases served' with
    | freed names' leased' => exact absurd (h.leased_eq ▸ leased') (unleased _ (h.names_iff.1 names'))
    | refused => exact ⟨rfl, h⟩

theorem replies (h : Twin pool other) (calls : List Call) :
    other.replies calls = pool.replies calls ∧ Twin (pool.after calls) (other.after calls) := by
  induction calls generalizing pool other with
  | nil => exact ⟨rfl, h⟩
  | cons call rest ih =>
    obtain ⟨hreply, twin⟩ := h.served (pool.served call) (other.served call)
    obtain ⟨hreplies, twins⟩ := ih twin
    refine ⟨?_, twins⟩
    rw [SlotPool.replies, SlotPool.replies, hreply, hreplies]

end Twin

/-- A pool can be restarted just if the last slot is not leased. -/
theorem exists_restart_iff : (∃ restored, pool.restart = .ok restored) ↔ pool.Fits := by
  rw [restart, exists_restore_iff]
  constructor
  · intro h slot hslot
    obtain ⟨other, hother, fits⟩ := h (pool.idOf slot) (List.mem_map_of_mem hslot)
    rwa [← (names_idOf pool slot).slot_eq hother] at fits
  · intro fits id hid
    obtain ⟨slot, hslot, rfl⟩ := List.mem_map.1 hid
    exact ⟨slot, names_idOf pool slot, fits slot hslot⟩

theorem Twin.of_restart (sized : pool.Sized) (h : pool.restart = .ok other) : Twin pool other := by
  obtain ⟨hstem, hplacement, -⟩ := SlotPool.of_restore h
  have hleased : other.leased = pool.leased := by
    refine Ascending.ext_of_mem fun slot => ?_
    rw [mem_leased_of_restore h]
    constructor
    · intro hslot
      obtain ⟨id, hid, hparts⟩ := hslot
      obtain ⟨leased, hleased, rfl⟩ := List.mem_map.1 hid
      rwa [(names_idOf pool leased).slot_eq hparts] at hleased
    · intro hslot
      exact ⟨pool.idOf slot, List.mem_map_of_mem hslot, names_idOf pool slot⟩
  exact ⟨hstem, hplacement, hleased, (Trim.of_restore h).size_le sized hleased⟩

/-- A pool can be restored from the ids that it leases, as long as never all slots were leased at once, and
from then on both answer alike. A pool is restored from ids just if all of them are its own and none is of
the last slot, and then it is what the set of their slots makes it. -/
theorem restart_transparent (start : Start stem placement ids origin) (calls : List Call) :
    let pool := origin.after calls
    (origin.peak calls < UInt64.size →
      ∃ restored, restore stem placement pool.leasedIds = .ok restored) ∧
    (∀ restored, restore stem placement pool.leasedIds = .ok restored → ∀ more,
      restored.replies more = pool.replies more ∧
      (restored.after more).leasedIds = (pool.after more).leasedIds ∧
      (restored.after more).size ≤ (pool.after more).size) ∧
    ∀ (stem : String) (placement : Placement) (ids : List TxnId),
      ((∃ pool, restore stem placement ids = .ok pool) ↔
        ∀ id ∈ ids, ∃ slot, id.parts = .ok ⟨stem, placement.index, slot⟩ ∧
          slot.toNat + 1 < UInt64.size) ∧
      ∀ pool, restore stem placement ids = .ok pool → Restored stem placement ids pool := by
  intro pool
  obtain ⟨hstem, hplacement⟩ := start.issuer_after calls
  have hrestart : restore stem placement pool.leasedIds = pool.restart := by
    rw [restart, hstem, hplacement]
  rw [hrestart]
  refine ⟨fun room => ?_, fun restored h more => ?_,
    fun stem placement ids => ⟨exists_restore_iff, fun pool => Restored.of_restore⟩⟩
  · exact exists_restart_iff.2 ((Fits.of_start start).after room)
  · obtain ⟨hreplies, twins⟩ := (Twin.of_restart ((Sized.of_start start).after calls) h).replies more
    exact ⟨hreplies, twins.leasedIds_eq, twins.size_le⟩

/-- The restarted pool is smaller than the one before, which once leased slot 9, and answers as it does. -/
theorem restart_transparent_smaller :
    let placement : Placement := ⟨2, 4, by decide⟩
    let origin := (fresh "app" placement).mark 9
    let calls : List Call := [.acquire, .release ⟨"app-2-9"⟩]
    let pool := origin.after calls
    restore "app" placement [⟨"app-2-9"⟩] = .ok origin ∧ origin.peak calls < UInt64.size ∧
      pool.size = 10 ∧ ∃ restored, restore "app" placement pool.leasedIds = .ok restored ∧
        restored.size = 1 ∧ ∀ more, restored.replies more = pool.replies more := by
  intro placement origin calls pool
  have hstart : restore "app" placement [⟨"app-2-9"⟩] = .ok origin := rfl
  have room : origin.peak calls < UInt64.size := by decide
  have transparent := restart_transparent (.restored hstart) calls
  obtain ⟨restored, hrestored⟩ := transparent.1 room
  have hids : pool.leasedIds = [⟨"app-2-0"⟩] := by decide
  have hone : restore "app" placement pool.leasedIds = .ok ((fresh "app" placement).mark 0) := by
    rw [hids]
    rfl
  have he : restored = (fresh "app" placement).mark 0 := Except.ok.inj (hrestored.symm.trans hone)
  refine ⟨hstart, room, by decide, restored, hrestored, ?_,
    fun more => (transparent.2.1 restored hrestored more).1⟩
  rw [he]
  decide

end SinkFencing.SlotPool
