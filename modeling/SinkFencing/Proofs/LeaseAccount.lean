import SinkFencing.Proofs.PoolRestart
import SinkFencing.Proofs.TxnIdOrder

namespace SinkFencing.SlotPool

open TxnId

variable {stem : String} {placement : Placement} {ids given : List TxnId}
  {origin pool next : SlotPool} {id : TxnId} {slot : UInt64} {call : Call} {reply : Reply}

theorem Served.exists_of_freed (h : Served pool (.release id) .freed next) :
    ∃ slot ∈ pool.leased, pool.Names id slot := by
  cases h with
  | freed names leased => exact ⟨_, leased, names⟩

theorem freed_iff_names : (pool.serve (.release id)).1 = .freed ↔
    ∃ slot ∈ pool.leased, pool.Names id slot := by
  constructor
  · intro h
    have served := pool.served (.release id)
    rw [h] at served
    exact served.exists_of_freed
  · intro h
    obtain ⟨slot, leased, names⟩ := h
    rw [serve_of_names names leased]

theorem compose_mem_leasedIds_iff {parts : Parts} : parts.compose ∈ pool.leasedIds ↔
    ∃ slot ∈ pool.leased, parts = ⟨pool.stem, pool.placement.index, slot⟩ := by
  rw [leasedIds, List.mem_map]
  constructor
  · intro h
    obtain ⟨slot, hslot, he⟩ := h
    exact ⟨slot, hslot, (@Parts.compose_injective ⟨_, _, slot⟩ parts he).symm⟩
  · intro h
    obtain ⟨slot, hslot, rfl⟩ := h
    exact ⟨slot, hslot, rfl⟩

theorem freed_iff_parts : (pool.serve (.release id)).1 = .freed ↔
    ∃ parts, id.parts = .ok parts ∧ parts.compose ∈ pool.leasedIds := by
  rw [freed_iff_names]
  constructor
  · intro h
    obtain ⟨slot, leased, names⟩ := h
    exact ⟨_, names, compose_mem_leasedIds_iff.2 ⟨slot, leased, rfl⟩⟩
  · intro h
    obtain ⟨parts, hparts, hmem⟩ := h
    obtain ⟨slot, leased, rfl⟩ := compose_mem_leasedIds_iff.1 hmem
    exact ⟨slot, leased, hparts⟩

theorem freed_compose_iff (parts : Parts) : (pool.serve (.release parts.compose)).1 = .freed ↔
    parts.compose ∈ pool.leasedIds := by
  have hparts : parts.compose.parts = .ok parts := parts_compose _ _ _
  rw [freed_iff_parts]
  refine ⟨fun h => ?_, fun h => ⟨parts, hparts, h⟩⟩
  obtain ⟨other, hother, hmem⟩ := h
  rw [hparts] at hother
  exact Except.ok.inj hother ▸ hmem

theorem Served.mem_or_freed (h : Served pool call reply next) (leased : slot ∈ pool.leased) :
    slot ∈ next.leased ∨ ∃ id, call = .release id ∧ reply = .freed ∧ pool.Names id slot := by
  cases h with
  | acquired => exact .inl (mem_mark.2 (.inr leased))
  | @freed id freed names =>
    by_cases he : slot = freed
    · exact .inr ⟨id, rfl, rfl, he ▸ names⟩
    · exact .inl (Ascending.mem_erase.2 ⟨leased, he⟩)
  | refused => exact .inl leased

/-- Between two states of which only the first leases a slot, the slot was released. -/
theorem exists_release_between {calls : List Call} (leased : slot ∈ pool.leased)
    (gone : slot ∉ (pool.after calls).leased) : ∃ before id rest,
      calls = before ++ .release id :: rest ∧
      ((pool.after before).serve (.release id)).1 = .freed ∧ pool.Names id slot := by
  induction calls generalizing pool with
  | nil => exact absurd leased gone
  | cons call rest ih =>
    have served := pool.served call
    rcases served.mem_or_freed leased with hnext | ⟨id, hcall, hreply, names⟩
    · obtain ⟨before, id, later, hrest, hfreed, names⟩ := ih hnext gone
      exact ⟨call :: before, id, later, congrArg _ hrest, hfreed, served.names_iff.1 names⟩
    · rw [hcall] at hreply ⊢
      exact ⟨[], id, rest, rfl, hreply, names⟩

/-- Between two leases of one id, it was released, by itself or in another spelling. -/
theorem exists_release_between_leases {between : List Call}
    (room : ((pool.serve .acquire).2.after between).leased.size < UInt64.size)
    (first : (pool.serve .acquire).1 = .leased id)
    (again : (((pool.serve .acquire).2.after between).serve .acquire).1 = .leased id) :
    ∃ before other rest, between = before ++ .release other :: rest ∧
      (((pool.serve .acquire).2.after before).serve (.release other)).1 = .freed ∧
      other.parts = id.parts := by
  have hfirst : pool.idOf pool.lowestFree = id := Reply.leased.inj first
  have hid : (pool.mark pool.lowestFree).Names id pool.lowestFree := hfirst ▸ names_idOf pool _
  have leased : pool.lowestFree ∈ (pool.mark pool.lowestFree).leased := mem_mark.2 (.inl rfl)
  -- What is leased again is free, so it is no longer the slot that was leased first.
  have gone : pool.lowestFree ∉ ((pool.serve .acquire).2.after between).leased := by
    have hfree := lowestFree_not_mem room
    have hagain : ((pool.serve .acquire).2.after between).idOf _ = id := Reply.leased.inj again
    obtain ⟨hstem, hplacement⟩ := issuer_after (pool.serve .acquire).2 between
    rw [idOf, hstem, hplacement, ← hfirst] at hagain
    rwa [idOf_inj.1 hagain] at hfree
  obtain ⟨before, other, rest, he, hfreed, names⟩ := exists_release_between leased gone
  exact ⟨before, other, rest, he, hfreed, names.trans hid.symm⟩

theorem Served.source (h : Served pool call reply next) {given : TxnId → Prop}
    (sources : ∀ slot ∈ pool.leased, ∃ id, given id ∧ pool.Names id slot) :
    ∀ slot ∈ next.leased, ∃ id, (given id ∨ reply = .leased id) ∧ next.Names id slot := by
  have kept (slot : UInt64) (leased : slot ∈ pool.leased) :
      ∃ id, (given id ∨ reply = .leased id) ∧ next.Names id slot := by
    obtain ⟨id, hgiven, names⟩ := sources slot leased
    exact ⟨id, .inl hgiven, h.names_iff.2 names⟩
  intro slot hslot
  cases h with
  | acquired =>
    rcases mem_mark.1 hslot with he | leased
    · exact ⟨pool.idOf pool.lowestFree, .inr rfl, he ▸ names_idOf pool _⟩
    · exact kept slot leased
  | freed => exact kept slot (Ascending.mem_erase.1 hslot).1
  | refused => exact kept slot hslot

theorem exists_source_of_leased {given : TxnId → Prop} (calls : List Call)
    (sources : ∀ slot ∈ pool.leased, ∃ id, given id ∧ pool.Names id slot) :
    ∀ slot ∈ (pool.after calls).leased,
      ∃ id, (given id ∨ id ∈ pool.handedOut calls) ∧ (pool.after calls).Names id slot := by
  induction calls generalizing pool given with
  | nil =>
    intro slot leased
    obtain ⟨id, hgiven, names⟩ := sources slot leased
    exact ⟨id, .inl hgiven, names⟩
  | cons call rest ih =>
    intro slot leased
    obtain ⟨id, hid, names⟩ := ih ((pool.served call).source sources) slot leased
    rw [or_assoc] at hid
    exact ⟨id, hid.imp_right mem_handedOut_cons.2, names⟩

theorem Start.source (h : Start stem placement ids origin) :
    ∀ slot ∈ origin.leased, ∃ id, id ∈ ids ∧ origin.Names id slot := by
  intro slot leased
  cases h with
  | fresh => exact absurd leased List.not_mem_nil
  | restored h =>
    obtain ⟨hstem, hplacement, -⟩ := of_restore h
    obtain ⟨id, hid, hparts⟩ := (mem_leased_of_restore h).1 leased
    refine ⟨id, hid, ?_⟩
    rw [Names, hstem, hplacement]
    exact hparts

/-- An id frees a slot just if the id with its parts is leased, so an id as it is composed just if it is
leased itself. An id that is leased twice was released in between, and an id that frees a slot was leased
or restored, each time by itself or in another spelling. -/
theorem leases_by_parts (start : Start stem placement ids origin) (calls : List Call) :
    let pool := origin.after calls
    let acquired := (pool.serve .acquire).2
    (∀ id, (pool.serve (.release id)).1 = .freed ↔
      ∃ parts, id.parts = .ok parts ∧ parts.compose ∈ pool.leasedIds) ∧
    (∀ parts : Parts, (pool.serve (.release parts.compose)).1 = .freed ↔
      parts.compose ∈ pool.leasedIds) ∧
    (∀ id between, (acquired.after between).leased.size < UInt64.size →
      (pool.serve .acquire).1 = .leased id → ((acquired.after between).serve .acquire).1 = .leased id →
        ∃ before other rest, between = before ++ .release other :: rest ∧
          ((acquired.after before).serve (.release other)).1 = .freed ∧ other.parts = id.parts) ∧
    ∀ id, (pool.serve (.release id)).1 = .freed →
      ∃ other ∈ ids ++ origin.handedOut calls, other.parts = id.parts := by
  intro pool acquired
  refine ⟨fun id => freed_iff_parts, freed_compose_iff, fun id between room first again => ?_,
    fun id h => ?_⟩
  · exact exists_release_between_leases room first again
  · obtain ⟨slot, leased, names⟩ := freed_iff_names.1 h
    obtain ⟨other, hother, names'⟩ := exists_source_of_leased calls start.source slot leased
    exact ⟨other, List.mem_append.2 hother, names'.trans names.symm⟩

/-- An id with a leading zero frees the slot of the id without, which is not leased as it stands. -/
theorem respelled_release_frees :
    let held := (fresh "app" ⟨0, 1, by decide⟩).after [.acquire]
    let id : TxnId := ⟨"app-0-00"⟩
    parse "app-0-00" = .ok id ∧ held.leasedIds = [⟨"app-0-0"⟩] ∧ id ∉ held.leasedIds ∧
      (held.serve (.release id)).1 = .freed ∧
      ((held.after [.release id]).serve .acquire).1 = .leased ⟨"app-0-0"⟩ := by
  intro held id
  exact ⟨rfl, by decide, by decide, by decide, by decide⟩

/-- The id is leased twice, and in between it was released with a zero in front. -/
theorem leases_by_parts_respelled :
    let pool := fresh "app" ⟨0, 1, by decide⟩
    let acquired := (pool.serve .acquire).2
    let between : List Call := [.release ⟨"app-0-00"⟩]
    (acquired.after between).leased.size < UInt64.size ∧
      (pool.serve .acquire).1 = .leased ⟨"app-0-0"⟩ ∧
      ((acquired.after between).serve .acquire).1 = .leased ⟨"app-0-0"⟩ ∧
      ∃ before other rest, between = before ++ .release other :: rest ∧
        ((acquired.after before).serve (.release other)).1 = .freed ∧
        other.parts = TxnId.parts ⟨"app-0-0"⟩ := by
  intro pool acquired between
  have room : (acquired.after between).leased.size < UInt64.size := by decide
  have first : (pool.serve .acquire).1 = .leased ⟨"app-0-0"⟩ := by decide
  have again : ((acquired.after between).serve .acquire).1 = .leased ⟨"app-0-0"⟩ := by decide
  have start : Start "app" ⟨0, 1, by decide⟩ [] pool := .fresh
  have account := leases_by_parts start []
  exact ⟨room, first, again, account.2.2.1 ⟨"app-0-0"⟩ between room first again⟩

end SinkFencing.SlotPool
