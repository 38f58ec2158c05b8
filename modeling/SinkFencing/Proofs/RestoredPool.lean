import SinkFencing.Proofs.ListingEffect
import SinkFencing.Proofs.SlotLease

namespace SinkFencing

open TxnId

variable {b : Broker} {scope : Scope}

/-- After a listing pass, a pool that is restored from the pending ids of its own stem and owner leases no
id that is still open, as long as its slots last. -/
theorem SlotPool.draw_not_open (reachable : b.Reachable) (hb : b.abortsLeft = none)
    (hl : b.listingFails = false)
    (covered : ∀ name, b.isOpen name = true → b.Listed scope.topics name)
    (succeeded : (Strategy.listing.pass Broker.client scope b).answer = .ok ()) {stem : String}
    (known : stem ∈ scope.stems) {ids : List TxnId}
    (held : ∀ id, id ∈ ids ↔ id ∈ scope.pending ∧ ∃ sequence,
      id.parts = .ok ⟨stem, scope.placement.index, sequence⟩) {pool : SlotPool}
    (restored : restore stem scope.placement ids = .ok pool) (n : Nat)
    (room : pool.leased.size + n ≤ UInt64.size) :
    ∀ id ∈ pool.draw n,
      (Strategy.listing.pass Broker.client scope b).state.isOpen id.text = false := by
  intro id hid
  have legible := Listing.legible_of_answer reachable hb hl scope succeeded
  obtain ⟨hstem, hplacement, hleased⟩ := of_restore restored
  obtain ⟨slot, he, hfree⟩ := exists_slot_of_mem_draw room hid
  have hid : id = Parts.compose ⟨stem, scope.placement.index, slot⟩ := by
    rw [he, idOf, hstem, hplacement]
    rfl
  refine Bool.eq_false_iff.2 fun hopen => hfree ((hleased slot).2 ?_)
  rw [hid] at hopen
  have claims : scope.claims ⟨stem, scope.placement.index, slot⟩ = true :=
    Scope.claims_iff.2 ⟨known, Placement.owns_iff.1 scope.placement.owns_index⟩
  obtain ⟨-, hpending | hforeign⟩ := (Listing.isOpen_pass_iff legible covered _).1 hopen
  · exact ⟨_, (held _).2 ⟨hpending, slot, parts_compose _ _ _⟩, _, parts_compose _ _ _, rfl⟩
  · rw [hforeign _ (parts_compose _ _ _)] at claims
    cases claims

/-- The pending transaction stays open, and its slot is leased: the pool gives out all others. -/
theorem SlotPool.draw_not_open_beside_pending :
    let id := compose "app" 0 0
    let b := Broker.empty.begin id.text (some "orders")
    let scope : Scope :=
      { Scope.ofStem ⟨0, 1, by decide⟩ 0 "app" [id] (by decide) with topics := ["orders"] }
    let after := (Strategy.listing.pass Broker.client scope b).state
    let pool := (SlotPool.fresh "app" scope.placement).mark 0
    b.Reachable ∧ restore "app" scope.placement [id] = .ok pool ∧ after.isOpen id.text = true ∧
      ∀ n, n < UInt64.size → ∀ drawn ∈ pool.draw n, after.isOpen drawn.text = false := by
  intro id b scope after pool
  have reachable : b.Reachable := Broker.Reachable.empty.step (.begin _ _)
  have legible : Listing.Legible b scope.stems scope.topics :=
    Listing.legible_beginAll [⟨"app", 0, 0⟩] (some "orders") scope.stems scope.topics
  have covered (name : String) (hopen : b.isOpen name = true) : b.Listed scope.topics name := by
    exact Broker.listed_beginAll_empty [id] List.mem_cons_self hopen
  have hpending (other : TxnId) : other ∈ scope.pending ↔ other = id :=
    Ascending.mem_ofList.trans List.mem_singleton
  have held (other : TxnId) : other ∈ [id] ↔ other ∈ scope.pending ∧ ∃ sequence,
      other.parts = .ok ⟨"app", scope.placement.index, sequence⟩ := by
    rw [List.mem_singleton, hpending]
    refine ⟨fun he => ⟨he, 0, ?_⟩, fun h => h.1⟩
    rw [he]
    exact parts_compose "app" 0 0
  have restored : restore "app" scope.placement [id] = .ok pool := by
    rw [restore, List.foldlM_cons, reclaim, parts_compose]
    rfl
  have hopen : b.isOpen id.text = true := by rw [Broker.isOpen_begin, if_pos rfl]
  have kept : after.isOpen id.text = true :=
    (Listing.isOpen_pass_iff legible covered id.text).2 ⟨hopen, .inl ((hpending id).2 rfl)⟩
  refine ⟨reachable, restored, kept, fun n hn => ?_⟩
  have room : pool.leased.size + n ≤ UInt64.size := by
    show 1 + n ≤ UInt64.size
    omega
  exact draw_not_open reachable rfl rfl covered (Listing.mem_calls_iff legible).1
    (Ascending.mem_ofList.2 List.mem_cons_self) held restored n room

end SinkFencing
