import SinkFencing.Proofs.BrokerFencing

namespace SinkFencing

/-- Whether the start and the stems of a scope keep a pass away from the pending ids. -/
def Strategy.KeepsOff (strategy : Strategy) (scope : Scope) : Prop :=
  match strategy with
  | .listing => True
  | .probing => ∀ parts : TxnId.Parts, parts.compose ∈ scope.pending →
      scope.claims parts = true → parts.sequence < scope.start

namespace Strategy

variable {σ : Type} {scope : Scope}

theorem not_mem_calls_of_pending {strategy : Strategy} (h : strategy.KeepsOff scope)
    (client : Client σ) (s : σ) {id : TxnId} (hid : id ∈ scope.pending) :
    id ∉ (strategy.pass client scope s).abortCalls := by
  intro hcall
  cases strategy with
  | probing =>
    obtain ⟨parts, rfl, hstem, howns, hstart⟩ :=
      (Probing.ascend_run client scope s).exists_of_mem hcall
    have hlt := h parts hid (Scope.claims_iff.2 ⟨hstem, Placement.owns_iff.1 howns⟩)
    exact UInt64.lt_irrefl _ (UInt64.lt_of_lt_of_le hlt hstart)
  | listing => exact ((Listing.course_run client scope s).of_mem_calls hcall).1 hid

/-- A client to which every id is in use leads probing to all that the scope claims. -/
theorem mem_calls_of_all_used {parts : TxnId.Parts} (hclaims : scope.claims parts = true)
    (hstart : scope.start ≤ parts.sequence) :
    parts.compose ∈ (Strategy.probing.pass (Client.ofTable fun _ => ⟨1⟩) scope ()).abortCalls := by
  have ht := answeredBy_ofTable (pass_truthful (Client.ofTable fun _ => ⟨1⟩) scope .probing ())
  have hused (id : TxnId) : Used (fun _ => ⟨1⟩) id := rfl
  obtain ⟨hstem, howner⟩ := Scope.claims_iff.1 hclaims
  obtain ⟨k, hk⟩ := Placement.owns_iff_exists.1 (Placement.owns_iff.2 howner)
  apply (Probing.mem_calls_iff ht parts).2
  exact ⟨hstem, ⟨k, hk, fun j _ o _ => hused _⟩, hstart, fun q _ _ => hused _⟩

/-- Which scopes keep every pending id from being called, whatever the client does; on a broker such
ids keep their transactions and their epochs. -/
theorem pending_spared_iff (strategy : Strategy) (scope : Scope) :
    ((∀ {σ : Type} (client : Client σ) (s : σ), ∀ id ∈ scope.pending,
        id ∉ (strategy.pass client scope s).abortCalls) ↔ strategy.KeepsOff scope) ∧
    (strategy.KeepsOff scope → ∀ b : Broker, ∀ id ∈ scope.pending,
      (strategy.pass Broker.client scope b).state.isOpen id.text = b.isOpen id.text ∧
      (strategy.pass Broker.client scope b).state.epochOf id.text = b.epochOf id.text) := by
  refine ⟨⟨fun h => ?_, fun h σ client s id hid => not_mem_calls_of_pending h client s hid⟩, ?_⟩
  · cases strategy with
    | listing => trivial
    | probing =>
      -- The client to which every id is in use is the one that tells.
      intro parts hpending hclaims
      by_cases hstart : scope.start ≤ parts.sequence
      · exact absurd (mem_calls_of_all_used hclaims hstart) (h _ () _ hpending)
      · exact UInt64.not_le.1 hstart
  · intro h b id hid
    have hcall := not_mem_calls_of_pending h Broker.client b hid
    have hframe := Broker.frame_of_not_mem_calls (pass_truthful Broker.client scope strategy b) hcall
    refine ⟨?_, hframe.2⟩
    rw [Broker.isOpen, hframe.1]
    rfl

theorem closes_start {b : Broker} (hb : b.abortsLeft = none) {stem : String}
    (known : stem ∈ scope.stems) :
    let id := TxnId.compose stem scope.placement.index scope.start
    id ∈ (Strategy.probing.pass Broker.client scope b).abortCalls ∧
      (Strategy.probing.pass Broker.client scope b).state.isOpen id.text = false := by
  intro id
  have ht := Broker.answeredBy_pass hb .probing scope
  have hcall := (Probing.mem_calls_iff ht _).2 (Probing.reached_start known)
  refine ⟨hcall, ?_⟩
  rw [Broker.state_pass hb, Bool.eq_false_iff]
  intro hopen
  exact ((Broker.isOpen_fenceAll b _ id).1 hopen).2 hcall

/-- Probing closes a transaction that waits for its commit. -/
theorem probing_closes_pending :
    let id := TxnId.compose "app" 0 3
    let scope := Scope.ofStem ⟨0, 1, by decide⟩ 3 "app" [id] (by decide)
    let b := Broker.empty.begin id.text none
    id ∈ scope.pending ∧ b.isOpen id.text = true ∧
      id ∈ (Strategy.probing.pass Broker.client scope b).abortCalls ∧
      (Strategy.probing.pass Broker.client scope b).state.isOpen id.text = false := by
  intro id scope b
  have known : "app" ∈ scope.stems := Ascending.mem_ofList.2 List.mem_cons_self
  have hb : b.abortsLeft = none := rfl
  refine ⟨Ascending.mem_ofList.2 List.mem_cons_self, ?_, closes_start hb known⟩
  rw [Broker.isOpen_begin, if_pos rfl]

end Strategy

end SinkFencing
