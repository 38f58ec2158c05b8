import SinkFencing.Proofs.BrokerFencing

namespace SinkFencing

namespace Probing

open TxnId

theorem answer_pass {b : Broker} (hb : b.abortsLeft = none) (scope : Scope) :
    (Strategy.probing.pass Broker.client scope b).answer = .ok () :=
  answer_of_table (Broker.answeredBy_pass hb .probing scope)

theorem compose_mem_calls_iff {b : Broker} (hb : b.abortsLeft = none) (scope : Scope)
    (parts : Parts) :
    parts.compose ∈ (Strategy.probing.pass Broker.client scope b).abortCalls ↔
      Reached b.table scope parts :=
  mem_calls_iff (Broker.answeredBy_pass hb .probing scope) parts

theorem mem_calls_pass_iff {b : Broker} (hb : b.abortsLeft = none) (scope : Scope) (id : TxnId) :
    id ∈ (Strategy.probing.pass Broker.client scope b).abortCalls ↔
      ∃ parts : Parts, id = parts.compose ∧ Reached b.table scope parts := by
  constructor
  · intro hmem
    exact (ascend_of_table (Broker.answeredBy_pass hb .probing scope)).exists_of_mem hmem
  · intro hreached
    obtain ⟨parts, hid, hreached⟩ := hreached
    rw [hid]
    exact (compose_mem_calls_iff hb scope parts).2 hreached

/-- The outcome of a pass over `scope`, told from the broker `b` before the pass. -/
structure Effect (b : Broker) (scope : Scope) (run : Run Broker Unit) : Prop where
  answer_ok : run.answer = .ok ()
  mem_calls_iff : ∀ id, id ∈ run.abortCalls ↔
    ∃ parts : Parts, id = parts.compose ∧ Reached b.table scope parts
  /-- Stems ascend, then owners, then sequences. -/
  ascend : Ascend (Reached b.table scope) run.abortCalls
  nodup : run.abortCalls.Nodup
  aborted_eq : run.state.aborted = b.aborted ++ run.abortCalls.map TxnId.text
  opened_eq : run.state.opened = b.opened.filter fun entry => ⟨entry.1⟩ ∉ run.abortCalls
  epoch_of_mem : ∀ id ∈ run.abortCalls, (run.state.epochOf id.text).value.toInt =
    min ((b.epochOf id.text).value.toInt + 1) 32767
  epoch_of_not_mem : ∀ name, ⟨name⟩ ∉ run.abortCalls → run.state.epochOf name = b.epochOf name

/-- Ids behind an unused sequence of their owner are not called. -/
theorem Effect.not_mem_of_gap {b : Broker} {scope : Scope} {run : Run Broker Unit}
    (h : Effect b scope run) {stem : String} {owner : UInt32} {gap sequence : UInt64}
    (hgap : ¬ Used b.table (compose stem owner gap)) (hstart : scope.start ≤ gap)
    (hlt : gap < sequence) : compose stem owner sequence ∉ run.abortCalls := by
  intro hmem
  obtain ⟨parts, hparts, hreached⟩ := (h.mem_calls_iff _).1 hmem
  obtain ⟨hstem, howner, hsequence⟩ := compose_inj.1 hparts
  subst hstem howner hsequence
  exact hgap (hreached.below gap hstart hlt)

theorem Effect.mem_start {b : Broker} {scope : Scope} {run : Run Broker Unit}
    (h : Effect b scope run) {stem : String} (known : stem ∈ scope.stems) :
    compose stem scope.placement.index scope.start ∈ run.abortCalls :=
  (h.mem_calls_iff _).2 ⟨⟨stem, scope.placement.index, scope.start⟩, rfl, reached_start known⟩

end Probing

namespace Strategy

/-- The epochs before a probing pass determine its calls, and these all that it changes. -/
theorem probing_effect (b : Broker) (hb : b.abortsLeft = none) (scope : Scope) :
    Probing.Effect b scope (Strategy.probing.pass Broker.client scope b) := by
  have ht := Broker.answeredBy_pass hb .probing scope
  have hstate := Broker.state_pass hb .probing scope
  have hnodup := nodup_calls .probing Broker.client scope b
  have hepoch := Broker.epochOf_fenceAll (b := b) hnodup
  refine ⟨Probing.answer_pass hb scope, Probing.mem_calls_pass_iff hb scope,
    Probing.ascend_of_table ht, hnodup, ?_, ?_, ?_, ?_⟩
  · rw [hstate, Broker.aborted_fenceAll]
  · rw [hstate, Broker.opened_fenceAll]
  · intro id hid
    rw [hstate, hepoch, if_pos hid, Epoch.toInt_next]
  · intro name hname
    rw [hstate, hepoch ⟨name⟩, if_neg hname]

/-- Of two open transactions with a gap between them the pass fences only the first. -/
theorem probing_effect_at_gap :
    let id := TxnId.compose "app" 0
    let b := (Broker.empty.begin (id 0).text none).begin (id 2).text none
    let scope := Scope.ofStem ⟨0, 1, by decide⟩ 0 "app" [] (by decide)
    let run := Strategy.probing.pass Broker.client scope b
    b.abortsLeft = none ∧ Probing.Effect b scope run ∧ id 0 ∈ run.abortCalls ∧
      id 2 ∉ run.abortCalls := by
  intro id b scope run
  have hb : b.abortsLeft = none := rfl
  have effect : Probing.Effect b scope run := probing_effect b hb scope
  have known : "app" ∈ scope.stems := Ascending.mem_ofList.2 List.mem_cons_self
  have hne (q : UInt64) (hq : q ≠ 1) : (id q).text ≠ (id 1).text := fun e =>
    hq (TxnId.compose_inj.1 (TxnId.ext_of_text e)).2.2
  have hgap : ¬ Used b.table (id 1) := by
    have hepoch : b.epochOf (id 1).text = .unused := by
      rw [Broker.epochOf_begin, if_neg (hne 2 (by decide)), Broker.epochOf_begin,
        if_neg (hne 0 (by decide))]
      rfl
    rw [Used, Broker.table, hepoch]
    decide
  exact ⟨hb, effect, effect.mem_start known, effect.not_mem_of_gap hgap (by decide) (by decide)⟩

end Strategy

end SinkFencing
