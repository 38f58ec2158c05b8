import SinkFencing.Config.Startup
import SinkFencing.Proofs.Pending
import SinkFencing.Proofs.PassEnd

namespace SinkFencing

theorem Scope.exists_of_make {stems : List String} (some : stems ≠ []) (named : "" ∉ stems)
    (placement : Placement) (start : UInt64) (pending : List TxnId) (topics : List String) :
    ∃ scope, Scope.make placement start stems pending topics = .ok scope ∧
      scope.placement = placement ∧ scope.start = start ∧ (∀ stem, stem ∈ scope.stems ↔ stem ∈ stems) ∧
      (∀ id, id ∈ scope.pending ↔ id ∈ pending) ∧ scope.topics = topics := by
  have hne : (Ascending.ofList stems).elems ≠ [] := by
    intro he
    obtain ⟨stem, hstem⟩ := List.exists_mem_of_ne_nil stems some
    have hmem : stem ∈ (Ascending.ofList stems).elems := Ascending.mem_ofList.2 hstem
    rw [he] at hmem
    exact List.not_mem_nil hmem
  have hnamed : "" ∉ Ascending.ofList stems := mt Ascending.mem_ofList.1 named
  refine ⟨_, by rw [Scope.make, dif_neg hne, dif_neg hnamed], rfl, rfl, ?_, ?_, rfl⟩
  · exact fun stem => Ascending.mem_ofList
  · exact fun id => Ascending.mem_ofList

/-- Recovery from a checkpoint starts behind it, unless no later sequence exists. -/
theorem Naming.startSequence_restored (c : UInt64) :
    c < Naming.incrementing.startSequence (some c) ∨
      Naming.incrementing.startSequence (some c) = c ∧ c.toNat + 1 = UInt64.size := by
  rw [Naming.startSequence]
  have hlt := c.toNat_lt_size
  split
  · refine .inl (UInt64.lt_iff_toNat_lt.2 ?_)
    rw [UInt64.toNat_add, Nat.mod_eq_of_lt ‹_›]
    exact Nat.lt_succ_self _
  · exact .inr ⟨rfl, by omega⟩

namespace Settings

variable {s : Settings}

/-- What recovery needs of the settings of an exactly-once sink. -/
structure Recoverable (s : Settings) : Prop where
  stem_ne_none : s.stem ≠ none
  stems_ne_empty : "" ∉ s.knownStems
  strategy_of_pooling : s.naming = .pooling → s.effectiveStrategy = .listing
  topics_ne_nil : s.effectiveStrategy = .listing → s.topics ≠ []

theorem mem_knownStems {stem : String} :
    stem ∈ s.knownStems ↔ s.stem = some stem ∨ stem ∈ s.previousStems := by
  rw [knownStems, Ascending.mem_ofList, List.mem_append, Option.mem_toList]

theorem checkExactlyOnce_eq_ok_iff : s.checkExactlyOnce = .ok () ↔ s.stem ≠ none ∧
    "" ∉ s.previousStems ∧ (s.naming = .pooling → s.effectiveStrategy = .listing) ∧
    (s.effectiveStrategy = .listing → s.topics ≠ []) := by
  have hlisting : ¬ s.effectiveStrategy = .probing ↔ s.effectiveStrategy = .listing := by
    cases s.effectiveStrategy <;> decide
  rw [checkExactlyOnce]
  split <;> rename_i hstem
  · simp [hstem]
  split <;> rename_i hprevious
  · simp [hprevious]
  split <;> rename_i hpooled
  · simp [hpooled]
  split <;> rename_i htopics
  · simp [htopics]
  rw [not_and, hlisting] at hpooled
  rw [not_and] at htopics
  exact iff_of_true rfl ⟨hstem, hprevious, hpooled, htopics⟩

/-- The check lets an exactly-once sink start just if its settings can be recovered from. -/
theorem check_eq_ok_iff (exactlyOnce : s.isTransactional = true) :
    s.check = .ok () ↔ s.Recoverable := by
  have hstems : "" ∉ s.knownStems ↔ s.stem ≠ some "" ∧ "" ∉ s.previousStems := by
    rw [mem_knownStems, not_or]
  rw [check, if_pos exactlyOnce]
  split <;> rename_i hstem
  · refine iff_of_false (fun h => nomatch h) fun recoverable => ?_
    exact (hstems.1 recoverable.stems_ne_empty).1 hstem
  · rw [checkExactlyOnce_eq_ok_iff]
    constructor
    · intro h
      obtain ⟨hsome, hprevious, hpooling, htopics⟩ := h
      exact ⟨hsome, hstems.2 ⟨hstem, hprevious⟩, hpooling, htopics⟩
    · intro h
      exact ⟨h.stem_ne_none, (hstems.1 h.stems_ne_empty).2, h.strategy_of_pooling, h.topics_ne_nil⟩

theorem Recoverable.exists_scope (h : s.Recoverable) (placement : Placement)
    (restored : Option UInt64) (pending : List TxnId) :
    ∃ scope, s.scope placement restored pending = .ok scope ∧ scope.placement = placement ∧
      scope.start = s.naming.startSequence restored ∧
      (∀ stem, stem ∈ scope.stems ↔ stem ∈ s.knownStems) ∧
      (∀ id, id ∈ scope.pending ↔ id ∈ pending) ∧ scope.topics = s.topics := by
  refine Scope.exists_of_make ?_ h.stems_ne_empty placement _ pending s.topics
  obtain ⟨stem, hstem⟩ := Option.ne_none_iff_exists'.1 h.stem_ne_none
  exact List.ne_nil_of_mem (mem_knownStems.2 (.inl hstem))

theorem Recoverable.naming_of_probing (h : s.Recoverable) (probing : s.effectiveStrategy = .probing) :
    s.naming = .incrementing := by
  cases hn : s.naming with
  | incrementing => rfl
  | pooling =>
    rw [h.strategy_of_pooling hn] at probing
    cases probing

/-- After the check the scope of a recovery is made. With a lister at hand, where one is asked, its pass
answers with a report, with the failure of the first call that failed, or, when it lists, with a name that it
cannot read. Pooled ids are listed, and listing asks for some topic. -/
theorem recover_never_refused (exactlyOnce : s.isTransactional = true) (accepted : s.check = .ok ())
    (placement : Placement) (restored : Option UInt64) (pending : List TxnId) :
    ∃ scope, s.scope placement restored pending = .ok scope ∧
      ∀ {σ : Type} (client : Client σ) (t : σ),
        (s.effectiveStrategy = .listing → client.list?.isSome = true) →
        let run := s.recover client scope t
        Transcript client t run.events run.state ∧
        (match run.answer with
          | .ok report => report.strategy = s.effectiveStrategy ∧ report.placement = placement ∧
              Unfailed run.events
          | .error (.broker fault) => FailsWith fault run.events
          | .error (.malformed _ _) => s.effectiveStrategy = .listing ∧ Unfailed run.events
          | .error (.refused _) => False) ∧
        (s.naming = .pooling → run = Recovery.run .listing client scope t) ∧
        run.listCalls = (if s.effectiveStrategy = .listing then [s.topics] else []) ∧
        (s.effectiveStrategy = .listing → s.topics ≠ []) := by
  have recoverable := (check_eq_ok_iff exactlyOnce).1 accepted
  obtain ⟨scope, hscope, rfl, -, -, -, htopics⟩ :=
    recoverable.exists_scope placement restored pending
  refine ⟨scope, hscope, fun client t lists => ?_⟩
  intro run
  refine ⟨Recovery.run_truthful s.effectiveStrategy client scope t, ?_, fun pooling => ?_, ?_,
    recoverable.topics_ne_nil⟩
  · obtain calls | ⟨hlisting, unfailed, raw, why, malformed⟩ :=
      Recovery.run_ends_or_malformed lists scope t
    · cases answer : run.answer with
      | ok report =>
        obtain ⟨hstrategy, hplacement⟩ := Recovery.report_of_run answer
        exact ⟨hstrategy, hplacement, (answer ▸ calls).unfailed⟩
      | error fault =>
        cases (answer ▸ calls : CallsEnd run.events (.error fault)) with
        | failed fails => exact fails
    · have malformed : run.answer = .error (.malformed raw why) := malformed
      rw [malformed]
      exact ⟨hlisting, unfailed⟩
  · show Recovery.run s.effectiveStrategy client scope t = _
    rw [recoverable.strategy_of_pooling pooling]
  · show (Recovery.run s.effectiveStrategy client scope t).listCalls = _
    rw [Recovery.run_listCalls, Strategy.listCalls_pass _ _ _ _ lists, htopics]

/-- Pooled ids are listed, although one of the open names cannot be read. -/
theorem recover_never_refused_pooled :
    let s : Settings :=
      { delivery := .exactlyOnce, stem := some "app", naming := .pooling, topics := ["orders"],
        previousStems := ["app-old", "app"] }
    let b := Broker.empty.begin "app-1-x" (some "orders")
    s.isTransactional = true ∧ s.check = .ok () ∧ Broker.client.list?.isSome = true ∧
      ∃ scope, s.scope ⟨1, 2, by decide⟩ (some 7) [] = .ok scope ∧
        (∀ refusal, (s.recover Broker.client scope b).answer ≠ .error (.refused refusal)) ∧
        (s.recover Broker.client scope b).listCalls = [["orders"]] := by
  intro s b
  have exactlyOnce : s.isTransactional = true := rfl
  have accepted : s.check = .ok () := rfl
  obtain ⟨scope, hscope, outcome⟩ :=
    recover_never_refused exactlyOnce accepted ⟨1, 2, by decide⟩ (some 7) []
  obtain ⟨-, answer, -, asked, -⟩ := outcome Broker.client b fun _ => rfl
  refine ⟨exactlyOnce, accepted, rfl, scope, hscope, fun refusal refused => ?_, asked⟩
  rw [refused] at answer
  exact answer

/-- After the check a recovery passes none of the ids to the client that the committer tracks. Probing
passes it no id up to the restored checkpoint, except at the last sequence there is. -/
theorem recover_spares_tracked (exactlyOnce : s.isTransactional = true) (accepted : s.check = .ok ())
    (placement : Placement) (c : UInt64) (pending : List TxnId)
    (tracked : s.effectiveStrategy = .probing → ∀ id ∈ pending, ∀ parts, id.parts = .ok parts →
      parts.stem ∈ s.knownStems → parts.sequence ≤ c) :
    ∃ scope, s.scope placement (some c) pending = .ok scope ∧
      ∀ {σ : Type} (client : Client σ) (t : σ),
        let calls := (s.recover client scope t).abortCalls
        (s.effectiveStrategy = .listing ∨ c.toNat + 1 < UInt64.size → ∀ id ∈ pending, id ∉ calls) ∧
        (s.effectiveStrategy = .probing → ∀ id ∈ calls, ∃ parts, id.parts = .ok parts ∧
          (c < parts.sequence ∨ parts.sequence = c ∧ c.toNat + 1 = UInt64.size)) := by
  have recoverable := (check_eq_ok_iff exactlyOnce).1 accepted
  obtain ⟨scope, hscope, -, hstart, hstems, hpending, -⟩ :=
    recoverable.exists_scope placement (some c) pending
  refine ⟨scope, hscope, fun client t => ?_⟩
  intro calls
  have hcalls : calls = (s.effectiveStrategy.pass client scope t).abortCalls :=
    Recovery.run_abortCalls s.effectiveStrategy client scope t
  -- Pooled ids are not probed, and of the others those up to the checkpoint lie before the start.
  have start (probing : s.effectiveStrategy = .probing) :
      c < scope.start ∨ scope.start = c ∧ c.toNat + 1 = UInt64.size := by
    rw [hstart, recoverable.naming_of_probing probing]
    exact Naming.startSequence_restored c
  rw [hcalls]
  constructor
  · intro spares id hid
    refine Strategy.not_mem_calls_of_pending ?_ client t ((hpending id).2 hid)
    cases strategy : s.effectiveStrategy with
    | listing => trivial
    | probing =>
      intro parts hmem hclaims
      have known := (hstems _).1 (Scope.claims_iff.1 hclaims).1
      have hle := tracked strategy _ ((hpending _).1 hmem) parts (TxnId.parts_compose _ _ _) known
      obtain hlt | ⟨-, last⟩ := start strategy
      · exact UInt64.lt_of_le_of_lt hle hlt
      · rw [strategy, last] at spares
        exact spares.elim (fun h => nomatch h) fun h => (Nat.lt_irrefl _ h).elim
  · intro probing id hid
    rw [probing] at hid
    obtain ⟨parts, rfl, -, -, hle⟩ := (Probing.ascend_run client scope t).exists_of_mem hid
    refine ⟨parts, TxnId.parts_compose _ _ _, ?_⟩
    obtain hlt | ⟨he, last⟩ := start probing
    · exact .inl (UInt64.lt_of_lt_of_le hlt hle)
    · rw [he, UInt64.le_iff_toNat_le] at hle
      have hlt := parts.sequence.toNat_lt_size
      exact .inr ⟨UInt64.toNat_inj.1 (by omega), last⟩

/-- The transaction behind the checkpoint is aborted, and the one before it is the committer's. -/
theorem recover_spares_tracked_restart :
    let s : Settings := { delivery := .exactlyOnce, stem := some "app" }
    let held := TxnId.compose "app" 0 3
    let stale := TxnId.compose "app" 0 4
    let b := (Broker.empty.begin held.text none).begin stale.text none
    s.isTransactional = true ∧ s.check = .ok () ∧
      (∀ parts, held.parts = .ok parts → parts.sequence ≤ 3) ∧
      ∃ scope, s.scope ⟨0, 1, by decide⟩ (some 3) [held] = .ok scope ∧
        held ∉ (s.recover Broker.client scope b).abortCalls ∧
        stale ∈ (s.recover Broker.client scope b).abortCalls := by
  intro s held stale b
  have exactlyOnce : s.isTransactional = true := rfl
  have accepted : s.check = .ok () := rfl
  have upto (parts : TxnId.Parts) (h : held.parts = .ok parts) : parts.sequence ≤ 3 := by
    rw [TxnId.parts_compose] at h
    cases h
    exact UInt64.le_refl _
  obtain ⟨scope, hscope, spared⟩ := recover_spares_tracked exactlyOnce accepted ⟨0, 1, by decide⟩ 3
    [held] fun _ id hid parts hparts _ => by
      rw [List.mem_singleton.1 hid] at hparts
      exact upto parts hparts
  refine ⟨exactlyOnce, accepted, upto, scope, hscope, ?_, ?_⟩
  · exact (spared Broker.client b).1 (.inr (by decide)) held List.mem_cons_self
  · obtain ⟨made, hmade, hplacement, hstart, hstems, -⟩ := ((check_eq_ok_iff exactlyOnce).1
      accepted).exists_scope ⟨0, 1, by decide⟩ (some 3) [held]
    obtain rfl : made = scope := Except.ok.inj (hmade.symm.trans hscope)
    have closed := (Strategy.closes_start (b := b) rfl ((hstems _).2 (mem_knownStems.2 (.inl rfl)))).1
    rw [hplacement, hstart] at closed
    rw [recover, Recovery.run_abortCalls]
    exact closed

end Settings

end SinkFencing
