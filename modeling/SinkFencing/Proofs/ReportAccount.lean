import SinkFencing.Proofs.PassEnd
import SinkFencing.Proofs.ProbingVisits
import SinkFencing.Proofs.Retry

namespace SinkFencing

namespace Broker

def closed (before after : Broker) : Nat :=
  before.opened.countP fun entry => !after.isOpen entry.1

variable {b t : Broker} {ids : List TxnId}

theorem mem_opened_iff {id : TxnId} :
    id ∈ b.opened.map (fun entry => TxnId.mk entry.1) ↔ b.isOpen id.text = true := by
  rw [List.mem_map]
  constructor
  · intro h
    obtain ⟨entry, hentry, rfl⟩ := h
    exact Assoc.isSome_find?_of_mem hentry
  · intro h
    obtain ⟨topic, hfind⟩ := Option.isSome_iff_exists.1 h
    exact ⟨(id.text, topic), Assoc.mem_of_find?_eq_some hfind, rfl⟩

theorem closed_eq (reachable : b.Reachable) (nodup : ids.Nodup)
    (after : ∀ id : TxnId, t.isOpen id.text = true ↔ b.isOpen id.text = true ∧ id ∉ ids) :
    b.closed t = ids.countP fun id => b.isOpen id.text := by
  have distinct : (b.opened.map fun entry => TxnId.mk entry.1).Nodup := by
    refine List.pairwise_map.2 (reachable.ascending_opened.imp fun {x y} hlt he => ?_)
    rw [TxnId.mk.inj he] at hlt
    exact Std.lt_irrefl hlt
  calc b.closed t
    _ = (b.opened.map fun entry => TxnId.mk entry.1).countP (· ∈ ids) := by
      rw [closed, List.countP_map]
      refine List.countP_congr fun entry hentry => ?_
      have hopen : b.isOpen entry.1 = true := Assoc.isSome_find?_of_mem hentry
      have hafter := after ⟨entry.1⟩
      by_cases hmem : ⟨entry.1⟩ ∈ ids <;> simp_all
    _ = ids.countP fun id => b.isOpen id.text := by
      rw [List.countP_eq_length_filter, List.countP_eq_length_filter]
      apply List.Perm.length_eq
      refine (List.perm_ext_iff_of_nodup (distinct.filter _) (nodup.filter _)).2 fun id => ?_
      rw [List.mem_filter, List.mem_filter, mem_opened_iff, decide_eq_true_iff]
      exact And.comm

end Broker

namespace Probing

variable {σ : Type} {scope : Scope} {client : Client σ} {s : σ}

/-- What a report on a probing pass says about the visits that the events consist of. -/
structure Tally (scope : Scope) (events : List Event) (report : Report) : Prop where
  stems_le : scope.stems.size ≤ report.abortCalls
  fenced_le : report.fenced ≤ report.abortCalls
  calls_le : report.abortCalls ≤ 2 * report.fenced + scope.stems.size
  visits : ∃ visits : List (Visit scope),
    events = .note (.began .probing scope.placement) :: visits.flatMap Visit.trace ++
      [.note (.finished report.abortCalls report.fenced)] ∧
    (visits.map Visit.key).Nodup ∧
    report.abortCalls = report.fenced + visits.countP (fun visit => endsUnused visit.probes) ∧
    ((∀ visit ∈ visits, ¬ RunsThrough visit.stem visit.owner visit.probes) →
      report.abortCalls = report.fenced + visits.length)

theorem tally_of_answer (h : (run client scope s).answer = .ok ()) :
    Tally scope (Recovery.run .probing client scope s).events
      (Recovery.reportOf .probing scope (run client scope s).events) := by
  have sweep := sweep_run client scope s
  rw [h] at sweep
  obtain ⟨hstems, hcalls⟩ := sweep.countP_isAnswered_bounds
  obtain ⟨visits, rest, hevents, hrest⟩ := sweep.exists_visits
  cases hrest
  rw [List.append_nil] at hevents
  have hcount := countP_isAnswered_visits visits
  have nodup : (run client scope s).abortCalls.Nodup := Strategy.probing.nodup_calls client scope s
  rw [← hevents] at hcount
  refine ⟨hstems, Nat.le.intro hcount.symm, hcalls, visits, ?_, ?_, hcount, fun short => ?_⟩
  · rw [Recovery.run_apply, Strategy.pass, h, ← hevents]
  · exact nodup_keys visits (hevents ▸ nodup)
  · -- A visit that does not end at an unused id runs through.
    have hall : visits.countP (fun visit => endsUnused visit.probes) = visits.length := by
      refine List.countP_eq_length.2 fun visit hvisit => ?_
      cases he : endsUnused visit.probes with
      | true => rfl
      | false => exact absurd (visit.climb.counts.2.2 he).2 (short visit hvisit)
    rw [← hall]
    exact hcount

end Probing

theorem Listing.isOpen_of_mem_calls {b : Broker} {scope : Scope} (hb : b.abortsLeft = none)
    (h : (run Broker.client scope b).answer = .ok ()) {id : TxnId}
    (hid : id ∈ (run Broker.client scope b).abortCalls) : b.isOpen id.text = true := by
  obtain ⟨fault, -, hbad, -⟩ | ⟨ids, howned, -, hcalls⟩ := ends hb (listingFails_of_answer h) scope
  · rw [h] at hbad
    cases hbad
  · rw [hcalls] at hid
    have hname := ((mem_owned_iff howned id).1 (List.mem_filter.1 hid).1).1
    obtain ⟨entry, hentry, he⟩ := List.mem_map.1 (Ascending.mem_ofList.1 hname)
    rw [← he]
    exact Assoc.isSome_find?_of_mem (List.mem_filter.1 hentry).1

namespace Recovery

variable {σ : Type} {strategy : Strategy} {scope : Scope} {report : Report}

/-- What a report says about the run that gave it, whatever the client answered. -/
structure Accounts (strategy : Strategy) (scope : Scope) (run : Run σ Report) (report : Report) :
    Prop where
  placement_eq : report.placement = scope.placement
  calls_eq : report.abortCalls = run.abortCalls.length
  fenced_eq : report.fenced = (epochs run.events).countP fun epoch => !epoch.isUnused
  tally : strategy = .probing → Probing.Tally scope run.events report

theorem accounts_of_answer {client : Client σ} {s : σ}
    (h : (Recovery.run strategy client scope s).answer = .ok report) :
    Accounts strategy scope (Recovery.run strategy client scope s) report := by
  obtain ⟨hpass, rfl⟩ := pass_of_answer h
  have unfailed : Unfailed (strategy.pass client scope s).events := by
    rcases strategy.pass_ends client scope s with ends | ⟨-, unfailed, -⟩
    · rw [hpass] at ends
      exact ends.unfailed
    · exact unfailed
  refine ⟨rfl, ?_, ?_, fun hprobing => ?_⟩
  · rw [run_abortCalls]
    exact unfailed.countP_isAnswered
  · have hepochs : epochs (Recovery.run strategy client scope s).events =
        epochs (strategy.pass client scope s).events := run_filterMap (fun _ => rfl) strategy client scope s
    rw [hepochs]
    exact countP_metUse_eq _
  · subst hprobing
    exact Probing.tally_of_answer hpass

section Broker

variable {b : Broker}

/-- A recovery that succeeds on a broker does what it does there without failures. -/
theorem whole_of_answer (h : (Recovery.run strategy Broker.client scope b).answer = .ok report) :
    let full := Recovery.run strategy Broker.client scope (b.allow none)
    ∃ left, Recovery.run strategy Broker.client scope b = { full with state := full.state.allow left } := by
  intro full
  cases hb : b.abortsLeft with
  | none =>
    have hsame : Recovery.run strategy Broker.client scope b = full := by rw [← Broker.allow_none_of hb]
    have hnone : full.state.abortsLeft = none := by
      rw [run_state]
      exact Broker.abortsLeft_pass rfl strategy scope
    exact ⟨none, by rw [hsame, Broker.allow_none_of hnone]⟩
  | some budget =>
    have hsame : (b.allow none).allow (some budget) = b := by
      rw [← hb]
      rfl
    have hcut : Truncated (b.allow none) budget full (Recovery.run strategy Broker.client scope b) := by
      have hcut := truncated (Broker.fences_clientWith true) strategy scope (b := b.allow none) rfl budget
      rw [hsame] at hcut
      exact hcut
    generalize Recovery.run strategy Broker.client scope b = run at h hcut ⊢
    cases hcut with
    | whole => exact ⟨_, rfl⟩
    | cut => cases h

/-- The counts of a report, told from the broker before the recovery. -/
theorem counts_of_answer (reachable : b.Reachable)
    (h : (Recovery.run strategy Broker.client scope b).answer = .ok report) :
    let run := Recovery.run strategy Broker.client scope b
    report.abortCalls = run.abortCalls.length ∧
    report.fenced = (run.abortCalls.countP fun id => !(b.table id).isUnused) ∧
    b.closed run.state = run.abortCalls.countP fun id => b.isOpen id.text := by
  intro run
  obtain ⟨left, hwhole⟩ : ∃ left, run = _ := whole_of_answer h
  have hb : (b.allow none).abortsLeft = none := rfl
  have hcalls : run.abortCalls = (strategy.pass Broker.client scope (b.allow none)).abortCalls := by
    rw [hwhole]
    exact run_abortCalls strategy Broker.client scope (b.allow none)
  have hanswer : run.answer = .ok report := h
  rw [hwhole] at hanswer
  have ht : AnsweredBy b.table (strategy.pass Broker.client scope (b.allow none)).events :=
    Broker.answeredBy_pass hb strategy scope
  have hreport := (pass_of_answer hanswer).2
  rw [ht.reportOf_eq] at hreport
  rw [hcalls, hreport]
  refine ⟨rfl, rfl, ?_⟩
  apply Broker.closed_eq reachable (strategy.nodup_calls Broker.client scope (b.allow none))
  intro id
  have hstate : run.state = ((b.allow none).fenceAll
      (strategy.pass Broker.client scope (b.allow none)).abortCalls).allow left := by
    rw [hwhole, run_state, Broker.state_pass hb]
  rw [hstate]
  exact Broker.isOpen_fenceAll (b.allow none) _ id

theorem isOpen_of_mem_calls (h : (Recovery.run .listing Broker.client scope b).answer = .ok report)
    {id : TxnId} (hid : id ∈ (Recovery.run .listing Broker.client scope b).abortCalls) :
    b.isOpen id.text = true := by
  obtain ⟨left, hwhole⟩ := whole_of_answer h
  rw [hwhole] at h hid
  have hid : id ∈ (Recovery.run .listing Broker.client scope (b.allow none)).abortCalls := hid
  rw [run_abortCalls] at hid
  exact Listing.isOpen_of_mem_calls rfl (pass_of_answer h).1 hid

/-- A report accounts for the recovery that it is the answer of: it counts the calls, and those that met an
epoch in use. Probing visits bound the one by the other. On a broker the latter cover the transactions that
were closed, and a listing pass makes no other calls. -/
theorem report_accounts (strategy : Strategy) (scope : Scope) :
    (∀ {σ : Type} (client : Client σ) (s : σ) (report : Report),
      (Recovery.run strategy client scope s).answer = .ok report →
        Accounts strategy scope (Recovery.run strategy client scope s) report) ∧
    ∀ (b : Broker) (report : Report), b.Reachable →
      (Recovery.run strategy Broker.client scope b).answer = .ok report →
        let closed := b.closed (Recovery.run strategy Broker.client scope b).state
        match strategy with
        | .listing => report.abortCalls = closed ∧ report.fenced = closed
        | .probing => closed ≤ report.fenced := by
  refine ⟨fun client s report h => accounts_of_answer h, fun b report reachable h => ?_⟩
  obtain ⟨hcalls, hfenced, hclosed⟩ := counts_of_answer reachable h
  have hle : b.closed (Recovery.run strategy Broker.client scope b).state ≤ report.fenced := by
    rw [hclosed, hfenced]
    refine List.countP_mono_left fun id _ hopen => ?_
    rw [Broker.table, reachable.used_of_isOpen hopen]
    rfl
  cases strategy with
  | probing => exact hle
  | listing =>
    -- Every call closes a transaction, so the counts between the two are the same.
    have hall : b.closed (Recovery.run .listing Broker.client scope b).state = report.abortCalls := by
      rw [hclosed, hcalls]
      exact List.countP_eq_length.2 fun id hid => isOpen_of_mem_calls h hid
    have hfew : report.fenced ≤ report.abortCalls := by
      rw [hfenced, hcalls]
      exact List.countP_le_length
    exact ⟨hall.symm, Nat.le_antisymm (hall ▸ hfew) hle⟩

/-- Three subtasks stopped without a gap. The first of two that take over closes four transactions: by as
many calls if it lists, and else by eight, of which one met a transaction that was committed. -/
theorem report_accounts_downscaled :
    let b := Restart.stopped
    let scope := Restart.successor
    let run (strategy : Strategy) := Recovery.run strategy Broker.client scope b
    let listed : Report := ⟨.listing, scope.placement, 4, 4⟩
    let probed : Report := ⟨.probing, scope.placement, 8, 5⟩
    b.Reachable ∧
      (run .listing).answer = .ok listed ∧ b.closed (run .listing).state = 4 ∧
      Accounts .listing scope (run .listing) listed ∧
      (run .probing).answer = .ok probed ∧ b.closed (run .probing).state ≤ 5 ∧
      Accounts .probing scope (run .probing) probed := by
  intro b scope run listed probed
  have reachable : b.Reachable := Restart.reachable_stopped
  have legible : Listing.Legible b scope.stems scope.topics :=
    (Listing.legible_beginAll Restart.begun (some "orders") _ _).commit _
  have answer {strategy : Strategy} {calls fenced : Nat}
      (h : (strategy.pass Broker.client scope b).answer = .ok ())
      (hcalls : (strategy.pass Broker.client scope b).events.countP Event.isAnswered = calls)
      (hfenced : (strategy.pass Broker.client scope b).events.countP Event.metUse = fenced) :
      (run strategy).answer = .ok ⟨strategy, scope.placement, calls, fenced⟩ := by
    rw [run_answer, h, ← hcalls, ← hfenced]
    rfl
  have hlisted : (run .listing).answer = .ok listed :=
    answer (Listing.mem_calls_iff legible).1 (by decide +kernel) (by decide +kernel)
  have hprobed : (run .probing).answer = .ok probed :=
    answer (Probing.answer_pass rfl scope) (by decide +kernel) (by decide +kernel)
  have listing := report_accounts .listing scope
  have probing := report_accounts .probing scope
  exact ⟨reachable, hlisted, (listing.2 b _ reachable hlisted).1.symm, listing.1 _ b _ hlisted,
    hprobed, probing.2 b _ reachable hprobed, probing.1 _ b _ hprobed⟩

end Broker

end Recovery

end SinkFencing
