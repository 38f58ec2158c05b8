import SinkFencing.Proofs.Noninterference
import SinkFencing.Proofs.Truncation

namespace SinkFencing

open TxnId

/-- The broker after attempts of a pass that are each let so many fencing calls through. -/
def attempts (pass : Pass Broker Unit) (b : Broker) (budgets : List Nat) : Broker :=
  budgets.foldl (fun b budget => (pass (b.failAbortsAfter budget)).state) b

variable {b : Broker} {scope : Scope} {lists : Bool}

theorem Broker.Sound.fenceAll (h : b.Sound) (ids : List TxnId) : (b.fenceAll ids).Sound := by
  induction ids generalizing b with
  | nil => exact h
  | cons id ids ih => exact ih (h.fence id.text)

theorem filter_not_mem_take {ids : List TxnId} (nodup : ids.Nodup) (n : Nat) :
    ids.filter (· ∉ ids.take n) = ids.drop n := by
  have hsplit : (ids.take n ++ ids.drop n).Nodup := by
    rw [List.take_append_drop]
    exact nodup
  have htake : (ids.take n).filter (· ∉ ids.take n) = [] :=
    List.filter_eq_nil_iff.2 fun id hid => by simpa using hid
  have hdrop : (ids.drop n).filter (· ∉ ids.take n) = ids.drop n := by
    refine List.filter_eq_self.2 fun id hid => decide_eq_true fun hmem => ?_
    exact (List.nodup_append.1 hsplit).2.2 id hmem id hid rfl
  calc ids.filter (· ∉ ids.take n)
    _ = (ids.take n ++ ids.drop n).filter (· ∉ ids.take n) := by rw [List.take_append_drop]
    _ = ids.drop n := by rw [List.filter_append, htake, hdrop, List.nil_append]

namespace Listing

theorem listingFails_of_answer (h : (run Broker.client scope b).answer = .ok ()) :
    b.listingFails = false := by
  cases hl : b.listingFails with
  | false => rfl
  | true =>
    rw [(run_of_listingFails hl scope).1] at h
    cases h

theorem lists_of_answer (h : (run (Broker.clientWith lists) scope b).answer = .ok ()) :
    lists = true := by
  cases lists with
  | true => rfl
  | false =>
    rw [run_of_unable rfl] at h
    cases h

theorem owned_cons_of_read {name : String} {rest : List String} {parts : Parts} {later : List TxnId}
    (carries : scope.mayCarryStem name = true) (hparts : Parts.read name = .ok parts)
    (hlater : owned scope rest = .ok later) : owned scope (name :: rest) =
      .ok (if scope.claims parts then ⟨name⟩ :: later else later) := by
  rw [owned, if_pos carries, hparts, hlater]
  rfl

/-- The ids among the names that are kept are those that were found before. -/
theorem owned_filter_of_ok {names : List String} {ids : List TxnId} (keep : String → Bool)
    (h : owned scope names = .ok ids) :
    owned scope (names.filter keep) = .ok (ids.filter fun id => keep id.text) := by
  induction names generalizing ids with
  | nil =>
    cases h
    rfl
  | cons name rest ih =>
    by_cases carries : scope.mayCarryStem name = true
    · obtain ⟨parts, later, hparts, hlater, hids⟩ := owned_cons_of_carries carries h
      rw [hids]
      by_cases hkeep : keep name = true
      · rw [List.filter_cons_of_pos hkeep, owned_cons_of_read carries hparts (ih hlater)]
        split
        · rw [List.filter_cons_of_pos (by exact hkeep)]
        · rfl
      · rw [List.filter_cons_of_neg hkeep, ih hlater]
        split
        · rw [List.filter_cons_of_neg (by exact hkeep)]
        · rfl
    · rw [owned, if_neg carries] at h
      by_cases hkeep : keep name = true
      · rw [List.filter_cons_of_pos hkeep, owned, if_neg carries, ih h]
      · rw [List.filter_cons_of_neg hkeep, ih h]

theorem pass_after_take (hb : b.abortsLeft = none) (h : (run Broker.client scope b).answer = .ok ())
    (n : Nat) :
    let calls := (run Broker.client scope b).abortCalls
    let rest := run Broker.client scope (b.fenceAll (calls.take n))
    rest.answer = .ok () ∧ rest.abortCalls = calls.drop n := by
  intro calls rest
  have hl := listingFails_of_answer h
  have hb' : (b.fenceAll (calls.take n)).abortsLeft = none := by rw [Broker.abortsLeft_fenceAll, hb]
  have hl' : (b.fenceAll (calls.take n)).listingFails = false := by
    rw [Broker.listingFails_fenceAll, hl]
  have nodup : calls.Nodup := Strategy.listing.nodup_calls Broker.client scope b
  obtain ⟨fault, -, hbad, -⟩ | ⟨ids, hids, -, hcalls⟩ := ends hb hl scope
  · rw [h] at hbad
    cases hbad
  · have hcalls : calls = ids.filter (· ∉ scope.pending) := hcalls
    have hleft : owned scope
        (Ascending.ofList ((b.fenceAll (calls.take n)).listed scope.topics)).elems =
        .ok (ids.filter (· ∉ calls.take n)) := by
      rw [Broker.listed_fenceAll_eq, Ascending.elems_ofList_filter]
      exact owned_filter_of_ok _ hids
    obtain ⟨hanswer, hrest⟩ := outcome_of_owned hb' hl' scope
    rw [hleft] at hanswer hrest
    refine ⟨hanswer, hrest.trans ?_⟩
    calc (ids.filter (· ∉ calls.take n)).filter (· ∉ scope.pending)
      _ = (ids.filter (· ∉ scope.pending)).filter (· ∉ calls.take n) := by
        simp only [List.filter_filter, Bool.and_comm]
      _ = calls.filter (· ∉ calls.take n) := by rw [← hcalls]
      _ = calls.drop n := filter_not_mem_take nodup n

end Listing

namespace Strategy

variable (strategy : Strategy) (lists : Bool) (scope : Scope)

/-- An attempt succeeds just if it is let through all calls that the pass makes without failures. -/
theorem answer_allow_iff (hb : b.abortsLeft = none) {left : Option Nat} :
    let pass := strategy.pass (Broker.clientWith lists) scope
    (pass b).answer = .ok () → ((pass (b.allow left)).answer = .ok () ↔
      ∀ budget, left = some budget → (pass b).abortCalls.length ≤ budget) := by
  intro pass hok
  cases left with
  | none =>
    rw [Broker.allow_none_of hb]
    exact iff_of_true hok fun _ h => nomatch h
  | some budget =>
    have ht : Truncated b budget (pass b) (pass (b.allow (some budget))) :=
      (plain_pass scope strategy).truncated (Broker.fences_clientWith lists) hb budget
    rw [ht.answer_ok_iff hok]
    constructor
    · intro fits other he
      cases he
      exact fits
    · intro fits
      exact fits budget rfl

theorem state_failAbortsAfter (hb : b.abortsLeft = none) (budget : Nat) :
    let pass := strategy.pass (Broker.clientWith lists) scope
    (pass (b.failAbortsAfter budget)).state.allow none =
      b.fenceAll ((pass b).abortCalls.take budget) :=
  ((plain_pass scope strategy).truncated (Broker.fences_clientWith lists) hb budget).state_eq
    (Broker.state_clientWith hb strategy lists scope) hb

theorem state_of_answer_ok (hb : b.abortsLeft = none) {left : Option Nat} :
    let pass := strategy.pass (Broker.clientWith lists) scope
    (pass b).answer = .ok () → (pass (b.allow left)).answer = .ok () →
      (pass (b.allow left)).state.allow none = (pass b).state := by
  intro pass hok hleft
  have fits : ∀ budget, left = some budget → (pass b).abortCalls.length ≤ budget :=
    (answer_allow_iff strategy lists scope hb hok).1 hleft
  have hstate : (pass b).state = b.fenceAll (pass b).abortCalls :=
    Broker.state_clientWith hb strategy lists scope
  cases left with
  | none =>
    rw [Broker.allow_none_of hb, hstate]
    exact Broker.allow_none_of ((Broker.abortsLeft_fenceAll b _).trans hb)
  | some budget =>
    have hcut : (pass (b.failAbortsAfter budget)).state.allow none =
        b.fenceAll ((pass b).abortCalls.take budget) :=
      state_failAbortsAfter strategy lists scope hb budget
    rw [List.take_of_length_le (fits budget rfl), ← hstate] at hcut
    exact hcut

/-- What a pass that is cut at any call keeps, all attempts keep. -/
theorem attempts_induction {P : Broker → Prop} (start : P (b.allow none)) :
    let pass := strategy.pass (Broker.clientWith lists) scope
    (∀ c, P c → ∀ budget, P (c.fenceAll ((pass c).abortCalls.take budget))) →
      ∀ budgets, P ((attempts pass b budgets).allow none) := by
  intro pass step budgets
  induction budgets generalizing b with
  | nil => exact start
  | cons budget rest ih =>
    refine ih (b := (pass (b.failAbortsAfter budget)).state) ?_
    have hstate := state_failAbortsAfter strategy lists scope (b := b.allow none) rfl budget
    exact hstate ▸ step (b.allow none) start budget

end Strategy

theorem Listing.attempts_eq (budgets : List Nat) :
    let pass := run Broker.client scope
    let once := pass (b.allow none)
    once.answer = .ok () →
      ∃ n, (attempts pass b budgets).allow none = (b.allow none).fenceAll (once.abortCalls.take n) := by
  intro pass once hok
  refine Strategy.attempts_induction .listing true scope
    (P := fun c => ∃ n, c = (b.allow none).fenceAll (once.abortCalls.take n)) ⟨0, rfl⟩ ?_ budgets
  intro c hc budget
  obtain ⟨n, hc⟩ := hc
  -- The attempt has the calls left that were not yet made, and makes the first of them.
  have hrest : (pass c).abortCalls = once.abortCalls.drop n := by
    rw [hc]
    exact (pass_after_take rfl hok n).2
  refine ⟨n + budget, ?_⟩
  show c.fenceAll ((pass c).abortCalls.take budget) = _
  rw [hrest, hc, ← Broker.fenceAll_append, ← List.take_add]

/-- After any attempts of a listing pass, one that is not cut leaves what one pass leaves. -/
theorem Listing.pass_after_attempts (budgets : List Nat) :
    let pass := run Broker.client scope
    let once := pass (b.allow none)
    let last := pass ((attempts pass b budgets).allow none)
    once.answer = .ok () → last.answer = .ok () ∧ last.state = once.state := by
  intro pass once last hok
  obtain ⟨n, hn⟩ := attempts_eq budgets hok
  obtain ⟨hanswer, hcalls⟩ := pass_after_take rfl hok n
  have hlast : last = pass ((b.allow none).fenceAll (once.abortCalls.take n)) := congrArg pass hn
  have hstate : once.state = (b.allow none).fenceAll once.abortCalls :=
    Broker.state_pass rfl .listing scope
  have hrest : last.state = ((attempts pass b budgets).allow none).fenceAll last.abortCalls :=
    Broker.state_pass rfl .listing scope
  refine ⟨by rw [hlast]; exact hanswer, ?_⟩
  rw [hrest, hn, hlast, hcalls, ← Broker.fenceAll_append, List.take_append_drop, hstate]

theorem Probing.closed_of_reached (lists : Bool) (hb : b.abortsLeft = none) {parts : Parts}
    (h : Reached b.table scope parts) :
    (Strategy.probing.pass (Broker.clientWith lists) scope b).state.isOpen parts.compose.text =
      false := by
  rw [Broker.state_clientWith hb .probing lists scope]
  apply Broker.closed_of_mem
  exact (mem_calls_iff (Broker.answeredBy_clientWith hb .probing lists scope) parts).2 h

theorem Probing.used_attempts (reachable : b.Reachable) (budgets : List Nat) (id : TxnId) :
    let pass := run (Broker.clientWith lists) scope
    Used b.table id → Used ((attempts pass b budgets).allow none).table id := by
  intro pass hused
  have sound : (b.allow none).Sound := reachable.sound.of_le rfl fun _ hopen => hopen
  have kept : ((attempts pass b budgets).allow none).Sound ∧
      Used ((attempts pass b budgets).allow none).table id := by
    refine Strategy.attempts_induction (P := fun c => c.Sound ∧ Used c.table id) .probing lists scope
      ⟨sound, hused⟩ ?_ budgets
    intro c hc budget
    have nodup := (Strategy.probing.nodup_calls (Broker.clientWith lists) scope c).sublist
      (List.take_sublist budget _)
    exact ⟨hc.1.fenceAll _, (Broker.used_fenceAll_iff hc.1 nodup id).2 (.inl hc.2)⟩
  exact kept.2

/-- After any attempts of a probing pass, one that is not cut comes to all that one pass comes to. -/
theorem Probing.pass_after_attempts (reachable : b.Reachable) (budgets : List Nat) :
    let pass := run (Broker.clientWith lists) scope
    let last := pass ((attempts pass b budgets).allow none)
    last.answer = .ok () ∧ ∀ id ∈ (pass (b.allow none)).abortCalls, id ∈ last.abortCalls := by
  intro pass last
  have once : AnsweredBy (b.allow none).table (pass (b.allow none)).events :=
    Broker.answeredBy_clientWith rfl .probing lists scope
  have after : AnsweredBy ((attempts pass b budgets).allow none).table last.events :=
    Broker.answeredBy_clientWith rfl .probing lists scope
  refine ⟨answer_of_table after, fun id hid => ?_⟩
  obtain ⟨parts, he, hreached⟩ := (ascend_of_table once).exists_of_mem hid
  rw [he]
  refine (mem_calls_iff after parts).2 (hreached.mono fun other _ hused => ?_)
  exact used_attempts reachable budgets other.compose hused

namespace Strategy

/-- However often a pass is cut short, the first attempt that succeeds closes all that one pass without
failures closes. Listing then leaves the very state that the one pass leaves: what it called, all
attempts together called, in the same order and each id once. -/
theorem retry_converges (strategy : Strategy) (lists : Bool) (scope : Scope) (b : Broker)
    (reachable : b.Reachable)
    (succeeds : (strategy.pass (Broker.clientWith lists) scope (b.allow none)).answer = .ok ())
    (budgets : List Nat) (left : Option Nat) :
    let pass := strategy.pass (Broker.clientWith lists) scope
    let once := pass (b.allow none)
    let tried := attempts pass b budgets
    let last := pass (tried.allow left)
    (last.answer = .ok () ↔
      ∀ budget, left = some budget → (pass (tried.allow none)).abortCalls.length ≤ budget) ∧
    (last.answer = .ok () →
      (∀ name, b.isOpen name = true → once.state.isOpen name = false →
        last.state.isOpen name = false) ∧
      (strategy = .listing → last.state.allow none = once.state ∧
        last.state.aborted = b.aborted ++ once.abortCalls.map TxnId.text ∧ once.abortCalls.Nodup)) := by
  intro pass once tried last
  have honce : once.state = (b.allow none).fenceAll once.abortCalls :=
    Broker.state_clientWith rfl strategy lists scope
  -- The last attempt ends like the one that no failure is ordered for.
  let full := pass (tried.allow none)
  have hfull : full.state = (tried.allow none).fenceAll full.abortCalls :=
    Broker.state_clientWith rfl strategy lists scope
  have ends (h : full.answer = .ok ()) : (last.answer = .ok () ↔
      ∀ budget, left = some budget → full.abortCalls.length ≤ budget) ∧
      (last.answer = .ok () → last.state.allow none = full.state) :=
    ⟨answer_allow_iff strategy lists scope (b := tried.allow none) rfl h,
      state_of_answer_ok strategy lists scope (b := tried.allow none) rfl h⟩
  cases strategy with
  | probing =>
    obtain ⟨hanswer, hcalls⟩ := Probing.pass_after_attempts reachable budgets
    refine ⟨(ends hanswer).1, fun hok => ⟨fun name hopen hclosed => ?_, fun h => nomatch h⟩⟩
    rw [honce] at hclosed
    have hcalled : ⟨name⟩ ∈ once.abortCalls := Broker.mem_of_closed (b := b.allow none) hopen hclosed
    show (last.state.allow none).isOpen name = false
    rw [(ends hanswer).2 hok, hfull]
    exact Broker.closed_of_mem (hcalls _ hcalled)
  | listing =>
    have hlists : lists = true := Listing.lists_of_answer succeeds
    subst hlists
    obtain ⟨hanswer, hsame⟩ := Listing.pass_after_attempts budgets succeeds
    refine ⟨(ends hanswer).1, fun hok => ?_⟩
    have hstate : last.state.allow none = once.state := ((ends hanswer).2 hok).trans hsame
    refine ⟨fun name _ hclosed => ?_, fun _ => ⟨hstate, ?_, nodup_calls .listing _ scope _⟩⟩
    · show (last.state.allow none).isOpen name = false
      rw [hstate, hclosed]
    · show (last.state.allow none).aborted = _
      rw [hstate, honce, Broker.aborted_fenceAll]
      rfl

/-- The first attempt is let fence one of two transactions, the second none, and the third what is left. -/
theorem retry_converges_third :
    let b := (Broker.empty.begin (compose "app" 0 0).text none).begin (compose "app" 0 1).text none
    let scope := Scope.ofStem ⟨0, 1, by decide⟩ 0 "app" [] (by decide)
    let pass (strategy : Strategy) := strategy.pass (Broker.clientWith true) scope
    let last (strategy : Strategy) :=
      pass strategy ((attempts (pass strategy) b [1, 0]).allow none)
    b.Reachable ∧ (∀ strategy, (pass strategy (b.allow none)).answer = .ok ()) ∧
      (∀ strategy, (last strategy).answer = .ok ()) ∧
      (last .probing).state.isOpen (compose "app" 0 1).text = false ∧
      (last .listing).state.aborted = [(compose "app" 0 0).text, (compose "app" 0 1).text] := by
  intro b scope pass last
  have reachable : b.Reachable := (Broker.Reachable.empty.step (.begin _ _)).step (.begin _ _)
  have succeeds (strategy : Strategy) : (pass strategy (b.allow none)).answer = .ok () := by
    cases strategy with
    | probing => exact Probing.answer_of_table (Broker.answeredBy_clientWith rfl .probing true scope)
    | listing => rfl
  have retry (strategy : Strategy) :=
    retry_converges strategy true scope b reachable (succeeds strategy) [1, 0] none
  have hok (strategy : Strategy) : (last strategy).answer = .ok () :=
    (retry strategy).1.2 fun _ h => nomatch h
  have hfirst : b.isOpen (compose "app" 0 0).text = true := rfl
  have hused : Used (b.allow none).table (compose "app" 0 0) := reachable.used_of_isOpen hfirst
  have hreached : Probing.Reached (b.allow none).table scope ⟨"app", 0, 1⟩ := by
    refine Probing.reached_iff.2 ⟨by decide, by decide, fun earlier way => ?_⟩
    cases way with
    | owner _ lower => exact absurd (UInt32.lt_iff_toNat_lt.1 lower) (Nat.not_lt_zero _)
    | @sequence _ _ q _ _ lower =>
      have hq : q = 0 := UInt64.toNat_inj.1 (Nat.lt_one_iff.1 (UInt64.lt_iff_toNat_lt.1 lower))
      rw [hq]
      exact hused
  have hclosed := Probing.closed_of_reached true (b := b.allow none) rfl hreached
  have hprobed := ((retry .probing).2 (hok .probing)).1 (compose "app" 0 1).text rfl hclosed
  refine ⟨reachable, succeeds, hok, hprobed, ?_⟩
  rw [(((retry .listing).2 (hok .listing)).2 rfl).2.1]
  rfl

end Strategy

end SinkFencing
