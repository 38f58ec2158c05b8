import Mathlib.Algebra.Ring.Nat
import SinkFencing.Proofs.ListingOutcome
import SinkFencing.Proofs.ReportAccount

namespace SinkFencing

variable {σ : Type}

def records (level : Level) (events : List Event) : List Notice :=
  (events.filterMap Event.notice?).filter (·.level = level)

theorem records_append (level : Level) (events events' : List Event) :
    records level (events ++ events') = records level events ++ records level events' := by
  rw [records, List.filterMap_append, List.filter_append]
  rfl

theorem notices_map_note (notices : List Notice) :
    (notices.map Event.note).filterMap Event.notice? = notices := by
  rw [List.filterMap_map]
  exact List.filterMap_some

namespace Recovery

/-- The last notice of a run, which only a run that succeeds has. -/
def summary : Except Fault Report → List Notice
  | .ok report => [.finished report.abortCalls report.fenced]
  | .error _ => []

section Run

variable (strategy : Strategy) (client : Client σ) (scope : Scope) (s : σ)

theorem run_events : (Recovery.run strategy client scope s).events =
    .note (.began strategy scope.placement) :: (strategy.pass client scope s).events ++
      (summary (Recovery.run strategy client scope s).answer).map .note := by
  rw [run_apply]
  cases (strategy.pass client scope s).answer <;> rfl

theorem run_notices : (Recovery.run strategy client scope s).notices =
    .began strategy scope.placement :: (strategy.pass client scope s).notices ++
      summary (Recovery.run strategy client scope s).answer := by
  rw [Run.notices, run_events, List.filterMap_append, notices_map_note]
  rfl

theorem run_records (level : Level) : records level (Recovery.run strategy client scope s).events =
    if level = .info then
      .began strategy scope.placement :: records level (strategy.pass client scope s).events ++
        summary (Recovery.run strategy client scope s).answer
    else records level (strategy.pass client scope s).events := by
  have hrecords : records level (Recovery.run strategy client scope s).events =
      (Recovery.run strategy client scope s).notices.filter (·.level = level) := rfl
  rw [hrecords, run_notices, List.filter_append, List.filter_cons]
  cases (Recovery.run strategy client scope s).answer <;> cases level <;>
    simp [summary, Notice.level, records, Run.notices]

theorem run_answered : answered (Recovery.run strategy client scope s).events =
    answered (strategy.pass client scope s).events := run_filterMap (fun _ => rfl) strategy client scope s

end Run

theorem pass_of_error {strategy : Strategy} {client : Client σ} {scope : Scope} {s : σ} {fault : Fault}
    (h : (Recovery.run strategy client scope s).answer = .error fault) :
    (strategy.pass client scope s).answer = .error fault := by
  rw [run_answer] at h
  cases hpass : (strategy.pass client scope s).answer with
  | error fault' =>
    rw [hpass] at h
    exact congrArg Except.error (Except.error.inj h)
  | ok =>
    rw [hpass] at h
    cases h

end Recovery

/-- What a walk says that it fenced. -/
def Notice.walkFenced? : Notice → Option Nat
  | walked _ _ used _ => some used
  | _ => none

namespace Probing

variable {scope : Scope} {stem : String} {owner : UInt32} {sequence : UInt64} {events : List Event}

theorem Climb.notices_eq {answer : Except Fault Nat} (h : Climb stem owner sequence events answer) :
    events.filterMap Event.notice? = (answered events).map fun call => .probed call.1 call.2 := by
  induction h with
  | failed | unused | top => rfl
  | up _ _ _ ih => rw [List.filterMap_append, answered_append, List.map_append, ih]; rfl

theorem Climb.records_eq {answer : Except Fault Nat} (h : Climb stem owner sequence events answer)
    (level : Level) : records level events =
      if level = .debug then (answered events).map fun call => .probed call.1 call.2 else [] := by
  rw [records, h.notices_eq, List.filter_map]
  cases level with
  | debug => exact congrArg _ (List.filter_eq_self.2 fun _ _ => rfl)
  | info | warn => exact congrArg _ (List.filter_eq_nil_iff.2 fun _ _ => Bool.false_ne_true)

namespace Visit

/-- The notice of a visit that met a used id. -/
def record (visit : Visit scope) : Notice :=
  .walked visit.stem visit.owner visit.used scope.placement

theorem trace_of_pos {visit : Visit scope} (h : 0 < visit.used) :
    visit.trace = visit.probes ++ [.note visit.record] := by
  rw [trace, if_pos h]
  rfl

theorem trace_of_not_pos {visit : Visit scope} (h : ¬ 0 < visit.used) : visit.trace = visit.probes := by
  rw [trace, if_neg h, List.append_nil]

end Visit

section Visits

variable (visits : List (Visit scope))

/-- Of the visits only those that met a used id are noted, in the order in which they were made. -/
theorem records_visits (level : Level) : records level (visits.flatMap Visit.trace) =
    match level with
    | .debug => (answered (visits.flatMap Visit.trace)).map fun call => .probed call.1 call.2
    | .info => (visits.filter (0 < ·.used)).map Visit.record
    | .warn => [] := by
  induction visits with
  | nil => cases level <;> rfl
  | cons visit visits ih =>
    rw [List.flatMap_cons, records_append, answered_append, List.filter_cons, List.map_append, ih]
    by_cases h : 0 < visit.used
    · have hcall : answered [.note visit.record] = [] := rfl
      have hrecord : records level [.note visit.record] = if level = .info then [visit.record] else [] := by
        cases level <;> rfl
      rw [Visit.trace_of_pos h, records_append, visit.climb.records_eq, hrecord, answered_append, hcall]
      cases level <;> simp [h]
    · rw [Visit.trace_of_not_pos h, visit.climb.records_eq]
      cases level <;> simp [h]

theorem walkFenced_map_record : (visits.map Visit.record).filterMap Notice.walkFenced? =
    visits.map Visit.used := by
  rw [List.filterMap_map, ← List.filterMap_eq_map]
  rfl

theorem sum_used_visits : ((visits.filter (0 < ·.used)).map Visit.used).sum =
    (visits.flatMap Visit.trace).countP Event.metUse := by
  induction visits with
  | nil => rfl
  | cons visit visits ih =>
    rw [List.flatMap_cons, List.countP_append, ← ih, Visit.countP_trace fun _ => rfl,
      visit.climb.counts.1, List.filter_cons]
    by_cases h : 0 < visit.used
    · simp [h]
    · have hzero : visit.used = 0 := Nat.eq_zero_of_not_pos h
      simp [hzero]

end Visits

theorem Rest.records_eq {rest : List Event} {answer : Except Fault Unit} (h : Rest scope rest answer)
    (level : Level) : records level rest =
      if level = .debug then (answered rest).map fun call => .probed call.1 call.2 else [] := by
  cases h with
  | done => cases level <;> rfl
  | interrupted climb => exact climb.records_eq level

/-- A visit in which a sweep fails adds its answered calls, but no notice of its own. -/
theorem Rest.records_behind {rest : List Event} {answer : Except Fault Unit} (h : Rest scope rest answer)
    (visits : List (Visit scope)) (level : Level) : records level (visits.flatMap Visit.trace ++ rest) =
    match level with
    | .debug => (answered (visits.flatMap Visit.trace ++ rest)).map fun call => .probed call.1 call.2
    | .info => (visits.filter (0 < ·.used)).map Visit.record
    | .warn => [] := by
  rw [records_append, records_visits, h.records_eq, answered_append, List.map_append]
  cases level <;> simp

/-- The visit in which a sweep fails is to an owner that was not visited before. -/
theorem nodup_keys_concat {visits : List (Visit scope)} {rest : List Event} {fault : Fault}
    (climb : Climb stem owner scope.start rest (.error fault))
    (nodup : (calls (visits.flatMap Visit.trace ++ rest)).Nodup) :
    (visits.map Visit.key ++ [(stem, owner)]).Nodup := by
  rw [calls_append] at nodup
  obtain ⟨hvisits, -, disjoint⟩ := List.nodup_append.1 nodup
  have hnew : (stem, owner) ∉ visits.map Visit.key := fun hkey =>
    disjoint _ (start_mem_of_key visits hkey) _ climb.start_mem rfl
  refine List.nodup_append.2 ⟨nodup_keys visits hvisits, by simp, fun key hkey other hother he => ?_⟩
  rw [he, List.mem_singleton.1 hother] at hkey
  exact hnew hkey

/-- What the log of a probing run says about the walks that it consists of and about its report. -/
structure Log (scope : Scope) (run : Run σ Report) : Prop where
  debug : records .debug run.events = (answered run.events).map fun call => .probed call.1 call.2
  warn : records .warn run.events = []
  /-- The walks that came to an end, in visiting order, and the one that the run failed in. -/
  walks : ∃ (visits : List (Visit scope)) (rest : List Event),
    run.events = .note (.began .probing scope.placement) :: (visits.flatMap Visit.trace ++ rest) ++
      (Recovery.summary run.answer).map .note ∧
    (∀ visit ∈ visits, visit.used = (epochs visit.probes).countP fun epoch => !epoch.isUnused) ∧
    records .info run.events = .began .probing scope.placement ::
      (visits.filter (0 < ·.used)).map Visit.record ++ Recovery.summary run.answer ∧
    match run.answer with
    | .ok _ => rest = [] ∧ (visits.map Visit.key).Nodup
    | .error fault => ∃ stem owner, Climb stem owner scope.start rest (.error fault) ∧
        (visits.map Visit.key ++ [(stem, owner)]).Nodup
  /-- What the walks say that they fenced adds up, and each counted call was noted. -/
  totals : ∀ report, run.answer = .ok report →
    ((records .info run.events).filterMap Notice.walkFenced?).sum = report.fenced ∧
    (records .debug run.events).length = report.abortCalls

theorem Log.of_run (client : Client σ) (scope : Scope) (s : σ) :
    Log scope (Recovery.run .probing client scope s) := by
  have sweep : Sweep scope scope.stems.elems (Strategy.probing.pass client scope s).events
      (Strategy.probing.pass client scope s).answer := sweep_run client scope s
  obtain ⟨visits, rest, hevents, hrest⟩ := sweep.exists_visits
  have nodup : (calls (visits.flatMap Visit.trace ++ rest)).Nodup :=
    hevents ▸ Strategy.probing.nodup_calls client scope s
  have hanswered := Recovery.run_answered .probing client scope s
  have hrecords := hrest.records_behind visits
  rw [← hevents] at hrecords
  have hdebug : records .debug (Recovery.run .probing client scope s).events =
      (answered (Recovery.run .probing client scope s).events).map fun call => .probed call.1 call.2 := by
    rw [Recovery.run_records, hrecords, hanswered]
    rfl
  have hinfo : records .info (Recovery.run .probing client scope s).events =
      .began .probing scope.placement :: (visits.filter (0 < ·.used)).map Visit.record ++
        Recovery.summary (Recovery.run .probing client scope s).answer := by
    rw [Recovery.run_records, hrecords]
    rfl
  refine ⟨hdebug, ?_, ⟨visits, rest, ?_, ?_, hinfo, ?_⟩, fun report hreport => ⟨?_, ?_⟩⟩
  · rw [Recovery.run_records, hrecords]
    rfl
  · rw [Recovery.run_events, hevents]
  · intro visit _
    rw [← countP_metUse_eq]
    exact visit.climb.counts.1.symm
  · cases hanswer : (Recovery.run .probing client scope s).answer with
    | ok report =>
      rw [(Recovery.pass_of_answer hanswer).1] at hrest
      cases hrest
      rw [List.append_nil] at nodup
      exact ⟨rfl, nodup_keys visits nodup⟩
    | error fault =>
      rw [Recovery.pass_of_error hanswer] at hrest
      cases hrest with
      | interrupted climb => exact ⟨_, _, climb, nodup_keys_concat climb nodup⟩
  · obtain ⟨hpass, rfl⟩ := Recovery.pass_of_answer hreport
    rw [hpass] at hrest
    cases hrest
    have hlog : (records .info (Recovery.run .probing client scope s).events).filterMap
        Notice.walkFenced? = (visits.filter (0 < ·.used)).map Visit.used := by
      rw [hinfo, hreport, List.filterMap_append, List.filterMap_cons, walkFenced_map_record]
      exact List.append_nil _
    rw [hlog, sum_used_visits, Recovery.reportOf, hevents, List.append_nil]
  · obtain ⟨-, rfl⟩ := Recovery.pass_of_answer hreport
    rw [hdebug, List.length_map, hanswered, length_answered]
    rfl

end Probing

namespace Listing

variable {scope : Scope} {names : List String} {ids : List TxnId}

theorem Fencing.notices_eq {events : List Event} {answer : Except Fault Unit}
    (h : Fencing ids events answer) :
    events.filterMap Event.notice? = (answered events).map fun call => .aborted call.1 call.2 := by
  induction h with
  | done | failed => rfl
  | @next id ids epoch events answer _ ih => exact congrArg (.aborted id epoch :: ·) ih

/-- Fencing calls ids up to the last or to a failure, and all calls before a failure are answered. -/
theorem Fencing.answered_cut {events : List Event} {answer : Except Fault Unit}
    (h : Fencing ids events answer) :
    answer = .ok () ∧ calls events = ids ∧ (answered events).map Prod.fst = ids ∨
    ∃ id unmade fault, answer = .error (.broker fault) ∧ ids = calls events ++ unmade ∧
      calls events = (answered events).map Prod.fst ++ [id] := by
  obtain ⟨hanswer, unfailed, hcalls⟩ | ⟨before, id, unmade, fault, hanswer, rfl, unfailed, hids⟩ :=
    h.cut
  · exact .inl ⟨hanswer, hcalls, unfailed.map_fst_answered.trans hcalls⟩
  · have hcalls : calls (before ++ [.abort id (.error fault)]) = calls before ++ [id] := calls_append ..
    have hmade : (answered (before ++ [.abort id (.error fault)])).map Prod.fst = calls before := by
      rw [answered_append, List.map_append, unfailed.map_fst_answered]
      exact List.append_nil _
    refine .inr ⟨id, unmade, fault, hanswer, ?_, ?_⟩
    · rw [hcalls, hids, List.append_assoc]
      rfl
    · rw [hcalls, hmade]

/-- What the log of a listing run says about the names that it was told and about its report. -/
structure Log (scope : Scope) (names : List String) (ids targets : List TxnId) (run : Run σ Report) :
    Prop where
  claimed : Claimed scope names ids
  wanted : Targets scope names targets
  notices_eq : run.notices = .began .listing scope.placement :: .found ids scope.placement ::
    ((ids.filter (· ∈ scope.pending)).map .spared ++
      (answered run.events).map fun call => .aborted call.1 call.2) ++ Recovery.summary run.answer
  length_eq : ids.length = (ids.filter (· ∈ scope.pending)).length + targets.length
  completed : ∀ report, run.answer = .ok report → run.abortCalls = targets ∧
    (answered run.events).map Prod.fst = run.abortCalls ∧
    (answered run.events).length = report.abortCalls
  /-- All calls but the last were answered, and the targets behind it are not called. -/
  failed : ∀ fault, run.answer = .error fault → ∃ id unmade,
    run.abortCalls = (answered run.events).map Prod.fst ++ [id] ∧ targets = run.abortCalls ++ unmade

theorem notices_preface (some : names ≠ []) (ids : List TxnId) :
    (preface scope names ids).filterMap Event.notice? =
      .found ids scope.placement :: (ids.filter (· ∈ scope.pending)).map .spared := by
  have hspared : sparedEvents (ids.filter (· ∈ scope.pending)) =
      ((ids.filter (· ∈ scope.pending)).map Notice.spared).map .note := (List.map_map ..).symm
  rw [preface, if_neg some, hspared]
  exact congrArg (.found ids scope.placement :: ·) (notices_map_note _)

theorem answered_preface (ids : List TxnId) : answered (preface scope names ids) = [] := by
  have unfailed : Unfailed (preface scope names ids) := unfailed_preface ids
  have hnil := unfailed.map_fst_answered
  rw [calls_preface] at hnil
  exact List.map_eq_nil_iff.1 hnil

theorem Log.of_told {client : Client σ} {s t : σ}
    {list : List String → σ → Except BrokerFault (List String) × σ} (lists : client.list? = some list)
    (told : list scope.topics s = (.ok names, t)) (some : names ≠ [])
    (good : owned scope (Ascending.ofList names).elems = .ok ids) :
    Log scope names ids (ids.filter (· ∉ scope.pending)) (Recovery.run .listing client scope s) := by
  have fencing := fencing_each client (ids.filter (· ∉ scope.pending)) t
  have hpass : Strategy.listing.pass client scope s = _ := run_of_owned lists told good
  generalize Pass.each (ids.filter (· ∉ scope.pending)) (fence client) t = fenced at fencing hpass
  have hanswered : answered (Recovery.run .listing client scope s).events = answered fenced.events := by
    rw [Recovery.run_answered, hpass, answered_append, answered_preface, List.nil_append]
  have hcalls : (Recovery.run .listing client scope s).abortCalls = calls fenced.events := by
    rw [Recovery.run_abortCalls, hpass]
    exact (calls_append ..).trans (by rw [calls_preface, List.nil_append])
  have claimed := claimed_of_owned good
  refine ⟨claimed, claimed.targets, ?_, ?_, fun report hreport => ?_, fun fault hfault => ?_⟩
  · rw [Recovery.run_notices, Run.notices, hpass, List.filterMap_append, notices_preface some,
      fencing.notices_eq, hanswered]
    rfl
  · have hsplit : ids.length = _ := List.length_eq_countP_add_countP (· ∈ scope.pending)
    simpa [List.countP_eq_length_filter] using hsplit
  · obtain ⟨hok, rfl⟩ := Recovery.pass_of_answer hreport
    rw [hpass] at hok
    obtain ⟨-, hall, hmade⟩ | ⟨id, unmade, fault, hbad, -⟩ := fencing.answered_cut
    · refine ⟨hcalls.trans hall, ?_, ?_⟩
      · rw [hanswered, hcalls, hmade, hall]
      · rw [Recovery.run_answered, length_answered]
        rfl
    · rw [hok] at hbad
      cases hbad
  · have herror := Recovery.pass_of_error hfault
    rw [hpass] at herror
    obtain ⟨hbad, -⟩ | ⟨id, unmade, fault, -, hids, hmade⟩ := fencing.answered_cut
    · rw [herror] at hbad
      cases hbad
    · rw [hcalls, hanswered]
      exact ⟨id, unmade, hmade, hids⟩

end Listing

open Listing in
/-- The log of a coordinated run agrees with its calls and with its report, whatever the client answers. A
probing run notes the calls that were answered, and each walk that came to an end and met a used id with the
number of those; on success these numbers and the calls are those of the report, and on failure neither a last
notice nor one of the walk that failed is there. A listing run that could read what it was told notes all ids
that it claims, spares the pending ones, and notes the calls for the others as they are answered. -/
theorem Recovery.log_agrees (client : Client σ) (scope : Scope) (s : σ) :
    Probing.Log scope (Recovery.run .probing client scope s) ∧
    ∀ list names t, client.list? = some list → list scope.topics s = (.ok names, t) → names ≠ [] →
      (∀ name ∈ names, ¬ Mismatch scope.stems name) →
      ∃ ids targets, Listing.Log scope names ids targets (Recovery.run .listing client scope s) := by
  refine ⟨.of_run client scope s, fun list names t lists told some readable => ?_⟩
  cases found : owned scope (Ascending.ofList names).elems with
  | error fault =>
    obtain ⟨name, first, -⟩ := first_of_owned found
    exact absurd first.least.mismatch (readable name first.least.told)
  | ok ids => exact ⟨ids, _, .of_told lists told some found⟩

example :
    let scope := Scope.ofStem ⟨0, 1, by decide⟩ 0 "app" [⟨"app-0-3"⟩] (by decide)
    let client : Client Unit :=
      ⟨fun _ _ => (.ok ⟨4⟩, ()), some fun _ _ => (.ok ["app-0-3", "other-0-1", "app-1-0"], ())⟩
    (Recovery.run .listing client scope ()).notices.map Notice.fields =
      [[("strategy", "listing"), ("subtask", "0/1")],
        [("count", "2"), ("subtask", "0/1"), ("transactions", "[\"app-0-3\", \"app-1-0\"]")],
        [("transactional_id", "app-0-3")], [("transactional_id", "app-1-0"), ("epoch", "4")],
        [("abort_calls", "1"), ("fenced", "1")]] := by decide +kernel

end SinkFencing
