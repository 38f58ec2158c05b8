import SinkFencing.Proofs.Counting
import SinkFencing.Proofs.ListingEffect

namespace SinkFencing

variable {σ α β : Type}

def Event.failure? : Event → Option BrokerFault
  | .abort _ (.error fault) => some fault
  | .list _ (.error fault) => some fault
  | _ => none

/-- Every call among the events was answered. -/
def Unfailed (events : List Event) : Prop := ∀ event ∈ events, event.failure? = none

/-- The last of the events is a call that failed, and no other call did. -/
def FailsWith (fault : BrokerFault) (events : List Event) : Prop :=
  ∃ before last, events = before ++ [last] ∧ Unfailed before ∧ last.failure? = some fault

namespace Unfailed

variable {events events' : List Event}

theorem nil : Unfailed [] := fun _ hmem => (List.not_mem_nil hmem).elim

theorem cons {event : Event} (answered : event.failure? = none) (h : Unfailed events) :
    Unfailed (event :: events) := List.forall_mem_cons.2 ⟨answered, h⟩

theorem append (h : Unfailed events) (h' : Unfailed events') : Unfailed (events ++ events') :=
  fun event hmem => (List.mem_append.1 hmem).elim (h event) (h' event)

/-- Where no call failed, the answered calls are all calls. -/
theorem map_fst_answered (h : Unfailed events) : (answered events).map Prod.fst = calls events := by
  induction events with
  | nil => rfl
  | cons event events ih =>
    obtain ⟨hevent, hevents⟩ := List.forall_mem_cons.1 h
    cases event with
    | abort id answer =>
      cases answer with
      | ok epoch => exact congrArg (id :: ·) (ih hevents)
      | error fault => cases hevent
    | list | note => exact ih hevents

theorem countP_isAnswered (h : Unfailed events) :
    events.countP Event.isAnswered = (calls events).length := by
  rw [← length_answered, ← h.map_fst_answered, List.length_map]

end Unfailed

theorem FailsWith.behind {fault : BrokerFault} {before events : List Event}
    (h : FailsWith fault events) (unfailed : Unfailed before) :
    FailsWith fault (before ++ events) := by
  obtain ⟨first, last, rfl, hfirst, hlast⟩ := h
  exact ⟨before ++ first, last, (List.append_assoc _ _ _).symm, unfailed.append hfirst, hlast⟩

/-- The two ways in which calls end: all of them are answered, or the last one fails. -/
inductive CallsEnd (events : List Event) : Except Fault α → Prop
  | answered {a : α} (unfailed : Unfailed events) : CallsEnd events (.ok a)
  | failed {fault : BrokerFault} (fails : FailsWith fault events) :
      CallsEnd events (.error (.broker fault))

namespace CallsEnd

variable {before events : List Event} {answer : Except Fault α}

theorem behind (h : CallsEnd events answer) (unfailed : Unfailed before) :
    CallsEnd (before ++ events) answer := by
  cases h with
  | answered h => exact .answered (unfailed.append h)
  | failed fails => exact .failed (fails.behind unfailed)

theorem cons {event : Event} (h : CallsEnd events answer) (answered : event.failure? = none) :
    CallsEnd (event :: events) answer := by
  have first : Unfailed [event] := .cons answered .nil
  exact h.behind first

theorem map (h : CallsEnd events answer) (f : α → β) : CallsEnd events (answer.map f) := by
  cases h with
  | answered h => exact .answered h
  | failed fails => exact .failed fails

theorem unfailed {a : α} (h : CallsEnd events (.ok a)) : Unfailed events := by
  cases h with
  | answered h => exact h

theorem of_error {fault : Fault} (h : CallsEnd (α := α) events (.error fault)) :
    CallsEnd (α := β) events (.error fault) := by
  cases h with
  | failed fails => exact .failed fails

end CallsEnd

namespace Probing

variable {stem : String} {scope : Scope} {events : List Event}

theorem unfailed_probeEvents (id : TxnId) (epoch : Epoch) : Unfailed (probeEvents id epoch) :=
  .cons rfl (.cons rfl .nil)

theorem Climb.ends {owner : UInt32} {sequence : UInt64} {answer : Except Fault Nat}
    (h : Climb stem owner sequence events answer) : CallsEnd events answer := by
  induction h with
  | failed sequence fault => exact .failed ⟨[], _, rfl, .nil, rfl⟩
  | unused | top => exact .answered (unfailed_probeEvents _ _)
  | up _ _ _ ih => exact (ih.behind (unfailed_probeEvents _ _)).map _

theorem Walk.ends {owner : UInt32} {answer : Except Fault Unit}
    (h : Walk scope stem owner events answer) : CallsEnd events answer := by
  induction h with
  | failed climb => exact climb.ends.of_error
  | unused climb => exact .answered climb.ends.unfailed
  | top climb => exact .answered (climb.ends.unfailed.append (.cons rfl .nil))
  | up climb _ _ _ ih => exact (ih.cons rfl).behind climb.ends.unfailed

theorem Sweep.ends {stems : List String} {answer : Except Fault Unit}
    (h : Sweep scope stems events answer) : CallsEnd events answer := by
  induction h with
  | done => exact .answered .nil
  | failed walk => exact walk.ends
  | next walk _ ih => exact ih.behind walk.ends.unfailed

theorem Climb.not_list {owner : UInt32} {sequence : UInt64} {answer : Except Fault Nat}
    (h : Climb stem owner sequence events answer) : events.filterMap Event.listCall? = [] := by
  induction h with
  | failed | unused | top => rfl
  | up _ _ _ ih => rw [List.filterMap_append, ih]; rfl

theorem Walk.not_list {owner : UInt32} {answer : Except Fault Unit}
    (h : Walk scope stem owner events answer) : events.filterMap Event.listCall? = [] := by
  induction h with
  | failed climb | unused climb => exact climb.not_list
  | top climb => rw [List.filterMap_append, climb.not_list]; rfl
  | up climb _ _ _ ih => rw [List.filterMap_append, climb.not_list, List.filterMap_cons]; exact ih

theorem Sweep.not_list {stems : List String} {answer : Except Fault Unit}
    (h : Sweep scope stems events answer) : events.filterMap Event.listCall? = [] := by
  induction h with
  | done => rfl
  | failed walk => exact walk.not_list
  | next walk _ ih => rw [List.filterMap_append, walk.not_list, ih]; rfl

end Probing

namespace Listing

variable {scope : Scope} {events : List Event} {answer : Except Fault Unit}

/-- Fencing calls all ids, or it calls them up to the first call that fails. -/
theorem Fencing.cut {ids : List TxnId} (h : Fencing ids events answer) :
    answer = .ok () ∧ Unfailed events ∧ calls events = ids ∨
    ∃ before id unmade fault, answer = .error (.broker fault) ∧
      events = before ++ [.abort id (.error fault)] ∧ Unfailed before ∧
      ids = calls before ++ id :: unmade := by
  induction h with
  | done => exact .inl ⟨rfl, .nil, rfl⟩
  | @failed id ids fault => exact .inr ⟨[], id, ids, fault, rfl, rfl, .nil, rfl⟩
  | @next id ids epoch events answer _ ih =>
    obtain ⟨hanswer, unfailed, hcalls⟩ | ⟨before, last, unmade, fault, hanswer, rfl, unfailed, rfl⟩ := ih
    · exact .inl ⟨hanswer, .cons rfl (.cons rfl unfailed), by simp [hcalls]⟩
    · exact .inr ⟨.abort id (.ok epoch) :: .note (.aborted id epoch) :: before, last, unmade, fault, hanswer,
        rfl, .cons rfl (.cons rfl unfailed), rfl⟩

theorem Fencing.ends {ids : List TxnId} (h : Fencing ids events answer) :
    CallsEnd events answer := by
  obtain ⟨rfl, unfailed, -⟩ | ⟨before, id, unmade, fault, rfl, rfl, unfailed, -⟩ := h.cut
  · exact .answered unfailed
  · exact .failed ⟨before, _, rfl, unfailed, rfl⟩

theorem unfailed_sparedEvents (ids : List TxnId) : Unfailed (sparedEvents ids) := by
  intro event hmem
  obtain ⟨id, -, rfl⟩ := List.mem_map.1 hmem
  rfl

/-- A listing pass ends with its calls, for want of a lister, or with a name that cannot be read. -/
theorem Course.ends (h : Course scope events answer) : CallsEnd events answer ∨ Unfailed events ∧
    (events = [] ∧ answer = .error (.refused .noLister) ∨
      ∃ raw why, answer = .error (.malformed raw why)) := by
  cases h with
  | unable => exact .inr ⟨.nil, .inl ⟨rfl, rfl⟩⟩
  | unlisted fault => exact .inl (.failed ⟨[], _, rfl, .nil, rfl⟩)
  | idle => exact .inl (.answered (.cons rfl .nil))
  | mismatch bad =>
    obtain ⟨name, -, -, why, rfl⟩ := mismatch_of_owned bad
    exact .inr ⟨.cons rfl .nil, .inr ⟨name, why, rfl⟩⟩
  | fencing _ _ fencing =>
    exact .inl (((fencing.ends.behind (unfailed_sparedEvents _)).cons rfl).cons rfl)

theorem Fencing.not_list {ids : List TxnId} (h : Fencing ids events answer) :
    events.filterMap Event.listCall? = [] := by
  induction h with
  | done | failed => rfl
  | next _ ih => exact ih

theorem Course.asks (h : Course scope events answer) :
    events = [] ∨ events.filterMap Event.listCall? = [scope.topics] := by
  cases h with
  | unable => exact .inl rfl
  | unlisted | idle | mismatch => exact .inr rfl
  | @fencing _ ids _ _ _ _ fencing =>
    have hspared : (sparedEvents (ids.filter (· ∈ scope.pending))).filterMap Event.listCall? = [] := by
      simp [sparedEvents, Event.listCall?, List.filterMap_map, Function.comp_def]
    refine .inr ?_
    simp only [List.filterMap_cons, Event.listCall?, List.filterMap_append, hspared, fencing.not_list,
      List.nil_append]

end Listing

namespace Strategy

variable (strategy : Strategy) (client : Client σ) (scope : Scope) (s : σ)

/-- A pass ends with its calls, or it is a listing pass that cannot list or cannot read what it is told. -/
theorem pass_ends :
    let run := strategy.pass client scope s
    CallsEnd run.events run.answer ∨ strategy = .listing ∧ Unfailed run.events ∧
      (client.list? = none ∧ run.answer = .error (.refused .noLister) ∨
        ∃ raw why, run.answer = .error (.malformed raw why)) := by
  intro run
  cases strategy with
  | probing => exact .inl (Probing.sweep_run client scope s).ends
  | listing =>
    refine (Listing.course_run client scope s).ends.imp_right fun h => ⟨rfl, h.1, ?_⟩
    refine h.2.imp_left fun unable => ⟨?_, unable.2⟩
    cases lists : client.list? with
    | none => rfl
    | some list =>
      have head := Listing.head?_events lists scope s
      rw [unable.1] at head
      cases head

theorem listCalls_pass (lists : strategy = .listing → client.list?.isSome = true) :
    (strategy.pass client scope s).listCalls =
      if strategy = .listing then [scope.topics] else [] := by
  cases strategy with
  | probing => exact (Probing.sweep_run client scope s).not_list
  | listing =>
    obtain ⟨list, lists⟩ := Option.isSome_iff_exists.1 (lists rfl)
    refine (Listing.course_run client scope s).asks.resolve_left fun unable => ?_
    have head := Listing.head?_events lists scope s
    rw [unable] at head
    cases head

end Strategy

namespace Recovery

variable {strategy : Strategy} {client : Client σ} {scope : Scope} {s : σ}

/-- The coordinator's notices stand around the calls of the pass. -/
theorem run_ends
    (h : CallsEnd (strategy.pass client scope s).events (strategy.pass client scope s).answer) :
    CallsEnd (Recovery.run strategy client scope s).events
      (Recovery.run strategy client scope s).answer := by
  rw [run_apply]
  cases ha : (strategy.pass client scope s).answer with
  | ok =>
    rw [ha] at h
    exact .answered (.cons rfl (h.unfailed.append (.cons rfl .nil)))
  | error fault =>
    rw [ha] at h
    simp only [List.append_nil]
    exact h.of_error.cons rfl

/-- Where a lister is at hand, a recovery ends with its calls or with a name that cannot be read. -/
theorem run_ends_or_malformed (lists : strategy = .listing → client.list?.isSome = true)
    (scope : Scope) (s : σ) :
    let run := Recovery.run strategy client scope s
    CallsEnd run.events run.answer ∨ strategy = .listing ∧ Unfailed run.events ∧
      ∃ raw why, run.answer = .error (.malformed raw why) := by
  intro run
  refine (strategy.pass_ends client scope s).imp run_ends fun h => ?_
  obtain ⟨hlisting, unfailed, ⟨unable, -⟩ | ⟨raw, why, malformed⟩⟩ := h
  · have := lists hlisting
    rw [unable] at this
    cases this
  · refine ⟨hlisting, ?_, raw, why, ?_⟩
    · show Unfailed (Recovery.run strategy client scope s).events
      rw [run_apply, malformed, List.append_nil]
      exact .cons rfl unfailed
    · show (Recovery.run strategy client scope s).answer = _
      rw [run_answer, malformed]
      rfl

theorem report_of_run {report : Report}
    (h : (Recovery.run strategy client scope s).answer = .ok report) :
    report.strategy = strategy ∧ report.placement = scope.placement := by
  obtain ⟨-, rfl⟩ := pass_of_answer h
  exact ⟨rfl, rfl⟩

end Recovery

end SinkFencing
