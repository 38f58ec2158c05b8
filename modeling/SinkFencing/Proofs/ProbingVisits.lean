import SinkFencing.Proofs.Counting

namespace SinkFencing

open TxnId

namespace Probing

variable {stem : String} {owner : UInt32} {sequence : UInt64} {scope : Scope} {events : List Event}

@[simp] theorem epochs_probeEvents (id : TxnId) (epoch : Epoch) :
    epochs (probeEvents id epoch) = [epoch] := rfl

theorem Climb.start_mem {answer : Except Fault Nat} (h : Climb stem owner sequence events answer) :
    compose stem owner sequence ∈ calls events := by
  cases h with
  | failed | unused | top => exact List.mem_cons_self
  | up => exact List.mem_cons_self

/-- Among the events a call for the last sequence of the owner met a used id. -/
def RunsThrough (stem : String) (owner : UInt32) (events : List Event) : Prop :=
  ∃ (top : UInt64) (epoch : Epoch), top.toNat + 1 = UInt64.size ∧ epoch.isUnused = false ∧
    .abort (compose stem owner top) (.ok epoch) ∈ events

theorem RunsThrough.of_top {epoch : Epoch} (used : epoch.isUnused = false)
    (last : nextSequence sequence = none) :
    RunsThrough stem owner (probeEvents (compose stem owner sequence) epoch) := by
  refine ⟨sequence, epoch, ?_, used, List.mem_cons_self⟩
  have := sequence.toNat_lt_size
  unfold nextSequence at last
  split at last
  · cases last
  · omega

/-- A climb meets so many used ids, and then an unused one, or it runs through the last sequence. -/
theorem Climb.epochs_eq {used : Nat} (h : Climb stem owner sequence events (.ok used)) :
    ∃ met : List Epoch, met.length = used ∧ (∀ epoch ∈ met, epoch.isUnused = false) ∧
      (epochs events = met ++ [.unused] ∨
        epochs events = met ∧ met ≠ [] ∧ RunsThrough stem owner events) := by
  generalize ha : (Except.ok used : Except Fault Nat) = answer at h
  induction h generalizing used with
  | failed => cases ha
  | @unused sequence epoch fresh =>
    cases ha
    have he : epoch = .unused := by simpa [Epoch.isUnused] using fresh
    exact ⟨[], rfl, by simp, .inl (by rw [he]; rfl)⟩
  | @top sequence epoch hused last =>
    cases ha
    exact ⟨[epoch], rfl, by simpa using hused, .inr ⟨rfl, by simp, .of_top hused last⟩⟩
  | @up sequence next epoch events answer hused _ _ ih =>
    cases answer with
    | error => cases ha
    | ok n =>
      cases ha
      obtain ⟨met, hlength, hmet, hepochs⟩ := ih rfl
      refine ⟨epoch :: met, by rw [List.length_cons, hlength], List.forall_mem_cons.2 ⟨hused, hmet⟩, ?_⟩
      rw [epochs_append, epochs_probeEvents]
      rcases hepochs with he | ⟨he, -, top, last, htop, hlast, hmem⟩
      · exact .inl (by rw [he]; rfl)
      · exact .inr ⟨by rw [he]; rfl, by simp, top, last, htop, hlast, List.mem_append_right _ hmem⟩

/-- Whether the last of the calls that were answered found an id that had never been used. -/
def endsUnused (events : List Event) : Bool := (epochs events).getLast? == some .unused

theorem Climb.counts {used : Nat} (h : Climb stem owner sequence events (.ok used)) :
    events.countP Event.metUse = used ∧
      events.countP Event.isAnswered = used + (if endsUnused events then 1 else 0) ∧
      (endsUnused events = false → 0 < used ∧ RunsThrough stem owner events) := by
  obtain ⟨met, hlength, hmet, hepochs⟩ := h.epochs_eq
  have hcount : met.countP (fun epoch => !epoch.isUnused) = used := by
    rw [← hlength, List.countP_eq_length]
    intro epoch hmem
    simp [hmet epoch hmem]
  rw [countP_metUse_eq, countP_isAnswered_eq, endsUnused]
  rcases hepochs with he | ⟨he, hne, through⟩
  · rw [he, List.getLast?_concat, List.countP_append, hcount, List.length_append, hlength]
    exact ⟨rfl, rfl, fun h => by cases h⟩
  · have hlast : (met.getLast? == some .unused) = false := by
      rw [List.getLast?_eq_some_getLast hne]
      have hu := hmet _ (List.getLast_mem hne)
      simpa [Epoch.isUnused] using hu
    rw [he, hlast, hcount, hlength]
    exact ⟨rfl, rfl, fun _ => ⟨by rw [← hlength]; exact List.length_pos_iff.2 hne, through⟩⟩

/-- The part of a sweep that is about one owner, if it was not interrupted. -/
structure Visit (scope : Scope) where
  stem : String
  owner : UInt32
  used : Nat
  probes : List Event
  climb : Climb stem owner scope.start probes (.ok used)

namespace Visit

def key (visit : Visit scope) : String × UInt32 := (visit.stem, visit.owner)

/-- The probes, and a notice if they found anything. -/
def trace (visit : Visit scope) : List Event :=
  visit.probes ++ if 0 < visit.used then
    [.note (.walked visit.stem visit.owner visit.used scope.placement)] else []

theorem calls_trace (visit : Visit scope) : calls visit.trace = calls visit.probes := by
  rw [trace, calls_append]
  split <;> exact List.append_nil _

theorem countP_trace {p : Event → Bool} (other : ∀ notice, p (.note notice) = false)
    (visit : Visit scope) : visit.trace.countP p = visit.probes.countP p := by
  rw [trace, List.countP_append]
  split
  · rw [countP_note other, List.countP_nil, Nat.add_zero]
  · rfl

theorem countP_isAnswered (visit : Visit scope) : visit.trace.countP Event.isAnswered =
    visit.trace.countP Event.metUse + (if endsUnused visit.probes then 1 else 0) := by
  obtain ⟨hmet, hanswered, -⟩ := visit.climb.counts
  rw [countP_trace fun _ => rfl, countP_trace fun _ => rfl, hanswered, hmet]

end Visit

/-- What stands behind the visits of a sweep: nothing, or the visit in which it failed. -/
inductive Rest (scope : Scope) : List Event → Except Fault Unit → Prop
  | done : Rest scope [] (.ok ())
  | interrupted {stem : String} {owner : UInt32} {events : List Event} {fault : Fault}
      (climb : Climb stem owner scope.start events (.error fault)) : Rest scope events (.error fault)

theorem Walk.exists_visits {answer : Except Fault Unit} (h : Walk scope stem owner events answer) :
    ∃ (visits : List (Visit scope)) (rest : List Event),
      events = visits.flatMap Visit.trace ++ rest ∧ Rest scope rest answer := by
  induction h with
  | @failed _ events _ climb => exact ⟨[], events, rfl, .interrupted climb⟩
  | @unused owner events climb =>
    exact ⟨[⟨stem, owner, 0, events, climb⟩], [], by simp [Visit.trace], .done⟩
  | @top owner events used climb pos =>
    exact ⟨[⟨stem, owner, used, events, climb⟩], [], by simp [Visit.trace, pos], .done⟩
  | @up owner next events later used _ climb pos _ _ ih =>
    obtain ⟨visits, rest, hlater, hrest⟩ := ih
    exact ⟨⟨stem, owner, used, events, climb⟩ :: visits, rest, by simp [Visit.trace, pos, hlater], hrest⟩

theorem Sweep.exists_visits {stems : List String} {answer : Except Fault Unit}
    (h : Sweep scope stems events answer) :
    ∃ (visits : List (Visit scope)) (rest : List Event),
      events = visits.flatMap Visit.trace ++ rest ∧ Rest scope rest answer := by
  induction h with
  | done => exact ⟨[], [], rfl, .done⟩
  | failed walk => exact walk.exists_visits
  | next walk _ ih =>
    obtain ⟨first, between, hfirst, hdone⟩ := walk.exists_visits
    cases hdone
    obtain ⟨visits, rest, hlater, hrest⟩ := ih
    exact ⟨first ++ visits, rest, by simp [hfirst, hlater], hrest⟩

section Visits

variable (visits : List (Visit scope))

/-- One call of each visit that ends at an unused id met none in use. -/
theorem countP_isAnswered_visits : (visits.flatMap Visit.trace).countP Event.isAnswered =
    (visits.flatMap Visit.trace).countP Event.metUse +
      visits.countP fun visit => endsUnused visit.probes := by
  induction visits with
  | nil => rfl
  | cons visit visits ih =>
    rw [List.flatMap_cons, List.countP_append, List.countP_append, ih, visit.countP_isAnswered,
      List.countP_cons]
    omega

theorem start_mem_of_key {stem : String} {owner : UInt32}
    (hkey : (stem, owner) ∈ visits.map Visit.key) :
    compose stem owner scope.start ∈ calls (visits.flatMap Visit.trace) := by
  obtain ⟨visit, hvisit, he⟩ := List.mem_map.1 hkey
  obtain ⟨rfl, rfl⟩ := Prod.mk.inj he
  have start := visit.climb.start_mem
  rw [← visit.calls_trace] at start
  obtain ⟨event, hevent, hcall⟩ := List.mem_filterMap.1 start
  exact List.mem_filterMap.2 ⟨event, List.mem_flatMap.2 ⟨visit, hvisit, hevent⟩, hcall⟩

theorem nodup_keys (nodup : (calls (visits.flatMap Visit.trace)).Nodup) :
    (visits.map Visit.key).Nodup := by
  induction visits with
  | nil => exact .nil
  | cons visit visits ih =>
    rw [List.flatMap_cons, calls_append] at nodup
    obtain ⟨-, hlater, disjoint⟩ := List.nodup_append.1 nodup
    refine List.nodup_cons.2 ⟨fun hkey => ?_, ih hlater⟩
    have first := visit.climb.start_mem
    rw [← visit.calls_trace] at first
    exact disjoint _ first _ (start_mem_of_key visits hkey) rfl

end Visits

/-- Each used id that a walk meets allows for one more call without, and so does its end. -/
theorem Walk.countP_isAnswered_bounds (h : Walk scope stem owner events (.ok ())) :
    0 < events.countP Event.isAnswered ∧
      events.countP Event.isAnswered ≤ 2 * events.countP Event.metUse + 1 := by
  generalize ha : (Except.ok () : Except Fault Unit) = answer at h
  induction h with
  | failed => cases ha
  | unused climb =>
    obtain ⟨hmet, hanswered, hthrough⟩ := climb.counts
    rw [hmet, hanswered]
    cases he : endsUnused _ with
    | true => simp
    | false => exact absurd (hthrough he).1 (Nat.lt_irrefl 0)
  | top climb pos =>
    obtain ⟨hmet, hanswered, -⟩ := climb.counts
    rw [List.countP_append, List.countP_append, countP_note fun _ => rfl, countP_note fun _ => rfl, hmet,
      hanswered, List.countP_nil, List.countP_nil]
    split <;> omega
  | up climb pos _ _ ih =>
    obtain ⟨hmet, hanswered, -⟩ := climb.counts
    obtain ⟨hpos, hle⟩ := ih ha
    rw [List.countP_append, List.countP_append, countP_note fun _ => rfl, countP_note fun _ => rfl, hmet,
      hanswered]
    split <;> omega

/-- A sweep makes one call at least for each stem, and beside them two at most for each used id. -/
theorem Sweep.countP_isAnswered_bounds {stems : List String} (h : Sweep scope stems events (.ok ())) :
    stems.length ≤ events.countP Event.isAnswered ∧
      events.countP Event.isAnswered ≤ 2 * events.countP Event.metUse + stems.length := by
  generalize ha : (Except.ok () : Except Fault Unit) = answer at h
  induction h with
  | done => exact ⟨Nat.le_refl 0, Nat.le_refl 0⟩
  | failed => cases ha
  | next walk _ ih =>
    obtain ⟨hpos, hle⟩ := walk.countP_isAnswered_bounds
    obtain ⟨hlater, hlater'⟩ := ih ha
    rw [List.countP_append, List.countP_append, List.length_cons]
    omega

end Probing

end SinkFencing
