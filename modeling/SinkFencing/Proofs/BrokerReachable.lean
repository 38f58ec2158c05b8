import SinkFencing.Broker
import SinkFencing.Proofs.Transcript

namespace SinkFencing

theorem Epoch.isUnused_eq_false {e : Epoch} (h : 0 < e.value.toInt) : e.isUnused = false := by
  have hne : e ≠ Epoch.unused := by
    intro he
    rw [he] at h
    exact absurd h (by decide)
  simpa [Epoch.isUnused] using hne

theorem Epoch.next_pos {e : Epoch} (h : 0 ≤ e.value.toInt) : 0 < e.next.value.toInt := by
  rw [Epoch.toInt_next]
  omega

namespace Broker

/-- A call of a broker that can change its state. -/
inductive Move
  | begin (name : String) (topic : Option String)
  | commit (name : String)
  | abort (id : TxnId)
  | failAbortsAfter (successes : Nat)
  | failListing (fails : Bool)
  | clearHistory

def after (b : Broker) : Move → Broker
  | .begin name topic => b.begin name topic
  | .commit name => (b.commit name).2
  | .abort id => (b.abort id).2
  | .failAbortsAfter successes => b.failAbortsAfter successes
  | .failListing fails => b.failListing fails
  | .clearHistory => b.clearHistory

inductive Reachable : Broker → Prop
  | empty : Reachable Broker.empty
  | step {b : Broker} (move : Move) (before : Reachable b) : Reachable (b.after move)

/-- What holds of a broker whatever it was asked to do. -/
structure Sound (b : Broker) : Prop where
  epoch_nonneg : ∀ name, 0 ≤ (b.epochOf name).value.toInt
  epoch_pos : ∀ name, b.isOpen name = true → 0 < (b.epochOf name).value.toInt

namespace Sound

variable {b c : Broker}

theorem empty : Sound Broker.empty := by
  refine ⟨fun name => ?_, fun name hopen => ?_⟩
  · have hunused : (Broker.empty.epochOf name).value.toInt = 0 := rfl
    exact Int.le_of_eq hunused.symm
  · cases hopen

theorem of_le (h : Sound b) (epochs : c.epochs = b.epochs)
    (opens : ∀ name, c.isOpen name = true → b.isOpen name = true) : Sound c := by
  have hepoch (name : String) : c.epochOf name = b.epochOf name := by
    rw [epochOf, epochs]
    rfl
  refine ⟨fun name => ?_, fun name hopen => ?_⟩
  · rw [hepoch]
    exact h.epoch_nonneg name
  · rw [hepoch]
    exact h.epoch_pos name (opens name hopen)

theorem of_next (h : Sound b) (name : String)
    (epochs : ∀ x, c.epochOf x = if name = x then (b.epochOf name).next else b.epochOf x)
    (opens : ∀ x, name ≠ x → c.isOpen x = true → b.isOpen x = true) : Sound c := by
  refine ⟨fun x => ?_, fun x hopen => ?_⟩
  · rw [epochs]
    split
    · exact Int.le_of_lt (Epoch.next_pos (h.epoch_nonneg name))
    · exact h.epoch_nonneg x
  · rw [epochs]
    split
    · exact Epoch.next_pos (h.epoch_nonneg name)
    · rename_i hne
      exact h.epoch_pos x (opens x hne hopen)

theorem begin (h : Sound b) (name : String) (topic : Option String) :
    Sound (b.begin name topic) := by
  apply h.of_next name
  · intro x
    exact epochOf_begin b name x topic
  · intro x hne hopen
    rw [isOpen_begin, if_neg hne] at hopen
    exact hopen

theorem fence (h : Sound b) (name : String) : Sound (b.fence name).2 := by
  apply h.of_next name
  · intro x
    exact epochOf_fence b name x
  · intro x hne hopen
    rw [isOpen_fence, if_neg hne] at hopen
    exact hopen

theorem abort (h : Sound b) (id : TxnId) : Sound (b.abort id).2 := by
  unfold Broker.abort
  split
  · exact h
  · apply Sound.fence
    exact h.of_le rfl fun _ hopen => hopen

theorem commit (h : Sound b) (name : String) : Sound (b.commit name).2 := by
  apply h.of_le
  · rfl
  · intro x hopen
    rw [isOpen_commit] at hopen
    split at hopen
    · cases hopen
    · exact hopen

theorem step (h : Sound b) (move : Move) : Sound (b.after move) := by
  cases move with
  | begin name topic => exact h.begin name topic
  | commit name => exact h.commit name
  | abort id => exact h.abort id
  | failAbortsAfter | failListing | clearHistory => exact h.of_le rfl fun _ hopen => hopen

end Sound

theorem Reachable.sound {b : Broker} (h : Reachable b) : Sound b := by
  induction h with
  | empty => exact Sound.empty
  | step move _ ih => exact ih.step move

theorem Reachable.used_of_isOpen {b : Broker} (h : Reachable b) {name : String}
    (hopen : b.isOpen name = true) : (b.epochOf name).isUnused = false :=
  Epoch.isUnused_eq_false (h.sound.epoch_pos name hopen)

theorem Reachable.ascending_opened {b : Broker} (h : b.Reachable) :
    b.opened.Pairwise fun x y => x.1 < y.1 := by
  induction h with
  | empty => exact .nil
  | @step b move _ ih =>
    cases move with
    | begin name topic => exact Assoc.pairwise_set name topic ih
    | commit name => exact Assoc.pairwise_remove name ih
    | abort id =>
      rw [after, Broker.abort]
      split
      · exact ih
      · exact Assoc.pairwise_remove id.text ih
    | failAbortsAfter | failListing | clearHistory => exact ih

/-- The name is open, and its topic is one of these or it has none. -/
def Listed (b : Broker) (topics : List String) (name : String) : Prop :=
  ∃ topic, Assoc.find? name b.opened = some topic ∧ touches topics topic = true

theorem Listed.isOpen {b : Broker} {topics : List String} {name : String}
    (h : b.Listed topics name) : b.isOpen name = true := by
  obtain ⟨topic, hfind, -⟩ := h
  rw [Broker.isOpen, hfind]
  rfl

theorem listed_commit_iff {b : Broker} {topics : List String} {name x : String} :
    (b.commit name).2.Listed topics x ↔ b.Listed topics x ∧ name ≠ x := by
  rw [Listed, commit, Assoc.find?_remove]
  by_cases h : name = x
  · simp [h]
  · simp [h, Listed]

theorem listed_begin_self (b : Broker) (name : String) {topic : String} {topics : List String}
    (h : topic ∈ topics) : (b.begin name (some topic)).Listed topics name := by
  refine ⟨some topic, ?_, by simpa [touches] using h⟩
  rw [begin, Assoc.find?_set, if_pos rfl]

/-- The transactions of the ids are begun in order, all of them on one topic. -/
def beginAll (b : Broker) (topic : Option String) (ids : List TxnId) : Broker :=
  ids.foldl (fun b id => b.begin id.text topic) b

theorem Reachable.beginAll {b : Broker} (h : b.Reachable) (topic : Option String) (ids : List TxnId) :
    (b.beginAll topic ids).Reachable := by
  induction ids generalizing b with
  | nil => exact h
  | cons id ids ih => exact ih (h.step (.begin id.text topic))

theorem abortsLeft_beginAll (b : Broker) (topic : Option String) (ids : List TxnId) :
    (b.beginAll topic ids).abortsLeft = b.abortsLeft := by
  induction ids generalizing b with
  | nil => rfl
  | cons id ids ih => exact ih (b.begin id.text topic)

theorem listingFails_beginAll (b : Broker) (topic : Option String) (ids : List TxnId) :
    (b.beginAll topic ids).listingFails = b.listingFails := by
  induction ids generalizing b with
  | nil => rfl
  | cons id ids ih => exact ih (b.begin id.text topic)

theorem find?_beginAll (b : Broker) (topic : Option String) (ids : List TxnId) (name : String) :
    Assoc.find? name (b.beginAll topic ids).opened =
      if ⟨name⟩ ∈ ids then some topic else Assoc.find? name b.opened := by
  induction ids generalizing b with
  | nil => rfl
  | cons id ids ih =>
    rw [beginAll, List.foldl_cons]
    refine (ih (b.begin id.text topic)).trans ?_
    by_cases hrest : ⟨name⟩ ∈ ids
    · rw [if_pos hrest, if_pos (List.mem_cons_of_mem id hrest)]
    · have hfirst : ⟨name⟩ ∈ id :: ids ↔ id.text = name := by
        rw [List.mem_cons, or_iff_left hrest]
        exact ⟨fun he => (congrArg TxnId.text he).symm, fun he => TxnId.ext_of_text he.symm⟩
      rw [if_neg hrest, begin, Assoc.find?_set]
      simp only [hfirst]
      rfl

theorem isOpen_beginAll_empty {topic : Option String} {ids : List TxnId} {name : String} :
    (empty.beginAll topic ids).isOpen name = true ↔ ⟨name⟩ ∈ ids := by
  rw [isOpen, find?_beginAll]
  by_cases h : ⟨name⟩ ∈ ids
  · simp [h]
  · simp [h, empty]

theorem listed_beginAll_empty {topic : String} {topics : List String} (ids : List TxnId)
    {name : String} (h : topic ∈ topics)
    (hopen : (empty.beginAll (some topic) ids).isOpen name = true) :
    (empty.beginAll (some topic) ids).Listed topics name := by
  refine ⟨some topic, ?_, by simpa [touches] using h⟩
  rw [find?_beginAll, if_pos (isOpen_beginAll_empty.1 hopen)]

theorem Reachable.mem_listed_iff {b : Broker} (h : b.Reachable) {topics : List String}
    {name : String} : name ∈ b.listed topics ↔ b.Listed topics name := by
  simp only [listed, Listed, List.mem_map, List.mem_filter,
    Assoc.find?_eq_some_iff h.ascending_opened]
  constructor
  · intro hmem
    obtain ⟨entry, ⟨hentry, htouches⟩, hname⟩ := hmem
    exact ⟨entry.2, hname ▸ hentry, htouches⟩
  · intro hlisted
    obtain ⟨topic, hentry, htouches⟩ := hlisted
    exact ⟨(name, topic), ⟨hentry, htouches⟩, rfl⟩

theorem Reachable.of_transcript {b t : Broker} {events : List Event} (h : b.Reachable)
    (ht : Transcript client b events t) : t.Reachable := by
  induction ht with
  | done => exact h
  | @abort id b t events _ ih => exact ih (h.step (.abort id))
  | list lists _ ih =>
    cases lists
    exact ih h
  | note _ ih => exact ih h

theorem Reachable.pass {b : Broker} (h : b.Reachable) (strategy : Strategy) (scope : Scope) :
    (strategy.pass client scope b).state.Reachable :=
  h.of_transcript (pass_truthful client scope strategy b)

end Broker

end SinkFencing
