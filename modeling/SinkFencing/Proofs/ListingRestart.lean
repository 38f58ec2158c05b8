import SinkFencing.Proofs.ListingEffect
import SinkFencing.Proofs.Restart

namespace SinkFencing

namespace Restart

open Listing

variable {b : Broker} {parallelism : UInt32} {tasks : List Task} {stems : Ascending String}
  {topics : List String} {pending : Ascending TxnId}

/-- The tasks list, and all of them for the same stems, topics and committer. -/
structure Alike (tasks : List Task) (stems : Ascending String) (topics : List String)
    (pending : Ascending TxnId) : Prop where
  strategy_eq : ∀ task ∈ tasks, task.strategy = .listing
  stems_eq : ∀ task ∈ tasks, task.scope.stems = stems
  topics_eq : ∀ task ∈ tasks, task.scope.topics = topics
  pending_eq : ∀ task ∈ tasks, task.scope.pending = pending

theorem Alike.tail {task : Task} (h : Alike (task :: tasks) stems topics pending) :
    Alike tasks stems topics pending :=
  ⟨fun other hother => h.strategy_eq other (List.mem_cons_of_mem task hother),
    fun other hother => h.stems_eq other (List.mem_cons_of_mem task hother),
    fun other hother => h.topics_eq other (List.mem_cons_of_mem task hother),
    fun other hother => h.pending_eq other (List.mem_cons_of_mem task hother)⟩

/-- A pass fences no target of another subtask. -/
theorem target_pass_iff (hb : b.abortsLeft = none) {task other : Task}
    (hp : other.scope.placement.parallelism = task.scope.placement.parallelism)
    (hi : other.scope.placement.index ≠ task.scope.placement.index) (id : TxnId) :
    Target (task.pass Broker.client b).state other.scope id ↔ Target b other.scope id := by
  constructor
  · intro h
    have hlisted := h.listed
    rw [task.state_pass hb, Broker.listed_fenceAll] at hlisted
    exact ⟨hlisted.1, h.claimed, h.not_pending⟩
  · intro h
    obtain ⟨parts, hparts, hclaims⟩ := h.claimed
    have hcall : id ∉ (task.pass Broker.client b).abortCalls :=
      Strategy.not_mem_calls_of_claims hp hi hparts hclaims
    refine ⟨?_, h.claimed, h.not_pending⟩
    rw [task.state_pass hb, Broker.listed_fenceAll]
    exact ⟨h.listed, hcall⟩

theorem listing_runs (legible : Legible b stems topics) (separate : Separate parallelism tasks)
    (alike : Alike tasks stems topics pending) :
    (∀ run ∈ runs Broker.client tasks b, run.answer = .ok ()) ∧
      ∀ id, id ∈ calls Broker.client tasks b ↔ ∃ task ∈ tasks, Target b task.scope id := by
  induction tasks generalizing b with
  | nil => simp [runs, calls]
  | cons task rest ih =>
    have hlegible : Legible (task.pass Broker.client b).state stems topics :=
      legible.pass task.strategy task.scope
    obtain ⟨hanswers, hcalls⟩ := ih hlegible separate.tail alike.tail
    have hfirst : (task.pass Broker.client b).answer = .ok () ∧
        ∀ id, id ∈ (task.pass Broker.client b).abortCalls ↔ Target b task.scope id := by
      rw [Task.pass, alike.strategy_eq task List.mem_cons_self]
      apply Listing.mem_calls_iff
      rw [alike.topics_eq task List.mem_cons_self, alike.stems_eq task List.mem_cons_self]
      exact legible
    refine ⟨fun run hrun => ?_, fun id => ?_⟩
    · rcases List.mem_cons.1 hrun with he | hrun
      · rw [he]
        exact hfirst.1
      · exact hanswers run hrun
    · -- The later passes find their targets as they were before this one.
      have hrest : (∃ other ∈ rest, Target (task.pass Broker.client b).state other.scope id) ↔
          ∃ other ∈ rest, Target b other.scope id := by
        refine exists_congr fun other => and_congr_right fun hother => ?_
        obtain ⟨hp, hi⟩ := separate.head hother
        exact target_pass_iff legible.aborts hp hi id
      rw [calls_cons, List.mem_append, hfirst.2, hcalls, hrest]
      simp

/-- The name is listed, of a known stem, and no committer waits for it. -/
structure Lost (b : Broker) (stems : Ascending String) (topics : List String)
    (pending : Ascending TxnId) (name : String) : Prop where
  listed : b.Listed topics name
  ours : ∃ parts, TxnId.Parts.read name = .ok parts ∧ parts.stem ∈ stems
  not_pending : ⟨name⟩ ∉ pending

theorem not_lost_iff {name : String} : ¬ Lost b stems topics pending name ↔
    ¬ b.Listed topics name ∨ (¬ ∃ parts, TxnId.Parts.read name = .ok parts ∧ parts.stem ∈ stems) ∨
      ⟨name⟩ ∈ pending := by
  constructor
  · intro h
    by_cases hlisted : b.Listed topics name
    · by_cases hours : ∃ parts, TxnId.Parts.read name = .ok parts ∧ parts.stem ∈ stems
      · by_cases hpending : ⟨name⟩ ∈ pending
        · exact .inr (.inr hpending)
        · exact absurd ⟨hlisted, hours, hpending⟩ h
      · exact .inr (.inl hours)
    · exact .inl hlisted
  · intro h lost
    rcases h with h | h | h
    · exact h lost.listed
    · exact h lost.ours
    · exact lost.not_pending h

theorem exists_target_iff (whole : Whole parallelism tasks)
    (alike : Alike tasks stems topics pending) (name : String) :
    (∃ task ∈ tasks, Target b task.scope ⟨name⟩) ↔ Lost b stems topics pending name := by
  constructor
  · intro h
    obtain ⟨task, htask, htarget⟩ := h
    obtain ⟨parts, hparts, hclaims⟩ := htarget.claimed
    refine ⟨?_, ⟨parts, hparts, ?_⟩, ?_⟩
    · rw [← alike.topics_eq task htask]
      exact htarget.listed
    · rw [← alike.stems_eq task htask]
      exact (Scope.claims_iff.1 hclaims).1
    · rw [← alike.pending_eq task htask]
      exact htarget.not_pending
  · intro h
    obtain ⟨parts, hparts, known⟩ := h.ours
    obtain ⟨task, htask, howns⟩ := whole.exists_owner parts.owner
    rw [← alike.stems_eq task htask] at known
    refine ⟨task, htask, ?_, ⟨parts, hparts, ?_⟩, ?_⟩
    · rw [alike.topics_eq task htask]
      exact h.listed
    · exact Scope.claims_iff.2 ⟨known, Placement.owns_iff.1 howns⟩
    · rw [alike.pending_eq task htask]
      exact h.not_pending

theorem mem_calls_iff_lost (legible : Legible b stems topics) (whole : Whole parallelism tasks)
    (alike : Alike tasks stems topics pending) (name : String) :
    ⟨name⟩ ∈ calls Broker.client tasks b ↔ Lost b stems topics pending name := by
  rw [(listing_runs legible whole.toSeparate alike).2]
  exact exists_target_iff whole alike name

/-- A name that cannot be read fails every pass, each before it changes anything. -/
theorem runs_of_mismatch (reachable : b.Reachable) (hb : b.abortsLeft = none)
    (hl : b.listingFails = false) (alike : Alike tasks stems topics pending) {name : String}
    (listed : b.Listed topics name) (mismatch : Mismatch stems name) :
    (∀ run ∈ runs Broker.client tasks b, ∃ raw why, run.answer = .error (.malformed raw why)) ∧
      finish Broker.client tasks b = b := by
  induction tasks with
  | nil => exact ⟨fun run hrun => (List.not_mem_nil hrun).elim, rfl⟩
  | cons task rest ih =>
    have hfirst : (∃ raw why, (task.pass Broker.client b).answer = .error (.malformed raw why)) ∧
        (task.pass Broker.client b).abortCalls = [] := by
      rw [Task.pass, alike.strategy_eq task List.mem_cons_self]
      rw [← alike.topics_eq task List.mem_cons_self] at listed
      rw [← alike.stems_eq task List.mem_cons_self] at mismatch
      exact answer_of_mismatch reachable hb hl task.scope listed mismatch
    have hstate : (task.pass Broker.client b).state = b := by
      rw [task.state_pass hb, hfirst.2, Broker.fenceAll_nil]
    obtain ⟨hanswers, hfinish⟩ := ih alike.tail
    rw [runs, finish, hstate]
    refine ⟨fun run hrun => ?_, hfinish⟩
    rcases List.mem_cons.1 hrun with he | hrun
    · rw [he]
      exact hfirst.1
    · exact hanswers run hrun

/-- All passes together close what the job has lost, each transaction once, or none changes anything. -/
theorem listing_cleans (reachable : b.Reachable) (hb : b.abortsLeft = none)
    (hl : b.listingFails = false) (whole : Whole parallelism tasks)
    (alike : Alike tasks stems topics pending) :
    let after := finish Broker.client tasks b
    ((∀ name, b.Listed topics name → ¬ Mismatch stems name) →
      (∀ run ∈ runs Broker.client tasks b, run.answer = .ok ()) ∧
      (∀ name, after.isOpen name = true ↔ b.isOpen name = true ∧ (¬ b.Listed topics name ∨
        (¬ ∃ parts, TxnId.Parts.read name = .ok parts ∧ parts.stem ∈ stems) ∨ ⟨name⟩ ∈ pending)) ∧
      ∃ fenced, after.fenced = b.fenced ++ fenced ∧ fenced.Nodup ∧
        (∀ name, name ∈ fenced ↔ b.isOpen name = true ∧ after.isOpen name = false) ∧
        (∀ name ∈ fenced, (after.epochOf name).value.toInt =
          min ((b.epochOf name).value.toInt + 1) 32767) ∧
        ∀ name, name ∉ fenced → after.epochOf name = b.epochOf name) ∧
    ((∃ name, b.Listed topics name ∧ Mismatch stems name) →
      (∀ run ∈ runs Broker.client tasks b, ∃ raw why, run.answer = .error (.malformed raw why)) ∧
      after = b) := by
  intro after
  refine ⟨fun readable => ?_, fun unreadable => ?_⟩
  · have legible : Legible b stems topics := ⟨reachable, hb, hl, readable⟩
    have hlost (name : String) := mem_calls_iff_lost legible whole alike name
    have hopen (name : String) : after.isOpen name = true ↔
        b.isOpen name = true ∧ ¬ Lost b stems topics pending name := by
      rw [← hlost]
      exact isOpen_finish hb tasks name
    obtain ⟨fenced, hfenced, hnodup, hmem⟩ := fenced_finish hb whole.toSeparate
    have hcalled (name : String) : name ∈ fenced ↔ Lost b stems topics pending name := by
      rw [hmem, hlost]
      exact ⟨fun h => h.2, fun h => ⟨h.listed.isOpen, h⟩⟩
    refine ⟨(listing_runs legible whole.toSeparate alike).1, fun name => ?_, fenced, hfenced, hnodup,
      fun name => ?_, fun name hname => ?_, fun name hname => ?_⟩
    · rw [hopen, not_lost_iff]
    · rw [hcalled, ← Bool.not_eq_true, hopen]
      constructor
      · intro h
        exact ⟨h.listed.isOpen, fun hkept => hkept.2 h⟩
      · intro h
        exact Classical.byContradiction fun hkept => h.2 ⟨h.1, hkept⟩
    · rw [epochOf_finish hb whole.toSeparate, if_pos ((hlost name).2 ((hcalled name).1 hname)),
        Epoch.toInt_next]
    · rw [epochOf_finish hb whole.toSeparate]
      exact if_neg fun hcall => hname ((hcalled name).2 ((hlost name).1 hcall))
  · obtain ⟨name, listed, mismatch⟩ := unreadable
    exact runs_of_mismatch reachable hb hl alike listed mismatch

/-- Two subtasks close a transaction of the second, and one name that cannot be read stops both. -/
theorem listing_cleans_or_stops :
    let id := TxnId.compose "app" 1 2
    let b := Broker.empty.begin id.text (some "orders")
    let task (index : UInt32) (h : index < 2) : Task :=
      ⟨.listing, { Scope.ofStem ⟨index, 2, h⟩ 0 "app" [] (by decide) with topics := ["orders"] }⟩
    let tasks := [task 1 (by decide), task 0 (by decide)]
    let bad := b.begin "app-x" (some "orders")
    b.Reachable ∧ bad.Reachable ∧ Whole 2 tasks ∧ b.isOpen id.text = true ∧
      (finish Broker.client tasks b).isOpen id.text = false ∧
      (∀ run ∈ runs Broker.client tasks bad, ∃ raw why, run.answer = .error (.malformed raw why)) ∧
      finish Broker.client tasks bad = bad := by
  intro id b task tasks bad
  have reachable : b.Reachable := Broker.Reachable.empty.step (.begin _ _)
  have reachable' : bad.Reachable := reachable.step (.begin _ _)
  have whole : Whole 2 tasks := Whole.pair rfl rfl (by decide)
  have alike : Alike tasks (Ascending.ofList ["app"]) ["orders"] (Ascending.ofList []) := by
    constructor <;> simp [tasks, task, Scope.ofStem]
  have legible : Legible b (Ascending.ofList ["app"]) ["orders"] :=
    legible_beginAll [⟨"app", 1, 2⟩] (some "orders") _ _
  have mismatch : Mismatch (Ascending.ofList ["app"]) "app-x" := by
    refine ⟨⟨"app", Ascending.mem_ofList.2 List.mem_cons_self, "x", rfl⟩, fun parts h => ?_⟩
    have hread : TxnId.Parts.read "app-x" = .error (.malformed "app-x" .tooFewParts) := rfl
    rw [hread] at h
    cases h
  have cleans := (listing_cleans reachable rfl rfl whole alike).1 legible.readable
  have stops := (listing_cleans reachable' rfl rfl whole alike).2
    ⟨"app-x", Broker.listed_begin_self b _ List.mem_cons_self, mismatch⟩
  have hopen : b.isOpen id.text = true := by rw [Broker.isOpen_begin, if_pos rfl]
  refine ⟨reachable, reachable', whole, hopen, ?_, stops⟩
  rw [← Bool.not_eq_true, cleans.2.1]
  intro h
  obtain ⟨-, h | h | h⟩ := h
  · exact h (Broker.listed_begin_self Broker.empty _ List.mem_cons_self)
  · exact h ⟨_, TxnId.parts_compose "app" 1 2, Ascending.mem_ofList.2 List.mem_cons_self⟩
  · exact absurd (Ascending.mem_ofList.1 h) List.not_mem_nil

end Restart

end SinkFencing
