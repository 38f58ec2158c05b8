import SinkFencing.Proofs.ProbingWay
import SinkFencing.Proofs.Restart

namespace SinkFencing

open TxnId

namespace Restart

open Probing

variable {b : Broker} {parallelism : UInt32} {tasks : List Task}

/-- A pass changes no epoch that a scope of another subtask asks for. -/
theorem table_pass_eq (b : Broker) {task other : Task}
    (hp : other.scope.placement.parallelism = task.scope.placement.parallelism)
    (hi : other.scope.placement.index ≠ task.scope.placement.index) {parts : Parts}
    (hclaims : other.scope.claims parts = true) :
    (task.pass Broker.client b).state.table parts.compose = b.table parts.compose := by
  have hcall : parts.compose ∉ (task.pass Broker.client b).abortCalls :=
    Strategy.not_mem_calls_of_claims hp hi (parts_compose _ _ _) hclaims
  exact (Broker.frame_of_not_mem_calls
    (pass_truthful Broker.client task.scope task.strategy b) hcall).2

theorem answer_of_mem_runs (hb : b.abortsLeft = none)
    (probing : ∀ task ∈ tasks, task.strategy = .probing) {run : Run Broker Unit}
    (h : run ∈ runs Broker.client tasks b) : run.answer = .ok () := by
  induction tasks generalizing b with
  | nil => cases h
  | cons task rest ih =>
    rcases List.mem_cons.1 h with h | h
    · rw [h, Task.pass, probing task List.mem_cons_self]
      exact answer_pass hb task.scope
    · apply ih _ _ h
      · exact task.abortsLeft_pass hb
      · intro other hother
        exact probing other (List.mem_cons_of_mem _ hother)

theorem mem_calls_iff (hb : b.abortsLeft = none) (separate : Separate parallelism tasks)
    (probing : ∀ task ∈ tasks, task.strategy = .probing) (id : TxnId) :
    id ∈ calls Broker.client tasks b ↔ ∃ task ∈ tasks, ∃ parts : Parts,
      id = parts.compose ∧ Reached b.table task.scope parts := by
  induction tasks generalizing b with
  | nil => simp [runs, calls]
  | cons task rest ih =>
    have hfirst : id ∈ (task.pass Broker.client b).abortCalls ↔
        ∃ parts : Parts, id = parts.compose ∧ Reached b.table task.scope parts := by
      rw [Task.pass, probing task List.mem_cons_self]
      exact mem_calls_pass_iff hb task.scope id
    have hrest := ih (task.abortsLeft_pass hb) separate.tail fun other hother =>
      probing other (List.mem_cons_of_mem _ hother)
    -- The rest of the tasks find the epochs they ask for as they were before this pass.
    have hreached (other : Task) (hother : other ∈ rest) (parts : Parts) :
        Reached (task.pass Broker.client b).state.table other.scope parts ↔
          Reached b.table other.scope parts := by
      obtain ⟨hp, hi⟩ := separate.head hother
      constructor
      · exact Reached.congr fun parts hclaims => (table_pass_eq b hp hi hclaims).symm
      · exact Reached.congr fun parts hclaims => table_pass_eq b hp hi hclaims
    rw [calls_cons, List.mem_append, hfirst, hrest]
    constructor
    · intro h
      rcases h with h | h
      · exact ⟨task, List.mem_cons_self, h⟩
      · obtain ⟨other, hother, parts, hid, h⟩ := h
        exact ⟨other, List.mem_cons_of_mem _ hother, parts, hid, (hreached other hother parts).1 h⟩
    · intro h
      obtain ⟨other, hother, parts, hid, h⟩ := h
      rcases List.mem_cons.1 hother with he | hother
      · rw [he] at h
        exact .inl ⟨parts, hid, h⟩
      · exact .inr ⟨other, hother, parts, hid, (hreached other hother parts).2 h⟩

/-- From the start on, each stem was used by the first so many owners, and by each without a gap. -/
def Contiguous (table : TxnId → Epoch) (stems : Ascending String) (start : UInt64) : Prop :=
  ∀ stem ∈ stems, ∃ owners : Nat,
    (∀ owner : UInt32, owner.toNat < owners → Used table (compose stem owner start) ∧
      ∀ q q', start ≤ q → q < q' → Used table (compose stem owner q') →
        Used table (compose stem owner q)) ∧
    ∀ owner : UInt32, owners ≤ owner.toNat → ∀ q, start ≤ q → ¬ Used table (compose stem owner q)

/-- The ids that a job with these stems leaves behind from the start on. -/
def Stale (stems : Ascending String) (start : UInt64) (id : TxnId) : Prop :=
  ∃ parts : Parts, id = parts.compose ∧ parts.stem ∈ stems ∧ start ≤ parts.sequence

theorem Contiguous.gapFree {table : TxnId → Epoch} {scope : Scope}
    (contiguous : Contiguous table scope.stems scope.start) : GapFree table scope := by
  intro stem known
  obtain ⟨owners, hfull, hnone⟩ := contiguous stem known
  exact ⟨owners, fun owner _ => ⟨hfull owner, hnone owner⟩⟩

theorem exists_reached (whole : Whole parallelism tasks) {table : TxnId → Epoch}
    {stems : Ascending String} {start : UInt64}
    (same : ∀ task ∈ tasks, task.scope.stems = stems ∧ task.scope.start = start)
    (contiguous : Contiguous table stems start) {parts : Parts} (hstem : parts.stem ∈ stems)
    (hstart : start ≤ parts.sequence) (hused : Used table parts.compose) :
    ∃ task ∈ tasks, Reached table task.scope parts := by
  obtain ⟨task, htask, howns⟩ := whole.exists_owner parts.owner
  obtain ⟨hstems, hstarts⟩ := same task htask
  subst hstems hstarts
  have claims : task.scope.claims parts = true :=
    Scope.claims_iff.2 ⟨hstem, Placement.owns_iff.1 howns⟩
  exact ⟨task, htask, contiguous.gapFree.reached claims hstart hused⟩

/-- Of the open transactions a restart calls just the stale ones. -/
theorem mem_calls_iff_stale (reachable : b.Reachable) (hb : b.abortsLeft = none)
    (whole : Whole parallelism tasks) (probing : ∀ task ∈ tasks, task.strategy = .probing)
    {stems : Ascending String} {start : UInt64}
    (same : ∀ task ∈ tasks, task.scope.stems = stems ∧ task.scope.start = start)
    (contiguous : Contiguous b.table stems start) {name : String} (hopen : b.isOpen name = true) :
    ⟨name⟩ ∈ calls Broker.client tasks b ↔ Stale stems start ⟨name⟩ := by
  rw [mem_calls_iff hb whole.toSeparate probing]
  constructor
  · intro h
    obtain ⟨task, htask, parts, hid, hreached⟩ := h
    obtain ⟨hstems, hstarts⟩ := same task htask
    subst hstems hstarts
    exact ⟨parts, hid, hreached.known, hreached.start_le⟩
  · intro h
    obtain ⟨parts, hid, hstem, hstart⟩ := h
    have hused : Used b.table parts.compose := by
      rw [← hid]
      exact reachable.used_of_isOpen hopen
    obtain ⟨task, htask, hreached⟩ := exists_reached whole same contiguous hstem hstart hused
    exact ⟨task, htask, parts, hid, hreached⟩

/-- A restart of all subtasks closes every stale transaction, each in just one pass, and no other. -/
theorem probing_cleans (reachable : b.Reachable) (hb : b.abortsLeft = none)
    (whole : Whole parallelism tasks) (probing : ∀ task ∈ tasks, task.strategy = .probing)
    {stems : Ascending String} {start : UInt64}
    (same : ∀ task ∈ tasks, task.scope.stems = stems ∧ task.scope.start = start)
    (contiguous : Contiguous b.table stems start) :
    (∀ run ∈ runs Broker.client tasks b, run.answer = .ok ()) ∧
    (∀ name, (finish Broker.client tasks b).isOpen name = true ↔
      b.isOpen name = true ∧ ¬ Stale stems start ⟨name⟩) ∧
    ∃ fenced, (finish Broker.client tasks b).fenced = b.fenced ++ fenced ∧ fenced.Nodup ∧
      ∀ name, name ∈ fenced ↔ b.isOpen name = true ∧ Stale stems start ⟨name⟩ := by
  have hstale (name : String) (hopen : b.isOpen name = true) :
      ⟨name⟩ ∈ calls Broker.client tasks b ↔ Stale stems start ⟨name⟩ :=
    mem_calls_iff_stale reachable hb whole probing same contiguous hopen
  refine ⟨fun run hrun => answer_of_mem_runs hb probing hrun, fun name => ?_, ?_⟩
  · rw [isOpen_finish hb]
    exact and_congr_right fun hopen => not_congr (hstale name hopen)
  · obtain ⟨fenced, heq, hnodup, hmem⟩ := fenced_finish hb whole.toSeparate
    refine ⟨fenced, heq, hnodup, fun name => ?_⟩
    rw [hmem]
    exact and_congr_right fun hopen => hstale name hopen

theorem used_begin_iff (id id' : TxnId) (topic : Option String) :
    Used (Broker.empty.begin id.text topic).table id' ↔ id' = id := by
  rw [Broker.used_begin_iff Broker.Sound.empty]
  exact or_iff_right (Broker.not_used_empty id')

theorem contiguous_begin (stem : String) (start : UInt64) (topic : Option String) :
    Contiguous (Broker.empty.begin (compose stem 0 start).text topic).table
      (Ascending.ofList [stem]) start := by
  intro other hother
  rw [List.mem_singleton.1 (Ascending.mem_ofList.1 hother)]
  simp only [used_begin_iff, compose_inj, true_and, and_true]
  refine ⟨1, ?_, ?_⟩
  · intro owner howner
    constructor
    · exact UInt32.toNat_inj.1 (Nat.lt_one_iff.1 howner)
    · intro q q' hq hlt h
      rw [h.2] at hlt
      exact absurd (UInt64.lt_of_le_of_lt hq hlt) (UInt64.lt_irrefl _)
  · intro owner howner q hq h
    rw [h.1] at howner
    exact absurd howner (by decide)

/-- A job of one subtask is restarted with two, of which the second goes first. -/
theorem probing_cleans_upscaled :
    let b := Broker.empty.begin (compose "app" 0 0).text none
    let task (index : UInt32) (h : index < 2) : Task :=
      ⟨.probing, Scope.ofStem ⟨index, 2, h⟩ 0 "app" [] (by decide)⟩
    let tasks := [task 1 (by decide), task 0 (by decide)]
    b.Reachable ∧ Whole 2 tasks ∧ Contiguous b.table (Ascending.ofList ["app"]) 0 ∧
      ∀ name, (finish Broker.client tasks b).isOpen name = true ↔
        b.isOpen name = true ∧ ¬ Stale (Ascending.ofList ["app"]) 0 ⟨name⟩ := by
  intro b task tasks
  have reachable : b.Reachable := Broker.Reachable.empty.step (.begin _ _)
  have contiguous : Contiguous b.table (Ascending.ofList ["app"]) 0 := contiguous_begin "app" 0 none
  have probing : ∀ t ∈ tasks, t.strategy = .probing := by simp [tasks, task]
  have same : ∀ t ∈ tasks, t.scope.stems = Ascending.ofList ["app"] ∧ t.scope.start = 0 := by
    simp [tasks, task, Scope.ofStem]
  have whole : Whole 2 tasks := Whole.pair rfl rfl (by decide)
  exact ⟨reachable, whole, contiguous, (probing_cleans reachable rfl whole probing same contiguous).2.1⟩

/-- How many sequences each of three owners has used. -/
def usedBy (owner : Nat) : Nat := [3, 1, 2].getD owner 0

theorem usedBy_pos_iff {owner : Nat} : 0 < usedBy owner ↔ owner < 3 := by
  match owner with
  | 0 | 1 | 2 => decide
  | n + 3 => simp [usedBy]

def begun : List Parts :=
  [⟨"app", 0, 0⟩, ⟨"app", 0, 1⟩, ⟨"app", 0, 2⟩, ⟨"app", 1, 0⟩, ⟨"app", 2, 0⟩, ⟨"app", 2, 1⟩]

/-- Three subtasks stopped. Of their transactions only the very first was committed. -/
def stopped : Broker :=
  ((Broker.empty.beginAll (some "orders") (begun.map Parts.compose)).commit (compose "app" 0 0).text).2

/-- The first of two subtasks that take over. -/
def successor : Scope :=
  { Scope.ofStem ⟨0, 2, by decide⟩ 0 "app" [] (by decide) with topics := ["orders"] }

theorem reachable_stopped : stopped.Reachable :=
  (Broker.Reachable.empty.beginAll (some "orders") (begun.map Parts.compose)).step (.commit _)

theorem isOpen_stopped_iff {name : String} : stopped.isOpen name = true ↔
    (compose "app" 0 0).text ≠ name ∧ ⟨name⟩ ∈ begun.map Parts.compose := by
  rw [stopped, Broker.isOpen_commit]
  by_cases h : (compose "app" 0 0).text = name
  · simp [h]
  · rw [if_neg h, Broker.isOpen_beginAll_empty, and_iff_right h]

theorem listed_stopped {name : String} (h : stopped.isOpen name = true) :
    stopped.Listed successor.topics name := by
  obtain ⟨hne, hbegun⟩ := isOpen_stopped_iff.1 h
  exact Broker.listed_commit_iff.2 ⟨Broker.listed_beginAll_empty _ List.mem_cons_self
    (Broker.isOpen_beginAll_empty.2 hbegun), hne⟩

theorem used_stopped_iff {owner : UInt32} {q : UInt64} :
    Used stopped.table (compose "app" owner q) ↔ q.toNat < usedBy owner.toNat := by
  have hbegun : Used stopped.table (compose "app" owner q) ↔
      compose "app" owner q ∈ begun.map Parts.compose :=
    (Broker.used_beginAll_iff Broker.Sound.empty _ _ _).trans
      (or_iff_right (Broker.not_used_empty _))
  rw [hbegun]
  simp only [begun, List.map_cons, List.map_nil, Parts.compose, List.mem_cons, compose_inj,
    List.not_mem_nil, or_false, true_and, ← UInt32.toNat_inj, ← UInt64.toNat_inj]
  generalize owner.toNat = owner, q.toNat = q
  match owner with
  | 0 =>
    simp [usedBy]
    omega
  | 1 => simp [usedBy]
  | 2 =>
    simp [usedBy]
    omega
  | n + 3 => simp [usedBy]

theorem contiguous_stopped : Contiguous stopped.table (Ascending.ofList ["app"]) 0 := by
  intro stem hstem
  rw [List.mem_singleton.1 (Ascending.mem_ofList.1 hstem)]
  refine ⟨3, fun owner howner => ⟨?_, fun q q' _ hlt hused => ?_⟩, fun owner howner q _ hused => ?_⟩
  · exact used_stopped_iff.2 (usedBy_pos_iff.2 howner)
  · exact used_stopped_iff.2 (Nat.lt_trans (UInt64.lt_iff_toNat_lt.1 hlt) (used_stopped_iff.1 hused))
  · exact Nat.not_lt.2 howner (usedBy_pos_iff.1 (Nat.zero_lt_of_lt (used_stopped_iff.1 hused)))

end Restart

end SinkFencing
