import SinkFencing.Proofs.BrokerFencing

namespace SinkFencing

/-- One subtask's part in a restart. -/
structure Task where
  strategy : Strategy
  scope : Scope

variable {σ : Type}

namespace Task

def index (task : Task) : UInt32 := task.scope.placement.index

def pass (task : Task) (client : Client σ) : Pass σ Unit := task.strategy.pass client task.scope

theorem nodup_calls (task : Task) (client : Client σ) (s : σ) :
    (task.pass client s).abortCalls.Nodup := task.strategy.nodup_calls client task.scope s

theorem state_pass {b : Broker} (hb : b.abortsLeft = none) (task : Task) :
    (task.pass Broker.client b).state = b.fenceAll (task.pass Broker.client b).abortCalls :=
  Broker.state_pass hb task.strategy task.scope

theorem abortsLeft_pass {b : Broker} (hb : b.abortsLeft = none) (task : Task) :
    (task.pass Broker.client b).state.abortsLeft = none :=
  Broker.abortsLeft_pass hb task.strategy task.scope

end Task

namespace Restart

def runs (client : Client σ) : List Task → σ → List (Run σ Unit)
  | [], _ => []
  | task :: rest, s => task.pass client s :: runs client rest (task.pass client s).state

def finish (client : Client σ) : List Task → σ → σ
  | [], s => s
  | task :: rest, s => finish client rest (task.pass client s).state

def calls (client : Client σ) (tasks : List Task) (s : σ) : List TxnId :=
  (runs client tasks s).flatMap Run.abortCalls

/-- The tasks belong to different subtasks of a run with this parallelism. -/
structure Separate (parallelism : UInt32) (tasks : List Task) : Prop where
  parallelism_eq : ∀ task ∈ tasks, task.scope.placement.parallelism = parallelism
  nodup : (tasks.map Task.index).Nodup

/-- Each subtask of a run with this parallelism has one task, in whatever order. -/
structure Whole (parallelism : UInt32) (tasks : List Task) : Prop
    extends Separate parallelism tasks where
  pos : 0 < parallelism
  covers : ∀ index < parallelism, index ∈ tasks.map Task.index

variable {parallelism : UInt32} {task other : Task} {rest tasks : List Task}

namespace Separate

theorem tail (h : Separate parallelism (task :: rest)) : Separate parallelism rest := by
  obtain ⟨-, hrest⟩ := List.nodup_cons.1 h.nodup
  exact ⟨fun other hother => h.parallelism_eq other (List.mem_cons_of_mem _ hother), hrest⟩

theorem head (h : Separate parallelism (task :: rest)) (hother : other ∈ rest) :
    other.scope.placement.parallelism = task.scope.placement.parallelism ∧
      other.scope.placement.index ≠ task.scope.placement.index := by
  obtain ⟨htask, -⟩ := List.nodup_cons.1 h.nodup
  constructor
  · rw [h.parallelism_eq task List.mem_cons_self,
      h.parallelism_eq other (List.mem_cons_of_mem _ hother)]
  · intro he
    apply htask
    rw [Task.index, ← he]
    exact List.mem_map_of_mem (f := Task.index) hother

end Separate

theorem Whole.exists_owner (h : Whole parallelism tasks) (owner : UInt32) :
    ∃ task ∈ tasks, task.scope.placement.owns owner = true := by
  have hlt : owner % parallelism < parallelism := UInt32.mod_lt owner h.pos
  obtain ⟨task, htask, hindex⟩ := List.mem_map.1 (h.covers _ hlt)
  refine ⟨task, htask, Placement.owns_iff.2 ?_⟩
  rw [h.parallelism_eq task htask]
  exact hindex.symm

theorem Whole.single (h : task.scope.placement.parallelism = 1) : Whole 1 [task] := by
  have hlt : task.index.toNat < 1 := by
    have hindex := UInt32.lt_iff_toNat_lt.1 task.scope.placement.index_lt
    rw [h] at hindex
    exact hindex
  refine ⟨⟨by simpa using h, by simp⟩, by decide, fun index hindex => ?_⟩
  have hzero : index.toNat < 1 := UInt32.lt_iff_toNat_lt.1 hindex
  exact List.mem_singleton.2 (UInt32.toNat_inj.1 (by omega))

theorem Whole.pair (htask : task.scope.placement.parallelism = 2)
    (hother : other.scope.placement.parallelism = 2) (hne : task.index ≠ other.index) :
    Whole 2 [task, other] := by
  have lt_two (task : Task) (h : task.scope.placement.parallelism = 2) : task.index.toNat < 2 := by
    have hindex := UInt32.lt_iff_toNat_lt.1 task.scope.placement.index_lt
    rw [h] at hindex
    exact hindex
  have h₁ := lt_two task htask
  have h₂ := lt_two other hother
  refine ⟨⟨by simp [htask, hother], by simpa using hne⟩, by decide, fun index hindex => ?_⟩
  have h₃ : index.toNat < 2 := UInt32.lt_iff_toNat_lt.1 hindex
  have hne' : task.index.toNat ≠ other.index.toNat := fun e => hne (UInt32.toNat_inj.1 e)
  have hone : index = task.index ∨ index = other.index := by
    simp only [← UInt32.toNat_inj]
    omega
  simpa using hone

theorem calls_cons (client : Client σ) (task : Task) (rest : List Task) (s : σ) :
    calls client (task :: rest) s =
      (task.pass client s).abortCalls ++ calls client rest (task.pass client s).state :=
  List.flatMap_cons

theorem exists_task_of_mem_calls {client : Client σ} {s : σ} {id : TxnId}
    (h : id ∈ calls client tasks s) : ∃ task ∈ tasks, ∃ t, id ∈ (task.pass client t).abortCalls := by
  induction tasks generalizing s with
  | nil => cases h
  | cons task rest ih =>
    rw [calls_cons] at h
    rcases List.mem_append.1 h with h | h
    · exact ⟨task, List.mem_cons_self, s, h⟩
    · obtain ⟨other, hother, t, ht⟩ := ih h
      exact ⟨other, List.mem_cons_of_mem _ hother, t, ht⟩

theorem nodup_calls (h : Separate parallelism tasks) (client : Client σ) (s : σ) :
    (calls client tasks s).Nodup := by
  induction tasks generalizing s with
  | nil => exact List.nodup_nil
  | cons task rest ih =>
    rw [calls_cons]
    have hrest := ih h.tail (task.pass client s).state
    refine List.nodup_append.2 ⟨task.nodup_calls client s, hrest, ?_⟩
    -- An id of a later pass has an owner of another residue.
    intro id hid id' hid' he
    rw [← he] at hid'
    obtain ⟨other, hother, t, ht⟩ := exists_task_of_mem_calls hid'
    obtain ⟨hp, hi⟩ := h.head hother
    exact Strategy.not_mem_calls_of_index_ne hp.symm hi.symm hid ht

theorem finish_eq {b : Broker} (hb : b.abortsLeft = none) (tasks : List Task) :
    finish Broker.client tasks b = b.fenceAll (calls Broker.client tasks b) := by
  induction tasks generalizing b with
  | nil => rfl
  | cons task rest ih =>
    rw [finish, ih (task.abortsLeft_pass hb), calls_cons, Broker.fenceAll_append,
      ← task.state_pass hb]

theorem isOpen_finish {b : Broker} (hb : b.abortsLeft = none) (tasks : List Task) (name : String) :
    (finish Broker.client tasks b).isOpen name = true ↔
      b.isOpen name = true ∧ ⟨name⟩ ∉ calls Broker.client tasks b := by
  rw [finish_eq hb]
  exact Broker.isOpen_fenceAll b _ ⟨name⟩

theorem epochOf_finish {b : Broker} (hb : b.abortsLeft = none) (h : Separate parallelism tasks)
    (name : String) : (finish Broker.client tasks b).epochOf name =
      if ⟨name⟩ ∈ calls Broker.client tasks b then (b.epochOf name).next else b.epochOf name := by
  rw [finish_eq hb]
  exact Broker.epochOf_fenceAll (nodup_calls h Broker.client b) ⟨name⟩

/-- What a restart fences, it fences in one of its passes only. -/
theorem fenced_finish {b : Broker} (hb : b.abortsLeft = none) (h : Separate parallelism tasks) :
    ∃ fenced, (finish Broker.client tasks b).fenced = b.fenced ++ fenced ∧ fenced.Nodup ∧
      ∀ name, name ∈ fenced ↔ b.isOpen name = true ∧ ⟨name⟩ ∈ calls Broker.client tasks b := by
  have hnodup := nodup_calls h Broker.client b
  have hnames : ((calls Broker.client tasks b).map TxnId.text).Nodup :=
    List.pairwise_map.2 (hnodup.imp fun hne he => hne (TxnId.ext_of_text he))
  rw [finish_eq hb]
  refine ⟨_, Broker.fenced_fenceAll hnodup, hnames.filter _, fun name => ?_⟩
  rw [List.mem_filter]
  constructor
  · intro h
    obtain ⟨id, hid, he⟩ := List.mem_map.1 h.1
    subst he
    exact ⟨h.2, hid⟩
  · intro h
    exact ⟨List.mem_map.2 ⟨_, h.2, rfl⟩, h.1⟩

end Restart

end SinkFencing
