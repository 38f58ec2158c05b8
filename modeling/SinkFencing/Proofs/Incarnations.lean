import Mathlib.Logic.Relation
import SinkFencing.Proofs.ProbingRestart

namespace SinkFencing

open TxnId Probing

theorem Broker.Reachable.fenceAll {b : Broker} (h : b.Reachable) (hb : b.abortsLeft = none)
    (ids : List TxnId) : (b.fenceAll ids).Reachable := by
  induction ids generalizing b with
  | nil => exact h
  | cons id ids ih =>
    -- No failure is ordered, so an abort is a fencing.
    have hfence : (b.abort id).2 = (b.fence id.text).2 :=
      congrArg Prod.snd (Broker.client_abort_of_none hb id)
    have hstep : (b.abort id).2.Reachable := h.step (.abort id)
    rw [hfence] at hstep
    exact ih hstep hb

/-- What all incarnations of a job have in common. -/
structure Job where
  stem : String
  start : UInt64
  stem_ne_empty : stem ≠ ""

/-- A job and its broker at some time of an incarnation. -/
structure Life where
  broker : Broker
  /-- The number of subtasks in this incarnation. -/
  parallelism : UInt32
  /-- The subtasks whose pass came to its end. They may begin transactions. -/
  ready : List UInt32
  /-- How many transactions each subtask has begun. -/
  begun : UInt32 → Nat
  /-- The owners that were ready, in this incarnation or an earlier one. -/
  done : List UInt32

namespace Life

def first (b : Broker) : Life := ⟨b, 0, [], fun _ => 0, []⟩

def restart (life : Life) (parallelism : UInt32) : Life :=
  { life with parallelism := parallelism, ready := [], begun := fun _ => 0 }

def recover (life : Life) (task : Task) : Life :=
  { life with
    broker := (task.pass Broker.client life.broker).state
    ready := task.index :: life.ready
    done := task.index :: life.done }

def interrupt (life : Life) (task : Task) (calls : Nat) : Life :=
  { life with
    broker := life.broker.fenceAll ((task.pass Broker.client life.broker).abortCalls.take calls) }

def begin (life : Life) (stem : String) (index : UInt32) (sequence : UInt64)
    (topic : Option String) : Life :=
  { life with
    broker := life.broker.begin (compose stem index sequence).text topic
    begun := fun i => if i = index then life.begun i + 1 else life.begun i }

theorem begun_begin (life : Life) (stem : String) (index : UInt32) (sequence : UInt64)
    (topic : Option String) (i : UInt32) : (life.begin stem index sequence topic).begun i =
      if i = index then life.begun i + 1 else life.begun i := rfl

theorem isOpen_begin_self (life : Life) (stem : String) (index : UInt32) (sequence : UInt64)
    (topic : Option String) : (life.begin stem index sequence topic).broker.isOpen
      (compose stem index sequence).text = true := by
  rw [begin, Broker.isOpen_begin]
  exact if_pos rfl

def commit (life : Life) (name : String) : Life :=
  { life with broker := (life.broker.commit name).2 }

def recoverAll (life : Life) (tasks : List Task) : Life := tasks.foldl recover life

theorem broker_recoverAll (life : Life) (tasks : List Task) :
    (life.recoverAll tasks).broker = Restart.finish Broker.client tasks life.broker := by
  induction tasks generalizing life with
  | nil => rfl
  | cons task rest ih => exact ih (life.recover task)

theorem mem_done_recoverAll (life : Life) (tasks : List Task) (owner : UInt32) :
    owner ∈ (life.recoverAll tasks).done ↔ owner ∈ tasks.map Task.index ∨ owner ∈ life.done := by
  induction tasks generalizing life with
  | nil => simp [recoverAll]
  | cons task rest ih =>
    show owner ∈ ((life.recover task).recoverAll rest).done ↔ _
    rw [ih, recover, List.map_cons, List.mem_cons, List.mem_cons, or_left_comm, or_assoc]

end Life

namespace Job

def id (job : Job) (owner : UInt32) (sequence : UInt64) : TxnId := compose job.stem owner sequence

/-- The task is a probing pass of this job. -/
structure Probes (job : Job) (task : Task) : Prop where
  strategy_eq : task.strategy = .probing
  stems_eq : task.scope.stems = Ascending.ofList [job.stem]
  start_eq : task.scope.start = job.start

theorem Probes.known {job : Job} {task : Task} (h : job.Probes task) :
    job.stem ∈ task.scope.stems := by
  rw [h.stems_eq]
  exact Ascending.mem_ofList.2 List.mem_cons_self

/-- No id of the job was used yet, whatever its owner. -/
def Fresh (job : Job) (b : Broker) : Prop :=
  ∀ owner q, job.start ≤ q → ¬ Used b.table (job.id owner q)

/-- No transaction of the job is open, whatever its owner. -/
def Clean (job : Job) (b : Broker) : Prop :=
  ∀ owner q, job.start ≤ q → b.isOpen (job.id owner q).text = false

/-- A subtask that is ready takes its sequences one after another; any transaction may be committed. -/
inductive Work (job : Job) : Life → Life → Prop
  | begin {life : Life} {index : UInt32} {sequence : UInt64} (topic : Option String)
      (ready : index ∈ life.ready)
      (next : sequence.toNat = job.start.toNat + life.begun index) :
      Work job life (life.begin job.stem index sequence topic)
  | commit {life : Life} (name : String) : Work job life (life.commit name)

/-- An incarnation may end at any time, also in the middle of a pass. -/
inductive Step (job : Job) : Life → Life → Prop
  | restart {life : Life} (parallelism : UInt32) : Step job life (life.restart parallelism)
  | recover {life : Life} {task : Task} (probes : job.Probes task)
      (current : task.scope.placement.parallelism = life.parallelism)
      (waiting : task.index ∉ life.ready) : Step job life (life.recover task)
  | interrupt {life : Life} {task : Task} (probes : job.Probes task)
      (current : task.scope.placement.parallelism = life.parallelism)
      (waiting : task.index ∉ life.ready) (calls : Nat) : Step job life (life.interrupt task calls)
  | work {life life' : Life} (work : Work job life life') : Step job life life'

abbrev Steps (job : Job) : Life → Life → Prop := Relation.ReflTransGen job.Step

/-- No incarnation ends before all its subtasks are ready, and none begins a transaction before. -/
inductive Orderly (job : Job) (b : Broker) : Life → Prop
  | first : Orderly job b (.first b)
  | restart {life : Life} {parallelism : UInt32} {tasks : List Task} (before : Orderly job b life)
      (whole : Restart.Whole parallelism tasks) (probes : ∀ task ∈ tasks, job.Probes task) :
      Orderly job b ((life.restart parallelism).recoverAll tasks)
  | work {life life' : Life} (before : Orderly job b life) (work : Work job life life') :
      Orderly job b life'

variable {job : Job} {b : Broker} {life life' : Life} {parallelism : UInt32} {tasks : List Task}

theorem steps_recoverAll (separate : Restart.Separate life.parallelism tasks)
    (probes : ∀ task ∈ tasks, job.Probes task)
    (waiting : ∀ task ∈ tasks, task.index ∉ life.ready) :
    job.Steps life (life.recoverAll tasks) := by
  induction tasks generalizing life with
  | nil => exact .refl
  | cons task rest ih =>
    have first : job.Step life (life.recover task) :=
      .recover (probes task List.mem_cons_self)
        (separate.parallelism_eq task List.mem_cons_self) (waiting task List.mem_cons_self)
    refine .head first (ih separate.tail (fun other hother => ?_) fun other hother hready => ?_)
    · exact probes other (List.mem_cons_of_mem _ hother)
    · rcases List.mem_cons.1 hready with he | hready
      · exact (separate.head hother).2 he
      · exact waiting other (List.mem_cons_of_mem _ hother) hready

theorem Orderly.steps (h : job.Orderly b life) : job.Steps (.first b) life := by
  induction h with
  | first => exact .refl
  | @restart life parallelism tasks _ whole probes ih =>
    have hrestart : job.Steps (.first b) (life.restart parallelism) := ih.tail (.restart parallelism)
    exact hrestart.trans (steps_recoverAll whole.toSeparate probes fun _ _ => List.not_mem_nil)
  | work _ work ih => exact ih.tail (.work work)

theorem Orderly.done_of_lt (h : job.Orderly b life) {owner lower : UInt32}
    (hdone : owner ∈ life.done) (hlt : lower < owner) : lower ∈ life.done := by
  induction h with
  | first => cases hdone
  | @restart life parallelism tasks _ whole _ ih =>
    rw [Life.mem_done_recoverAll] at hdone ⊢
    rcases hdone with hdone | hdone
    · obtain ⟨task, htask, hindex⟩ := List.mem_map.1 hdone
      have hbound : owner < parallelism := by
        rw [← hindex, ← whole.parallelism_eq task htask]
        exact task.scope.placement.index_lt
      exact .inl (whole.covers lower (UInt32.lt_trans hlt hbound))
    · exact .inr (ih hdone)
  | work _ work ih =>
    cases work with
    | begin | commit => exact ih hdone

end Job

/-- What holds of a job in all its incarnations. -/
structure Tidy (job : Job) (life : Life) : Prop where
  reachable : life.broker.Reachable
  aborts : life.broker.abortsLeft = none
  /-- No owner skips a sequence. -/
  unbroken : ∀ owner q q', job.start ≤ q → q < q' → Used life.broker.table (job.id owner q') →
    Used life.broker.table (job.id owner q)
  /-- A pass uses the first id of its subtask. -/
  used_of_done : ∀ owner ∈ life.done, Used life.broker.table (job.id owner job.start)
  done_of_ready : ∀ index ∈ life.ready, index ∈ life.done
  used_of_begun : ∀ index q, job.start ≤ q → q.toNat < job.start.toNat + life.begun index →
    Used life.broker.table (job.id index q)
  done_of_isOpen : ∀ owner q, job.start ≤ q → life.broker.isOpen (job.id owner q).text = true →
    owner ∈ life.done

namespace Tidy

variable {job : Job} {b : Broker} {life life' : Life} {task : Task} {parallelism : UInt32}
  {tasks : List Task}

theorem first (reachable : b.Reachable) (aborts : b.abortsLeft = none) (fresh : job.Fresh b) :
    Tidy job (.first b) where
  reachable := reachable
  aborts := aborts
  unbroken := fun owner _ q' hq hlt hused =>
    absurd hused (fresh owner q' (UInt64.le_trans hq (UInt64.le_of_lt hlt)))
  used_of_done := fun _ h => absurd h List.not_mem_nil
  done_of_ready := fun _ h => absurd h List.not_mem_nil
  used_of_begun := fun _ _ hq hlt => absurd (UInt64.le_iff_toNat_le.1 hq) (Nat.not_le.2 hlt)
  done_of_isOpen := fun owner q hq hopen =>
    absurd (reachable.used_of_isOpen hopen) (fresh owner q hq)

theorem restart (h : Tidy job life) (parallelism : UInt32) : Tidy job (life.restart parallelism) :=
  { h with
    done_of_ready := fun _ h => absurd h List.not_mem_nil
    used_of_begun := fun _ _ hq hlt => absurd (UInt64.le_iff_toNat_le.1 hq) (Nat.not_le.2 hlt) }

/-- Fencing keeps the job tidy as long as it skips no sequence of an owner. -/
theorem fenceAll (h : Tidy job life) {ids : List TxnId} (nodup : ids.Nodup)
    (unbroken : ∀ owner q q', job.start ≤ q → q < q' → job.id owner q' ∈ ids →
      Used life.broker.table (job.id owner q)) :
    Tidy job { life with broker := life.broker.fenceAll ids } := by
  have used (id : TxnId) := Broker.used_fenceAll_iff h.reachable.sound nodup id
  constructor
  case reachable => exact h.reachable.fenceAll h.aborts ids
  case aborts => rw [Broker.abortsLeft_fenceAll, h.aborts]
  case unbroken =>
    intro owner q q' hq hlt hused
    rw [used] at hused ⊢
    rcases hused with hused | hmem
    · exact .inl (h.unbroken owner q q' hq hlt hused)
    · exact .inl (unbroken owner q q' hq hlt hmem)
  case used_of_done =>
    intro owner hdone
    exact (used _).2 (.inl (h.used_of_done owner hdone))
  case done_of_ready => exact h.done_of_ready
  case used_of_begun =>
    intro index q hq hlt
    exact (used _).2 (.inl (h.used_of_begun index q hq hlt))
  case done_of_isOpen =>
    intro owner q hq hopen
    exact h.done_of_isOpen owner q hq ((Broker.isOpen_fenceAll _ _ _).1 hopen).1

/-- A pass calls an id only when its owner used all sequences before. -/
theorem used_of_call (h : Tidy job life) (probes : job.Probes task) {owner : UInt32} {q q' : UInt64}
    (hq : job.start ≤ q) (hlt : q < q')
    (hcall : job.id owner q' ∈ (task.pass Broker.client life.broker).abortCalls) :
    Used life.broker.table (job.id owner q) := by
  rw [Task.pass, probes.strategy_eq] at hcall
  have hreached : Reached life.broker.table task.scope ⟨job.stem, owner, q'⟩ :=
    (compose_mem_calls_iff h.aborts task.scope _).1 hcall
  exact hreached.below q (probes.start_eq ▸ hq) hlt

theorem interrupt (h : Tidy job life) (probes : job.Probes task) (calls : Nat) :
    Tidy job (life.interrupt task calls) := by
  have nodup := task.nodup_calls Broker.client life.broker
  apply h.fenceAll (nodup.sublist (List.take_sublist calls _))
  intro owner q q' hq hlt hcall
  exact h.used_of_call probes hq hlt (List.mem_of_mem_take hcall)

theorem recover (h : Tidy job life) (probes : job.Probes task) : Tidy job (life.recover task) := by
  have probed := h.fenceAll (task.nodup_calls Broker.client life.broker)
    fun owner q q' hq hlt => h.used_of_call probes hq hlt
  rw [← task.state_pass h.aborts] at probed
  have used : Used (life.recover task).broker.table (job.id task.index job.start) := by
    rw [Life.recover, Task.pass, probes.strategy_eq, ← probes.start_eq]
    exact (Broker.used_pass_iff h.reachable h.aborts task.scope
      ⟨job.stem, task.index, task.scope.start⟩).2 (.inr (reached_start probes.known))
  refine { probed with
    used_of_done := ?used_of_done, done_of_ready := ?done_of_ready, done_of_isOpen := ?done_of_isOpen }
  case used_of_done =>
    intro owner hdone
    rcases List.mem_cons.1 hdone with he | hdone
    · rw [he]
      exact used
    · exact probed.used_of_done owner hdone
  case done_of_ready =>
    intro index hready
    rcases List.mem_cons.1 hready with he | hready
    · exact he ▸ List.mem_cons_self
    · exact List.mem_cons_of_mem _ (h.done_of_ready index hready)
  case done_of_isOpen =>
    intro owner q hq hopen
    exact List.mem_cons_of_mem _ (probed.done_of_isOpen owner q hq hopen)

/-- A subtask that takes the next sequence has used those before. -/
theorem begin (h : Tidy job life) {index : UInt32} {sequence : UInt64} (topic : Option String)
    (ready : index ∈ life.ready) (next : sequence.toNat = job.start.toNat + life.begun index) :
    Tidy job (life.begin job.stem index sequence topic) := by
  have used (id : TxnId) : Used (life.begin job.stem index sequence topic).broker.table id ↔
      Used life.broker.table id ∨ id = job.id index sequence :=
    Broker.used_begin_iff h.reachable.sound _ id topic
  constructor
  case reachable => exact h.reachable.step (.begin _ topic)
  case aborts => exact h.aborts
  case unbroken =>
    intro owner q q' hq hlt hused
    rw [used] at hused ⊢
    rcases hused with hused | he
    · exact .inl (h.unbroken owner q q' hq hlt hused)
    · obtain ⟨-, howner, hsequence⟩ := compose_inj.1 he
      rw [hsequence, UInt64.lt_iff_toNat_lt, next] at hlt
      exact .inl (howner ▸ h.used_of_begun index q hq hlt)
  case used_of_done =>
    intro owner hdone
    exact (used _).2 (.inl (h.used_of_done owner hdone))
  case done_of_ready => exact h.done_of_ready
  case used_of_begun =>
    intro i q hq hlt
    rw [used]
    by_cases hi : i = index
    · rw [Life.begun_begin, if_pos hi, hi] at hlt
      have hle : q.toNat ≤ sequence.toNat := by omega
      rcases Nat.lt_or_eq_of_le hle with hlt | he
      · exact .inl (hi ▸ h.used_of_begun index q hq (next ▸ hlt))
      · exact .inr (by rw [hi, UInt64.toNat_inj.1 he])
    · rw [Life.begun_begin, if_neg hi] at hlt
      exact .inl (h.used_of_begun i q hq hlt)
  case done_of_isOpen =>
    intro owner q hq hopen
    rw [Life.begin, Broker.isOpen_begin] at hopen
    split at hopen
    · rename_i he
      obtain ⟨-, howner, -⟩ := compose_inj.1 (ext_of_text he)
      exact howner ▸ h.done_of_ready index ready
    · exact h.done_of_isOpen owner q hq hopen

theorem commit (h : Tidy job life) (name : String) : Tidy job (life.commit name) := by
  refine { h with reachable := h.reachable.step (.commit name), done_of_isOpen := ?_ }
  intro owner q hq hopen
  rw [Life.commit, Broker.isOpen_commit] at hopen
  split at hopen
  · cases hopen
  · exact h.done_of_isOpen owner q hq hopen

theorem step (h : Tidy job life) (step : job.Step life life') : Tidy job life' := by
  cases step with
  | restart parallelism => exact h.restart parallelism
  | recover probes _ _ => exact h.recover probes
  | interrupt probes _ _ calls => exact h.interrupt probes calls
  | work work =>
    cases work with
    | begin topic ready next => exact h.begin topic ready next
    | commit name => exact h.commit name

/-- A job whose ids were new is tidy in all its incarnations. -/
theorem of_steps (reachable : b.Reachable) (aborts : b.abortsLeft = none) (fresh : job.Fresh b)
    (steps : job.Steps (.first b) life) : Tidy job life := by
  induction steps with
  | refl => exact first reachable aborts fresh
  | tail _ next ih => exact ih.step next

/-- A restart comes to all ids of an owner just if the lower owners of its class used the start. -/
theorem mem_calls_iff (h : Tidy job life) (whole : Restart.Whole parallelism tasks)
    (probes : ∀ task ∈ tasks, job.Probes task) {owner : UInt32} {sequence : UInt64}
    (start_le : job.start ≤ sequence) (used : Used life.broker.table (job.id owner sequence)) :
    job.id owner sequence ∈ Restart.calls Broker.client tasks life.broker ↔
      ∀ lower < owner, lower % parallelism = owner % parallelism →
        Used life.broker.table (job.id lower job.start) := by
  rw [Restart.mem_calls_iff h.aborts whole.toSeparate fun task ht => (probes task ht).strategy_eq]
  constructor
  · intro hcall lower hlt hclass
    obtain ⟨task, htask, ⟨stem, o, q⟩, hid, hreached⟩ := hcall
    obtain ⟨rfl, rfl, rfl⟩ := compose_inj.1 hid
    obtain ⟨claims, -, hway⟩ := reached_iff.1 hreached
    have owns : task.scope.placement.owns lower = true := by
      rw [Placement.owns_iff, ← (Scope.claims_iff.1 claims).2, whole.parallelism_eq task htask, hclass]
    have hused := hway ⟨job.stem, lower, task.scope.start⟩ (.owner owns hlt)
    rw [(probes task htask).start_eq] at hused
    exact hused
  · intro hlower
    obtain ⟨task, htask, howns⟩ := whole.exists_owner owner
    have hparallelism := whole.parallelism_eq task htask
    have hstart := (probes task htask).start_eq
    have claims : task.scope.claims ⟨job.stem, owner, sequence⟩ = true :=
      Scope.claims_iff.2 ⟨(probes task htask).known, Placement.owns_iff.1 howns⟩
    refine ⟨task, htask, ⟨job.stem, owner, sequence⟩, rfl,
      reached_iff.2 ⟨claims, hstart ▸ start_le, fun earlier way => ?_⟩⟩
    cases way with
    | @owner _ lower _ _ owns hlt =>
      rw [hstart]
      rw [Placement.owns_iff] at owns howns
      refine hlower lower hlt ?_
      rw [← hparallelism, owns, howns]
    | sequence hq hlt => exact h.unbroken owner _ sequence (hstart ▸ hq) hlt used

/-- What a restart leaves open it could not see past a lower owner of the same class. -/
theorem isOpen_recoverAll_iff (h : Tidy job life) (whole : Restart.Whole parallelism tasks)
    (probes : ∀ task ∈ tasks, job.Probes task) {owner : UInt32} {sequence : UInt64}
    (start_le : job.start ≤ sequence) :
    ((life.restart parallelism).recoverAll tasks).broker.isOpen (job.id owner sequence).text = true ↔
      life.broker.isOpen (job.id owner sequence).text = true ∧
        ∃ lower < owner, lower % parallelism = owner % parallelism ∧
          ¬ Used life.broker.table (job.id lower job.start) := by
  rw [Life.broker_recoverAll, Life.restart, Restart.isOpen_finish h.aborts]
  refine and_congr_right fun hopen => ?_
  have hcalls := h.mem_calls_iff whole probes start_le (h.reachable.used_of_isOpen hopen)
  refine (not_congr hcalls).trans ?_
  simp only [Classical.not_forall, exists_prop]

end Tidy

end SinkFencing
