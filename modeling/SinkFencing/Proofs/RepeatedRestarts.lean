import SinkFencing.Proofs.Incarnations

namespace SinkFencing

open TxnId Probing

variable {job : Job} {b : Broker} {life : Life} {parallelism : UInt32} {tasks : List Task}

namespace Tidy

theorem answer_of_mem_runs (h : Tidy job life) (probes : ∀ task ∈ tasks, job.Probes task)
    {run : Run Broker Unit} (hrun : run ∈ Restart.runs Broker.client tasks life.broker) :
    run.answer = .ok () :=
  Restart.answer_of_mem_runs h.aborts (fun task htask => (probes task htask).strategy_eq) hrun

/-- Where no owner hides a higher one of its class, a restart leaves nothing open. -/
theorem clean_of_done (h : Tidy job life) (whole : Restart.Whole parallelism tasks)
    (probes : ∀ task ∈ tasks, job.Probes task)
    (done : ∀ owner ∈ life.done, ∀ lower < owner, lower % parallelism = owner % parallelism →
      lower ∈ life.done) :
    job.Clean ((life.restart parallelism).recoverAll tasks).broker := by
  intro owner sequence start_le
  refine Bool.eq_false_iff.2 fun hleft => ?_
  obtain ⟨hopen, lower, hlt, hclass, hunused⟩ :=
    (h.isOpen_recoverAll_iff whole probes start_le).1 hleft
  have hdone : owner ∈ life.done := h.done_of_isOpen owner sequence start_le hopen
  exact hunused (h.used_of_done lower (done owner hdone lower hlt hclass))

/-- A restart misses nothing of the owners that are subtasks of its own. -/
theorem closed_of_lt (h : Tidy job life) (whole : Restart.Whole parallelism tasks)
    (probes : ∀ task ∈ tasks, job.Probes task) {owner : UInt32} {sequence : UInt64}
    (hlt : owner < parallelism) (start_le : job.start ≤ sequence) :
    ((life.restart parallelism).recoverAll tasks).broker.isOpen (job.id owner sequence).text =
      false := by
  refine Bool.eq_false_iff.2 fun hleft => ?_
  obtain ⟨-, lower, hlower, hclass, -⟩ := (h.isOpen_recoverAll_iff whole probes start_le).1 hleft
  -- Both are below the parallelism, so they are their own residues.
  rw [UInt32.lt_iff_toNat_lt] at hlt hlower
  have hmod := congrArg UInt32.toNat hclass
  rw [UInt32.toNat_mod, UInt32.toNat_mod, Nat.mod_eq_of_lt hlt,
    Nat.mod_eq_of_lt (Nat.lt_trans hlower hlt)] at hmod
  omega

end Tidy

namespace Job

def task (job : Job) (placement : Placement) : Task :=
  ⟨.probing, Scope.ofStem placement job.start job.stem [] job.stem_ne_empty⟩

theorem probes_task (job : Job) (placement : Placement) : job.Probes (job.task placement) :=
  ⟨rfl, rfl, rfl⟩

theorem probes_of_mem_map (job : Job) (placements : List Placement) :
    ∀ task ∈ placements.map job.task, job.Probes task := by
  intro task htask
  obtain ⟨placement, -, rfl⟩ := List.mem_map.1 htask
  exact job.probes_task placement

theorem fresh_empty (job : Job) : job.Fresh .empty := by
  intro owner q _ hused
  cases hused

/-- If no incarnation begins a transaction before all its subtasks have recovered, every restart
succeeds and leaves no transaction of the job open, whatever the parallelisms were. -/
theorem orderly_restart_cleans (reachable : b.Reachable) (aborts : b.abortsLeft = none)
    (fresh : job.Fresh b) (orderly : job.Orderly b life) (whole : Restart.Whole parallelism tasks)
    (probes : ∀ task ∈ tasks, job.Probes task) :
    (∀ run ∈ Restart.runs Broker.client tasks life.broker, run.answer = .ok ()) ∧
    job.Clean ((life.restart parallelism).recoverAll tasks).broker := by
  have tidy : Tidy job life := .of_steps reachable aborts fresh orderly.steps
  refine ⟨fun run hrun => tidy.answer_of_mem_runs probes hrun, tidy.clean_of_done whole probes ?_⟩
  intro owner hdone lower hlt _
  exact orderly.done_of_lt hdone hlt

/-- Of two subtasks the second began a transaction, and one subtask is left to clean up. -/
theorem downscaled_restart_cleans :
    let job : Job := ⟨"app", 0, by decide⟩
    let tasks := [job.task ⟨1, 2, by decide⟩, job.task ⟨0, 2, by decide⟩]
    let life := (((Life.first .empty).restart 2).recoverAll tasks).begin "app" 1 0 none
    job.Fresh .empty ∧ job.Orderly .empty life ∧ life.broker.isOpen (job.id 1 0).text = true ∧
      ((life.restart 1).recoverAll [job.task ⟨0, 1, by decide⟩]).broker.isOpen (job.id 1 0).text =
        false := by
  intro job tasks life
  have started : job.Orderly .empty (((Life.first .empty).restart 2).recoverAll tasks) :=
    .restart .first (Restart.Whole.pair rfl rfl (by decide))
      (job.probes_of_mem_map [⟨1, 2, by decide⟩, ⟨0, 2, by decide⟩])
  have orderly : job.Orderly .empty life :=
    .work started (.begin none (List.mem_cons_of_mem _ List.mem_cons_self) rfl)
  have hopen : life.broker.isOpen (job.id 1 0).text = true := Life.isOpen_begin_self _ "app" 1 0 none
  have whole : Restart.Whole 1 [job.task ⟨0, 1, by decide⟩] := Restart.Whole.single rfl
  have cleans := orderly_restart_cleans .empty rfl job.fresh_empty orderly whole
    (job.probes_of_mem_map [⟨0, 1, by decide⟩])
  exact ⟨job.fresh_empty, orderly, hopen, cleans.2 1 0 (UInt64.le_refl 0)⟩

/-- Of two subtasks only the second recovered, and it began a transaction. -/
def crashed (job : Job) : Life :=
  (((Life.first .empty).restart 2).recover (job.task ⟨1, 2, by decide⟩)).begin job.stem 1 job.start none

/-- The one subtask of the next incarnation. -/
def lone (job : Job) : Task := job.task ⟨0, 1, by decide⟩

theorem whole_lone (job : Job) : Restart.Whole 1 [job.lone] := Restart.Whole.single rfl

theorem probes_lone (job : Job) : ∀ task ∈ [job.lone], job.Probes task :=
  job.probes_of_mem_map [⟨0, 1, by decide⟩]

theorem steps_crashed (job : Job) : job.Steps (.first .empty) job.crashed := by
  have recovered : job.Step ((Life.first .empty).restart 2)
      (((Life.first .empty).restart 2).recover (job.task ⟨1, 2, by decide⟩)) :=
    .recover (job.probes_task _) rfl List.not_mem_nil
  have restarted : job.Steps (.first .empty) ((Life.first .empty).restart 2) := .single (.restart 2)
  exact (restarted.tail recovered).tail (.work (.begin none List.mem_cons_self rfl))

theorem tidy_crashed (job : Job) : Tidy job job.crashed :=
  .of_steps .empty rfl job.fresh_empty job.steps_crashed

theorem not_used_crashed (job : Job) :
    ¬ Used job.crashed.broker.table (job.id 0 job.start) := by
  intro hused
  have sound := (Broker.Reachable.empty.pass .probing (job.task ⟨1, 2, by decide⟩).scope).sound
  rcases (Broker.used_begin_iff sound _ _ none).1 hused with hpass | he
  · have hreached := ((Broker.used_pass_iff .empty rfl (job.task ⟨1, 2, by decide⟩).scope
      ⟨job.stem, 0, job.start⟩).1 hpass).resolve_left (job.fresh_empty 0 _ (UInt64.le_refl _))
    have hclass : (0 : UInt32) % 2 = 1 := (Scope.claims_iff.1 hreached.claims).2
    exact absurd hclass (by decide)
  · exact absurd (compose_inj.1 he).2.1 (by decide)

/-- So the next incarnation stops at the first owner, and what the second one began stays open. -/
theorem isOpen_of_crashed (job : Job) :
    ((job.crashed.restart 1).recoverAll [job.lone]).broker.isOpen (job.id 1 job.start).text =
      true := by
  refine (job.tidy_crashed.isOpen_recoverAll_iff job.whole_lone job.probes_lone
    (UInt64.le_refl _)).2 ⟨?_, 0, by decide, rfl, job.not_used_crashed⟩
  exact Life.isOpen_begin_self _ job.stem 1 job.start none

/-- If incarnations may crash while they start, a restart still succeeds. It leaves open just what lies
behind an owner of the same class whose first id was never used, so it leaves nothing where the owners
that recovered have no gap in their class. -/
theorem crashed_restart_iff (reachable : b.Reachable) (aborts : b.abortsLeft = none)
    (fresh : job.Fresh b) (steps : job.Steps (.first b) life)
    (whole : Restart.Whole parallelism tasks) (probes : ∀ task ∈ tasks, job.Probes task) :
    (∀ run ∈ Restart.runs Broker.client tasks life.broker, run.answer = .ok ()) ∧
    (∀ owner sequence, job.start ≤ sequence →
      (((life.restart parallelism).recoverAll tasks).broker.isOpen (job.id owner sequence).text =
          true ↔
        life.broker.isOpen (job.id owner sequence).text = true ∧
          ∃ lower < owner, lower % parallelism = owner % parallelism ∧
            ¬ Used life.broker.table (job.id lower job.start))) ∧
    ((∀ owner ∈ life.done, ∀ lower < owner, lower % parallelism = owner % parallelism →
        lower ∈ life.done) →
      job.Clean ((life.restart parallelism).recoverAll tasks).broker) := by
  have tidy : Tidy job life := .of_steps reachable aborts fresh steps
  refine ⟨fun run hrun => tidy.answer_of_mem_runs probes hrun, fun owner sequence start_le => ?_,
    fun done => ?_⟩
  · exact tidy.isOpen_recoverAll_iff whole probes start_le
  · exact tidy.clean_of_done whole probes done

/-- A crash while the job starts can leave a transaction open behind a restart that succeeds. -/
theorem crashed_restart_leaves_open :
    let job : Job := ⟨"app", 0, by decide⟩
    job.Fresh .empty ∧ job.Steps (.first .empty) job.crashed ∧
      Restart.Whole 1 [job.lone] ∧ (∀ task ∈ [job.lone], job.Probes task) ∧
      (∀ run ∈ Restart.runs Broker.client [job.lone] job.crashed.broker, run.answer = .ok ()) ∧
      ((job.crashed.restart 1).recoverAll [job.lone]).broker.isOpen (job.id 1 0).text = true := by
  intro job
  exact ⟨job.fresh_empty, job.steps_crashed, job.whole_lone, job.probes_lone,
    fun _ hrun => job.tidy_crashed.answer_of_mem_runs job.probes_lone hrun, job.isOpen_of_crashed⟩

/-- One more restart closes it, as by then both owners have recovered. -/
theorem crashed_restart_closes_later :
    let job : Job := ⟨"app", 0, by decide⟩
    let life := (job.crashed.restart 1).recover job.lone
    job.Steps (.first .empty) life ∧ life.broker.isOpen (job.id 1 0).text = true ∧
      ((life.restart 1).recoverAll [job.lone]).broker.isOpen (job.id 1 0).text = false := by
  intro job life
  have recovered : job.Step (job.crashed.restart 1) life :=
    .recover (job.probes_task _) rfl List.not_mem_nil
  have steps : job.Steps (.first .empty) life := (job.steps_crashed.tail (.restart 1)).tail recovered
  have restart := crashed_restart_iff .empty rfl job.fresh_empty steps job.whole_lone job.probes_lone
  refine ⟨steps, job.isOpen_of_crashed, restart.2.2 ?_ 1 0 (UInt64.le_refl 0)⟩
  -- The owners 0 and 1 have recovered, so 0 is the only lower one.
  intro owner howner lower hlt _
  rw [UInt32.lt_iff_toNat_lt] at hlt
  rcases List.mem_cons.1 howner with he | howner
  · rw [he] at hlt
    exact absurd hlt (Nat.not_lt_zero _)
  · rw [List.mem_singleton.1 howner] at hlt
    have hzero : lower = 0 := UInt32.toNat_inj.1 (Nat.lt_one_iff.1 hlt)
    rw [hzero]
    exact List.mem_cons_self

end Job

end SinkFencing
