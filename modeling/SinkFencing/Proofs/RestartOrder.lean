import SinkFencing.Proofs.Counting
import SinkFencing.Proofs.Noninterference

namespace SinkFencing

open TxnId

variable {b : Broker} {task : Task} {tasks tasks' : List Task} {ids : List TxnId}
  {parallelism : UInt32}

namespace Task

def recovery (lists : UInt32 → Bool) (task : Task) : Pass Broker Report :=
  Recovery.run task.strategy (Broker.clientWith (lists task.index)) task.scope

def called (lists : UInt32 → Bool) (task : Task) (b : Broker) : List TxnId :=
  (task.strategy.pass (Broker.clientWith (lists task.index)) task.scope b).abortCalls

theorem recovery_state (hb : b.abortsLeft = none) (lists : UInt32 → Bool) (task : Task) :
    (task.recovery lists b).state = b.fenceAll (task.called lists b) := by
  rw [recovery, Recovery.run_state]
  exact Broker.state_clientWith hb task.strategy (lists task.index) task.scope

theorem recovery_answer (hb : b.abortsLeft = none) (lists : UInt32 → Bool) (task : Task) :
    (task.recovery lists b).answer =
      (task.strategy.pass (Broker.clientWith (lists task.index)) task.scope b).answer.map fun _ =>
        ⟨task.strategy, task.scope.placement, (task.called lists b).length,
          (task.called lists b).countP fun id => !(b.table id).isUnused⟩ := by
  have ht := Broker.answeredBy_clientWith hb task.strategy (lists task.index) task.scope
  rw [recovery, Recovery.run_answer, ht.reportOf_eq]
  rfl

theorem called_of_foreign (hb : b.abortsLeft = none) (h : task.scope.Foreign ids)
    (lists : UInt32 → Bool) : task.called lists (b.fenceAll ids) = task.called lists b :=
  (Strategy.pass_of_foreign hb h task.strategy (lists task.index)).2

theorem recovery_of_foreign (hb : b.abortsLeft = none) (h : task.scope.Foreign ids)
    (lists : UInt32 → Bool) :
    (task.recovery lists (b.fenceAll ids)).answer = (task.recovery lists b).answer := by
  have hb' : (b.fenceAll ids).abortsLeft = none := by rw [Broker.abortsLeft_fenceAll, hb]
  have hanswer := (Strategy.pass_of_foreign hb h task.strategy (lists task.index)).1
  -- The epochs that the pass meets are those of its own ids.
  have hused : ((task.called lists b).countP fun id => !((b.fenceAll ids).table id).isUnused) =
      (task.called lists b).countP fun id => !(b.table id).isUnused := by
    apply List.countP_congr
    intro id hid
    obtain ⟨parts, hparts, hclaims⟩ := Strategy.claims_of_mem_calls hid
    rw [Broker.table_fenceAll_of_not_mem (h.not_mem hparts hclaims)]
  rw [recovery_answer hb', recovery_answer hb, hanswer, called_of_foreign hb h, hused]

end Task

namespace Restart

/-- The subtasks recover one after another, each on the state that the last one left. -/
def inTurn (lists : UInt32 → Bool) : List Task → Broker → List (Except Fault Report) × Broker
  | [], b => ([], b)
  | task :: rest, b =>
    let run := task.recovery lists b
    let (reports, last) := inTurn lists rest run.state
    (run.answer :: reports, last)

theorem Separate.perm (h : Separate parallelism tasks) (perm : tasks'.Perm tasks) :
    Separate parallelism tasks' :=
  ⟨fun task htask => h.parallelism_eq task (perm.subset htask),
    (perm.map Task.index).nodup_iff.2 h.nodup⟩

theorem Separate.foreign_called (h : Separate parallelism (task :: tasks)) {other : Task}
    (hother : other ∈ tasks) (lists : UInt32 → Bool) (b : Broker) :
    other.scope.Foreign (task.called lists b) := by
  obtain ⟨hp, hi⟩ := h.head hother
  exact Strategy.foreign_calls hp.symm hi.symm task.strategy _ b

theorem inTurn_eq (hb : b.abortsLeft = none) (separate : Separate parallelism tasks)
    (lists : UInt32 → Bool) :
    inTurn lists tasks b = (tasks.map fun task => (task.recovery lists b).answer,
      b.fenceAll (tasks.flatMap fun task => task.called lists b)) := by
  induction tasks generalizing b with
  | nil => rfl
  | cons task rest ih =>
    have hb' : (b.fenceAll (task.called lists b)).abortsLeft = none := by
      rw [Broker.abortsLeft_fenceAll, hb]
    have hreports : (rest.map fun other => (other.recovery lists
        (b.fenceAll (task.called lists b))).answer) =
        rest.map fun other => (other.recovery lists b).answer := by
      apply List.map_congr_left
      intro other hother
      exact Task.recovery_of_foreign hb (separate.foreign_called hother lists b) lists
    have hcalls : (rest.flatMap fun other => other.called lists (b.fenceAll (task.called lists b))) =
        rest.flatMap fun other => other.called lists b := by
      rw [List.flatMap_def, List.flatMap_def]
      congr 1
      apply List.map_congr_left
      intro other hother
      exact Task.called_of_foreign hb (separate.foreign_called hother lists b) lists
    simp only [inTurn, Task.recovery_state hb, ih hb' separate.tail, hreports, hcalls,
      List.map_cons, List.flatMap_cons, Broker.fenceAll_append]

theorem nodup_called (separate : Separate parallelism tasks) (lists : UInt32 → Bool) (b : Broker) :
    (tasks.flatMap fun task => task.called lists b).Nodup := by
  induction tasks with
  | nil => exact List.nodup_nil
  | cons task rest ih =>
    rw [List.flatMap_cons]
    refine List.nodup_append.2 ⟨task.strategy.nodup_calls _ _ b, ih separate.tail, ?_⟩
    intro id hid id' hid' he
    obtain ⟨other, hother, hid'⟩ := List.mem_flatMap.1 hid'
    obtain ⟨parts, hparts, hclaims⟩ := Strategy.claims_of_mem_calls hid'
    exact (separate.foreign_called hother lists b).not_mem hparts hclaims (he ▸ hid)

/-- Whichever order the subtasks recover in, each gives the report or the failure that it gives alone,
and the epochs and the open transactions end the same. The calls are the same but for their order. -/
theorem order_irrelevant (hb : b.abortsLeft = none) (separate : Separate parallelism tasks)
    (perm : tasks'.Perm tasks) (lists : UInt32 → Bool) :
    let alone := fun task : Task => (task.recovery lists b).answer
    let here := inTurn lists tasks b
    let there := inTurn lists tasks' b
    here.1 = tasks.map alone ∧ there.1 = tasks'.map alone ∧
      (∀ name, there.2.epochOf name = here.2.epochOf name) ∧ there.2.opened = here.2.opened ∧
      there.2.aborted.Perm here.2.aborted ∧ there.2.fenced.Perm here.2.fenced := by
  have separate' := separate.perm perm
  have nodup := nodup_called separate lists b
  have nodup' := nodup_called separate' lists b
  have hcalls := perm.flatMap_right fun task => task.called lists b
  intro alone here there
  have hhere : here = _ := inTurn_eq hb separate lists
  have hthere : there = _ := inTurn_eq hb separate' lists
  rw [hhere, hthere]
  refine ⟨rfl, rfl, fun name => ?_, ?_, ?_, ?_⟩
  · rw [Broker.epochOf_fenceAll nodup ⟨name⟩, Broker.epochOf_fenceAll nodup' ⟨name⟩]
    simp only [hcalls.mem_iff]
  · rw [Broker.opened_fenceAll, Broker.opened_fenceAll]
    simp only [hcalls.mem_iff]
  · rw [Broker.aborted_fenceAll, Broker.aborted_fenceAll]
    exact (hcalls.map TxnId.text).append_left b.aborted
  · rw [Broker.fenced_fenceAll nodup, Broker.fenced_fenceAll nodup']
    exact ((hcalls.map TxnId.text).filter b.isOpen).append_left b.fenced

/-- The first of two subtasks probes and the second lists; the second closes its transaction whether it
comes before the first or after it. -/
theorem order_irrelevant_pair :
    let b := (Broker.empty.begin (compose "app" 0 0).text (some "orders")).begin
      (compose "app" 1 0).text (some "orders")
    let scope (index : UInt32) (h : index < 2) : Scope :=
      { Scope.ofStem ⟨index, 2, h⟩ 0 "app" [] (by decide) with topics := ["orders"] }
    let first : Task := ⟨.probing, scope 0 (by decide)⟩
    let second : Task := ⟨.listing, scope 1 (by decide)⟩
    let lists := fun _ => true
    let closed : Except Fault Report := .ok ⟨.listing, second.scope.placement, 1, 1⟩
    b.abortsLeft = none ∧ Separate 2 [first, second] ∧ [second, first].Perm [first, second] ∧
      (inTurn lists [first, second] b).1 = [(first.recovery lists b).answer, closed] ∧
      (inTurn lists [second, first] b).1 = [closed, (first.recovery lists b).answer] ∧
      (inTurn lists [second, first] b).2.opened = (inTurn lists [first, second] b).2.opened := by
  intro b scope first second lists closed
  have separate : Separate 2 [first, second] := (Whole.pair rfl rfl (by decide)).toSeparate
  have perm : [second, first].Perm [first, second] := .swap first second []
  have hclosed : (second.recovery lists b).answer = closed := rfl
  obtain ⟨hhere, hthere, -, hopened, -⟩ := order_irrelevant (b := b) rfl separate perm lists
  refine ⟨rfl, separate, perm, ?_, ?_, hopened⟩
  · rw [hhere, ← hclosed]
    rfl
  · rw [hthere, ← hclosed]
    rfl

end Restart

end SinkFencing
