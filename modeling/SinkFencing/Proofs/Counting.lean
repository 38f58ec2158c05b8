import SinkFencing.Proofs.Procedure
import SinkFencing.Proofs.ProbingReach

namespace SinkFencing

variable {σ α β : Type}

namespace Event

def isAnswered : Event → Bool
  | abort _ (.ok _) => true
  | _ => false

def metUse : Event → Bool
  | abort _ (.ok epoch) => !epoch.isUnused
  | _ => false

def isCall : Event → Bool
  | note _ => false
  | _ => true

def epoch? : Event → Option Epoch
  | abort _ (.ok epoch) => some epoch
  | _ => none

def answered? : Event → Option (TxnId × Epoch)
  | abort id (.ok epoch) => some (id, epoch)
  | _ => none

end Event

def epochs (events : List Event) : List Epoch := events.filterMap Event.epoch?

@[simp] theorem epochs_append (events events' : List Event) :
    epochs (events ++ events') = epochs events ++ epochs events' := List.filterMap_append

theorem countP_isAnswered_eq (events : List Event) :
    events.countP Event.isAnswered = (epochs events).length := by
  induction events with
  | nil => rfl
  | cons event events ih =>
    cases event with
    | abort id answer =>
      cases answer with
      | ok epoch => rw [List.countP_cons_of_pos rfl, ih]; rfl
      | error fault => exact ih
    | list | note => exact ih

def answered (events : List Event) : List (TxnId × Epoch) := events.filterMap Event.answered?

@[simp] theorem answered_append (events events' : List Event) :
    answered (events ++ events') = answered events ++ answered events' := List.filterMap_append

theorem map_snd_answered (events : List Event) : (answered events).map Prod.snd = epochs events := by
  have same : (fun event => event.answered?.map Prod.snd) = Event.epoch? := by
    funext event
    cases event with
    | abort id answer => cases answer <;> rfl
    | list | note => rfl
  rw [answered, List.map_filterMap, same, epochs]

theorem length_answered (events : List Event) :
    (answered events).length = events.countP Event.isAnswered := by
  rw [countP_isAnswered_eq, ← map_snd_answered, List.length_map]

theorem countP_metUse_eq (events : List Event) :
    events.countP Event.metUse = (epochs events).countP fun epoch => !epoch.isUnused := by
  induction events with
  | nil => rfl
  | cons event events ih =>
    cases event with
    | abort id answer =>
      cases answer with
      | ok epoch => rw [List.countP_cons, ih]; exact (List.countP_cons ..).symm
      | error fault => exact ih
    | list | note => exact ih

theorem countP_note {p : Event → Bool} (other : ∀ notice, p (.note notice) = false) {notice : Notice}
    (events : List Event) : (.note notice :: events).countP p = events.countP p :=
  List.countP_cons_of_neg (by rw [other]; exact Bool.false_ne_true)

namespace Counted

/-- The counts after these events, with the client's state that they left. -/
def after (c : Counted σ) (events : List Event) (s : σ) : Counted σ :=
  ⟨s, c.calls + events.countP Event.isAnswered, c.fenced + events.countP Event.metUse⟩

@[simp] theorem after_nil (c : Counted σ) : c.after [] c.inner = c := rfl

theorem after_start (s t : σ) (events : List Event) : (start s).after events t =
    ⟨t, events.countP Event.isAnswered, events.countP Event.metUse⟩ := by simp [start, after]

@[simp] theorem inner_after (c : Counted σ) (events : List Event) (s : σ) :
    (c.after events s).inner = s := rfl

theorem after_append (c : Counted σ) (events events' : List Event) (s t : σ) :
    (c.after events s).after events' t = c.after (events ++ events') t := by
  simp [after, List.countP_append, Nat.add_assoc]

theorem add_eq_after (c : Counted σ) (id : TxnId) (answer : Except BrokerFault Epoch) (s : σ) :
    { c with inner := s }.add answer = c.after [.abort id answer] s := by
  cases answer with
  | error fault => rfl
  | ok epoch => cases h : epoch.isUnused <;> simp [add, after, Event.isAnswered, Event.metUse, h]

end Counted

/-- The run of the counting client that shows the same as this one. -/
def Run.counted (run : Run σ α) (c : Counted σ) : Run (Counted σ) α :=
  ⟨run.answer, run.events, c.after run.events run.state⟩

theorem Pass.abort_counted (client : Client σ) (id : TxnId) (c : Counted σ) :
    abort client.counted id c = (abort client id c.inner).counted c := by
  rw [abort_apply, abort_apply, Run.counted, ← Counted.add_eq_after]
  rfl

theorem Pass.list_counted (client : Client σ) (topics : List String) (c : Counted σ) :
    list client.counted topics c = (list client topics c.inner).counted c := by
  cases h : client.list? with
  | none => simp only [list, Client.counted, Client.withAborter, h, Option.map_none, fail, Run.counted,
      Counted.after_nil]
  | some ask =>
    simp only [list, Client.counted, Client.withAborter, h, Option.map_some, Run.counted]
    rfl

theorem Pass.bind_counted {first : Pass σ α} {first' : Pass (Counted σ) α} {next : α → Pass σ β}
    {next' : α → Pass (Counted σ) β} {c : Counted σ} (head : first' c = (first c.inner).counted c)
    (tail : ∀ a c, next' a c = (next a c.inner).counted c) :
    (first' >>= next') c = ((first >>= next) c.inner).counted c := by
  cases h : (first c.inner).answer with
  | error fault =>
    have h' : (first' c).answer = .error fault := by rw [head]; exact h
    rw [bind_of_error h, bind_of_error h', head]
    rfl
  | ok a =>
    have h' : (first' c).answer = .ok a := by rw [head]; exact h
    rw [bind_of_ok h, bind_of_ok h', head]
    simp [Run.counted, tail, Counted.after_append]

/-- Counting changes neither the answer of a pass nor its events. -/
theorem Procedure.Plain.apply_counted {p : Procedure α} (h : p.Plain) (client : Client σ)
    (c : Counted σ) : p (Counted σ) client.counted c = (p σ client c.inner).counted c := by
  induction h generalizing c with
  | pure | fail | note => rfl
  | abort id => exact Pass.abort_counted client id c
  | list topics => exact Pass.list_counted client topics c
  | bind _ _ head tail => exact Pass.bind_counted (head c) tail

namespace Recovery

/-- The report on a pass with these events. -/
def reportOf (strategy : Strategy) (scope : Scope) (events : List Event) : Report :=
  ⟨strategy, scope.placement, events.countP Event.isAnswered, events.countP Event.metUse⟩

theorem coordinated_eq (strategy : Strategy) (client : Client σ) (scope : Scope) :
    coordinated strategy client scope = (do
      Pass.note (.began strategy scope.placement)
      strategy.pass client.counted scope
      let counts ← Pass.state
      Pass.note (.finished counts.calls counts.fenced)
      return ⟨strategy, scope.placement, counts.calls, counts.fenced⟩) := rfl

/-- A coordinated pass answers with a report on the plain pass, and frames its events. -/
theorem run_apply (strategy : Strategy) (client : Client σ) (scope : Scope) (s : σ) :
    let run := strategy.pass client scope s
    let report := reportOf strategy scope run.events
    Recovery.run strategy client scope s =
      ⟨run.answer.map fun _ => report,
        .note (.began strategy scope.placement) :: run.events ++
          match run.answer with
          | .ok _ => [.note (.finished report.abortCalls report.fenced)]
          | .error _ => [],
        run.state⟩ := by
  intro run report
  have hpass : strategy.pass client.counted scope (.start s) =
      ⟨run.answer, run.events, ⟨run.state, report.abortCalls, report.fenced⟩⟩ := by
    rw [(plain_pass scope strategy).apply_counted client (.start s), Run.counted,
      Counted.after_start]
    rfl
  rw [Recovery.run, coordinated_eq, Pass.bind_of_ok (a := ()) rfl, Pass.note_apply]
  cases ha : run.answer with
  | error fault =>
    rw [Pass.bind_of_error (by rw [hpass, ha]), hpass]
    simp only [List.append_nil]
    rfl
  | ok u =>
    rw [Pass.bind_of_ok (by rw [hpass, ha]), hpass]
    rfl

theorem run_answer (strategy : Strategy) (client : Client σ) (scope : Scope) (s : σ) :
    (Recovery.run strategy client scope s).answer =
      (strategy.pass client scope s).answer.map fun _ =>
        reportOf strategy scope (strategy.pass client scope s).events := by
  rw [run_apply]

theorem pass_of_answer {strategy : Strategy} {client : Client σ} {scope : Scope} {s : σ}
    {report : Report}
    (h : (Recovery.run strategy client scope s).answer = .ok report) :
    (strategy.pass client scope s).answer = .ok () ∧
      report = reportOf strategy scope (strategy.pass client scope s).events := by
  rw [run_answer] at h
  cases ha : (strategy.pass client scope s).answer with
  | error fault =>
    rw [ha] at h
    cases h
  | ok =>
    rw [ha] at h
    cases h
    exact ⟨rfl, rfl⟩

theorem run_state (strategy : Strategy) (client : Client σ) (scope : Scope) (s : σ) :
    (Recovery.run strategy client scope s).state = (strategy.pass client scope s).state := by
  rw [run_apply]

theorem run_truthful (strategy : Strategy) (client : Client σ) (scope : Scope) (s : σ) :
    Transcript client s (Recovery.run strategy client scope s).events
      (Recovery.run strategy client scope s).state := by
  rw [run_apply]
  refine .append (.note (pass_truthful client scope strategy s)) ?_
  cases (strategy.pass client scope s).answer with
  | error fault => exact .done _
  | ok => exact .note (.done _)

theorem run_filterMap {γ : Type} {view : Event → Option γ} (other : ∀ notice, view (.note notice) = none)
    (strategy : Strategy) (client : Client σ) (scope : Scope) (s : σ) :
    (Recovery.run strategy client scope s).events.filterMap view =
      (strategy.pass client scope s).events.filterMap view := by
  rw [run_apply]
  cases (strategy.pass client scope s).answer <;>
    simp [List.filterMap_append, other]

theorem run_abortCalls (strategy : Strategy) (client : Client σ) (scope : Scope) (s : σ) :
    (Recovery.run strategy client scope s).abortCalls =
      (strategy.pass client scope s).abortCalls := run_filterMap (fun _ => rfl) strategy client scope s

theorem run_listCalls (strategy : Strategy) (client : Client σ) (scope : Scope) (s : σ) :
    (Recovery.run strategy client scope s).listCalls =
      (strategy.pass client scope s).listCalls := run_filterMap (fun _ => rfl) strategy client scope s

/-- The coordinator makes the calls of the plain pass, in the same order and with the same arguments and
answers. It leaves the client in the same state, succeeds or fails with the pass, and adds to the log only a
notice of the start and, on success, a summary. -/
theorem counting_transparent (strategy : Strategy) (client : Client σ) (scope : Scope) (s : σ) :
    let plain := strategy.pass client scope s
    let run := Recovery.run strategy client scope s
    run.events.filter Event.isCall = plain.events.filter Event.isCall ∧
    run.state = plain.state ∧
    run.answer.map (fun _ => ()) = plain.answer ∧
    run.notices = .began strategy scope.placement :: plain.notices ++
      match run.answer with
      | .ok report => [.finished report.abortCalls report.fenced]
      | .error _ => [] := by
  intro plain run
  have hrun : run = _ := run_apply strategy client scope s
  rw [hrun]
  cases ha : plain.answer with
  | error fault =>
    refine ⟨?_, rfl, rfl, ?_⟩
    · simp [Event.isCall, plain]
    · simp [Run.notices, Event.notice?, plain, Except.map]
  | ok u =>
    refine ⟨?_, rfl, rfl, ?_⟩
    · simp [Event.isCall, plain, List.filter_append]
    · simp [Run.notices, Event.notice?, plain, Except.map, List.filterMap_append]

end Recovery

namespace AnsweredBy

variable {table : TxnId → Epoch} {events : List Event}

theorem epochs_eq (h : AnsweredBy table events) : epochs events = (calls events).map table := by
  induction events with
  | nil => rfl
  | cons event events ih =>
    cases event with
    | abort id answer =>
      rw [h id answer List.mem_cons_self, calls_abort, List.map_cons, ← ih h.tail]
      rfl
    | list | note => exact ih h.tail

theorem countP_isAnswered (h : AnsweredBy table events) :
    events.countP Event.isAnswered = (calls events).length := by
  rw [countP_isAnswered_eq, h.epochs_eq, List.length_map]

theorem countP_metUse (h : AnsweredBy table events) :
    events.countP Event.metUse = (calls events).countP fun id => !(table id).isUnused := by
  rw [countP_metUse_eq, h.epochs_eq, List.countP_map]
  rfl

theorem reportOf_eq (h : AnsweredBy table events) (strategy : Strategy) (scope : Scope) :
    Recovery.reportOf strategy scope events = ⟨strategy, scope.placement, (calls events).length,
      (calls events).countP fun id => !(table id).isUnused⟩ := by
  rw [Recovery.reportOf, h.countP_isAnswered, h.countP_metUse]

end AnsweredBy

end SinkFencing
