import SinkFencing.Proofs.Counting
import SinkFencing.Proofs.Noninterference

namespace SinkFencing

variable {α β : Type}

theorem Procedure.Plain.truthful {σ : Type} {p : Procedure α} (h : p.Plain) (client : Client σ) :
    Pass.Truthful client (p σ client) := by
  induction h with
  | pure a => exact Pass.truthful_pure a
  | fail fault => exact Pass.truthful_fail fault
  | note notice => exact Pass.truthful_note notice
  | abort id => exact Pass.truthful_abort id
  | list topics => exact Pass.truthful_list topics
  | bind _ _ head tail => exact Pass.truthful_bind head tail

namespace Broker

def allow (b : Broker) (left : Option Nat) : Broker := { b with abortsLeft := left }

theorem allow_none_of {b : Broker} (hb : b.abortsLeft = none) : b.allow none = b := by
  rw [allow, ← hb]

/-- The client fences on the broker. What a listing answers may come from elsewhere, but it changes nothing
on the broker and does not depend on the failures that are ordered there. -/
structure Fences (client : Client Broker) : Prop where
  abort_eq : ∀ id b, client.abort id b = b.abort id
  list_eq : ∀ list, client.list? = some list → ∀ topics b left,
    list topics (b.allow left) = ((list topics b).1, b.allow left)

theorem fences_clientWith (lists : Bool) : Fences (clientWith lists) := by
  refine ⟨fun id b => ?_, fun list hlist topics b left => ?_⟩
  · cases lists <;> rfl
  · cases lists with
    | true =>
      cases hlist
      rfl
    | false => cases hlist

namespace Fences

variable {client : Client Broker} (fences : Fences client)

include fences

theorem abort_of_none {b : Broker} (hb : b.abortsLeft = none) (id : TxnId) :
    client.abort id b = (.ok (b.table id), (b.fence id.text).2) :=
  (fences.abort_eq id b).trans (client_abort_of_none hb id)

theorem eq_fenceAll {b t : Broker} {events : List Event} (h : Transcript client b events t)
    (hb : b.abortsLeft = none) : t = b.fenceAll (calls events) := by
  induction h with
  | done => rfl
  | @abort id b t events rest ih =>
    rw [fences.abort_of_none hb] at ih ⊢
    rw [calls_abort, fenceAll_cons]
    exact ih hb
  | @list list topics b t events lists rest ih =>
    have hsame : list topics b = ((list topics b).1, b) :=
      fences.list_eq list lists topics b b.abortsLeft
    rw [hsame] at ih
    exact ih hb
  | note rest ih => exact ih hb

end Fences

end Broker

def Run.behind {σ : Type} (run : Run σ α) (events : List Event) : Run σ α :=
  { run with events := events ++ run.events }

theorem Run.abortCalls_behind {σ : Type} (run : Run σ α) (events : List Event) :
    (run.behind events).abortCalls = calls events ++ run.abortCalls := calls_append events run.events

/-- What is left of a run from the broker `b` when only `budget` calls are let through. -/
inductive Truncated (b : Broker) (budget : Nat) (full : Run Broker α) : Run Broker α → Prop
  | whole (fits : full.abortCalls.length ≤ budget) :
      Truncated b budget full
        { full with state := full.state.allow (some (budget - full.abortCalls.length)) }
  | cut {id : TxnId} (before : List Event) (next : full.abortCalls[budget]? = some id)
      (same : before <+: full.events) (through : calls before = full.abortCalls.take budget) :
      Truncated b budget full
        ⟨.error (.broker (.abort id.text Broker.injected)),
          before ++ [.abort id (.error (.abort id.text Broker.injected))],
          (b.fenceAll (full.abortCalls.take budget)).allow (some 0)⟩

namespace Truncated

variable {b : Broker} {budget : Nat} {full run : Run Broker α} {events : List Event}

theorem behind (fits : (calls events).length ≤ budget)
    (h : Truncated (b.fenceAll (calls events)) (budget - (calls events).length) full run) :
    Truncated b budget (full.behind events) (run.behind events) := by
  have hlength : (full.behind events).abortCalls.length =
      (calls events).length + full.abortCalls.length := by
    rw [Run.abortCalls_behind, List.length_append]
  have htake : (full.behind events).abortCalls.take budget =
      calls events ++ full.abortCalls.take (budget - (calls events).length) := by
    rw [Run.abortCalls_behind, List.take_append, List.take_of_length_le fits]
  cases h with
  | whole fits' =>
    have hwhole : Truncated b budget (full.behind events) _ := .whole (by omega)
    rw [hlength, Nat.sub_add_eq] at hwhole
    exact hwhole
  | @cut id before next same through =>
    have hnext : (full.behind events).abortCalls[budget]? = some id := by
      rw [Run.abortCalls_behind, List.getElem?_append_right fits]
      exact next
    have hcut : Truncated b budget (full.behind events) _ :=
      .cut (events ++ before) hnext ((List.prefix_append_right_inj events).2 same)
        (by rw [htake, calls_append, through])
    rw [htake, Broker.fenceAll_append, List.append_assoc] at hcut
    exact hcut

/-- If the call that is not let through is among these events, it does not matter what comes after them. -/
theorem cut_before {id : TxnId} {before : List Event} (next : (calls events)[budget]? = some id)
    (same : before <+: events) (through : calls before = (calls events).take budget) :
    Truncated b budget (full.behind events)
      ⟨.error (.broker (.abort id.text Broker.injected)),
        before ++ [.abort id (.error (.abort id.text Broker.injected))],
        (b.fenceAll ((calls events).take budget)).allow (some 0)⟩ := by
  have hlt : budget < (calls events).length := (List.getElem?_eq_some_iff.1 next).1
  have htake : (full.behind events).abortCalls.take budget = (calls events).take budget := by
    rw [Run.abortCalls_behind]
    exact List.take_append_of_le_length (Nat.le_of_lt hlt)
  have hnext : (full.behind events).abortCalls[budget]? = some id := by
    rw [Run.abortCalls_behind]
    exact (List.getElem?_append_left hlt).trans next
  have hcut : Truncated b budget (full.behind events) _ :=
    .cut before hnext (same.trans (List.prefix_append events full.events)) (through.trans htake.symm)
  rw [htake] at hcut
  exact hcut

end Truncated

namespace Pass

variable {b : Broker}

theorem truncated_abort {client : Client Broker} (fences : Broker.Fences client)
    (hb : b.abortsLeft = none) (id : TxnId) (budget : Nat) :
    Truncated b budget (abort client id b) (abort client id (b.allow (some budget))) := by
  rw [abort_apply, abort_apply, fences.abort_of_none hb, fences.abort_eq]
  cases budget with
  | zero => exact .cut [] rfl List.nil_prefix rfl
  | succ left => exact .whole (Nat.le_add_left 1 left)

theorem truncated_list {client : Client Broker} (fences : Broker.Fences client)
    (topics : List String) (budget : Nat) :
    Truncated b budget (list client topics b) (list client topics (b.allow (some budget))) := by
  cases lists : client.list? with
  | none =>
    have hlist : list client topics = fail (σ := Broker) (.refused .noLister) := by rw [list, lists]
    rw [hlist]
    exact .whole (Nat.zero_le budget)
  | some ask =>
    rw [Listing.list_apply lists, Listing.list_apply lists, fences.list_eq ask lists]
    have hsame : ask topics b = ((ask topics b).1, b) := fences.list_eq ask lists topics b b.abortsLeft
    rw [hsame]
    exact .whole (Nat.zero_le budget)

/-- The calls of two passes in a row fit, are cut in the second, or are cut in the first. -/
theorem truncated_bind {first : Pass Broker α} {next : α → Pass Broker β} {budget : Nat}
    (hstate : (first b).state = b.fenceAll (first b).abortCalls)
    (head : Truncated b budget (first b) (first (b.allow (some budget))))
    (tail : ∀ a left, Truncated (first b).state left (next a (first b).state)
      (next a ((first b).state.allow (some left)))) :
    Truncated b budget ((first >>= next) b) ((first >>= next) (b.allow (some budget))) := by
  generalize hrun : first (b.allow (some budget)) = run at head
  cases head with
  | whole fits =>
    cases ha : (first b).answer with
    | error fault =>
      rw [bind_of_error ha, bind_of_error (by rw [hrun, ha]), hrun]
      exact .whole fits
    | ok a =>
      rw [bind_of_ok ha, bind_of_ok (by rw [hrun, ha]), hrun]
      have tail := tail a (budget - (first b).abortCalls.length)
      rw [hstate] at tail ⊢
      exact tail.behind fits
  | @cut id before next' same through =>
    have hcut : (first (b.allow (some budget))).answer =
        .error (.broker (.abort id.text Broker.injected)) := by rw [hrun]
    rw [bind_of_error hcut, hrun]
    cases ha : (first b).answer with
    | error fault =>
      rw [bind_of_error ha]
      exact .cut before next' same through
    | ok a =>
      rw [bind_of_ok ha]
      exact .cut_before next' same through

end Pass

/-- A procedure on a failing broker is cut at the first call that is not let through. -/
theorem Procedure.Plain.truncated {p : Procedure α} (h : p.Plain) {client : Client Broker}
    (fences : Broker.Fences client) {b : Broker} (hb : b.abortsLeft = none) (budget : Nat) :
    Truncated b budget (p Broker client b) (p Broker client (b.allow (some budget))) := by
  induction h generalizing b budget with
  | pure | fail | note => exact .whole (Nat.zero_le budget)
  | abort id => exact Pass.truncated_abort fences hb id budget
  | list topics => exact Pass.truncated_list fences topics budget
  | @bind _ _ first next hfirst _ head tail =>
    have hstate : (first Broker client b).state = b.fenceAll (first Broker client b).abortCalls :=
      fences.eq_fenceAll (hfirst.truthful client b) hb
    refine Pass.truncated_bind hstate (head hb budget) fun a left => tail a ?_ left
    rw [hstate, Broker.abortsLeft_fenceAll, hb]

namespace Truncated

variable {b : Broker} {budget : Nat} {full run : Run Broker α}

theorem answer_ok_iff {a : α} (h : Truncated b budget full run) (hfull : full.answer = .ok a) :
    run.answer = .ok a ↔ full.abortCalls.length ≤ budget := by
  cases h with
  | whole fits => exact iff_of_true hfull fits
  | cut _ next =>
    refine iff_of_false (fun h => nomatch h) ?_
    exact Nat.not_le.2 (List.getElem?_eq_some_iff.1 next).1

/-- The calls that were let through fence what they fence without failures. -/
theorem state_eq (h : Truncated b budget full run)
    (hstate : full.state = b.fenceAll full.abortCalls) (hb : b.abortsLeft = none) :
    run.state.allow none = b.fenceAll (full.abortCalls.take budget) := by
  cases h with
  | whole fits =>
    rw [List.take_of_length_le fits, ← hstate]
    exact Broker.allow_none_of (b := full.state) (by rw [hstate, Broker.abortsLeft_fenceAll, hb])
  | cut =>
    have hnone := (Broker.abortsLeft_fenceAll b (full.abortCalls.take budget)).trans hb
    exact Broker.allow_none_of hnone

/-- Of the calls without failures the first so many are made, and the one that is not let through. -/
theorem abortCalls_eq (h : Truncated b budget full run) :
    run.abortCalls = full.abortCalls.take (budget + 1) := by
  cases h with
  | whole fits => exact (List.take_of_length_le (Nat.le_succ_of_le fits)).symm
  | @cut id before next _ through =>
    calc calls (before ++ [.abort id (.error (.abort id.text Broker.injected))])
      _ = full.abortCalls.take budget ++ [id] := by rw [calls_append, through]; rfl
      _ = full.abortCalls.take (budget + 1) := by rw [List.take_add_one, next]; rfl

theorem answer_eq (h : Truncated b budget full run) :
    match full.abortCalls[budget]? with
    | none => run.answer = full.answer
    | some next => run.answer = .error (.broker (.abort next.text Broker.injected)) := by
  cases h with
  | whole fits => rw [List.getElem?_eq_none fits]
  | cut _ next => rw [next]

end Truncated

namespace Recovery

theorem truncated {client : Client Broker} (fences : Broker.Fences client) (strategy : Strategy)
    (scope : Scope) {b : Broker} (hb : b.abortsLeft = none) (budget : Nat) :
    Truncated b budget (Recovery.run strategy client scope b)
      (Recovery.run strategy client scope (b.allow (some budget))) := by
  have hcut := (plain_pass scope strategy).truncated fences hb budget
  have hcalls := run_abortCalls strategy client scope b
  generalize hrun : strategy.pass client scope (b.allow (some budget)) = run at hcut
  cases hcut with
  | whole fits =>
    have hwhole : Recovery.run strategy client scope (b.allow (some budget)) =
        { Recovery.run strategy client scope b with
          state := (Recovery.run strategy client scope b).state.allow
            (some (budget - (Recovery.run strategy client scope b).abortCalls.length)) } := by
      rw [hcalls, run_apply, run_apply, hrun]
    rw [hwhole]
    exact .whole (hcalls ▸ fits)
  | @cut id before next same through =>
    have hframed : .note (.began strategy scope.placement) :: before <+:
        (Recovery.run strategy client scope b).events := by
      rw [run_apply]
      exact List.cons_prefix_cons.2 ⟨rfl, same.trans (List.prefix_append _ _)⟩
    rw [run_apply strategy client scope (b.allow (some budget)), hrun, ← hcalls, List.append_nil]
    exact .cut _ (hcalls ▸ next) hframed (hcalls ▸ through)

/-- A recovery that is let so many fencing calls through makes the first of the calls that it makes without
failures, and leaves what these leave. It reports the same if no call is left to be made, and else the
failure of the next call, which is its last. -/
theorem failing_abort_truncates {client : Client Broker} (fences : Broker.Fences client)
    (strategy : Strategy) (scope : Scope) (b : Broker) (hb : b.abortsLeft = none) (n : Nat) :
    let full := Recovery.run strategy client scope b
    let cut := Recovery.run strategy client scope (b.failAbortsAfter n)
    let made := full.abortCalls.take n
    cut.abortCalls = full.abortCalls.take (n + 1) ∧
    cut.state.aborted = b.aborted ++ made.map TxnId.text ∧
    cut.state.epochs = (b.fenceAll made).epochs ∧
    cut.state.opened = (b.fenceAll made).opened ∧
    cut.state.fenced = (b.fenceAll made).fenced ∧
    match full.abortCalls[n]? with
    | none => cut.answer = full.answer
    | some next => cut.answer = .error (.broker (.abort next.text Broker.injected)) := by
  intro full cut made
  have hcut : Truncated b n full cut := truncated fences strategy scope hb n
  have hfull : full.state = b.fenceAll full.abortCalls :=
    fences.eq_fenceAll (run_truthful strategy client scope b) hb
  -- The two states can differ only in the failures that are ordered.
  have hstate : cut.state.allow none = b.fenceAll made := hcut.state_eq hfull hb
  refine ⟨hcut.abortCalls_eq, ?_, ?_, ?_, ?_, hcut.answer_eq⟩
  · rw [← Broker.aborted_fenceAll, ← hstate]
    rfl
  · rw [← hstate]
    rfl
  · rw [← hstate]
    rfl
  · rw [← hstate]
    rfl

/-- Of two transactions the first is fenced, and the call for the second is the one that fails. -/
theorem failing_abort_truncates_second :
    let client := Broker.clientWith true
    let b := (Broker.empty.begin (TxnId.compose "app" 0 0).text none).begin (TxnId.compose "app" 0 1).text none
    let scope := Scope.ofStem ⟨0, 1, by decide⟩ 0 "app" [] (by decide)
    let cut := Recovery.run .listing client scope (b.failAbortsAfter 1)
    Broker.Fences client ∧ b.abortsLeft = none ∧
      cut.abortCalls = [TxnId.compose "app" 0 0, TxnId.compose "app" 0 1] ∧
      cut.state.fenced = [(TxnId.compose "app" 0 0).text] ∧
      cut.state.opened = [((TxnId.compose "app" 0 1).text, none)] ∧
      cut.answer = .error (.broker (.abort (TxnId.compose "app" 0 1).text Broker.injected)) := by
  intro client b scope cut
  have fences : Broker.Fences client := Broker.fences_clientWith true
  have hcalls : (Recovery.run .listing client scope b).abortCalls =
      [TxnId.compose "app" 0 0, TxnId.compose "app" 0 1] := rfl
  obtain ⟨hmade, -, -, hopened, hfenced, hanswer⟩ := failing_abort_truncates fences .listing scope b rfl 1
  rw [hcalls] at hmade hopened hfenced hanswer
  exact ⟨fences, rfl, hmade, hfenced, hopened, hanswer⟩

end Recovery

end SinkFencing
