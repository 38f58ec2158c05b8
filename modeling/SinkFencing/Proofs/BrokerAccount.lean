import Mathlib.Data.List.Induction
import SinkFencing.Proofs.BrokerReachable

namespace SinkFencing.Broker

/-- A call that does not clear the history: a change of the state, or a listing. -/
inductive Call
  | move (move : Move) (keeps : move ≠ .clearHistory)
  | list (topics : List String)

def next (b : Broker) : Call → Broker
  | .move move _ => b.after move
  | .list _ => b

def afterCalls (b : Broker) (calls : List Call) : Broker := calls.foldl next b

/-- A call and the broker that it met. -/
structure Turn where
  before : Broker
  call : Call

def turns (b : Broker) : List Call → List Turn
  | [] => []
  | call :: rest => ⟨b, call⟩ :: (b.next call).turns rest

namespace Turn

def after (t : Turn) : Broker := t.before.next t.call

def opens (name : String) (t : Turn) : Bool :=
  match t.call with
  | .move (.begin x _) _ => x = name
  | _ => false

def opensClosed (name : String) (t : Turn) : Bool := t.opens name && !t.before.isOpen name

def completes (name : String) (t : Turn) : Bool :=
  match t.call with
  | .move (.commit x) _ => x = name && (t.before.commit x).1
  | _ => false

def fences (name : String) (t : Turn) : Bool :=
  match t.call with
  | .move (.abort id) _ => id.text = name && (t.before.abort id).1.isOk
  | _ => false

end Turn

theorem turns_concat (b : Broker) (calls : List Call) (call : Call) :
    b.turns (calls ++ [call]) = b.turns calls ++ [⟨b.afterCalls calls, call⟩] := by
  induction calls generalizing b with
  | nil => rfl
  | cons first rest ih => exact congrArg _ (ih (b.next first))

theorem afterCalls_concat (b : Broker) (calls : List Call) (call : Call) :
    b.afterCalls (calls ++ [call]) = (b.afterCalls calls).next call := by
  rw [afterCalls, List.foldl_append]
  rfl

theorem Reachable.afterCalls {b : Broker} (h : b.Reachable) (calls : List Call) :
    (b.afterCalls calls).Reachable := by
  induction calls generalizing b with
  | nil => exact h
  | cons call rest ih =>
    cases call with
    | move move keeps => exact ih (h.step move)
    | list topics => exact ih h

theorem abort_cases (b : Broker) (id : TxnId) :
    b.abortsLeft = some 0 ∧ b.abort id = (.error (.abort id.text injected), b) ∨
    b.abortsLeft ≠ some 0 ∧ ∃ left, b.abort id =
      (.ok (b.epochOf id.text), ({ b with abortsLeft := left }.fence id.text).2) := by
  unfold abort
  split
  · rename_i h
    exact .inl ⟨h, rfl⟩
  · rename_i h
    exact .inr ⟨h, _, rfl⟩

/-- The transactions under a name that were fenced or are open. -/
def held (b : Broker) (name : String) : Nat := b.fenced.count name + (b.isOpen name).toNat

section Held

variable (b : Broker) (x name : String)

theorem held_begin (topic : Option String) : (b.begin x topic).held name =
    b.held name + (decide (x = name) && !b.isOpen name).toNat := by
  have hfenced : (b.begin x topic).fenced = b.fenced := rfl
  rw [held, held, hfenced, isOpen_begin]
  by_cases he : x = name
  · cases hopen : b.isOpen name <;> simp [he]
  · simp [he]

theorem held_commit : (decide (x = name) && b.isOpen x).toNat + (b.commit x).2.held name =
    b.held name := by
  have hfenced : (b.commit x).2.fenced = b.fenced := rfl
  rw [held, held, hfenced, isOpen_commit]
  by_cases he : x = name
  · simp [he, Nat.add_comm]
  · simp [he]

theorem held_fence : (b.fence x).2.held name = b.held name := by
  rw [held, held, isOpen_fence]
  cases hopen : b.isOpen x with
  | true =>
    have hfenced : (b.fence x).2.fenced = b.fenced ++ [x] := by simp [fence, hopen]
    by_cases he : x = name
    · subst he
      simp [hfenced, hopen]
    · simp [hfenced, he]
  | false =>
    have hfenced : (b.fence x).2.fenced = b.fenced := by simp [fence, hopen]
    by_cases he : x = name
    · subst he
      simp [hfenced, hopen]
    · simp [hfenced, he]

theorem sublist_fence (h : b.fenced.Sublist b.aborted) :
    (b.fence x).2.fenced.Sublist (b.fence x).2.aborted := by
  show (if b.isOpen x then b.fenced ++ [x] else b.fenced).Sublist (b.aborted ++ [x])
  split
  · exact h.append (.refl [x])
  · exact h.trans (List.sublist_append_left _ _)

end Held

namespace Turn

variable (name : String) (t : Turn)

theorem epochOf_after : t.after.epochOf name =
    if t.opens name || t.fences name then (t.before.epochOf name).next else t.before.epochOf name := by
  obtain ⟨b, call⟩ := t
  cases call with
  | list topics => rfl
  | move move keeps =>
    cases move with
    | begin x topic =>
      by_cases he : x = name <;> simp [after, next, Broker.after, opens, fences, epochOf_begin, he]
    | abort id =>
      rcases b.abort_cases id with ⟨-, habort⟩ | ⟨-, left, habort⟩
      · simp [after, next, Broker.after, opens, fences, habort, Except.isOk, Except.toBool]
      · have hepoch := epochOf_fence { b with abortsLeft := left } id.text name
        by_cases he : id.text = name <;>
          simp_all [after, next, Broker.after, opens, fences, Except.isOk, Except.toBool, epochOf]
    | commit | failAbortsAfter | failListing => rfl
    | clearHistory => exact absurd rfl keeps

/-- Transactions are neither lost nor made, but by those who begin and complete them. -/
theorem held_after : t.before.held name + (t.opensClosed name).toNat =
    (t.completes name).toNat + t.after.held name := by
  obtain ⟨b, call⟩ := t
  cases call with
  | list topics => exact (Nat.zero_add _).symm
  | move move keeps =>
    cases move with
    | begin x topic =>
      have h := b.held_begin x name topic
      rw [Nat.add_comm (completes _ _).toNat]
      exact h.symm
    | commit x => exact (b.held_commit x name).symm
    | abort id =>
      rcases b.abort_cases id with ⟨-, habort⟩ | ⟨-, left, habort⟩
      · simp [after, next, Broker.after, opensClosed, opens, completes, habort]
      · have h := held_fence { b with abortsLeft := left } id.text name
        simp [after, next, Broker.after, opensClosed, opens, completes, habort, h]
        rfl
    | failAbortsAfter | failListing => exact (Nat.zero_add _).symm
    | clearHistory => exact absurd rfl keeps

theorem sublist_after (h : t.before.fenced.Sublist t.before.aborted) :
    t.after.fenced.Sublist t.after.aborted := by
  obtain ⟨b, call⟩ := t
  cases call with
  | list topics => exact h
  | move move keeps =>
    cases move with
    | abort id =>
      rcases b.abort_cases id with ⟨-, habort⟩ | ⟨-, left, habort⟩
      · simpa [after, next, Broker.after, habort] using h
      · simpa [after, next, Broker.after, habort] using sublist_fence { b with abortsLeft := left } id.text h
    | begin | commit | failAbortsAfter | failListing => exact h
    | clearHistory => exact absurd rfl keeps

end Turn

/-- What the turns of a broker have made of a name. -/
structure Booked (name : String) (past : List Turn) (b : Broker) : Prop where
  epoch_eq : (b.epochOf name).value.toInt =
    min (past.countP (Turn.opens name) + past.countP (Turn.fences name)) 32767
  opens_eq : past.countP (Turn.opensClosed name) = past.countP (Turn.completes name) + b.held name
  sublist : b.fenced.Sublist b.aborted

theorem Turn.fences_of_opens {name : String} {t : Turn} (h : t.opens name = true) :
    t.fences name = false := by
  unfold opens at h
  unfold fences
  split at h
  · rename_i he
    rw [he]
  · cases h

theorem Booked.turn {name : String} {past : List Turn} {t : Turn} (h : Booked name past t.before) :
    Booked name (past ++ [t]) t.after := by
  refine ⟨?_, ?_, t.sublist_after h.sublist⟩
  · have hepoch := h.epoch_eq
    rw [t.epochOf_after, List.countP_append, List.countP_append, List.countP_singleton,
      List.countP_singleton]
    cases hopens : t.opens name with
    | true =>
      rw [Turn.fences_of_opens hopens]
      simp only [Bool.true_or, if_true, Bool.false_eq_true, if_false, Epoch.toInt_next, hepoch]
      omega
    | false =>
      cases hfences : t.fences name with
      | true =>
        simp only [Bool.or_true, if_true, Bool.false_eq_true, if_false, Epoch.toInt_next, hepoch]
        omega
      | false =>
        simp only [Bool.or_false, Bool.false_eq_true, if_false, hepoch]
        omega
  · have hopens := h.opens_eq
    have hheld := t.held_after name
    have hsingle (p : Turn → Bool) : [t].countP p = (p t).toNat := by
      rw [List.countP_singleton]
      cases p t <;> rfl
    rw [List.countP_append, List.countP_append, hsingle, hsingle]
    omega

theorem booked_afterCalls (calls : List Call) (name : String) :
    Booked name (empty.turns calls) (empty.afterCalls calls) := by
  induction calls using List.reverseRecOn with
  | nil => exact ⟨rfl, rfl, .slnil⟩
  | append_singleton calls call ih =>
    rw [turns_concat, afterCalls_concat]
    exact ih.turn (t := ⟨_, call⟩)

theorem Booked.unused_iff {name : String} {past : List Turn} {b : Broker} (h : Booked name past b) :
    b.epochOf name = .unused ↔
      ∀ turn ∈ past, turn.opens name = false ∧ turn.fences name = false := by
  have hzero : b.epochOf name = .unused ↔ (b.epochOf name).value.toInt = 0 := by
    cases b.epochOf name
    simp [Epoch.unused, ← Int16.toInt_inj]
  have hcounts : (b.epochOf name).value.toInt = 0 ↔
      past.countP (Turn.opens name) = 0 ∧ past.countP (Turn.fences name) = 0 := by
    rw [h.epoch_eq]
    omega
  rw [hzero, hcounts, List.countP_eq_zero, List.countP_eq_zero]
  constructor
  · intro hnone turn hturn
    exact ⟨Bool.eq_false_iff.2 (hnone.1 turn hturn), Bool.eq_false_iff.2 (hnone.2 turn hturn)⟩
  · intro hnone
    exact ⟨fun turn hturn => Bool.eq_false_iff.1 (hnone turn hturn).1,
      fun turn hturn => Bool.eq_false_iff.1 (hnone turn hturn).2⟩

theorem eq_of_parse? {name : String} {id : TxnId} (h : TxnId.parse? name = some id) :
    id = ⟨name⟩ := by
  rw [TxnId.parse?, TxnId.parse] at h
  cases hread : TxnId.Parts.read name with
  | error fault => rw [hread] at h; cases h
  | ok parts => rw [hread] at h; exact (Option.some.inj h).symm

theorem count_readable {name : String} (hread : TxnId.parse? name = some ⟨name⟩)
    (names : List String) : (readable names).count ⟨name⟩ = names.count name := by
  induction names with
  | nil => rfl
  | cons x names ih =>
    rw [readable] at ih ⊢
    cases hx : TxnId.parse? x with
    | none =>
      have hne : x ≠ name := by
        intro he
        rw [he, hread] at hx
        cases hx
      rw [List.filterMap_cons_none hx, ih, List.count_cons_of_ne hne]
    | some id =>
      obtain rfl := eq_of_parse? hx
      rw [List.filterMap_cons_some hx, List.count_cons, List.count_cons, ih]
      simp

/-- What a broker that starts empty has made of a name after any calls. Its epoch counts how often it was
opened or fenced, and a fencing call answers with an unused one just if that was never. An open name is in
use. What was opened anew was completed, is in the history of fencing, or is open; and this history is a part
of the history of calls, from which a failed call is missing that changes nothing. -/
theorem calls_booked (calls : List Call) (name : String) :
    let past := empty.turns calls
    let b := empty.afterCalls calls
    (b.epochOf name).value.toInt =
      min (past.countP (Turn.opens name) + past.countP (Turn.fences name)) 32767 ∧
    (match b.abort ⟨name⟩ with
      | (.ok epoch, _) => b.abortsLeft ≠ some 0 ∧
          (epoch = .unused ↔ ∀ turn ∈ past, turn.opens name = false ∧ turn.fences name = false)
      | (.error _, after) => b.abortsLeft = some 0 ∧ after = b) ∧
    (b.isOpen name = true → 1 ≤ (b.epochOf name).value.toInt) ∧
    past.countP (Turn.opensClosed name) =
      past.countP (Turn.completes name) + b.fenced.count name + (b.isOpen name).toNat ∧
    b.fenced.Sublist b.aborted ∧
    (readable b.fenced).Sublist (readable b.aborted) ∧
    (TxnId.parse? name = some ⟨name⟩ → (readable b.fenced).count ⟨name⟩ = b.fenced.count name) := by
  intro past b
  have booked : Booked name past b := booked_afterCalls calls name
  have reachable : b.Reachable := Reachable.empty.afterCalls calls
  refine ⟨booked.epoch_eq, ?_, fun hopen => reachable.sound.epoch_pos name hopen, ?_, booked.sublist,
    booked.sublist.filterMap _, fun hread => count_readable hread b.fenced⟩
  · rcases b.abort_cases ⟨name⟩ with ⟨hleft, habort⟩ | ⟨hleft, left, habort⟩
    · rw [habort]
      exact ⟨hleft, rfl⟩
    · rw [habort]
      exact ⟨hleft, booked.unused_iff⟩
  · rw [booked.opens_eq, held, Nat.add_assoc]

example :
    let b := empty.afterCalls [.move (.begin "app-0-0" none) nofun, .move (.abort ⟨"app-0-0"⟩) nofun,
      .move (.failAbortsAfter 0) nofun, .move (.begin "app-0-1" none) nofun,
      .move (.abort ⟨"app-0-1"⟩) nofun, .list []]
    (b.epochOf "app-0-0").value = 2 ∧ b.fenced = ["app-0-0"] ∧ b.isOpen "app-0-1" = true := by decide

end SinkFencing.Broker
