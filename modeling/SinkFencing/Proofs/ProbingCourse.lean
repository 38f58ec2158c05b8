import SinkFencing.Proofs.Transcript

namespace SinkFencing.Probing

variable {σ : Type}

/-- What a probe that the client answers leaves in a run. -/
def probeEvents (id : TxnId) (epoch : Epoch) : List Event :=
  [.abort id (.ok epoch), .note (.probed id epoch)]

@[simp] theorem calls_probeEvents (id : TxnId) (epoch : Epoch) :
    calls (probeEvents id epoch) = [id] := rfl

inductive Climb (stem : String) (owner : UInt32) :
    UInt64 → List Event → Except Fault Nat → Prop
  | failed (sequence : UInt64) (fault : BrokerFault) :
      Climb stem owner sequence [.abort (.compose stem owner sequence) (.error fault)]
        (.error (.broker fault))
  | unused (sequence : UInt64) {epoch : Epoch} (fresh : epoch.isUnused = true) :
      Climb stem owner sequence (probeEvents (.compose stem owner sequence) epoch) (.ok 0)
  | top (sequence : UInt64) {epoch : Epoch} (used : epoch.isUnused = false)
      (last : nextSequence sequence = none) :
      Climb stem owner sequence (probeEvents (.compose stem owner sequence) epoch) (.ok 1)
  | up {sequence next : UInt64} {epoch : Epoch} {events : List Event} {answer : Except Fault Nat}
      (used : epoch.isUnused = false) (step : nextSequence sequence = some next)
      (rest : Climb stem owner next events answer) :
      Climb stem owner sequence (probeEvents (.compose stem owner sequence) epoch ++ events)
        (answer.map (· + 1))

inductive Walk (scope : Scope) (stem : String) :
    UInt32 → List Event → Except Fault Unit → Prop
  | failed {owner : UInt32} {events : List Event} {fault : Fault}
      (climb : Climb stem owner scope.start events (.error fault)) :
      Walk scope stem owner events (.error fault)
  | unused {owner : UInt32} {events : List Event}
      (climb : Climb stem owner scope.start events (.ok 0)) :
      Walk scope stem owner events (.ok ())
  | top {owner : UInt32} {events : List Event} {used : Nat}
      (climb : Climb stem owner scope.start events (.ok used)) (pos : 0 < used)
      (last : scope.placement.nextOwner owner = none) :
      Walk scope stem owner (events ++ [.note (.walked stem owner used scope.placement)]) (.ok ())
  | up {owner next : UInt32} {events later : List Event} {used : Nat} {answer : Except Fault Unit}
      (climb : Climb stem owner scope.start events (.ok used)) (pos : 0 < used)
      (step : scope.placement.nextOwner owner = some next) (rest : Walk scope stem next later answer) :
      Walk scope stem owner
        (events ++ .note (.walked stem owner used scope.placement) :: later) answer

inductive Sweep (scope : Scope) : List String → List Event → Except Fault Unit → Prop
  | done : Sweep scope [] [] (.ok ())
  | failed {stem : String} {stems : List String} {events : List Event} {fault : Fault}
      (walk : Walk scope stem scope.placement.index events (.error fault)) :
      Sweep scope (stem :: stems) events (.error fault)
  | next {stem : String} {stems : List String} {events later : List Event}
      {answer : Except Fault Unit} (walk : Walk scope stem scope.placement.index events (.ok ()))
      (rest : Sweep scope stems later answer) :
      Sweep scope (stem :: stems) (events ++ later) answer

theorem probe_of_ok {client : Client σ} {id : TxnId} {s : σ} {epoch : Epoch}
    (h : (client.abort id s).1 = .ok epoch) :
    probe client id s = ⟨.ok epoch, probeEvents id epoch, (client.abort id s).2⟩ := by
  have ha : (Pass.abort client id s).answer = .ok epoch := by rw [Pass.abort_apply, h]; rfl
  rw [probe, Pass.bind_of_ok ha, Pass.abort_apply, h]
  rfl

theorem probe_of_error {client : Client σ} {id : TxnId} {s : σ} {fault : BrokerFault}
    (h : (client.abort id s).1 = .error fault) :
    probe client id s =
      ⟨.error (.broker fault), [.abort id (.error fault)], (client.abort id s).2⟩ := by
  have ha : (Pass.abort client id s).answer = .error (.broker fault) := by
    rw [Pass.abort_apply, h]; rfl
  rw [probe, Pass.bind_of_error ha, Pass.abort_apply, h]

theorem climb_usedFrom (client : Client σ) (stem : String) (owner : UInt32) (sequence : UInt64)
    (s : σ) : Climb stem owner sequence (usedFrom client stem owner sequence s).events
      (usedFrom client stem owner sequence s).answer := by
  induction sequence using usedFrom.induct generalizing s with
  | case1 sequence ih =>
    rw [usedFrom_eq]
    cases h : (client.abort (.compose stem owner sequence) s).1 with
    | error fault =>
      rw [Pass.bind_of_error (by rw [probe_of_error h]), probe_of_error h]
      exact .failed sequence fault
    | ok epoch =>
      rw [Pass.bind_of_ok (by rw [probe_of_ok h]), probe_of_ok h]
      cases hu : epoch.isUnused with
      | true => exact .unused sequence hu
      | false =>
        cases hn : nextSequence sequence with
        | none => exact .top sequence hu hn
        | some next =>
          have rest := ih next hn (client.abort (.compose stem owner sequence) s).2
          simp only [Bool.false_eq_true, if_false, Pass.bind_pure_apply]
          exact .up hu hn rest

theorem walkOwner_of_error {client : Client σ} {scope : Scope} {stem : String} {owner : UInt32}
    {s : σ} {fault : Fault} (h : (usedFrom client stem owner scope.start s).answer = .error fault) :
    walkOwner client scope stem owner s =
      ⟨.error fault, (usedFrom client stem owner scope.start s).events,
        (usedFrom client stem owner scope.start s).state⟩ := Pass.bind_of_error h

theorem walkOwner_of_ok {client : Client σ} {scope : Scope} {stem : String} {owner : UInt32}
    {s : σ} {used : Nat} (h : (usedFrom client stem owner scope.start s).answer = .ok used) :
    walkOwner client scope stem owner s =
      ⟨.ok used, (usedFrom client stem owner scope.start s).events ++
          if 0 < used then [.note (.walked stem owner used scope.placement)] else [],
        (usedFrom client stem owner scope.start s).state⟩ := by
  rw [walkOwner, Pass.bind_of_ok h]
  by_cases pos : 0 < used
  · simp only [if_pos pos]
    rfl
  · simp only [if_neg pos]
    rfl

theorem walk_walkOwners (client : Client σ) (scope : Scope) (stem : String) (owner : UInt32)
    (s : σ) : Walk scope stem owner (walkOwners client scope stem owner s).events
      (walkOwners client scope stem owner s).answer := by
  induction owner using walkOwners.induct scope generalizing s with
  | case1 owner ih =>
    have climb := climb_usedFrom client stem owner scope.start s
    rw [walkOwners_eq]
    cases h : (usedFrom client stem owner scope.start s).answer with
    | error fault =>
      rw [h] at climb
      rw [Pass.bind_of_error (by rw [walkOwner_of_error h]), walkOwner_of_error h]
      exact .failed climb
    | ok used =>
      rw [h] at climb
      rw [Pass.bind_of_ok (by rw [walkOwner_of_ok h]), walkOwner_of_ok h]
      by_cases pos : 0 < used
      · simp only [if_pos pos, if_neg (Nat.ne_of_gt pos)]
        cases hn : scope.placement.nextOwner owner with
        | none =>
          have := Walk.top climb pos hn
          simpa using this
        | some next =>
          have := Walk.up climb pos hn (ih next hn (usedFrom client stem owner scope.start s).state)
          simpa using this
      · -- Only an owner that used something has a next one.
        have hz : used = 0 := by omega
        subst hz
        have := Walk.unused climb
        simpa using this

theorem sweep_each {scope : Scope} {act : String → Pass σ Unit}
    (walk : ∀ stem s, Walk scope stem scope.placement.index (act stem s).events (act stem s).answer)
    (stems : List String) (s : σ) :
    Sweep scope stems (Pass.each stems act s).events (Pass.each stems act s).answer := by
  induction stems generalizing s with
  | nil => exact .done
  | cons stem stems ih =>
    have first := walk stem s
    cases h : (act stem s).answer with
    | error fault =>
      rw [h] at first
      rw [Pass.each_cons_of_error h]
      exact .failed first
    | ok =>
      rw [h] at first
      rw [Pass.each_cons_of_ok h]
      exact .next first (ih (act stem s).state)

/-- Every probing pass is a sweep over the known stems. -/
theorem sweep_run (client : Client σ) (scope : Scope) (s : σ) :
    Sweep scope scope.stems.elems (run client scope s).events (run client scope s).answer :=
  sweep_each (fun stem s => walk_walkOwners client scope stem scope.placement.index s)
    scope.stems.elems s

end SinkFencing.Probing
