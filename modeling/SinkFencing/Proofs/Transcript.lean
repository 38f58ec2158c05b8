import SinkFencing.Recovery

namespace SinkFencing

variable {σ α β : Type}

def calls (events : List Event) : List TxnId := events.filterMap Event.abortCall?

@[simp] theorem calls_nil : calls [] = [] := rfl

@[simp] theorem calls_append (events events' : List Event) :
    calls (events ++ events') = calls events ++ calls events' := List.filterMap_append

@[simp] theorem calls_abort (id : TxnId) (answer : Except BrokerFault Epoch) (events : List Event) :
    calls (.abort id answer :: events) = id :: calls events := rfl

@[simp] theorem calls_list (topics : List String) (answer : Except BrokerFault (List String))
    (events : List Event) : calls (.list topics answer :: events) = calls events := rfl

@[simp] theorem calls_note (notice : Notice) (events : List Event) :
    calls (.note notice :: events) = calls events := rfl

/-- The client answers the calls among the events in order, and its state goes from first to last. -/
inductive Transcript (client : Client σ) : σ → List Event → σ → Prop
  | done (s : σ) : Transcript client s [] s
  | abort {id : TxnId} {s t : σ} {events : List Event}
      (rest : Transcript client (client.abort id s).2 events t) :
      Transcript client s (.abort id (client.abort id s).1 :: events) t
  | list {list : List String → σ → Except BrokerFault (List String) × σ} {topics : List String}
      {s t : σ} {events : List Event} (lists : client.list? = some list)
      (rest : Transcript client (list topics s).2 events t) :
      Transcript client s (.list topics (list topics s).1 :: events) t
  | note {notice : Notice} {s t : σ} {events : List Event}
      (rest : Transcript client s events t) : Transcript client s (.note notice :: events) t

theorem Transcript.append {client : Client σ} {s t u : σ} {events events' : List Event}
    (h : Transcript client s events t) (h' : Transcript client t events' u) :
    Transcript client s (events ++ events') u := by
  induction h with
  | done s => exact h'
  | abort _ ih => exact .abort (ih h')
  | list lists _ ih => exact .list lists (ih h')
  | note _ ih => exact .note (ih h')

/-- Every run of the pass is a transcript of the client. -/
def Pass.Truthful (client : Client σ) (p : Pass σ α) : Prop :=
  ∀ s, Transcript client s (p s).events (p s).state

namespace Pass

variable {client : Client σ}

theorem bind_pure_apply (p : Pass σ α) (f : α → β) (s : σ) :
    (p >>= fun a => Pure.pure (f a)) s = ⟨(p s).answer.map f, (p s).events, (p s).state⟩ := by
  cases h : (p s).answer with
  | ok a =>
    rw [bind_of_ok h]
    simp [Except.map]
  | error fault =>
    rw [bind_of_error h]
    rfl

theorem each_cons_of_ok {items : List α} {act : α → Pass σ Unit} {a : α} {s : σ}
    (h : (act a s).answer = .ok ()) :
    each (a :: items) act s =
      { each items act (act a s).state with
        events := (act a s).events ++ (each items act (act a s).state).events } :=
  bind_of_ok h

theorem each_cons_of_error {items : List α} {act : α → Pass σ Unit} {a : α} {s : σ} {fault : Fault}
    (h : (act a s).answer = .error fault) :
    each (a :: items) act s = ⟨.error fault, (act a s).events, (act a s).state⟩ :=
  bind_of_error h

theorem truthful_pure (a : α) : Truthful client (Pure.pure a : Pass σ α) := fun s => .done s

theorem truthful_fail (fault : Fault) : Truthful client (fail fault : Pass σ α) := fun s => .done s

theorem truthful_note (notice : Notice) : Truthful client (note notice) := fun s => .note (.done s)

theorem truthful_ofExcept (e : Except Fault α) : Truthful client (ofExcept e) := by
  cases e with
  | ok a => exact truthful_pure a
  | error fault => exact truthful_fail fault

theorem truthful_abort (id : TxnId) : Truthful client (abort client id) :=
  fun s => .abort (.done (client.abort id s).2)

theorem truthful_list (topics : List String) : Truthful client (list client topics) := by
  unfold list
  split
  · exact truthful_fail _
  · rename_i list hlist
    exact fun s => .list hlist (.done (list topics s).2)

theorem truthful_bind {p : Pass σ α} {next : α → Pass σ β} (hp : Truthful client p)
    (hnext : ∀ a, Truthful client (next a)) : Truthful client (p >>= next) := by
  intro s
  cases h : (p s).answer with
  | ok a =>
    rw [bind_of_ok h]
    exact (hp s).append (hnext a (p s).state)
  | error fault =>
    rw [bind_of_error h]
    exact hp s

theorem truthful_each {items : List α} {act : α → Pass σ Unit}
    (hact : ∀ a, Truthful client (act a)) : Truthful client (each items act) := by
  induction items with
  | nil => exact truthful_pure ()
  | cons a rest ih => exact truthful_bind (hact a) fun _ => ih

end Pass

open Pass

variable (client : Client σ) (scope : Scope)

theorem Probing.truthful_probe (id : TxnId) : Truthful client (probe client id) :=
  truthful_bind (truthful_abort id) fun _ => truthful_bind (truthful_note _) fun _ =>
    truthful_pure _

theorem Probing.truthful_usedFrom (stem : String) (owner : UInt32) (sequence : UInt64) :
    Truthful client (usedFrom client stem owner sequence) := by
  induction sequence using usedFrom.induct with
  | case1 sequence ih =>
    rw [usedFrom_eq]
    refine truthful_bind (truthful_probe client _) fun epoch => ?_
    split
    · exact truthful_pure 0
    · split
      · exact truthful_pure 1
      · rename_i next hnext
        exact truthful_bind (ih next hnext) fun _ => truthful_pure _

theorem Probing.truthful_walkOwner (stem : String) (owner : UInt32) :
    Truthful client (walkOwner client scope stem owner) := by
  refine truthful_bind (truthful_usedFrom client stem owner scope.start) fun used => ?_
  split
  · exact truthful_bind (truthful_note _) fun _ => truthful_pure _
  · exact truthful_pure _

theorem Probing.truthful_walkOwners (stem : String) (owner : UInt32) :
    Truthful client (walkOwners client scope stem owner) := by
  induction owner using walkOwners.induct scope with
  | case1 owner ih =>
    rw [walkOwners_eq]
    refine truthful_bind (truthful_walkOwner client scope stem owner) fun used => ?_
    split
    · exact truthful_pure ()
    · split
      · exact truthful_pure ()
      · rename_i next hnext
        exact ih next hnext

theorem Listing.truthful_run : Truthful client (Listing.run client scope) := by
  refine truthful_bind (truthful_list scope.topics) fun names => ?_
  dsimp only
  split
  · exact truthful_pure ()
  · refine truthful_bind (truthful_ofExcept _) fun ids => ?_
    refine truthful_bind (truthful_note _) fun _ => ?_
    refine truthful_bind (truthful_each fun _ => truthful_note _) fun _ => ?_
    exact truthful_each fun id =>
      truthful_bind (truthful_abort id) fun _ => truthful_note _

theorem pass_truthful (strategy : Strategy) :
    Truthful client (strategy.pass client scope) := by
  cases strategy with
  | probing => exact truthful_each fun stem => Probing.truthful_walkOwners client scope stem _
  | listing => exact Listing.truthful_run client scope

end SinkFencing
