import SinkFencing.Client
import SinkFencing.Notice

namespace SinkFencing

inductive Event
  | abort (id : TxnId) (answer : Except BrokerFault Epoch)
  | list (topics : List String) (answer : Except BrokerFault (List String))
  | note (notice : Notice)

variable {σ α β : Type}

structure Run (σ α : Type) where
  answer : Except Fault α
  events : List Event
  state : σ

def Pass (σ α : Type) : Type := σ → Run σ α

namespace Pass

def pure (a : α) : Pass σ α := fun s => ⟨.ok a, [], s⟩

def fail (fault : Fault) : Pass σ α := fun s => ⟨.error fault, [], s⟩

def bind (p : Pass σ α) (next : α → Pass σ β) : Pass σ β := fun s =>
  match p s with
  | ⟨.ok a, events, t⟩ =>
    let rest := next a t
    { rest with events := events ++ rest.events }
  | ⟨.error fault, events, t⟩ => ⟨.error fault, events, t⟩

instance : Monad (Pass σ) where
  pure := pure
  bind := bind

def ofExcept : Except Fault α → Pass σ α
  | .ok a => pure a
  | .error fault => fail fault

def state : Pass σ σ := fun s => ⟨.ok s, [], s⟩

def note (notice : Notice) : Pass σ Unit := fun s => ⟨.ok (), [.note notice], s⟩

def abort (client : Client σ) (id : TxnId) : Pass σ Epoch := fun s =>
  let (answer, t) := client.abort id s
  ⟨answer.mapError .broker, [.abort id answer], t⟩

def list (client : Client σ) (topics : List String) : Pass σ (List String) :=
  match client.list? with
  | none => fail (.refused .noLister)
  | some list => fun s =>
    let (answer, t) := list topics s
    ⟨answer.mapError .broker, [.list topics answer], t⟩

theorem bind_of_ok {p : Pass σ α} {next : α → Pass σ β} {s : σ} {a : α}
    (h : (p s).answer = .ok a) :
    (p >>= next) s =
      { next a (p s).state with events := (p s).events ++ (next a (p s).state).events } := by
  show bind p next s = _
  unfold bind
  split <;> simp_all

theorem bind_of_error {p : Pass σ α} {next : α → Pass σ β} {s : σ} {fault : Fault}
    (h : (p s).answer = .error fault) :
    (p >>= next) s = ⟨.error fault, (p s).events, (p s).state⟩ := by
  show bind p next s = _
  unfold bind
  split <;> simp_all

@[simp] theorem pure_apply (a : α) (s : σ) : (Pure.pure a : Pass σ α) s = ⟨.ok a, [], s⟩ := rfl

@[simp] theorem note_apply (notice : Notice) (s : σ) :
    note notice s = ⟨.ok (), [.note notice], s⟩ := rfl

theorem abort_apply (client : Client σ) (id : TxnId) (s : σ) :
    abort client id s =
      ⟨(client.abort id s).1.mapError .broker, [.abort id (client.abort id s).1],
        (client.abort id s).2⟩ := rfl

/-- One worker goes through the items from left to right and stops at the first failure. Of the schedules of a
parallel batch this is one; another may have acted on later items by then. -/
def each (items : List α) (act : α → Pass σ Unit) : Pass σ Unit :=
  match items with
  | [] => pure ()
  | a :: rest => bind (act a) fun _ => each rest act

end Pass

namespace Event

def abortCall? : Event → Option TxnId
  | abort id _ => some id
  | _ => none

def listCall? : Event → Option (List String)
  | list topics _ => some topics
  | _ => none

def notice? : Event → Option Notice
  | note notice => some notice
  | _ => none

end Event

namespace Run

/-- Every id passed to the client for aborting, failed calls included, in call order. -/
def abortCalls (run : Run σ α) : List TxnId := run.events.filterMap Event.abortCall?

def listCalls (run : Run σ α) : List (List String) := run.events.filterMap Event.listCall?

def notices (run : Run σ α) : List Notice := run.events.filterMap Event.notice?

end Run

end SinkFencing
