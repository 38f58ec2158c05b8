import SinkFencing.Broker
import SinkFencing.Proofs.Ownership

namespace SinkFencing.Broker

/-- The epochs of a broker by id. -/
def table (b : Broker) : TxnId → Epoch := fun id => b.epochOf id.text

def fenceAll (b : Broker) (ids : List TxnId) : Broker :=
  ids.foldl (fun b id => (b.fence id.text).2) b

@[simp] theorem fenceAll_nil (b : Broker) : b.fenceAll [] = b := rfl

@[simp] theorem fenceAll_cons (b : Broker) (id : TxnId) (ids : List TxnId) :
    b.fenceAll (id :: ids) = (b.fence id.text).2.fenceAll ids := rfl

theorem fenceAll_append (b : Broker) (ids ids' : List TxnId) :
    b.fenceAll (ids ++ ids') = (b.fenceAll ids).fenceAll ids' := List.foldl_append

theorem abortsLeft_fenceAll (b : Broker) (ids : List TxnId) :
    (b.fenceAll ids).abortsLeft = b.abortsLeft := by
  induction ids generalizing b with
  | nil => rfl
  | cons id ids ih => exact ih (b.fence id.text).2

theorem listingFails_fenceAll (b : Broker) (ids : List TxnId) :
    (b.fenceAll ids).listingFails = b.listingFails := by
  induction ids generalizing b with
  | nil => rfl
  | cons id ids ih => exact ih (b.fence id.text).2

theorem aborted_fenceAll (b : Broker) (ids : List TxnId) :
    (b.fenceAll ids).aborted = b.aborted ++ ids.map TxnId.text := by
  induction ids generalizing b with
  | nil => simp
  | cons id ids ih =>
    rw [fenceAll_cons, ih]
    simp [fence]

theorem opened_fenceAll (b : Broker) (ids : List TxnId) :
    (b.fenceAll ids).opened = b.opened.filter fun entry => ⟨entry.1⟩ ∉ ids := by
  induction ids generalizing b with
  | nil => exact (List.filter_eq_self.2 fun _ _ => by simp).symm
  | cons id ids ih =>
    rw [fenceAll_cons, ih, fence, Assoc.remove, List.filter_filter]
    refine List.filter_congr fun entry _ => ?_
    have : (entry.1 = id.text) ↔ (⟨entry.1⟩ : TxnId) = id := by
      cases id
      simp
    simp [this, Bool.and_comm]

theorem find?_opened_fenceAll (b : Broker) (ids : List TxnId) (id : TxnId) :
    Assoc.find? id.text (b.fenceAll ids).opened =
      if id ∈ ids then none else Assoc.find? id.text b.opened := by
  induction ids generalizing b with
  | nil => simp
  | cons a ids ih =>
    have hfence : Assoc.find? id.text (b.fence a.text).2.opened =
        if a.text = id.text then none else Assoc.find? id.text b.opened :=
      Assoc.find?_remove a.text id.text b.opened
    rw [fenceAll_cons, ih, hfence]
    by_cases h : a = id
    · simp [h]
    · have : a.text ≠ id.text := fun e => h (TxnId.ext_of_text e)
      simp [this, Ne.symm h]

theorem isOpen_fenceAll (b : Broker) (ids : List TxnId) (id : TxnId) :
    (b.fenceAll ids).isOpen id.text = true ↔ b.isOpen id.text = true ∧ id ∉ ids := by
  induction ids generalizing b with
  | nil => simp
  | cons a ids ih =>
    rw [fenceAll_cons, ih, isOpen_fence, List.mem_cons]
    by_cases h : a = id
    · simp [h]
    · have : a.text ≠ id.text := fun e => h (TxnId.ext_of_text e)
      simp [this, Ne.symm h]

theorem closed_of_mem {b : Broker} {ids : List TxnId} {id : TxnId} (h : id ∈ ids) :
    (b.fenceAll ids).isOpen id.text = false :=
  Bool.eq_false_iff.2 fun hopen => ((isOpen_fenceAll b ids id).1 hopen).2 h

theorem mem_of_closed {b : Broker} {ids : List TxnId} {name : String} (hopen : b.isOpen name = true)
    (hclosed : (b.fenceAll ids).isOpen name = false) : ⟨name⟩ ∈ ids := by
  refine Classical.byContradiction fun hnot => ?_
  have hstill : (b.fenceAll ids).isOpen name = true :=
    (isOpen_fenceAll b ids ⟨name⟩).2 ⟨hopen, hnot⟩
  rw [hclosed] at hstill
  cases hstill

theorem epochOf_fenceAll {b : Broker} {ids : List TxnId} (nodup : ids.Nodup) (id : TxnId) :
    (b.fenceAll ids).epochOf id.text =
      if id ∈ ids then (b.epochOf id.text).next else b.epochOf id.text := by
  induction ids generalizing b with
  | nil => simp
  | cons a ids ih =>
    obtain ⟨ha, hids⟩ := List.nodup_cons.1 nodup
    rw [fenceAll_cons, ih hids, epochOf_fence]
    by_cases h : a = id
    · subst h
      simp [ha]
    · have : a.text ≠ id.text := fun e => h (TxnId.ext_of_text e)
      simp [this, Ne.symm h]

theorem fenced_fenceAll {b : Broker} {ids : List TxnId} (nodup : ids.Nodup) :
    (b.fenceAll ids).fenced = b.fenced ++ (ids.map TxnId.text).filter b.isOpen := by
  induction ids generalizing b with
  | nil => simp
  | cons a ids ih =>
    obtain ⟨ha, hids⟩ := List.nodup_cons.1 nodup
    -- Fencing `a` neither opens nor closes the names that follow.
    have same : (ids.map TxnId.text).filter (b.fence a.text).2.isOpen =
        (ids.map TxnId.text).filter b.isOpen := by
      refine List.filter_congr fun name hname => ?_
      obtain ⟨id, hid, rfl⟩ := List.mem_map.1 hname
      have hne : a.text ≠ id.text := fun e => ha ((TxnId.ext_of_text e : a = id) ▸ hid)
      rw [isOpen_fence, if_neg hne]
    rw [fenceAll_cons, ih hids, same, List.map_cons]
    by_cases h : b.isOpen a.text = true
    · simp [fence, h]
    · simp [fence, h]

theorem client_abort_of_none {b : Broker} (h : b.abortsLeft = none) (id : TxnId) :
    client.abort id b = (.ok (b.table id), (b.fence id.text).2) := by
  cases b
  cases h
  rfl

theorem eq_fenceAll_of_transcript {b t : Broker} {events : List Event}
    (h : Transcript client b events t) (hb : b.abortsLeft = none) :
    t = b.fenceAll (calls events) := by
  induction h with
  | done => rfl
  | @abort id b t events rest ih =>
    -- No failure is ordered, so the call goes through and orders none either.
    rw [client_abort_of_none hb] at ih ⊢
    rw [calls_abort, fenceAll_cons]
    exact ih hb
  | list lists rest ih =>
    cases lists
    exact ih hb
  | note rest ih => exact ih hb

/-- As long as no id is called twice, the epochs at the start give all answers. -/
theorem answeredBy_of_transcript {b t : Broker} {events : List Event}
    (h : Transcript client b events t) (hb : b.abortsLeft = none) (nodup : (calls events).Nodup) :
    AnsweredBy b.table events := by
  induction h with
  | done => exact .nil _
  | @abort id b t events rest ih =>
    rw [client_abort_of_none hb] at ih ⊢
    obtain ⟨hid, hrest⟩ := List.nodup_cons.1 nodup
    -- The call raises the epoch of `id`, which no later call asks for.
    have same (other : TxnId) (hother : other ∈ calls events) :
        b.table other = (b.fence id.text).2.table other := by
      have hne : id.text ≠ other.text := fun e => hid ((TxnId.ext_of_text e : id = other) ▸ hother)
      rw [table, table, epochOf_fence, if_neg hne]
    exact ((ih hb hrest).congr same).abort id
  | list lists rest ih =>
    cases lists
    exact (ih hb nodup).of_tail rfl
  | note rest ih => exact (ih hb nodup).of_tail rfl

theorem client_abort_frame (b : Broker) {id other : TxnId} (hne : id ≠ other) :
    Assoc.find? other.text (client.abort id b).2.opened = Assoc.find? other.text b.opened ∧
      (client.abort id b).2.epochOf other.text = b.epochOf other.text := by
  have htext : id.text ≠ other.text := fun e => hne (TxnId.ext_of_text e)
  simp only [client, abort]
  split
  · exact ⟨rfl, rfl⟩
  · refine ⟨?_, ?_⟩
    · rw [fence, Assoc.find?_remove, if_neg htext]
    · rw [epochOf_fence, if_neg htext]
      rfl

theorem frame_of_not_mem_calls {b t : Broker} {events : List Event}
    (h : Transcript client b events t) {id : TxnId} (hid : id ∉ calls events) :
    Assoc.find? id.text t.opened = Assoc.find? id.text b.opened ∧
      t.epochOf id.text = b.epochOf id.text := by
  induction h with
  | done => exact ⟨rfl, rfl⟩
  | @abort called b t events rest ih =>
    rw [calls_abort, List.mem_cons, not_or] at hid
    have hstep := client_abort_frame b (Ne.symm hid.1)
    exact ⟨(ih hid.2).1.trans hstep.1, (ih hid.2).2.trans hstep.2⟩
  | list lists rest ih =>
    cases lists
    exact ih hid
  | note rest ih => exact ih hid

variable {b : Broker} (hb : b.abortsLeft = none) (strategy : Strategy) (scope : Scope)

include hb

theorem answeredBy_pass : AnsweredBy b.table (strategy.pass client scope b).events :=
  answeredBy_of_transcript (pass_truthful client scope strategy b) hb
    (strategy.nodup_calls client scope b)

theorem state_pass : (strategy.pass client scope b).state =
    b.fenceAll (strategy.pass client scope b).abortCalls :=
  eq_fenceAll_of_transcript (pass_truthful client scope strategy b) hb

theorem abortsLeft_pass : (strategy.pass client scope b).state.abortsLeft = none := by
  rw [state_pass hb, abortsLeft_fenceAll, hb]

theorem listingFails_pass : (strategy.pass client scope b).state.listingFails = b.listingFails := by
  rw [state_pass hb, listingFails_fenceAll]

end SinkFencing.Broker
