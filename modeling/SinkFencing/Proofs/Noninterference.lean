import SinkFencing.Proofs.ListingEffect
import SinkFencing.Proofs.ProbingRestart

namespace SinkFencing

open TxnId

namespace Broker

def clientWith : Bool → Client Broker
  | true => client
  | false => client.withoutListing

theorem transcript_of_clientWith {lists : Bool} {b t : Broker} {events : List Event}
    (h : Transcript (clientWith lists) b events t) : Transcript client b events t := by
  cases lists with
  | true => exact h
  | false =>
    induction h with
    | done => exact .done _
    | abort _ ih => exact .abort ih
    | list lists => cases lists
    | note _ ih => exact .note ih

section

variable {b : Broker} (hb : b.abortsLeft = none) (strategy : Strategy) (lists : Bool) (scope : Scope)

include hb

theorem state_clientWith : (strategy.pass (clientWith lists) scope b).state =
    b.fenceAll (strategy.pass (clientWith lists) scope b).abortCalls :=
  eq_fenceAll_of_transcript
    (transcript_of_clientWith (pass_truthful (clientWith lists) scope strategy b)) hb

theorem answeredBy_clientWith :
    AnsweredBy b.table (strategy.pass (clientWith lists) scope b).events :=
  answeredBy_of_transcript
    (transcript_of_clientWith (pass_truthful (clientWith lists) scope strategy b)) hb
    (strategy.nodup_calls (clientWith lists) scope b)

end

theorem table_fenceAll_of_not_mem {b : Broker} {ids : List TxnId} {id : TxnId} (h : id ∉ ids) :
    (b.fenceAll ids).table id = b.table id := by
  induction ids generalizing b with
  | nil => rfl
  | cons a ids ih =>
    rw [List.mem_cons, not_or] at h
    have hne : a.text ≠ id.text := fun e => h.1 (ext_of_text e).symm
    rw [fenceAll_cons, ih h.2, table, table, epochOf_fence, if_neg hne]

theorem listed_fenceAll_eq (b : Broker) (ids : List TxnId) (topics : List String) :
    (b.fenceAll ids).listed topics = (b.listed topics).filter fun name => ⟨name⟩ ∉ ids := by
  rw [listed, listed, opened_fenceAll, List.filter_map, List.filter_filter, List.filter_filter]
  simp only [Function.comp_def, Bool.and_comm]

end Broker

/-- All ids can be read, and none belongs to the scope. -/
def Scope.Foreign (scope : Scope) (ids : List TxnId) : Prop :=
  ∀ id ∈ ids, ∃ parts, id.parts = .ok parts ∧ scope.claims parts = false

theorem Scope.Foreign.not_mem {scope : Scope} {ids : List TxnId} (foreign : scope.Foreign ids)
    {id : TxnId} {parts : Parts} (hparts : id.parts = .ok parts) (claims : scope.claims parts = true) :
    id ∉ ids := by
  intro hid
  obtain ⟨parts', hparts', hforeign⟩ := foreign id hid
  rw [hparts] at hparts'
  cases hparts'
  rw [claims] at hforeign
  cases hforeign

theorem Ascending.elems_ofList_filter (names : List String) (keep : String → Bool) :
    (Ascending.ofList (names.filter keep)).elems = (Ascending.ofList names).elems.filter keep := by
  apply Ascending.elems_eq_of_mem
  · exact (Ascending.ofList _).pairwise_lt
  · exact (Ascending.ofList names).pairwise_lt.filter _
  · intro name
    rw [List.mem_filter, ← Ascending.mem_iff, ← Ascending.mem_iff, Ascending.mem_ofList,
      Ascending.mem_ofList, List.mem_filter]

namespace Listing

/-- Names of others do not matter, if they do not start like one of ours or can be read. -/
theorem owned_filter {scope : Scope} {names : List String} {keep : String → Bool}
    (h : ∀ name ∈ names, keep name = false → scope.mayCarryStem name = false ∨
      ∃ parts, Parts.read name = .ok parts ∧ scope.claims parts = false) :
    owned scope (names.filter keep) = owned scope names := by
  induction names with
  | nil => rfl
  | cons name rest ih =>
    have ih := ih fun other hother => h other (List.mem_cons_of_mem name hother)
    cases hkeep : keep name with
    | true => rw [List.filter_cons_of_pos hkeep, owned, owned, ih]
    | false =>
      rw [List.filter_cons_of_neg (by simp [hkeep]), ih, owned]
      obtain other | ⟨parts, hparts, hforeign⟩ := h name List.mem_cons_self hkeep
      · rw [other, if_neg Bool.false_ne_true]
      · rw [hparts]
        split
        · cases owned scope rest <;> simp [bind, Except.bind, hforeign, pure, Except.pure]
        · rfl

theorem outcome_of_owned {b : Broker} (hb : b.abortsLeft = none) (hl : b.listingFails = false)
    (scope : Scope) :
    let found := owned scope (Ascending.ofList (b.listed scope.topics)).elems
    (run Broker.client scope b).answer = found.map (fun _ => ()) ∧
      (run Broker.client scope b).abortCalls =
        (found.toOption.getD []).filter (· ∉ scope.pending) := by
  intro found
  obtain ⟨fault, hbad, hanswer, hcalls⟩ | ⟨ids, hgood, hanswer, hcalls⟩ := ends hb hl scope
  · have hfound : found = .error fault := hbad
    rw [hfound, hanswer, hcalls]
    exact ⟨rfl, rfl⟩
  · have hfound : found = .ok ids := hgood
    rw [hfound, hanswer, hcalls]
    exact ⟨rfl, rfl⟩

theorem run_of_listingFails {b : Broker} (h : b.listingFails = true) (scope : Scope) :
    (run Broker.client scope b).answer =
        .error (.broker (.listing scope.topics Broker.injected)) ∧
      (run Broker.client scope b).abortCalls = [] := by
  have lists : Broker.client.list? = some fun topics b => (b.list topics, b) := rfl
  have hlist : b.list scope.topics = .error (.listing scope.topics Broker.injected) := by
    rw [Broker.list, if_pos h]
  rw [run_of_unlisted (t := b) lists (by rw [hlist])]
  exact ⟨rfl, rfl⟩

end Listing

variable {b : Broker} {scope : Scope} {foreign : List TxnId}

theorem Scope.Foreign.table_eq (h : scope.Foreign foreign) {parts : Parts}
    (claims : scope.claims parts = true) :
    (b.fenceAll foreign).table parts.compose = b.table parts.compose :=
  Broker.table_fenceAll_of_not_mem (h.not_mem (parts_compose _ _ _) claims)

/-- The listed names of a scope are its own before and after the fencing of foreign ids. -/
theorem Scope.Foreign.owned_eq (h : scope.Foreign foreign) :
    Listing.owned scope (Ascending.ofList ((b.fenceAll foreign).listed scope.topics)).elems =
      Listing.owned scope (Ascending.ofList (b.listed scope.topics)).elems := by
  rw [Broker.listed_fenceAll_eq, Ascending.elems_ofList_filter]
  apply Listing.owned_filter
  intro name _ hname
  exact .inr (h ⟨name⟩ (by simpa using hname))

theorem Probing.run_of_foreign (hb : b.abortsLeft = none) (h : scope.Foreign foreign)
    (lists : Bool) :
    let run := Probing.run (Broker.clientWith lists) scope
    (run (b.fenceAll foreign)).answer = (run b).answer ∧
      (run (b.fenceAll foreign)).abortCalls = (run b).abortCalls := by
  intro run
  have hb' : (b.fenceAll foreign).abortsLeft = none := by rw [Broker.abortsLeft_fenceAll, hb]
  have ht := Broker.answeredBy_clientWith hb .probing lists scope
  have ht' := Broker.answeredBy_clientWith hb' .probing lists scope
  refine ⟨(answer_of_table ht').trans (answer_of_table ht).symm, ?_⟩
  apply (ascend_of_table ht').eq_of_mem_iff (ascend_of_table ht)
  have same (parts : Parts) : Reached (b.fenceAll foreign).table scope parts ↔
      Reached b.table scope parts :=
    ⟨Reached.congr fun _ claims => (h.table_eq claims).symm, Reached.congr fun _ => h.table_eq⟩
  intro id
  constructor
  · intro hid
    obtain ⟨parts, rfl, -⟩ := (ascend_of_table ht').exists_of_mem hid
    exact (mem_calls_iff ht parts).2 ((same parts).1 ((mem_calls_iff ht' parts).1 hid))
  · intro hid
    obtain ⟨parts, rfl, -⟩ := (ascend_of_table ht).exists_of_mem hid
    exact (mem_calls_iff ht' parts).2 ((same parts).2 ((mem_calls_iff ht parts).1 hid))

theorem Listing.run_of_foreign (hb : b.abortsLeft = none) (h : scope.Foreign foreign) :
    let run := Listing.run Broker.client scope
    (run (b.fenceAll foreign)).answer = (run b).answer ∧
      (run (b.fenceAll foreign)).abortCalls = (run b).abortCalls := by
  intro run
  have hb' : (b.fenceAll foreign).abortsLeft = none := by rw [Broker.abortsLeft_fenceAll, hb]
  cases hl : b.listingFails with
  | true =>
    have hl' := (Broker.listingFails_fenceAll b foreign).trans hl
    obtain ⟨hanswer, hcalls⟩ := run_of_listingFails hl scope
    obtain ⟨hanswer', hcalls'⟩ := run_of_listingFails hl' scope
    exact ⟨hanswer'.trans hanswer.symm, hcalls'.trans hcalls.symm⟩
  | false =>
    have hl' := (Broker.listingFails_fenceAll b foreign).trans hl
    obtain ⟨hanswer, hcalls⟩ := outcome_of_owned hb hl scope
    obtain ⟨hanswer', hcalls'⟩ := outcome_of_owned hb' hl' scope
    rw [h.owned_eq] at hanswer' hcalls'
    exact ⟨hanswer'.trans hanswer.symm, hcalls'.trans hcalls.symm⟩

namespace Strategy

/-- A pass neither succeeds nor fails by what was fenced of others, and calls the same ids. -/
theorem pass_of_foreign (hb : b.abortsLeft = none) (h : scope.Foreign foreign)
    (strategy : Strategy) (lists : Bool) :
    let pass := strategy.pass (Broker.clientWith lists) scope
    (pass (b.fenceAll foreign)).answer = (pass b).answer ∧
      (pass (b.fenceAll foreign)).abortCalls = (pass b).abortCalls := by
  cases strategy with
  | probing => exact Probing.run_of_foreign hb h lists
  | listing =>
    cases lists with
    | true => exact Listing.run_of_foreign hb h
    | false =>
      intro pass
      have unable (s : Broker) : pass s = ⟨.error (.refused .noLister), [], s⟩ :=
        Listing.run_of_unable rfl scope s
      rw [unable, unable]
      exact ⟨rfl, rfl⟩

/-- What another subtask's pass calls is foreign to a scope. -/
theorem foreign_calls {σ : Type} {other : Scope}
    (hp : other.placement.parallelism = scope.placement.parallelism)
    (hi : other.placement.index ≠ scope.placement.index) (strategy : Strategy) (client : Client σ)
    (s : σ) : scope.Foreign (strategy.pass client other s).abortCalls := by
  intro id hid
  obtain ⟨parts, hparts, hclaims⟩ := claims_of_mem_calls hid
  refine ⟨parts, hparts, Bool.eq_false_iff.2 fun hown => ?_⟩
  exact not_mem_calls_of_claims hp.symm hi.symm hparts hown hid

end Strategy

end SinkFencing
