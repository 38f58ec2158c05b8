import SinkFencing.Proofs.Noninterference
import SinkFencing.Proofs.PassEnd

namespace SinkFencing

namespace Listing

variable {σ : Type} {scope : Scope} {names names' : List String}

/-- All ids among the names that the scope claims, pending or not, each once, in the order of their texts. -/
structure Claimed (scope : Scope) (names : List String) (ids : List TxnId) : Prop where
  ascending : ids.Pairwise (·.text < ·.text)
  mem_iff : ∀ id, id ∈ ids ↔ id.text ∈ names ∧ ∃ parts, id.parts = .ok parts ∧
    parts.stem ∈ scope.stems ∧ scope.placement.owns parts.owner = true

/-- An id that a pass has to abort when it is told these names. -/
structure Wanted (scope : Scope) (names : List String) (id : TxnId) : Prop where
  told : id.text ∈ names
  claimed : ∃ parts, id.parts = .ok parts ∧ parts.stem ∈ scope.stems ∧
    scope.placement.owns parts.owner = true
  not_pending : id ∉ scope.pending

/-- All wanted ids, each once, in the order of their texts. -/
structure Targets (scope : Scope) (names : List String) (ids : List TxnId) : Prop where
  ascending : ids.Pairwise (·.text < ·.text)
  mem_iff : ∀ id, id ∈ ids ↔ Wanted scope names id

/-- The least of the names that start like one of ours, but cannot be read. -/
structure LeastMismatch (stems : Ascending String) (names : List String) (name : String) : Prop where
  told : name ∈ names
  mismatch : Mismatch stems name
  least : ∀ other ∈ names, Mismatch stems other → name ≤ other

/-- The ways in which a pass ends that was told these names. -/
inductive Outcome (scope : Scope) (names : List String) : List Event → Except Fault Unit → Prop
  | mismatch {events : List Event} {name : String} {why : Malformation}
      (least : LeastMismatch scope.stems names name)
      (unread : TxnId.Parts.read name = .error (.malformed name why))
      (unfailed : Unfailed events) (uncalled : calls events = []) :
      Outcome scope names events (.error (.malformed name why))
  | completed {events : List Event} (readable : ∀ name ∈ names, ¬ Mismatch scope.stems name)
      (unfailed : Unfailed events) (targets : Targets scope names (calls events)) :
      Outcome scope names events (.ok ())
  /-- The calls that would have followed the failed one are not made. -/
  | failed {events : List Event} {id : TxnId} {unmade : List TxnId} {fault : BrokerFault}
      (readable : ∀ name ∈ names, ¬ Mismatch scope.stems name) (unfailed : Unfailed events)
      (targets : Targets scope names (calls events ++ id :: unmade)) :
      Outcome scope names (events ++ [.abort id (.error fault)]) (.error (.broker fault))

theorem FirstMismatch.least {stems : Ascending String} {name : String}
    (h : FirstMismatch stems (Ascending.ofList names).elems name) : LeastMismatch stems names name := by
  obtain ⟨before, after, hsplit, hbefore, hname⟩ := h
  have mem_iff (other : String) : other ∈ names ↔ other ∈ before ++ name :: after := by
    rw [← hsplit, ← Ascending.mem_iff, Ascending.mem_ofList]
  have ascending := (Ascending.ofList names).pairwise_lt
  rw [hsplit] at ascending
  have hafter := (List.pairwise_cons.1 (List.pairwise_append.1 ascending).2.1).1
  refine ⟨?_, hname, fun other hother mismatch => ?_⟩
  · exact (mem_iff name).2 (List.mem_append_right _ List.mem_cons_self)
  · -- The mismatch is not among the names before, and all names after it are greater.
    obtain hmem | hmem := List.mem_append.1 ((mem_iff other).1 hother)
    · exact absurd mismatch (hbefore other hmem)
    · obtain rfl | hmem := List.mem_cons.1 hmem
      · exact String.le_refl _
      · exact Std.le_of_lt (hafter other hmem)

theorem claimed_of_owned {ids : List TxnId}
    (good : owned scope (Ascending.ofList names).elems = .ok ids) : Claimed scope names ids := by
  constructor
  · have ascending := (Ascending.ofList names).pairwise_lt.sublist (sublist_of_owned good)
    exact List.pairwise_map.1 ascending
  · intro id
    rw [mem_owned_iff good, ← Ascending.mem_iff, Ascending.mem_ofList]
    simp only [Scope.claims_iff, ← Placement.owns_iff]

theorem Claimed.targets {ids : List TxnId} (claimed : Claimed scope names ids) :
    Targets scope names (ids.filter (· ∉ scope.pending)) := by
  constructor
  · exact claimed.ascending.filter _
  · intro id
    rw [List.mem_filter, claimed.mem_iff, decide_eq_true_iff]
    constructor
    · intro h
      exact ⟨h.1.1, h.1.2, h.2⟩
    · intro h
      exact ⟨⟨h.told, h.claimed⟩, h.not_pending⟩

theorem unfailed_preface (ids : List TxnId) : Unfailed (preface scope names ids) := by
  rw [preface]
  split
  · exact .cons rfl .nil
  · exact .cons rfl (.cons rfl (unfailed_sparedEvents _))

@[simp] theorem calls_preface (ids : List TxnId) : calls (preface scope names ids) = [] := by
  rw [preface]
  split <;> simp

section Told

variable {client : Client σ} {list : List String → σ → Except BrokerFault (List String) × σ} {s t : σ}

theorem Outcome.of_told (lists : client.list? = some list)
    (told : list scope.topics s = (.ok names, t)) :
    Outcome scope names (run client scope s).events (run client scope s).answer := by
  cases found : owned scope (Ascending.ofList names).elems with
  | error fault =>
    obtain ⟨name, first, unread⟩ := first_of_owned found
    obtain ⟨why, rfl⟩ := TxnId.Parts.malformed_of_read unread
    rw [run_of_mismatch lists told found]
    exact .mismatch first.least unread (.cons rfl .nil) rfl
  | ok ids =>
    have readable (name : String) (hname : name ∈ names) : ¬ Mismatch scope.stems name :=
      readable_of_owned found (Ascending.mem_ofList.2 hname)
    have targets := (claimed_of_owned found).targets
    rw [run_of_owned lists told found]
    obtain ⟨hanswer, unfailed, hcalls⟩ | ⟨before, id, unmade, fault, hanswer, hevents, unfailed, hids⟩ :=
      (fencing_each client (ids.filter (· ∉ scope.pending)) t).cut
    · rw [hanswer]
      refine .completed readable ((unfailed_preface ids).append unfailed) ?_
      rw [calls_append, calls_preface, hcalls]
      exact targets
    · have targets' : Targets scope names (calls (preface scope names ids ++ before) ++ id :: unmade) := by
        rw [calls_append, calls_preface, List.nil_append, ← hids]
        exact targets
      rw [hanswer, hevents, ← List.append_assoc]
      exact .failed readable ((unfailed_preface ids).append unfailed) targets'

/-- Order and repetition of the names do not matter, nor do names that do not start like one of ours. -/
theorem owned_congr
    (same : ∀ name, Carries scope.stems name → (name ∈ names' ↔ name ∈ names)) :
    owned scope (Ascending.ofList names').elems = owned scope (Ascending.ofList names).elems := by
  have carried (names : List String) :
      owned scope (names.filter scope.mayCarryStem) = owned scope names :=
    owned_filter fun _ _ other => .inl other
  rw [← carried, ← carried (Ascending.ofList names).elems]
  congr 1
  apply Ascending.elems_eq_of_mem
  · exact (Ascending.ofList names').pairwise_lt.filter _
  · exact (Ascending.ofList names).pairwise_lt.filter _
  · intro name
    rw [List.mem_filter, List.mem_filter, ← Ascending.mem_iff, ← Ascending.mem_iff, Ascending.mem_ofList,
      Ascending.mem_ofList, mayCarryStem_iff]
    exact and_congr_left fun carries => same name carries

/-- Two lists of names that tell a pass the same lead it to the same answer, calls and state. -/
theorem run_congr {list' : List String → σ → Except BrokerFault (List String) × σ}
    (lists : client.list? = some list) (told : list scope.topics s = (.ok names, t))
    (told' : list' scope.topics s = (.ok names', t))
    (same : ∀ name, Carries scope.stems name → (name ∈ names' ↔ name ∈ names)) :
    let other := run { client with list? := some list' } scope s
    other.answer = (run client scope s).answer ∧
      other.abortCalls = (run client scope s).abortCalls ∧
      other.state = (run client scope s).state := by
  intro other
  have hother : other = run { client with list? := some list' } scope s := rfl
  have hfound := owned_congr same
  cases found : owned scope (Ascending.ofList names).elems with
  | error fault =>
    rw [hother, run_of_mismatch lists told found, run_of_mismatch rfl told' (hfound.trans found)]
    exact ⟨rfl, rfl, rfl⟩
  | ok ids =>
    rw [hother, run_of_owned lists told found, run_of_owned rfl told' (hfound.trans found)]
    refine ⟨rfl, ?_, rfl⟩
    show calls (preface scope names' ids ++ _) = calls (preface scope names ids ++ _)
    rw [calls_append, calls_append, calls_preface, calls_preface]
    rfl

end Told

end Listing

open Listing in
/-- A listing pass, whatever the client answers. It asks for the open transactions first, and without an
answer it calls no id. The names that it is told are a set, of which those that do not start like one of ours
do not matter, and no id with a known stem is among these. -/
theorem Strategy.listing_outcome {σ : Type} (client : Client σ) (scope : Scope) (s : σ) :
    let run := Strategy.listing.pass client scope s
    Transcript client s run.events run.state ∧
    (match client.list? with
      | none => run.answer = .error (.refused .noLister) ∧ Refusal.noLister.argument = "lister" ∧
          run.abortCalls = []
      | some list =>
        match list scope.topics s with
        | (.error fault, _) => run.answer = .error (.broker fault) ∧ run.abortCalls = []
        | (.ok names, t) => Outcome scope names run.events run.answer ∧
            ∀ list' names', list' scope.topics s = (.ok names', t) →
              (∀ name, Carries scope.stems name → (name ∈ names' ↔ name ∈ names)) →
              let other := Strategy.listing.pass { client with list? := some list' } scope s
              other.answer = run.answer ∧ other.abortCalls = run.abortCalls ∧
                other.state = run.state) ∧
    ∀ name parts, TxnId.Parts.read name = .ok parts → parts.stem ∈ scope.stems →
      scope.mayCarryStem name = true := by
  intro run
  refine ⟨pass_truthful client scope .listing s, ?_, fun name parts read known =>
    mayCarryStem_iff.2 (carries_of_read read known)⟩
  have hrun : run = Listing.run client scope s := rfl
  cases lists : client.list? with
  | none =>
    rw [hrun, run_of_unable lists]
    exact ⟨rfl, rfl, rfl⟩
  | some list =>
    dsimp only
    cases told : list scope.topics s with
    | mk answer t =>
      cases answer with
      | error fault =>
        rw [hrun, run_of_unlisted lists told]
        exact ⟨rfl, rfl⟩
      | ok names =>
        exact ⟨.of_told lists told, fun list' names' told' same => run_congr lists told told' same⟩

example :
    let scope := Scope.ofStem ⟨0, 1, by decide⟩ 0 "app" [⟨"app-0-3"⟩] (by decide)
    let names := ["app-1-0", "apple-0-9", "app-0-7", "app-0-3", "app-1-0"]
    let client : Client Unit := ⟨fun _ _ => (.ok .unused, ()), some fun _ _ => (.ok names, ())⟩
    (Strategy.listing.pass client scope ()).abortCalls = [⟨"app-0-7"⟩, ⟨"app-1-0"⟩] := by decide +kernel

end SinkFencing
