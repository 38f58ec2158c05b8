import SinkFencing.Proofs.ListingCourse
import SinkFencing.Proofs.ProbingReach

namespace SinkFencing

variable {σ τ : Type}

namespace Scope

def ofStem (placement : Placement) (start : UInt64) (stem : String) (pending : List TxnId)
    (h : stem ≠ "") : Scope :=
  ⟨placement, start, Ascending.ofList [stem], Ascending.ofList pending, [], by
    simp [Ascending.ofList, Ascending.insert, Ascending.place, Ascending.empty], by
    simpa using Ne.symm h⟩

theorem make_elems (scope : Scope) :
    Scope.make scope.placement scope.start scope.stems.elems scope.pending.elems scope.topics =
      .ok scope := by
  have hstems : Ascending.ofList scope.stems.elems = scope.stems :=
    Ascending.ext_of_mem fun _ => Ascending.mem_ofList
  have hpending : Ascending.ofList scope.pending.elems = scope.pending :=
    Ascending.ext_of_mem fun _ => Ascending.mem_ofList
  simp only [Scope.make, hstems, hpending]
  rw [dif_neg scope.stems_ne_nil, dif_neg scope.stems_ne_empty]

theorem claims_iff {scope : Scope} {parts : TxnId.Parts} :
    scope.claims parts = true ↔
      parts.stem ∈ scope.stems ∧ parts.owner % scope.placement.parallelism = scope.placement.index := by
  simp [claims, Placement.owns_iff]

end Scope

namespace Strategy

variable {strategy strategy' : Strategy} {client : Client σ} {client' : Client τ}
  {scope scope' : Scope} {s : σ} {t : τ} {id : TxnId}

theorem claims_of_mem_calls (h : id ∈ (strategy.pass client scope s).abortCalls) :
    ∃ parts, id.parts = .ok parts ∧ scope.claims parts = true := by
  cases strategy with
  | probing =>
    obtain ⟨parts, rfl, hstem, howns, -⟩ := (Probing.ascend_run client scope s).exists_of_mem h
    exact ⟨parts, TxnId.parts_compose _ _ _, Scope.claims_iff.2 ⟨hstem, Placement.owns_iff.1 howns⟩⟩
  | listing => exact ((Listing.course_run client scope s).of_mem_calls h).2.2

theorem nodup_calls (strategy : Strategy) (client : Client σ) (scope : Scope) (s : σ) :
    (strategy.pass client scope s).abortCalls.Nodup := by
  cases strategy with
  | probing => exact (Probing.ascend_run client scope s).nodup
  | listing => exact (Listing.course_run client scope s).nodup_calls

theorem not_mem_calls_of_claims
    (hp : scope'.placement.parallelism = scope.placement.parallelism)
    (hi : scope'.placement.index ≠ scope.placement.index) {parts' : TxnId.Parts}
    (hparts' : id.parts = .ok parts') (hclaims' : scope'.claims parts' = true) :
    id ∉ (strategy.pass client scope s).abortCalls := by
  intro h
  obtain ⟨parts, hparts, hclaims⟩ := claims_of_mem_calls h
  rw [hparts] at hparts'
  cases hparts'
  have howner := (Scope.claims_iff.1 hclaims).2
  have howner' := (Scope.claims_iff.1 hclaims').2
  rw [hp, howner] at howner'
  exact hi howner'.symm

theorem not_mem_calls_of_index_ne
    (hp : scope'.placement.parallelism = scope.placement.parallelism)
    (hi : scope'.placement.index ≠ scope.placement.index)
    (h : id ∈ (strategy'.pass client' scope' t).abortCalls) :
    id ∉ (strategy.pass client scope s).abortCalls := by
  obtain ⟨parts', hparts', hclaims'⟩ := claims_of_mem_calls h
  exact not_mem_calls_of_claims hp hi hparts' hclaims'

/-- A pass calls only ids of its own, each of them once, and shares none with another subtask. -/
theorem abortCalls_owned (strategy : Strategy) (client : Client σ) (scope : Scope) (s : σ) :
    (∀ id ∈ (strategy.pass client scope s).abortCalls, ∃ parts : TxnId.Parts,
      id.parts = .ok parts ∧ parts.stem ∈ scope.stems ∧
      parts.owner % scope.placement.parallelism = scope.placement.index ∧
      match strategy with
      | .probing => id = parts.compose ∧ scope.start ≤ parts.sequence
      | .listing => id ∉ scope.pending ∧ ∃ names,
          .list scope.topics (.ok names) ∈ (strategy.pass client scope s).events ∧
            id.text ∈ names) ∧
    (strategy.pass client scope s).abortCalls.Nodup ∧
    ∀ {τ : Type} (strategy' : Strategy) (client' : Client τ) (scope' : Scope) (t : τ),
      scope'.placement.parallelism = scope.placement.parallelism →
      scope'.placement.index ≠ scope.placement.index →
      ∀ id ∈ (strategy.pass client scope s).abortCalls,
        id ∉ (strategy'.pass client' scope' t).abortCalls := by
  refine ⟨fun id hid => ?_, nodup_calls strategy client scope s, ?_⟩
  · cases strategy with
    | probing =>
      obtain ⟨parts, rfl, hstem, howns, hstart⟩ :=
        (Probing.ascend_run client scope s).exists_of_mem hid
      exact ⟨parts, TxnId.parts_compose _ _ _, hstem, Placement.owns_iff.1 howns, rfl, hstart⟩
    | listing =>
      obtain ⟨hpending, hlisted, parts, hparts, hclaims⟩ :=
        (Listing.course_run client scope s).of_mem_calls hid
      obtain ⟨hstem, howner⟩ := Scope.claims_iff.1 hclaims
      exact ⟨parts, hparts, hstem, howner, hpending, hlisted⟩
  · intro τ strategy' client' scope' t hp hi id hid
    exact not_mem_calls_of_index_ne hp.symm hi.symm hid

end Strategy

end SinkFencing
