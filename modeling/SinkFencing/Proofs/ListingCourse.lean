import SinkFencing.Proofs.Transcript

namespace SinkFencing.Listing

variable {σ : Type}

inductive Fencing : List TxnId → List Event → Except Fault Unit → Prop
  | done : Fencing [] [] (.ok ())
  | failed {id : TxnId} {ids : List TxnId} (fault : BrokerFault) :
      Fencing (id :: ids) [.abort id (.error fault)] (.error (.broker fault))
  | next {id : TxnId} {ids : List TxnId} {epoch : Epoch} {events : List Event}
      {answer : Except Fault Unit} (rest : Fencing ids events answer) :
      Fencing (id :: ids) (.abort id (.ok epoch) :: .note (.aborted id epoch) :: events) answer

/-- The notices of ids that are left to the committer. -/
def sparedEvents (ids : List TxnId) : List Event := ids.map fun id => .note (.spared id)

inductive Course (scope : Scope) : List Event → Except Fault Unit → Prop
  | unable : Course scope [] (.error (.refused .noLister))
  | unlisted (fault : BrokerFault) :
      Course scope [.list scope.topics (.error fault)] (.error (.broker fault))
  | idle : Course scope [.list scope.topics (.ok [])] (.ok ())
  | mismatch {names : List String} {fault : Fault}
      (bad : owned scope (Ascending.ofList names).elems = .error fault) :
      Course scope [.list scope.topics (.ok names)] (.error fault)
  | fencing {names : List String} {ids : List TxnId} {events : List Event}
      {answer : Except Fault Unit} (some : names ≠ [])
      (good : owned scope (Ascending.ofList names).elems = .ok ids)
      (fencing : Fencing (ids.filter (· ∉ scope.pending)) events answer) :
      Course scope (.list scope.topics (.ok names) :: .note (.found ids scope.placement) ::
        (sparedEvents (ids.filter (· ∈ scope.pending)) ++ events)) answer

theorem fencing_each (client : Client σ) (ids : List TxnId) (s : σ) :
    Fencing ids (Pass.each ids (fence client) s).events (Pass.each ids (fence client) s).answer := by
  induction ids generalizing s with
  | nil => exact .done
  | cons id ids ih =>
    have ha := Pass.abort_apply client id s
    cases h : (client.abort id s).1 with
    | error fault =>
      have hf : fence client id s =
          ⟨.error (.broker fault), [.abort id (.error fault)], (client.abort id s).2⟩ := by
        rw [fence, Pass.bind_of_error (by rw [ha, h]; rfl), ha, h]
      rw [Pass.each_cons_of_error (by rw [hf]), hf]
      exact .failed fault
    | ok epoch =>
      have hf : fence client id s = ⟨.ok (), [.abort id (.ok epoch), .note (.aborted id epoch)],
          (client.abort id s).2⟩ := by
        rw [fence, Pass.bind_of_ok (a := epoch) (by rw [ha, h]; rfl), ha, h]
        rfl
      rw [Pass.each_cons_of_ok (by rw [hf]), hf]
      exact .next (ih (client.abort id s).2)

theorem each_spared (ids : List TxnId) (s : σ) :
    Pass.each ids (fun id => Pass.note (.spared id)) s = ⟨.ok (), sparedEvents ids, s⟩ := by
  induction ids generalizing s with
  | nil => rfl
  | cons id ids ih =>
    rw [Pass.each_cons_of_ok rfl, Pass.note_apply, ih]
    rfl

theorem elems_ofList_eq_nil {names : List String} :
    (Ascending.ofList names).elems.isEmpty = true ↔ names = [] := by
  rw [List.isEmpty_iff, List.eq_nil_iff_forall_not_mem, List.eq_nil_iff_forall_not_mem]
  exact forall_congr' fun name => not_congr Ascending.mem_ofList

theorem list_apply {client : Client σ}
    {list : List String → σ → Except BrokerFault (List String) × σ} (lists : client.list? = some list)
    (topics : List String) (s : σ) : Pass.list client topics s =
      ⟨(list topics s).1.mapError .broker, [.list topics (list topics s).1], (list topics s).2⟩ := by
  rw [Pass.list, lists]

/-- What happens in a pass that was told these names, up to its first fencing call. -/
def preface (scope : Scope) (names : List String) (ids : List TxnId) : List Event :=
  .list scope.topics (.ok names) :: if names = [] then [] else
    .note (.found ids scope.placement) :: sparedEvents (ids.filter (· ∈ scope.pending))

section Listed

variable {client : Client σ} {list : List String → σ → Except BrokerFault (List String) × σ}
  {scope : Scope} {s t : σ} {names : List String}

theorem run_of_unable (h : client.list? = none) (scope : Scope) (s : σ) :
    run client scope s = ⟨.error (.refused .noLister), [], s⟩ := by
  have hlist : Pass.list client scope.topics = Pass.fail (.refused .noLister) := by
    rw [Pass.list, h]
  rw [run, hlist]
  rfl

theorem run_of_unlisted (lists : client.list? = some list) {fault : BrokerFault}
    (told : list scope.topics s = (.error fault, t)) :
    run client scope s = ⟨.error (.broker fault), [.list scope.topics (.error fault)], t⟩ := by
  have h := list_apply lists scope.topics s
  rw [told] at h
  rw [run, Pass.bind_of_error (by rw [h]; rfl), h]

theorem run_of_mismatch (lists : client.list? = some list)
    (told : list scope.topics s = (.ok names, t)) {fault : Fault}
    (bad : owned scope (Ascending.ofList names).elems = .error fault) :
    run client scope s = ⟨.error fault, [.list scope.topics (.ok names)], t⟩ := by
  have h := list_apply lists scope.topics s
  rw [told] at h
  have hne : ¬ (Ascending.ofList names).elems.isEmpty = true := by
    intro he
    rw [List.isEmpty_iff.1 he] at bad
    cases bad
  rw [run, Pass.bind_of_ok (a := names) (by rw [h]; rfl), h]
  simp only [if_neg hne]
  rw [Pass.bind_of_error (by rw [bad]; rfl), bad]
  rfl

theorem run_of_owned (lists : client.list? = some list)
    (told : list scope.topics s = (.ok names, t)) {ids : List TxnId}
    (good : owned scope (Ascending.ofList names).elems = .ok ids) :
    let fencing := Pass.each (ids.filter (· ∉ scope.pending)) (fence client) t
    run client scope s =
      ⟨fencing.answer, preface scope names ids ++ fencing.events, fencing.state⟩ := by
  intro fencing
  have h := list_apply lists scope.topics s
  rw [told] at h
  rw [run, Pass.bind_of_ok (a := names) (by rw [h]; rfl), h, preface]
  by_cases hn : names = []
  · subst hn
    obtain rfl : [] = ids := Except.ok.inj good
    rfl
  · have hne : ¬ (Ascending.ofList names).elems.isEmpty = true := fun e => hn (elems_ofList_eq_nil.1 e)
    simp only [if_neg hne, if_neg hn]
    rw [good, Pass.bind_of_ok (a := ids) rfl, Pass.bind_of_ok (a := ()) rfl,
      Pass.bind_of_ok (a := ()) (by rw [each_spared]), each_spared]
    rfl

end Listed

/-- Every listing pass ends in one of the ways of a course. -/
theorem course_run (client : Client σ) (scope : Scope) (s : σ) :
    Course scope (run client scope s).events (run client scope s).answer := by
  cases lists : client.list? with
  | none =>
    rw [run_of_unable lists]
    exact .unable
  | some list =>
    cases told : list scope.topics s with
    | mk answer t =>
      cases answer with
      | error fault =>
        rw [run_of_unlisted lists told]
        exact .unlisted fault
      | ok names =>
        cases found : owned scope (Ascending.ofList names).elems with
        | error fault =>
          rw [run_of_mismatch lists told found]
          exact .mismatch found
        | ok ids =>
          have fencing := fencing_each client (ids.filter (· ∉ scope.pending)) t
          rw [run_of_owned lists told found, preface]
          by_cases hn : names = []
          · subst hn
            cases found
            exact .idle
          · rw [if_neg hn]
            exact .fencing hn found fencing

theorem head?_events {client : Client σ}
    {list : List String → σ → Except BrokerFault (List String) × σ} (lists : client.list? = some list)
    (scope : Scope) (s : σ) : (run client scope s).events.head? =
      some (.list scope.topics (list scope.topics s).1) := by
  have h := list_apply lists scope.topics s
  cases ha : (list scope.topics s).1 with
  | error fault =>
    rw [run, Pass.bind_of_error (by rw [h, ha]; rfl), h, ha]
    rfl
  | ok names =>
    rw [run, Pass.bind_of_ok (a := names) (by rw [h, ha]; rfl), h, ha]
    rfl

@[simp] theorem calls_sparedEvents (ids : List TxnId) : calls (sparedEvents ids) = [] := by
  induction ids with
  | nil => rfl
  | cons id ids ih => exact ih

theorem Fencing.calls_prefix {ids : List TxnId} {events : List Event} {answer : Except Fault Unit}
    (h : Fencing ids events answer) : calls events <+: ids := by
  induction h with
  | done => exact List.prefix_rfl
  | failed => simp
  | next _ ih => simpa using ih

theorem owned_cons_of_carries {scope : Scope} {name : String} {rest : List String}
    {ids : List TxnId} (carries : scope.mayCarryStem name = true)
    (h : owned scope (name :: rest) = .ok ids) :
    ∃ parts later, TxnId.Parts.read name = .ok parts ∧ owned scope rest = .ok later ∧
      ids = if scope.claims parts then ⟨name⟩ :: later else later := by
  rw [owned, if_pos carries] at h
  cases hp : TxnId.Parts.read name with
  | error fault => rw [hp] at h; cases h
  | ok parts =>
    cases hl : owned scope rest with
    | error fault => rw [hp, hl] at h; cases h
    | ok later =>
      rw [hp, hl] at h
      exact ⟨parts, later, rfl, rfl, (Except.ok.inj h).symm⟩

theorem sublist_of_owned {scope : Scope} {names : List String} {ids : List TxnId}
    (h : owned scope names = .ok ids) : (ids.map TxnId.text).Sublist names := by
  induction names generalizing ids with
  | nil => cases h; exact .slnil
  | cons name rest ih =>
    by_cases carries : scope.mayCarryStem name = true
    · obtain ⟨parts, later, -, hl, rfl⟩ := owned_cons_of_carries carries h
      split
      · exact (ih hl).cons_cons name
      · exact (ih hl).cons name
    · rw [owned, if_neg carries] at h
      exact (ih h).cons name

theorem claims_of_owned {scope : Scope} {names : List String} {ids : List TxnId} {id : TxnId}
    (h : owned scope names = .ok ids) (hid : id ∈ ids) :
    ∃ parts, id.parts = .ok parts ∧ scope.claims parts = true := by
  induction names generalizing ids with
  | nil => cases h; cases hid
  | cons name rest ih =>
    by_cases carries : scope.mayCarryStem name = true
    · obtain ⟨parts, later, hp, hl, rfl⟩ := owned_cons_of_carries carries h
      split at hid
      · rename_i claims
        rcases List.mem_cons.1 hid with rfl | hid
        · exact ⟨parts, hp, claims⟩
        · exact ih hl hid
      · exact ih hl hid
    · rw [owned, if_neg carries] at h
      exact ih h hid

/-- A listing pass calls listed names that the scope claims and that are not pending. -/
theorem Course.of_mem_calls {scope : Scope} {events : List Event} {answer : Except Fault Unit}
    (h : Course scope events answer) {id : TxnId} (hid : id ∈ calls events) :
    id ∉ scope.pending ∧
      (∃ names, .list scope.topics (.ok names) ∈ events ∧ id.text ∈ names) ∧
      ∃ parts, id.parts = .ok parts ∧ scope.claims parts = true := by
  cases h with
  | unable | unlisted | idle | mismatch => simp at hid
  | @fencing names ids later _ _ good fencing =>
    simp only [calls_list, calls_note, calls_append, calls_sparedEvents, List.nil_append] at hid
    have hmem := List.mem_filter.1 (fencing.calls_prefix.subset hid)
    have hname := (sublist_of_owned good).subset (List.mem_map_of_mem hmem.1)
    refine ⟨by simpa using hmem.2, ⟨names, List.mem_cons_self, ?_⟩, claims_of_owned good hmem.1⟩
    exact Ascending.mem_ofList.1 hname

theorem Course.nodup_calls {scope : Scope} {events : List Event} {answer : Except Fault Unit}
    (h : Course scope events answer) : (calls events).Nodup := by
  cases h with
  | unable | unlisted | idle | mismatch => simp
  | @fencing names ids later _ _ good fencing =>
    simp only [calls_list, calls_note, calls_append, calls_sparedEvents, List.nil_append]
    -- The ids are among the listed names, and these form a set.
    have hnames := (Ascending.ofList names).nodup_elems
    have hids : ids.Nodup := List.Pairwise.of_map _ (fun _ _ ne e => ne (congrArg _ e))
      ((sublist_of_owned good).nodup hnames)
    exact fencing.calls_prefix.sublist.nodup (hids.filter _)

end SinkFencing.Listing
