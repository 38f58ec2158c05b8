import SinkFencing.Proofs.BrokerFencing
import SinkFencing.Proofs.BrokerReachable
import SinkFencing.Proofs.TxnIdGrammar

namespace SinkFencing

namespace TxnId.Parts

/-- The stem stands before the last two separators. -/
theorem exists_of_read {raw : String} {parts : Parts} (h : read raw = .ok parts) :
    ∃ rest, raw = parts.stem ++ "-" ++ rest := by
  obtain ⟨owner, sequence, -, -, hraw⟩ := read_eq_ok_iff.1 h
  refine ⟨owner ++ "-" ++ sequence, ?_⟩
  rw [hraw]
  simp only [String.append_assoc]

end TxnId.Parts

theorem Broker.listed_fenceAll (b : Broker) (ids : List TxnId) (topics : List String) (id : TxnId) :
    (b.fenceAll ids).Listed topics id.text ↔ b.Listed topics id.text ∧ id ∉ ids := by
  rw [Listed, find?_opened_fenceAll]
  by_cases h : id ∈ ids
  · simp [h]
  · simp [h, Listed]

namespace Listing

/-- The name starts with one of the stems and a separator. -/
def Carries (stems : Ascending String) (name : String) : Prop :=
  ∃ stem ∈ stems, ∃ rest, name = stem ++ "-" ++ rest

def Mismatch (stems : Ascending String) (name : String) : Prop :=
  Carries stems name ∧ ∀ parts, TxnId.Parts.read name ≠ .ok parts

/-- The first of the names that start like one of ours, but cannot be read. -/
def FirstMismatch (stems : Ascending String) (names : List String) (name : String) : Prop :=
  ∃ before after, names = before ++ name :: after ∧ (∀ other ∈ before, ¬ Mismatch stems other) ∧
    Mismatch stems name

namespace FirstMismatch

variable {stems : Ascending String} {names : List String} {name other : String}

theorem mem (h : FirstMismatch stems names name) : name ∈ names := by
  obtain ⟨before, after, rfl, -⟩ := h
  exact List.mem_append_right _ List.mem_cons_self

theorem mismatch (h : FirstMismatch stems names name) : Mismatch stems name := by
  obtain ⟨-, -, -, -, h⟩ := h
  exact h

theorem behind (h : FirstMismatch stems names name) (readable : ¬ Mismatch stems other) :
    FirstMismatch stems (other :: names) name := by
  obtain ⟨before, after, rfl, hbefore, hname⟩ := h
  exact ⟨other :: before, after, rfl, List.forall_mem_cons.2 ⟨readable, hbefore⟩, hname⟩

end FirstMismatch

theorem carries_of_read {stems : Ascending String} {name : String} {parts : TxnId.Parts}
    (h : TxnId.Parts.read name = .ok parts) (known : parts.stem ∈ stems) : Carries stems name :=
  ⟨parts.stem, known, TxnId.Parts.exists_of_read h⟩

theorem mayCarryStem_iff {scope : Scope} {name : String} :
    scope.mayCarryStem name = true ↔ Carries scope.stems name := by
  rw [Scope.mayCarryStem, List.any_eq_true, Carries]
  refine exists_congr fun stem => and_congr_right fun _ => ?_
  rw [List.isPrefixOf_iff_prefix]
  constructor
  · intro h
    obtain ⟨rest, hrest⟩ := h
    refine ⟨String.ofList rest, ?_⟩
    rw [← String.toList_inj, ← hrest]
    simp [String.toList_append, TxnId.separator]
  · intro h
    obtain ⟨rest, hrest⟩ := h
    refine ⟨rest.toList, ?_⟩
    rw [hrest]
    simp [String.toList_append, TxnId.separator]

section Owned

variable {scope : Scope} {names : List String}

theorem readable_of_owned {ids : List TxnId} (h : owned scope names = .ok ids) {name : String}
    (hname : name ∈ names) : ¬ Mismatch scope.stems name := by
  induction names generalizing ids with
  | nil => cases hname
  | cons first rest ih =>
    by_cases carries : scope.mayCarryStem first = true
    · obtain ⟨parts, later, hparts, hlater, -⟩ := owned_cons_of_carries carries h
      rcases List.mem_cons.1 hname with he | hname
      · rw [he]
        exact fun mismatch => mismatch.2 parts hparts
      · exact ih hlater hname
    · rw [owned, if_neg carries] at h
      rcases List.mem_cons.1 hname with he | hname
      · rw [he]
        exact fun mismatch => carries (mayCarryStem_iff.2 mismatch.1)
      · exact ih h hname

/-- Only a name that cannot be read stands in the way, and the first of them is told. -/
theorem first_of_owned {fault : Fault} (h : owned scope names = .error fault) :
    ∃ name, FirstMismatch scope.stems names name ∧ TxnId.Parts.read name = .error fault := by
  induction names with
  | nil => cases h
  | cons name rest ih =>
    rw [owned] at h
    split at h <;> rename_i carries
    · cases hp : TxnId.Parts.read name with
      | error bad =>
        rw [hp] at h
        obtain rfl : bad = fault := Except.error.inj h
        have mismatch : Mismatch scope.stems name := by
          refine ⟨mayCarryStem_iff.1 carries, fun parts he => ?_⟩
          rw [hp] at he
          cases he
        exact ⟨name, ⟨[], rest, rfl, fun _ hmem => (List.not_mem_nil hmem).elim, mismatch⟩, hp⟩
      | ok parts =>
        cases hl : owned scope rest with
        | error bad =>
          rw [hp, hl] at h
          obtain ⟨other, first, unread⟩ := ih (hl.trans (congrArg Except.error (Except.error.inj h)))
          exact ⟨other, first.behind fun mismatch => mismatch.2 parts hp, unread⟩
        | ok ids => rw [hp, hl] at h; cases h
    · obtain ⟨other, first, unread⟩ := ih h
      exact ⟨other, first.behind fun mismatch => carries (mayCarryStem_iff.2 mismatch.1), unread⟩

theorem mismatch_of_owned {fault : Fault} (h : owned scope names = .error fault) :
    ∃ name ∈ names, Mismatch scope.stems name ∧ ∃ why, fault = .malformed name why := by
  obtain ⟨name, first, unread⟩ := first_of_owned h
  exact ⟨name, first.mem, first.mismatch, TxnId.Parts.malformed_of_read unread⟩

theorem mem_owned_iff {ids : List TxnId} (h : owned scope names = .ok ids) (id : TxnId) :
    id ∈ ids ↔ id.text ∈ names ∧ ∃ parts, id.parts = .ok parts ∧ scope.claims parts = true := by
  refine ⟨fun hid => ⟨(sublist_of_owned h).subset (List.mem_map_of_mem hid), claims_of_owned h hid⟩, ?_⟩
  intro hid
  obtain ⟨hname, parts, hparts, hclaims⟩ := hid
  induction names generalizing ids with
  | nil => cases hname
  | cons name rest ih =>
    by_cases carries : scope.mayCarryStem name = true
    · obtain ⟨found, later, hfound, hlater, rfl⟩ := owned_cons_of_carries carries h
      rcases List.mem_cons.1 hname with hname | hname
      · subst hname
        have he : found = parts := Except.ok.inj (hfound.symm.trans hparts)
        rw [he, if_pos hclaims]
        exact List.mem_cons_self
      · split
        · exact List.mem_cons_of_mem _ (ih hlater hname)
        · exact ih hlater hname
    · rw [owned, if_neg carries] at h
      rcases List.mem_cons.1 hname with hname | hname
      · -- A name that the scope claims starts with a known stem.
        have known : parts.stem ∈ scope.stems := (Scope.claims_iff.1 hclaims).1
        subst hname
        exact absurd (mayCarryStem_iff.2 (carries_of_read hparts known)) carries
      · exact ih h hname

end Owned

theorem Fencing.answer_of_table {table : TxnId → Epoch} {ids : List TxnId} {events : List Event}
    {answer : Except Fault Unit} (h : Fencing ids events answer) (ht : AnsweredBy table events) :
    answer = .ok () ∧ calls events = ids := by
  induction h with
  | done => exact ⟨rfl, rfl⟩
  | failed fault => cases ht _ _ List.mem_cons_self
  | next _ ih =>
    obtain ⟨hanswer, hcalls⟩ := ih ht.tail.tail
    rw [calls_abort, calls_note, hcalls]
    exact ⟨hanswer, rfl⟩

/-- A pass that learns these names ends with the first mismatch, or fences its ids among them. -/
theorem Course.of_head {table : TxnId → Epoch} {scope : Scope} {events : List Event}
    {answer : Except Fault Unit} {names : List String} (h : Course scope events answer)
    (ht : AnsweredBy table events)
    (head : events.head? = some (.list scope.topics (.ok names))) :
    (∃ fault, owned scope (Ascending.ofList names).elems = .error fault ∧ answer = .error fault ∧
      calls events = []) ∨
    ∃ ids, owned scope (Ascending.ofList names).elems = .ok ids ∧ answer = .ok () ∧
      calls events = ids.filter (· ∉ scope.pending) := by
  cases h with
  | unable | unlisted => cases head
  | idle =>
    cases head
    exact .inr ⟨[], rfl, rfl, rfl⟩
  | mismatch bad =>
    cases head
    exact .inl ⟨_, bad, rfl, rfl⟩
  | fencing some good fencing =>
    cases head
    obtain ⟨hanswer, hcalls⟩ := fencing.answer_of_table ht.tail.tail.right
    refine .inr ⟨_, good, hanswer, ?_⟩
    rw [calls_list, calls_note, calls_append, calls_sparedEvents, hcalls, List.nil_append]

/-- What a pass over `scope` fences on a broker in the state `b`. -/
structure Target (b : Broker) (scope : Scope) (id : TxnId) : Prop where
  listed : b.Listed scope.topics id.text
  claimed : ∃ parts, id.parts = .ok parts ∧ scope.claims parts = true
  not_pending : id ∉ scope.pending

variable {b : Broker}

theorem mem_names_iff (reachable : b.Reachable) {topics : List String} {name : String} :
    name ∈ (Ascending.ofList (b.listed topics)).elems ↔ b.Listed topics name :=
  Ascending.mem_ofList.trans reachable.mem_listed_iff

/-- A pass on a broker ends with a name that cannot be read, or calls its own among the listed names. -/
theorem ends (hb : b.abortsLeft = none) (hl : b.listingFails = false) (scope : Scope) :
    (∃ fault, owned scope (Ascending.ofList (b.listed scope.topics)).elems = .error fault ∧
      (run Broker.client scope b).answer = .error fault ∧
      (run Broker.client scope b).abortCalls = []) ∨
    ∃ ids, owned scope (Ascending.ofList (b.listed scope.topics)).elems = .ok ids ∧
      (run Broker.client scope b).answer = .ok () ∧
      (run Broker.client scope b).abortCalls = ids.filter (· ∉ scope.pending) := by
  have hlist : b.list scope.topics = .ok (b.listed scope.topics) := by
    rw [Broker.list, hl]
    rfl
  have lists : Broker.client.list? = some fun topics b => (b.list topics, b) := rfl
  have head : (run Broker.client scope b).events.head? =
      some (.list scope.topics (b.list scope.topics)) := head?_events lists scope b
  rw [hlist] at head
  exact (course_run Broker.client scope b).of_head (Broker.answeredBy_pass hb .listing scope) head

/-- A broker on which a listing pass over these stems and topics succeeds. -/
structure Legible (b : Broker) (stems : Ascending String) (topics : List String) : Prop where
  reachable : b.Reachable
  aborts : b.abortsLeft = none
  lists : b.listingFails = false
  readable : ∀ name, b.Listed topics name → ¬ Mismatch stems name

theorem Legible.pass {stems : Ascending String} {topics : List String}
    (h : Legible b stems topics) (strategy : Strategy) (scope : Scope) :
    Legible (strategy.pass Broker.client scope b).state stems topics := by
  refine ⟨h.reachable.pass strategy scope, Broker.abortsLeft_pass h.aborts strategy scope, ?_, ?_⟩
  · exact (Broker.listingFails_pass h.aborts strategy scope).trans h.lists
  · intro name hlisted
    rw [Broker.state_pass h.aborts] at hlisted
    exact h.readable name ((Broker.listed_fenceAll b _ topics ⟨name⟩).1 hlisted).1

theorem Legible.commit {stems : Ascending String} {topics : List String}
    (h : Legible b stems topics) (name : String) : Legible (b.commit name).2 stems topics := by
  refine ⟨h.reachable.step (.commit name), h.aborts, h.lists, fun x hlisted => ?_⟩
  exact h.readable x (Broker.listed_commit_iff.1 hlisted).1

/-- A job can read what it finds if nobody else has begun a transaction. -/
theorem legible_beginAll (ids : List TxnId.Parts) (topic : Option String) (stems : Ascending String)
    (topics : List String) :
    Legible (Broker.empty.beginAll topic (ids.map TxnId.Parts.compose)) stems topics := by
  refine ⟨.beginAll .empty topic _, ?_, ?_, fun name listed mismatch => ?_⟩
  · rw [Broker.abortsLeft_beginAll]
    rfl
  · rw [Broker.listingFails_beginAll]
    rfl
  · obtain ⟨id, -, hid⟩ := List.mem_map.1 (Broker.isOpen_beginAll_empty.1 listed.isOpen)
    have hname : name = id.compose.text := (congrArg TxnId.text hid).symm
    exact mismatch.2 id (hname ▸ TxnId.parts_compose _ _ _)

theorem mem_calls_iff {scope : Scope} (h : Legible b scope.stems scope.topics) :
    (run Broker.client scope b).answer = .ok () ∧
      ∀ id, id ∈ (run Broker.client scope b).abortCalls ↔ Target b scope id := by
  obtain ⟨fault, howned, -⟩ | ⟨ids, howned, hanswer, hcalls⟩ := ends h.aborts h.lists scope
  · obtain ⟨name, hname, hmismatch, -⟩ := mismatch_of_owned howned
    exact absurd hmismatch (h.readable name ((mem_names_iff h.reachable).1 hname))
  · refine ⟨hanswer, fun id => ?_⟩
    rw [hcalls, List.mem_filter, mem_owned_iff howned, mem_names_iff h.reachable, decide_eq_true_iff]
    constructor
    · intro h
      exact ⟨h.1.1, h.1.2, h.2⟩
    · intro h
      exact ⟨⟨h.listed, h.claimed⟩, h.not_pending⟩

/-- Where the topics show all that is open, a pass leaves what is pending or another's. -/
theorem isOpen_pass_iff {scope : Scope} (h : Legible b scope.stems scope.topics)
    (covered : ∀ name, b.isOpen name = true → b.Listed scope.topics name) (name : String) :
    (Strategy.listing.pass Broker.client scope b).state.isOpen name = true ↔ b.isOpen name = true ∧
      (⟨name⟩ ∈ scope.pending ∨
        ∀ parts, TxnId.Parts.read name = .ok parts → scope.claims parts = false) := by
  have hcall : ⟨name⟩ ∈ (Strategy.listing.pass Broker.client scope b).abortCalls ↔
      Target b scope ⟨name⟩ := (mem_calls_iff h).2 ⟨name⟩
  rw [Broker.state_pass h.aborts, Broker.isOpen_fenceAll b _ ⟨name⟩, hcall]
  refine and_congr_right fun hopen => ?_
  constructor
  · intro spared
    refine Classical.or_iff_not_imp_left.2 fun hfree parts hparts => ?_
    exact Bool.eq_false_iff.2 fun claims =>
      spared ⟨covered name hopen, ⟨parts, hparts, claims⟩, hfree⟩
  · intro kept target
    obtain ⟨parts, hparts, claims⟩ := target.claimed
    rcases kept with pending | foreign
    · exact target.not_pending pending
    · rw [foreign parts hparts] at claims
      cases claims

variable (reachable : b.Reachable) (hb : b.abortsLeft = none) (hl : b.listingFails = false)
  (scope : Scope)

include reachable hb hl

theorem answer_of_mismatch {name : String} (listed : b.Listed scope.topics name)
    (mismatch : Mismatch scope.stems name) :
    (∃ raw why, (run Broker.client scope b).answer = .error (.malformed raw why)) ∧
      (run Broker.client scope b).abortCalls = [] := by
  obtain ⟨fault, howned, hanswer, hcalls⟩ | ⟨ids, howned, -⟩ := ends hb hl scope
  · obtain ⟨raw, -, -, why, hfault⟩ := mismatch_of_owned howned
    exact ⟨⟨raw, why, by rw [hanswer, hfault]⟩, hcalls⟩
  · exact absurd mismatch (readable_of_owned howned ((mem_names_iff reachable).2 listed))

theorem legible_of_answer (h : (run Broker.client scope b).answer = .ok ()) :
    Legible b scope.stems scope.topics := by
  refine ⟨reachable, hb, hl, fun name listed mismatch => ?_⟩
  obtain ⟨⟨raw, why, hanswer⟩, -⟩ := answer_of_mismatch reachable hb hl scope listed mismatch
  rw [h] at hanswer
  cases hanswer

end Listing

end SinkFencing
