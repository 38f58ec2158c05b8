import SinkFencing.TxnId

namespace SinkFencing.TxnId

theorem Parts.compose_injective : Function.Injective Parts.compose := by
  intro a b h
  have ha : a.compose.parts = .ok a := parts_compose a.stem a.owner a.sequence
  have hb : b.compose.parts = .ok b := parts_compose b.stem b.owner b.sequence
  rw [h, hb] at ha
  exact (Except.ok.inj ha).symm

theorem compose_inj {stem stem' : String} {owner owner' : UInt32} {sequence sequence' : UInt64} :
    compose stem owner sequence = compose stem' owner' sequence' ↔
      stem = stem' ∧ owner = owner' ∧ sequence = sequence' := by
  constructor
  · intro h
    have h' := @Parts.compose_injective ⟨stem, owner, sequence⟩ ⟨stem', owner', sequence'⟩ h
    simpa using h'
  · intro h
    obtain ⟨hstem, howner, hsequence⟩ := h
    rw [hstem, howner, hsequence]

def Parts.Before (a b : Parts) : Prop :=
  a.stem < b.stem ∨
    a.stem = b.stem ∧ (a.owner < b.owner ∨ a.owner = b.owner ∧ a.sequence < b.sequence)

theorem Parts.not_before_self (a : Parts) : ¬ a.Before a := by
  intro h
  rcases h with h | ⟨-, h | ⟨-, h⟩⟩
  · exact Std.lt_irrefl h
  · exact Nat.lt_irrefl _ (UInt32.lt_iff_toNat_lt.1 h)
  · exact Nat.lt_irrefl _ (UInt64.lt_iff_toNat_lt.1 h)

theorem Parts.Before.asymm {a b : Parts} (h : a.Before b) : ¬ b.Before a := by
  intro h'
  rcases h with h | ⟨hstem, h⟩
  · rcases h' with h' | ⟨hstem', -⟩
    · exact Std.lt_irrefl (Std.lt_trans h h')
    · exact Std.lt_irrefl (hstem' ▸ h)
  · rcases h' with h' | ⟨-, h'⟩
    · exact Std.lt_irrefl (hstem ▸ h')
    · simp only [← UInt32.toNat_inj, UInt32.lt_iff_toNat_lt, UInt64.lt_iff_toNat_lt] at h h'
      omega

/-- The ids are composed from ascending parts, all of which satisfy `P`. -/
def Ascend (P : Parts → Prop) (ids : List TxnId) : Prop :=
  ∃ parts : List Parts, ids = parts.map Parts.compose ∧ parts.Pairwise Parts.Before ∧
    ∀ p ∈ parts, P p

namespace Ascend

variable {P Q : Parts → Prop} {ids ids' : List TxnId}

theorem nil : Ascend P [] := ⟨[], rfl, .nil, by simp⟩

theorem singleton {p : Parts} (h : P p) : Ascend P [p.compose] :=
  ⟨[p], rfl, by simp, by simpa using h⟩

theorem mono (h : Ascend P ids) (hPQ : ∀ p, P p → Q p) : Ascend Q ids := by
  obtain ⟨parts, rfl, before, all⟩ := h
  exact ⟨parts, rfl, before, fun p hp => hPQ p (all p hp)⟩

theorem of_mem (h : Ascend P ids) (hQ : ∀ p : Parts, p.compose ∈ ids → Q p) : Ascend Q ids := by
  obtain ⟨parts, rfl, before, -⟩ := h
  exact ⟨parts, rfl, before, fun p hp => hQ p (List.mem_map_of_mem hp)⟩

theorem append {R : Parts → Prop} (h : Ascend P ids) (h' : Ascend Q ids')
    (hPQ : ∀ a b, P a → Q b → a.Before b) (hP : ∀ p, P p → R p) (hQ : ∀ p, Q p → R p) :
    Ascend R (ids ++ ids') := by
  obtain ⟨parts, rfl, before, all⟩ := h
  obtain ⟨parts', rfl, before', all'⟩ := h'
  refine ⟨parts ++ parts', by rw [List.map_append], ?_, ?_⟩
  · exact List.pairwise_append.2
      ⟨before, before', fun a ha b hb => hPQ a b (all a ha) (all' b hb)⟩
  · intro p hp
    rcases List.mem_append.1 hp with hp | hp
    · exact hP p (all p hp)
    · exact hQ p (all' p hp)

theorem nodup (h : Ascend P ids) : ids.Nodup := by
  obtain ⟨parts, rfl, before, -⟩ := h
  refine List.pairwise_map.2 (before.imp fun {a b} hab e => ?_)
  exact Parts.not_before_self b (Parts.compose_injective e ▸ hab)

theorem eq_of_mem_iff (h : Ascend P ids) (h' : Ascend Q ids') (same : ∀ id, id ∈ ids ↔ id ∈ ids') :
    ids = ids' := by
  obtain ⟨parts, rfl, before, -⟩ := h
  obtain ⟨parts', rfl, before', -⟩ := h'
  have hmem (p : Parts) : p ∈ parts ↔ p ∈ parts' := by
    simpa [List.mem_map, Parts.compose_injective.eq_iff] using same p.compose
  have distinct {parts : List Parts} (before : parts.Pairwise Parts.Before) : parts.Nodup := by
    apply before.imp
    intro a b hab e
    exact Parts.not_before_self b (e ▸ hab)
  have perm : parts.Perm parts' :=
    (List.perm_ext_iff_of_nodup (distinct before) (distinct before')).2 hmem
  rw [perm.eq_of_pairwise (fun _ _ _ _ hab hba => absurd hba hab.asymm) before before']

theorem exists_of_mem (h : Ascend P ids) {id : TxnId} (hid : id ∈ ids) :
    ∃ p : Parts, id = p.compose ∧ P p := by
  obtain ⟨parts, rfl, -, all⟩ := h
  obtain ⟨p, hp, rfl⟩ := List.mem_map.1 hid
  exact ⟨p, rfl, all p hp⟩

end Ascend

end SinkFencing.TxnId
