import Mathlib.Data.List.Dedup
import SinkFencing.Proofs.ProbingOrder
import SinkFencing.Tool.Answer

namespace SinkFencing

namespace Ascending

variable {α : Type} [LT α] [LE α] [Std.IsLinearOrder α] [Std.LawfulOrderLT α] [DecidableLT α]
  [DecidableLE α]

/-- The members from one of them on are this one and those above it. -/
theorem filter_le_eq_cons {s : Ascending α} {a : α} (h : a ∈ s) :
    s.elems.filter (a ≤ ·) = a :: s.elems.filter (a < ·) := by
  apply elems_eq_of_mem (s.pairwise_lt.filter _)
  · refine List.pairwise_cons.2 ⟨fun b hb => ?_, s.pairwise_lt.filter _⟩
    exact of_decide_eq_true (List.mem_filter.1 hb).2
  · intro x
    simp only [List.mem_filter, List.mem_cons, decide_eq_true_eq]
    constructor
    · intro hx
      by_cases he : x = a
      · exact .inl he
      · exact .inr ⟨hx.1, Std.lt_of_le_of_ne hx.2 (Ne.symm he)⟩
    · intro hx
      rcases hx with rfl | hx
      · exact ⟨h, Std.le_refl _⟩
      · exact ⟨hx.1, Std.le_of_lt hx.2⟩

end Ascending

namespace Placement

def owners (p : Placement) : Ascending UInt32 where
  elems := ((List.range UInt32.size).map .ofNat).filter p.owns
  pairwise_lt := by
    apply List.Pairwise.filter
    rw [List.pairwise_map]
    refine List.pairwise_lt_range.imp_of_mem fun {a b} ha hb hlt => ?_
    rw [UInt32.lt_iff_toNat_lt, UInt32.toNat_ofNat_of_lt' (List.mem_range.1 ha),
      UInt32.toNat_ofNat_of_lt' (List.mem_range.1 hb)]
    exact hlt

variable {p : Placement} {o o' bound : UInt32}

theorem mem_owners_iff : o ∈ p.owners ↔ p.owns o = true := by
  rw [Ascending.mem_iff, owners, List.mem_filter, List.mem_map]
  refine and_iff_right ⟨o.toNat, List.mem_range.2 o.toNat_lt_size, UInt32.ofNat_toNat⟩

theorem lt_strides_iff (p : Placement) {k : Nat} :
    k < (bound.toNat - p.index.toNat + (p.parallelism.toNat - 1)) / p.parallelism.toNat ↔
      p.index.toNat + k * p.parallelism.toNat < bound.toNat := by
  have hpos := p.parallelism_pos
  rw [Nat.lt_iff_add_one_le, Nat.le_div_iff_mul_le hpos, Nat.succ_mul]
  omega

theorem toNat_stride {k : Nat} (h : p.index.toNat + k * p.parallelism.toNat < bound.toNat) :
    (UInt32.ofNat (p.index.toNat + k * p.parallelism.toNat)).toNat =
      p.index.toNat + k * p.parallelism.toNat :=
  UInt32.toNat_ofNat_of_lt' (Nat.lt_trans h bound.toNat_lt_size)

theorem mem_inherited_iff : o ∈ p.inherited bound ↔ o < bound ∧ p.owns o = true := by
  rw [inherited, List.mem_map, owns_iff_exists, UInt32.lt_iff_toNat_lt]
  simp only [List.mem_range, p.lt_strides_iff]
  constructor
  · intro h
    obtain ⟨k, hk, rfl⟩ := h
    rw [toNat_stride hk]
    exact ⟨hk, k, rfl⟩
  · intro h
    obtain ⟨hlt, k, hk⟩ := h
    rw [hk] at hlt
    refine ⟨k, hlt, ?_⟩
    rw [← UInt32.toNat_inj, toNat_stride hlt, hk]

theorem pairwise_inherited (p : Placement) (bound : UInt32) :
    (p.inherited bound).Pairwise (· < ·) := by
  rw [inherited, List.pairwise_map]
  refine List.pairwise_lt_range.imp_of_mem fun {k k'} hk hk' hlt => ?_
  rw [List.mem_range, p.lt_strides_iff] at hk hk'
  rw [UInt32.lt_iff_toNat_lt, toNat_stride hk, toNat_stride hk']
  exact Nat.add_lt_add_left (Nat.mul_lt_mul_of_pos_right hlt p.parallelism_pos) _

def heir (owner parallelism : UInt32) (some : 0 < parallelism) : Placement :=
  ⟨owner % parallelism, parallelism, UInt32.mod_lt owner some⟩

theorem owns_iff_eq_heir {parallelism : UInt32} (some : 0 < parallelism)
    (hp : p.parallelism = parallelism) : p.owns o = true ↔ p = heir o parallelism some := by
  subst hp
  rw [owns_iff, heir]
  cases p
  simp [eq_comm]

theorem heirOf_eq {owner parallelism : UInt32} (some : 0 < parallelism) :
    heirOf owner parallelism = .some (heir owner parallelism some).index := by
  rw [heirOf, if_neg (UInt32.ne_of_lt some).symm]
  rfl

theorem seekFrom_eq {owner parallelism : UInt32} (some : 0 < parallelism) (index : UInt32)
    (hle : index ≤ owner % parallelism) :
    seekFrom parallelism owner index = .some (heir owner parallelism some) := by
  have hmod : owner % parallelism < parallelism := UInt32.mod_lt owner some
  induction index using seekFrom.induct parallelism owner with
  | case1 index h p howns =>
    rw [seekFrom, dif_pos h, if_pos howns]
    exact congrArg Option.some ((owns_iff_eq_heir some rfl).1 howns)
  | case2 index h p howns ih =>
    rw [seekFrom, dif_pos h, if_neg howns]
    refine ih ?_
    -- The owner's own residue is not passed over.
    have hne : index ≠ owner % parallelism := fun he => howns (owns_iff.2 he.symm)
    have hne : index.toNat ≠ (owner % parallelism).toNat := fun he => hne (UInt32.toNat_inj.1 he)
    have hlt := UInt32.lt_iff_toNat_lt.1 hmod
    have hsize := parallelism.toNat_lt_size
    rw [UInt32.le_iff_toNat_le] at hle ⊢
    have hnext : (index + 1).toNat = index.toNat + 1 := by
      rw [UInt32.toNat_add]
      exact Nat.mod_eq_of_lt (by simp [UInt32.size] at hsize ⊢; omega)
    omega
  | case3 index h => exact absurd (UInt32.lt_of_le_of_lt hle hmod) h

theorem seek_eq {owner parallelism : UInt32} (some : 0 < parallelism) :
    seek parallelism owner = .some (heir owner parallelism some) :=
  seekFrom_eq some 0 (UInt32.zero_le)

end Placement

theorem Tool.ownerAnswer_eq {raw : String} {parts : TxnId.Parts} {parallelism : UInt32}
    (some : 0 < parallelism) (read : TxnId.Parts.read raw = .ok parts) :
    ownerAnswer raw parallelism = .ok (Placement.heir parts.owner parallelism some).text := by
  simp [ownerAnswer, read, Placement.seek_eq some, Except.mapError, bind, Except.bind, pure, Except.pure]

namespace Placement

variable {p : Placement} {o next : UInt32}

theorem owners_from_of_next (owns : p.owns o = true) (step : p.nextOwner o = some next) :
    p.owners.elems.filter (o ≤ ·) = o :: p.owners.elems.filter (next ≤ ·) := by
  rw [Ascending.filter_le_eq_cons (mem_owners_iff.2 owns)]
  refine congrArg (o :: ·) (List.filter_congr fun x hx => ?_)
  have hx : p.owns x = true := mem_owners_iff.1 hx
  obtain ⟨k, hk⟩ := owns_iff_exists.1 owns
  obtain ⟨j, hj⟩ := owns_iff_exists.1 hx
  have hnext := toNat_nextOwner step
  rw [decide_eq_decide, UInt32.lt_iff_toNat_lt, UInt32.le_iff_toNat_le]
  -- Both lie at strides from the index, and so does the next one.
  have hstride : k * p.parallelism.toNat < j * p.parallelism.toNat ↔
      (k + 1) * p.parallelism.toNat ≤ j * p.parallelism.toNat := by
    rw [Nat.mul_lt_mul_right p.parallelism_pos, Nat.mul_le_mul_right_iff p.parallelism_pos]
    exact Nat.lt_iff_add_one_le
  rw [Nat.succ_mul] at hstride
  omega

theorem owners_from_index (p : Placement) :
    p.owners.elems.filter (p.index ≤ ·) = p.owners.elems := by
  refine List.filter_eq_self.2 fun o ho => decide_eq_true ?_
  have ho : o ∈ p.owners := ho
  obtain ⟨k, hk⟩ := owns_iff_exists.1 (mem_owners_iff.1 ho)
  rw [UInt32.le_iff_toNat_le]
  omega

end Placement

namespace TxnId

/-- The owner that an id names under this stem. -/
def ownerUnder (stem : String) (id : TxnId) : Option UInt32 :=
  match id.parts with
  | .ok parts => if parts.stem = stem then some parts.owner else none
  | .error _ => none

theorem ownerUnder_compose (stem : String) (parts : Parts) :
    parts.compose.ownerUnder stem = if parts.stem = stem then some parts.owner else none := by
  have h : parts.compose.parts = .ok parts := parts_compose _ _ _
  rw [ownerUnder, h]

end TxnId

namespace Probing

open TxnId

/-- The owners of a stem that calls are about, in the order in which they are come to. -/
def visited (stem : String) (events : List Event) : List UInt32 :=
  ((calls events).filterMap (ownerUnder stem)).dedup

variable {stem : String} {scope : Scope} {events : List Event}

theorem dedup_replicate_append {owner : UInt32} {later : List UInt32} (h : owner ∉ later) (n : Nat) :
    (List.replicate (n + 1) owner ++ later).dedup = owner :: later.dedup := by
  induction n with
  | zero => exact List.dedup_cons_of_notMem h
  | succ n ih =>
    rw [List.replicate_succ, List.cons_append, List.dedup_cons_of_mem, ih]
    simp [List.replicate_succ]

theorem Climb.owners_eq {owner : UInt32} {sequence : UInt64} {answer : Except Fault Nat}
    (h : Climb stem owner sequence events answer) :
    ∃ n, (calls events).filterMap (ownerUnder stem) = List.replicate (n + 1) owner := by
  have hcall (sequence : UInt64) : (compose stem owner sequence).ownerUnder stem = some owner := by
    have := ownerUnder_compose stem ⟨stem, owner, sequence⟩
    rwa [if_pos rfl] at this
  induction h with
  | failed sequence => exact ⟨0, by simp [hcall]⟩
  | unused sequence | top sequence => exact ⟨0, by simp [hcall]⟩
  | up _ _ _ ih =>
    obtain ⟨n, hn⟩ := ih
    refine ⟨n + 1, ?_⟩
    simp [hcall, hn, List.replicate_succ]

theorem Climb.visited_eq {owner : UInt32} {sequence : UInt64} {answer : Except Fault Nat}
    (h : Climb stem owner sequence events answer) : visited stem events = [owner] := by
  obtain ⟨n, hn⟩ := h.owners_eq
  have alone : (List.replicate (n + 1) owner ++ []).dedup = owner :: [].dedup :=
    dedup_replicate_append List.not_mem_nil n
  rwa [List.append_nil, List.dedup_nil, ← hn] at alone

/-- A walk comes to the owners of the placement from its first one on, without leaving one out. -/
theorem Walk.visits_upward {owner : UInt32} {answer : Except Fault Unit}
    (h : Walk scope stem owner events answer) (owns : scope.placement.owns owner = true) :
    visited stem events <+: scope.placement.owners.elems.filter (owner ≤ ·) := by
  have alone {owner : UInt32} (owns : scope.placement.owns owner = true) :
      [owner] <+: scope.placement.owners.elems.filter (owner ≤ ·) := by
    rw [Ascending.filter_le_eq_cons (Placement.mem_owners_iff.2 owns)]
    exact List.cons_prefix_cons.2 ⟨rfl, List.nil_prefix⟩
  induction h with
  | failed climb | unused climb =>
    rw [climb.visited_eq]
    exact alone owns
  | @top owner events used climb =>
    have hevents : visited stem (events ++ [.note (.walked stem owner used scope.placement)]) =
        visited stem events := by
      rw [visited, calls_append, calls_note, calls_nil, List.append_nil]
      rfl
    rw [hevents, climb.visited_eq]
    exact alone owns
  | @up owner next events later used _ climb _ step _ ih =>
    have hlater := ih (Placement.owns_nextOwner step ▸ owns)
    -- No later call is about this owner.
    have hnot : owner ∉ (calls later).filterMap (ownerUnder stem) := by
      intro hmem
      have hle := (List.mem_filter.1 (hlater.subset (List.mem_dedup.2 hmem))).2
      exact absurd (Placement.lt_of_nextOwner step) (UInt32.not_lt.2 (of_decide_eq_true hle))
    obtain ⟨n, hn⟩ := climb.owners_eq
    have hevents : visited stem (events ++ .note (.walked stem owner used scope.placement) :: later) =
        owner :: visited stem later := by
      rw [visited, calls_append, calls_note, List.filterMap_append, hn, dedup_replicate_append hnot]
      rfl
    rw [hevents, Placement.owners_from_of_next owns step]
    exact List.cons_prefix_cons.2 ⟨rfl, hlater⟩

theorem visited_of_ascend {P : Parts → Prop} (h : Ascend P (calls events)) (stem : String)
    (other : ∀ parts, P parts → parts.stem ≠ stem) :
    (calls events).filterMap (ownerUnder stem) = [] := by
  refine List.filterMap_eq_nil_iff.2 fun id hid => ?_
  obtain ⟨parts, rfl, hparts⟩ := h.exists_of_mem hid
  rw [ownerUnder_compose, if_neg (other parts hparts)]

theorem Sweep.visits_upward {stems : List String} {answer : Except Fault Unit}
    (h : Sweep scope stems events answer) (ascending : stems.Pairwise (· < ·)) (stem : String) :
    visited stem events <+: scope.placement.owners.elems := by
  have howns := scope.placement.owns_index
  have walked {stem : String} {events : List Event} {answer : Except Fault Unit}
      (walk : Walk scope stem scope.placement.index events answer) :
      visited stem events <+: scope.placement.owners.elems := by
    have := walk.visits_upward howns
    rwa [Placement.owners_from_index] at this
  induction h with
  | done => exact List.nil_prefix
  | @failed first stems events fault walk =>
    by_cases he : first = stem
    · exact he ▸ walked walk
    · have hnone := visited_of_ascend (walk.ascend howns) stem fun parts hp => hp.1 ▸ he
      rw [visited, hnone]
      exact List.nil_prefix
  | @next first stems events later answer walk rest ih =>
    obtain ⟨hfirst, hrest⟩ := List.pairwise_cons.1 ascending
    by_cases he : first = stem
    · -- The stem comes once, so the walks that follow are about others.
      subst he
      have hnone : (calls later).filterMap (ownerUnder first) = [] := by
        refine visited_of_ascend (rest.ascend hrest) first fun parts hp hstem => ?_
        have hlt := hfirst parts.stem hp.1
        rw [hstem] at hlt
        exact Std.lt_irrefl hlt
      rw [visited, calls_append, List.filterMap_append, hnone, List.append_nil]
      exact walked walk
    · have hnone := visited_of_ascend (walk.ascend howns) stem fun parts hp => hp.1 ▸ he
      rw [visited, calls_append, List.filterMap_append, hnone, List.nil_append]
      exact ih hrest

end Probing

open Probing in
/-- Below each bound the inherited owners of a placement are its own, ascending; those of two placements have
none in common, and those of all leave none out. Looking through the placements finds the one that owns an
owner, which the tool tells. The walk of a pass under a stem comes to the owners of its placement in order,
from the first on, whatever the client answers. -/
theorem Placement.owner_views_agree (parallelism : UInt32) (some : 0 < parallelism) :
    (∀ bound : UInt32,
      (∀ p : Placement, p.parallelism = parallelism → (p.inherited bound).Pairwise (· < ·) ∧
        ∀ o, o ∈ p.inherited bound ↔ o < bound ∧ p.owns o = true) ∧
      (∀ p p' : Placement, p.parallelism = parallelism → p'.parallelism = parallelism →
        p.index ≠ p'.index → (p.inherited bound).Disjoint (p'.inherited bound)) ∧
      ∀ o, o < bound ↔ ∃ p : Placement, p.parallelism = parallelism ∧ o ∈ p.inherited bound) ∧
    (∀ o, heirOf o parallelism = .some (heir o parallelism some).index ∧
      seek parallelism o = .some (heir o parallelism some) ∧
      ∀ p : Placement, p.parallelism = parallelism →
        (p.owns o = true ↔ p = heir o parallelism some)) ∧
    (∀ raw parts, TxnId.Parts.read raw = .ok parts →
      Tool.ownerAnswer raw parallelism = .ok s!"{parts.owner % parallelism}/{parallelism}") ∧
    ∀ {σ : Type} (client : Client σ) (scope : Scope) (s : σ) (stem : String),
      visited stem (Strategy.probing.pass client scope s).events <+: scope.placement.owners.elems ∧
      ∀ o, o ∈ scope.placement.owners.elems ↔ scope.placement.owns o = true := by
  refine ⟨fun bound => ⟨fun p _ => ⟨p.pairwise_inherited bound, fun o => mem_inherited_iff⟩, ?_, ?_⟩,
    fun o => ⟨heirOf_eq some, seek_eq some, fun p hp => owns_iff_eq_heir some hp⟩,
    fun raw parts read => Tool.ownerAnswer_eq some read, fun client scope s stem => ⟨?_, ?_⟩⟩
  · intro p p' hp hp' hne o ho ho'
    have he := (owns_iff_eq_heir some hp).1 (mem_inherited_iff.1 ho).2
    have he' := (owns_iff_eq_heir some hp').1 (mem_inherited_iff.1 ho').2
    rw [he, he'] at hne
    exact hne rfl
  · intro o
    constructor
    · intro hlt
      have howns := (owns_iff_eq_heir (p := heir o parallelism some) some rfl).2 rfl
      exact ⟨heir o parallelism some, rfl, mem_inherited_iff.2 ⟨hlt, howns⟩⟩
    · intro h
      obtain ⟨p, -, ho⟩ := h
      exact (mem_inherited_iff.1 ho).1
  · exact (sweep_run client scope s).visits_upward scope.stems.pairwise_lt stem
  · intro o
    rw [← Ascending.mem_iff]
    exact mem_owners_iff

/-- Where every stride but the first leaves the range of owners, the last owner still has one heir. -/
theorem Placement.owner_views_agree_widest :
    (0 : UInt32) < 4294967295 ∧
    Tool.ownerAnswer "app-4294967295-7" 4294967295 = .ok "0/4294967295" ∧
    ∃ p : Placement, p.parallelism = 4294967295 ∧ 4294967294 ∈ p.inherited 4294967295 := by
  have some : (0 : UInt32) < 4294967295 := by decide
  obtain ⟨lists, -, tool, -⟩ := owner_views_agree 4294967295 some
  refine ⟨some, ?_, ?_⟩
  · exact tool "app-4294967295-7" ⟨"app", 4294967295, 7⟩ rfl
  · exact ((lists 4294967295).2.2 4294967294).1 (by decide)

end SinkFencing
