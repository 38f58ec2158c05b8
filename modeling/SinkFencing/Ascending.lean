namespace SinkFencing

structure Ascending (α : Type) [LT α] where
  elems : List α
  pairwise_lt : elems.Pairwise (· < ·)

namespace Ascending

variable {α : Type} [LT α]

instance : Membership α (Ascending α) where
  mem s a := a ∈ s.elems

theorem mem_iff {s : Ascending α} {a : α} : a ∈ s ↔ a ∈ s.elems := Iff.rfl

def empty : Ascending α := ⟨[], .nil⟩

instance : Inhabited (Ascending α) := ⟨empty⟩

def size (s : Ascending α) : Nat := s.elems.length

instance [DecidableEq α] (s : Ascending α) (a : α) : Decidable (a ∈ s) :=
  inferInstanceAs (Decidable (a ∈ s.elems))

instance [DecidableEq α] : DecidableEq (Ascending α) := fun s t =>
  match decEq s.elems t.elems with
  | isTrue h => isTrue (by cases s; cases t; simp_all)
  | isFalse h => isFalse fun e => h (by rw [e])

def erase [DecidableEq α] (a : α) (s : Ascending α) : Ascending α :=
  ⟨s.elems.filter (· ≠ a), s.pairwise_lt.filter _⟩

@[simp] theorem mem_erase [DecidableEq α] {a x : α} {s : Ascending α} :
    x ∈ s.erase a ↔ x ∈ s ∧ x ≠ a := by
  simp [mem_iff, erase, List.mem_filter]

theorem erase_of_not_mem [DecidableEq α] {a : α} {s : Ascending α} (h : a ∉ s) :
    s.erase a = s := by
  have hkept : s.elems.filter (· ≠ a) = s.elems :=
    List.filter_eq_self.2 fun x hx => decide_eq_true fun he => h (he ▸ hx)
  cases s
  simp_all [erase]

theorem size_erase_le [DecidableEq α] (a : α) (s : Ascending α) : (s.erase a).size ≤ s.size :=
  List.length_filter_le _ s.elems

/-- Takes `a` out, and says whether it was in. -/
def remove [DecidableEq α] (a : α) (s : Ascending α) : Bool × Ascending α :=
  (decide (a ∈ s), s.erase a)

/-- Puts `a` at its place in an ascending list, which stays as it is if it holds `a`. -/
def place [DecidableLT α] [DecidableEq α] (a : α) : List α → List α
  | [] => [a]
  | b :: rest => if a < b then a :: b :: rest else if a = b then b :: rest else b :: place a rest

theorem mem_place [DecidableLT α] [DecidableEq α] {a x : α} {l : List α} :
    x ∈ place a l ↔ x = a ∨ x ∈ l := by
  induction l with
  | nil => simp [place]
  | cons b rest ih =>
    rw [place]
    split
    · simp
    · split <;> simp_all [or_left_comm]

theorem length_place [DecidableLT α] [DecidableEq α] {a : α} {l : List α} (h : a ∉ l) :
    (place a l).length = l.length + 1 := by
  induction l with
  | nil => rfl
  | cons b rest ih =>
    rw [List.mem_cons, not_or] at h
    rw [place]
    split
    · rfl
    · rw [if_neg h.1, List.length_cons, ih h.2, List.length_cons]

theorem nodup_elems [LE α] [Std.LawfulOrderLT α] (s : Ascending α) : s.elems.Nodup := by
  apply s.pairwise_lt.imp
  intro a b hlt he
  rw [he] at hlt
  exact Std.lt_irrefl hlt

variable [LE α] [Std.IsLinearOrder α] [Std.LawfulOrderLT α]

theorem lt_of_not_lt_of_ne {a b : α} (h : ¬ a < b) (hne : a ≠ b) : b < a :=
  Std.lt_of_le_of_ne (Std.not_lt.1 h) (Ne.symm hne)

theorem pairwise_place [DecidableLT α] [DecidableEq α] (a : α) {l : List α}
    (h : l.Pairwise (· < ·)) : (place a l).Pairwise (· < ·) := by
  induction l with
  | nil => simp [place]
  | cons b rest ih =>
    obtain ⟨hb, hrest⟩ := List.pairwise_cons.1 h
    rw [place]
    split
    · rename_i hab
      refine List.pairwise_cons.2 ⟨fun c hc => ?_, h⟩
      rcases List.mem_cons.1 hc with rfl | hc
      · exact hab
      · exact Std.lt_trans hab (hb c hc)
    · split
      · exact h
      · rename_i hab hne
        refine List.pairwise_cons.2 ⟨fun c hc => ?_, ih hrest⟩
        rcases mem_place.1 hc with rfl | hc
        · exact lt_of_not_lt_of_ne hab hne
        · exact hb c hc

def insert [DecidableLT α] [DecidableEq α] (a : α) (s : Ascending α) : Ascending α :=
  ⟨place a s.elems, pairwise_place a s.pairwise_lt⟩

def ofList [DecidableLT α] [DecidableEq α] (l : List α) : Ascending α :=
  l.foldr insert empty

@[simp] theorem mem_insert [DecidableLT α] [DecidableEq α] {a x : α} {s : Ascending α} :
    x ∈ s.insert a ↔ x = a ∨ x ∈ s := mem_place

theorem size_insert [DecidableLT α] [DecidableEq α] {a : α} {s : Ascending α} (h : a ∉ s) :
    (s.insert a).size = s.size + 1 := length_place h

@[simp] theorem mem_ofList [DecidableLT α] [DecidableEq α] {x : α} {l : List α} :
    x ∈ ofList l ↔ x ∈ l := by
  induction l with
  | nil => simp [ofList, empty, mem_iff]
  | cons a rest ih =>
    rw [show ofList (a :: rest) = (ofList rest).insert a from rfl, mem_insert, ih, List.mem_cons]

theorem elems_eq_of_mem {l m : List α} (hl : l.Pairwise (· < ·)) (hm : m.Pairwise (· < ·))
    (h : ∀ x, x ∈ l ↔ x ∈ m) : l = m := by
  induction l generalizing m with
  | nil => exact (List.eq_nil_iff_forall_not_mem.2 fun x hx => by simpa using (h x).2 hx).symm
  | cons a l ih =>
    cases m with
    | nil => simpa using (h a).1 List.mem_cons_self
    | cons b m =>
      obtain ⟨ha, hl'⟩ := List.pairwise_cons.1 hl
      obtain ⟨hb, hm'⟩ := List.pairwise_cons.1 hm
      have hab : a = b := by
        rcases List.mem_cons.1 ((h a).1 List.mem_cons_self) with e | e
        · exact e
        · rcases List.mem_cons.1 ((h b).2 List.mem_cons_self) with e' | e'
          · exact e'.symm
          · exact absurd (Std.lt_trans (ha b e') (hb a e)) Std.lt_irrefl
      subst hab
      congr 1
      refine ih hl' hm' fun x => ⟨fun hx => ?_, fun hx => ?_⟩
      · rcases List.mem_cons.1 ((h x).1 (List.mem_cons_of_mem _ hx)) with rfl | hx'
        · exact absurd (ha x hx) Std.lt_irrefl
        · exact hx'
      · rcases List.mem_cons.1 ((h x).2 (List.mem_cons_of_mem _ hx)) with rfl | hx'
        · exact absurd (hb x hx) Std.lt_irrefl
        · exact hx'

theorem ext_of_mem {s t : Ascending α} (h : ∀ x, x ∈ s ↔ x ∈ t) : s = t := by
  have := elems_eq_of_mem s.pairwise_lt t.pairwise_lt h
  cases s; cases t; simp_all

end Ascending

end SinkFencing
