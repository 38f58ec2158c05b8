namespace SinkFencing.Assoc

variable {κ β : Type} [DecidableEq κ]

def find? (key : κ) : List (κ × β) → Option β
  | [] => none
  | (k, b) :: rest => if k = key then some b else find? key rest

def set [LT κ] [DecidableLT κ] (key : κ) (value : β) : List (κ × β) → List (κ × β)
  | [] => [(key, value)]
  | (k, b) :: rest =>
    if key < k then (key, value) :: (k, b) :: rest
    else if k = key then (key, value) :: rest
    else (k, b) :: set key value rest

def remove (key : κ) (entries : List (κ × β)) : List (κ × β) :=
  entries.filter fun entry => entry.1 ≠ key

@[simp] theorem find?_nil (key : κ) : find? key ([] : List (κ × β)) = none := rfl

theorem find?_set [LT κ] [DecidableLT κ] (key x : κ) (value : β) (entries : List (κ × β)) :
    find? x (set key value entries) = if key = x then some value else find? x entries := by
  induction entries with
  | nil => rfl
  | cons entry rest ih =>
    obtain ⟨k, b⟩ := entry
    rw [set]
    split
    · rfl
    · split
      · rename_i hk
        subst hk
        simp only [find?]
        split <;> rfl
      · rename_i hk
        simp only [find?, ih]
        by_cases hx : k = x
        · subst hx
          simp [Ne.symm hk]
        · simp [hx]

theorem find?_remove (key x : κ) (entries : List (κ × β)) :
    find? x (remove key entries) = if key = x then none else find? x entries := by
  induction entries with
  | nil => simp [remove]
  | cons entry rest ih =>
    obtain ⟨k, b⟩ := entry
    rw [remove] at ih ⊢
    by_cases hk : k = key
    · subst hk
      rw [List.filter_cons_of_neg (by simp), ih, find?]
      split <;> rfl
    · rw [List.filter_cons_of_pos (by simpa using hk), find?, find?, ih]
      by_cases hx : k = x
      · subst hx
        simp [Ne.symm hk]
      · simp [hx]

theorem mem_of_find?_eq_some {key : κ} {value : β} {entries : List (κ × β)}
    (h : find? key entries = some value) : (key, value) ∈ entries := by
  induction entries with
  | nil => cases h
  | cons entry rest ih =>
    rw [find?] at h
    split at h
    · rename_i hk
      rw [← hk, ← Option.some.inj h]
      exact List.mem_cons_self
    · exact List.mem_cons_of_mem entry (ih h)

theorem isSome_find?_of_mem {entry : κ × β} {entries : List (κ × β)} (h : entry ∈ entries) :
    (find? entry.1 entries).isSome = true := by
  induction entries with
  | nil => cases h
  | cons first rest ih =>
    rw [find?]
    split
    · rfl
    · rename_i hne
      rcases List.mem_cons.1 h with he | h
      · exact absurd (congrArg Prod.fst he.symm) hne
      · exact ih h

/-- In a map whose keys go upward, a key is found with the value of its one entry. -/
theorem find?_eq_some_iff [LT κ] [Std.Irrefl (α := κ) (· < ·)] {key : κ} {value : β}
    {entries : List (κ × β)} (ascending : entries.Pairwise fun x y => x.1 < y.1) :
    find? key entries = some value ↔ (key, value) ∈ entries := by
  refine ⟨mem_of_find?_eq_some, fun hmem => ?_⟩
  induction entries with
  | nil => cases hmem
  | cons entry rest ih =>
    obtain ⟨hentry, hrest⟩ := List.pairwise_cons.1 ascending
    rw [find?]
    rcases List.mem_cons.1 hmem with he | hmem
    · rw [← he, if_pos rfl]
    · -- A later entry has a greater key.
      have hlt : entry.1 < key := hentry _ hmem
      have hne : entry.1 ≠ key := by
        intro he
        rw [he] at hlt
        exact Std.Irrefl.irrefl key hlt
      rw [if_neg hne]
      exact ih hrest hmem

theorem mem_set [LT κ] [DecidableLT κ] {key : κ} {value : β} {entry : κ × β}
    {entries : List (κ × β)} (h : entry ∈ set key value entries) :
    entry = (key, value) ∨ entry ∈ entries := by
  induction entries with
  | nil => exact .inl (List.mem_singleton.1 h)
  | cons first rest ih =>
    rw [set] at h
    split at h
    · exact List.mem_cons.1 h
    · split at h
      · rcases List.mem_cons.1 h with h | h
        · exact .inl h
        · exact .inr (List.mem_cons_of_mem first h)
      · rcases List.mem_cons.1 h with h | h
        · exact .inr (h ▸ List.mem_cons_self)
        · exact (ih h).imp_right (List.mem_cons_of_mem first)

theorem pairwise_remove [LT κ] (key : κ) {entries : List (κ × β)}
    (h : entries.Pairwise fun x y => x.1 < y.1) :
    (remove key entries).Pairwise fun x y => x.1 < y.1 := h.filter _

theorem pairwise_set [LE κ] [LT κ] [DecidableLT κ] [Std.IsLinearOrder κ] [Std.LawfulOrderLT κ]
    (key : κ) (value : β) {entries : List (κ × β)}
    (h : entries.Pairwise fun x y => x.1 < y.1) :
    (set key value entries).Pairwise fun x y => x.1 < y.1 := by
  induction entries with
  | nil => simp [set]
  | cons first rest ih =>
    obtain ⟨hfirst, hrest⟩ := List.pairwise_cons.1 h
    rw [set]
    split
    · rename_i hlt
      refine List.pairwise_cons.2 ⟨fun entry hentry => ?_, h⟩
      rcases List.mem_cons.1 hentry with he | hentry
      · rw [he]
        exact hlt
      · exact Std.lt_trans hlt (hfirst entry hentry)
    · split
      · rename_i he
        exact List.pairwise_cons.2 ⟨fun entry hentry => he ▸ hfirst entry hentry, hrest⟩
      · rename_i hlt hne
        refine List.pairwise_cons.2 ⟨fun entry hentry => ?_, ih hrest⟩
        rcases mem_set hentry with he | hentry
        · rw [he]
          exact Std.lt_of_le_of_ne (Std.not_lt.1 hlt) hne
        · exact hfirst entry hentry

end SinkFencing.Assoc
