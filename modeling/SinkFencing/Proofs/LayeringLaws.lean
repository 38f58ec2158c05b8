import SinkFencing.Config.Layering

namespace SinkFencing

/-- Somewhere in the value stands a table with the reserved mark. -/
inductive Toml.Value.Marked : Toml.Value → Prop
  | here {entries : List (String × Toml.Value)} {v : Toml.Value}
      (mark : (Layering.markKey, v) ∈ entries) : Marked (.table entries)
  | entry {entries : List (String × Toml.Value)} {key : String} {v : Toml.Value}
      (mem : (key, v) ∈ entries) (marked : v.Marked) : Marked (.table entries)
  | item {items : List Toml.Value} {v : Toml.Value} (mem : v ∈ items) (marked : v.Marked) :
      Marked (.list items)

namespace Layering

section Laws

variable (L : Layering)

def laid : Option L.Value → Option L.Value → Option L.Value
  | some upper, some lower => some (L.onto upper lower)
  | some upper, none => some upper
  | none, lower => lower

def reading (t : L.Table) (k : Setting) : Except L.Error k.Content :=
  match L.find? t k.key with
  | some v => L.decode k.form k.key v
  | none => .ok (k.get {})

/-- What is relied on of a layering. -/
structure Lawful : Prop where
  find?_new : ∀ key, L.find? L.new key = none
  /-- Tables are merged key by key. -/
  find?_merge : ∀ lower upper key,
    L.find? (L.merge lower upper) key = L.laid (L.find? upper key) (L.find? lower key)
  /-- Only two tables are joined; all else is replaced. -/
  onto_of_not_tables : ∀ upper lower,
    ¬ (L.isTable upper = true ∧ L.isTable lower = true) → L.onto upper lower = upper
  find?_written : ∀ entries key, (entries.map Prod.fst).Nodup →
    L.find? (L.written entries) key = Assoc.find? key entries
  isTable_encode : ∀ layer (k : Setting) (a : k.Content),
    L.isTable (L.encode layer k.form a) = false
  decode_encode : ∀ layer (k : Setting) (a : k.Content),
    L.decode k.form k.key (L.encode layer k.form a) = .ok a
  isTable_of_decode_stem : ∀ {v : L.Value} {s : String},
    L.decode Setting.stem.form Setting.stem.key v = .ok (some s) → L.isTable v = false
  /-- Settings are extracted field by field. -/
  extract_eq_ok_iff : ∀ t s, L.extract t = .ok s ↔ ∀ k, L.reading t k = .ok (k.get s)
  /-- Nothing but the fields of the settings is looked at. -/
  extract_congr : ∀ t t', (∀ k, L.reading t k = L.reading t' k) → L.extract t = L.extract t'
  ofEnv_nil : L.ofEnv [] = .ok L.new
  /-- Variables are merged one after another. -/
  ofEnv_snoc : ∀ env v, L.ofEnv (env ++ [v]) =
    (do return L.merge (← L.ofEnv env) (← L.ofEnv [v]))
  /-- A variable with the name of a field, in any letter case, sets the field to what its text is read as. -/
  ofEnv_of_read : ∀ (k : Setting) {name text : String} {v : L.Value},
    Environment.lower name.toList =
      Environment.lower (Environment.variableStart ++ k.key).toList → L.read text = some v →
    ∃ t, L.ofEnv [(name, text)] = .ok t ∧
      ∀ key, L.find? t key = if k.key = key then some v else none
  ofEnv_of_torn : ∀ (k : Setting) {name text : String},
    Environment.lower name.toList =
      Environment.lower (Environment.variableStart ++ k.key).toList → L.read text = none →
    L.ofEnv [(name, text)] = .error ⟨name⟩
  /-- A file with a document is taken over as it is, unless there is a mark in it. -/
  file_of_document : ∀ {path text : String} {doc : List (String × Toml.Value)},
    L.document? text = some doc → (∀ entry ∈ doc, ¬ entry.2.Marked) →
    ∃ t, L.file ⟨path, .ok text⟩ = .ok t ∧
      ∀ key, L.find? t key = (Assoc.find? key doc).map (L.ofToml path)

end Laws

variable {L : Layering}

@[simp] theorem laid_none_left (lower : Option L.Value) : L.laid none lower = lower := by
  cases lower <;> rfl

@[simp] theorem laid_none_right (upper : Option L.Value) : L.laid upper none = upper := by
  cases upper <;> rfl

namespace Lawful

theorem laid_of_not_tables (lawful : L.Lawful) {upper lower : Option L.Value}
    (plain : ¬ (upper.any L.isTable = true ∧ lower.any L.isTable = true)) :
    L.laid upper lower = (upper <|> lower) := by
  match upper, lower with
  | none, lower => simp
  | some u, none => rfl
  | some u, some l => exact congrArg some (lawful.onto_of_not_tables u l plain)

theorem laid_of_not_table (lawful : L.Lawful) {upper : L.Value} (h : L.isTable upper = false)
    (lower : Option L.Value) : L.laid (some upper) lower = some upper := by
  rw [lawful.laid_of_not_tables (by simp [h])]
  rfl

theorem find?_foldl_merge (lawful : L.Lawful) (layers : List L.Table) (start : L.Table)
    (key : String) : L.find? (layers.foldl L.merge start) key =
      (layers.map (L.find? · key)).foldl (fun below above => L.laid above below)
        (L.find? start key) := by
  induction layers generalizing start with
  | nil => rfl
  | cons layer layers ih => rw [List.foldl_cons, ih, lawful.find?_merge, List.map_cons, List.foldl_cons]

end Lawful

end Layering

namespace Setting

theorem key_injective : ∀ {j k : Setting}, j.key = k.key → j = k := by
  intro j k h
  cases j <;> cases k <;> first | rfl | simp [key] at h

theorem mem_all (k : Setting) : k ∈ all := by
  cases k <;> simp [all]

variable {β : Type} (value? : Setting → Option β)

theorem find?_filterMap (k : Setting) (ks : List Setting) :
    Assoc.find? k.key (ks.filterMap fun j => (value? j).map fun v => (j.key, v)) =
      if k ∈ ks then value? k else none := by
  induction ks with
  | nil => rfl
  | cons j ks ih =>
    by_cases hj : j = k
    · subst hj
      rw [if_pos List.mem_cons_self]
      cases hv : value? j with
      | none =>
        rw [List.filterMap_cons_none (by rw [hv]; rfl), ih, hv, ite_self]
      | some v => rw [List.filterMap_cons_some (by rw [hv]; rfl), Assoc.find?, if_pos rfl]
    · have hmem : k ∈ j :: ks ↔ k ∈ ks := by simp [Ne.symm hj]
      simp only [hmem, ← ih]
      cases hv : value? j with
      | none => rw [List.filterMap_cons_none (by rw [hv]; rfl)]
      | some v =>
        rw [List.filterMap_cons_some (by rw [hv]; rfl), Assoc.find?,
          if_neg fun he => hj (key_injective he)]

theorem sublist_filterMap (ks : List Setting) :
    ((ks.filterMap fun j => (value? j).map fun v => (j.key, v)).map Prod.fst).Sublist
      (ks.map key) := by
  induction ks with
  | nil => exact .slnil
  | cons j ks ih =>
    cases hv : value? j with
    | none =>
      rw [List.filterMap_cons_none (by rw [hv]; rfl), List.map_cons]
      exact ih.cons _
    | some v =>
      rw [List.filterMap_cons_some (by rw [hv]; rfl), List.map_cons, List.map_cons]
      exact ih.cons_cons _

end Setting

namespace Layering.Lawful

variable {L : Layering}

theorem find?_keyed (lawful : L.Lawful) (value? : Setting → Option L.Value) (k : Setting) :
    L.find? (L.keyed value?) k.key = value? k := by
  have distinct : (Setting.all.map Setting.key).Nodup := by decide
  rw [keyed, lawful.find?_written _ _ ((Setting.sublist_filterMap value? _).nodup distinct),
    Setting.find?_filterMap, if_pos k.mem_all]

end Layering.Lawful

end SinkFencing
