import SinkFencing.Proofs.EnvEntries
import SinkFencing.Proofs.FileEntries

namespace SinkFencing

namespace Value

theorem isTable_ofForm (layer : Layer) {α : Type} (form : Form α) (a : α) :
    (ofForm layer form a).isTable = false := by
  induction form with
  | option inner ih =>
    cases a with
    | none => rfl
    | some a => exact ih a
  | _ => rfl

theorem asTextsFrom_map_text (layer : Layer) (path : List String) (items : List String) (n : Nat) :
    asTextsFrom path n (items.map (text layer)) = .ok items := by
  induction items generalizing n with
  | nil => rfl
  | cons s items ih =>
    rw [List.map_cons, asTextsFrom, ih]
    rfl

theorem asForm_ofForm (layer : Layer) (path : List String) (k : Setting) (a : k.Content) :
    asForm k.form path (ofForm layer k.form a) = .ok a := by
  cases k with
  | strategy =>
    match a with
    | none => rfl
    | some .probing => rfl
    | some .listing => rfl
  | delivery => cases a <;> rfl
  | naming => cases a <;> rfl
  | previousStems => exact asTextsFrom_map_text layer path a 0
  | topics => exact asTextsFrom_map_text layer path a 0
  | stem => cases a <;> rfl

theorem isTable_of_asText {v : Value} {path : List String} {s : String}
    (h : asForm (.option .text) path v = .ok (some s)) : v.isTable = false := by
  cases v with
  | table layer entries => cases h
  | _ => rfl

end Value

theorem Extracted.bind_eq_ok_iff {α β : Type} {read : Extracted α} {f : α → Extracted β} {b : β} :
    (read >>= f) = .ok b ↔ ∃ a, read = .ok a ∧ f a = .ok b := by
  cases read with
  | error mistake => simp [bind, Except.bind]
  | ok a => simp [bind, Except.bind]

theorem Extracted.mapError_eq_ok_iff {α : Type} {read : Extracted α} {a : α} :
    read.mapError LayerFault.mistaken = .ok a ↔ read = .ok a := by
  cases read with
  | error mistake => exact ⟨nofun, nofun⟩
  | ok b => exact ⟨congrArg _ ∘ Except.ok.inj, congrArg _ ∘ Except.ok.inj⟩

theorem Extracted.mapError_injective {α : Type} {read read' : Extracted α}
    (h : read.mapError LayerFault.mistaken = read'.mapError .mistaken) : read = read' := by
  cases read <;> cases read' <;> cases h <;> rfl

namespace LayerTable

theorem extract_eq_ok_iff {t : LayerTable} {s : Settings} :
    t.extract = .ok s ↔ ∀ k, t.field k = .ok (k.get s) := by
  constructor
  · intro h
    simp only [extract, Extracted.bind_eq_ok_iff] at h
    obtain ⟨strategy, h₁, delivery, h₂, naming, h₃, previousStems, h₄, topics, h₅, stem, h₆, hs⟩ := h
    cases hs
    intro k
    cases k <;> assumption
  · intro h
    rw [extract, h .strategy, h .delivery, h .naming, h .previousStems, h .topics, h .stem]
    rfl

theorem extract_congr {t t' : LayerTable} (h : ∀ k, t.field k = t'.field k) :
    t.extract = t'.extract := by
  simp only [extract, h]

theorem reading_eq (t : LayerTable) (k : Setting) :
    Layering.tracked.reading t k = (t.field k).mapError .mistaken := by
  have hfind : Layering.tracked.find? t k.key = t.find? k.key := rfl
  unfold Layering.reading field
  rw [hfind]
  cases t.find? k.key <;> rfl

theorem extracted_eq_ok_iff (t : LayerTable) (s : Settings) :
    t.extract.mapError LayerFault.mistaken = .ok s ↔
      ∀ k, Layering.tracked.reading t k = .ok (k.get s) := by
  rw [Extracted.mapError_eq_ok_iff, extract_eq_ok_iff]
  refine forall_congr' fun k => ?_
  rw [reading_eq]
  exact Extracted.mapError_eq_ok_iff.symm

theorem extracted_congr (t t' : LayerTable)
    (h : ∀ k, Layering.tracked.reading t k = Layering.tracked.reading t' k) :
    t.extract.mapError LayerFault.mistaken = t'.extract.mapError .mistaken := by
  refine congrArg _ (extract_congr fun k => Extracted.mapError_injective ?_)
  exact ((reading_eq t k).symm.trans (h k)).trans (reading_eq t' k)

end LayerTable

open Environment in
theorem Layering.lawful_tracked : Layering.tracked.Lawful where
  find?_new _ := rfl
  find?_merge := LayerTable.find?_merge
  onto_of_not_tables _ _ := SinkFencing.Value.onto_of_not_tables
  find?_written _ key distinct := LayerTable.find?_ofList distinct key
  isTable_encode layer k a := SinkFencing.Value.isTable_ofForm layer k.form a
  decode_encode layer k a :=
    congrArg (Except.mapError LayerFault.mistaken)
      (SinkFencing.Value.asForm_ofForm layer [k.key] k a)
  isTable_of_decode_stem h :=
    SinkFencing.Value.isTable_of_asText (Extracted.mapError_eq_ok_iff.1 h)
  extract_eq_ok_iff := LayerTable.extracted_eq_ok_iff
  extract_congr := LayerTable.extracted_congr
  ofEnv_nil := rfl
  ofEnv_snoc := entries_snoc variableStart
  ofEnv_of_read k _ _ _ hname hread := ⟨_, entries_of_read k hname hread, fun _ => rfl⟩
  ofEnv_of_torn k _ _ hname hread := entries_of_torn k hname hread
  file_of_document := ConfigFile.entries_of_document

end SinkFencing
