import SinkFencing.Proofs.LayerLookup
import SinkFencing.Proofs.Readers

namespace SinkFencing

namespace Toml

/-- The edit places one key in the table and leaves the others. -/
def Edit.Places (edit : Edit) : Prop :=
  ∀ origin entries edited, edit origin entries = some edited →
    ∃ key node, edited = Assoc.set key node entries

theorem places_put (byDots : Bool) (key : String) (v : Value) : (put byDots key v).Places := by
  intro origin entries edited h
  simp only [put, Option.bind_eq_bind, Option.bind_eq_some_iff] at h
  obtain ⟨_, _, h⟩ := h
  split at h <;> cases h
  exact ⟨key, _, rfl⟩

theorem places_beginTable (key : String) : (beginTable key).Places := by
  intro origin entries edited h
  unfold beginTable at h
  split at h <;> cases h <;> exact ⟨key, _, rfl⟩

theorem places_beginItem (key : String) : (beginItem key).Places := by
  intro origin entries edited h
  unfold beginItem at h
  split at h <;> cases h <;> exact ⟨key, _, rfl⟩

theorem Edit.Places.at {edit : Edit} (places : edit.Places) (made : Origin) (path : List String) :
    (edit.at made path).Places := by
  intro origin entries edited h
  cases path with
  | nil => exact places origin entries edited h
  | cons key path =>
    simp only [Edit.at] at h
    split at h
    · simp only [Option.bind_eq_bind, Option.bind_eq_some_iff] at h
      obtain ⟨_, _, h⟩ := h
      cases h
      exact ⟨key, _, rfl⟩
    · simp only [Option.bind_eq_bind, Option.bind_eq_some_iff] at h
      obtain ⟨_, _, _, _, h⟩ := h
      cases h
      exact ⟨key, _, rfl⟩
    · simp only [Option.bind_eq_bind, Option.bind_eq_some_iff] at h
      obtain ⟨_, _, _, _, h⟩ := h
      cases h
      exact ⟨key, _, rfl⟩
    · cases h

theorem add_eq_some {b b' : Builder} {line : Line} (h : b.add line = some b') :
    b'.root = b.root ∨ ∃ key node, b'.root = Assoc.set key node b.root := by
  have placed {edit : Edit} (places : edit.Places) {made : Origin} {path current : List String}
      (h : (do return (⟨← edit.at made path .headed b.root, current⟩ : Builder)) = some b') :
      ∃ key node, b'.root = Assoc.set key node b.root := by
    simp only [Option.bind_eq_bind, Option.bind_eq_some_iff] at h
    obtain ⟨root, hroot, h⟩ := h
    cases h
    exact places.at made path _ _ _ hroot
  cases line with
  | blank =>
    cases h
    exact .inl rfl
  | pair k v => exact .inr (placed ((places_put _ _ _).at _ _) h)
  | header k => exact .inr (placed (places_beginTable _) h)
  | item k => exact .inr (placed (places_beginItem _) h)

theorem pairwise_foldlM_add {lines : List Line} {b b' : Builder}
    (h : lines.foldlM Builder.add b = some b') (ascending : b.root.Pairwise fun x y => x.1 < y.1) :
    b'.root.Pairwise fun x y => x.1 < y.1 := by
  induction lines generalizing b with
  | nil =>
    cases h
    exact ascending
  | cons line lines ih =>
    rw [List.foldlM_cons] at h
    obtain ⟨next, hnext, h⟩ := Option.bind_eq_some_iff.1 h
    refine ih h ?_
    obtain he | ⟨key, node, he⟩ := add_eq_some hnext
    · rwa [he]
    · rw [he]
      exact Assoc.pairwise_set key node ascending

theorem map_fst_valuesOf (entries : Entries) :
    (valuesOf entries).map Prod.fst = entries.map Prod.fst := by
  induction entries with
  | nil => rfl
  | cons entry entries ih =>
    rw [valuesOf, List.map_cons, List.map_cons, ih]

/-- A document defines no key of its root twice. -/
theorem nodup_read? {text : String} {doc : List (String × Value)} (h : read? text = some doc) :
    (doc.map Prod.fst).Nodup := by
  obtain ⟨b, hb, rfl⟩ := Option.map_eq_some_iff.1 h
  rw [map_fst_valuesOf]
  apply nodup_of_ascending
  have hdocument := Reader.all?_eq_some_iff.1 hb
  unfold document at hdocument
  obtain ⟨_, _, -, hdocument⟩ := Reader.bind_eq_got_iff.1 hdocument
  obtain ⟨lines, rest, -, hbuilt⟩ := Reader.bind_eq_got_iff.1 hdocument
  cases hlines : lines.foldlM Builder.add {} with
  | none => rw [hlines] at hbuilt; cases hbuilt
  | some built =>
    rw [hlines] at hbuilt
    cases hbuilt
    exact pairwise_foldlM_add hlines .nil

end Toml

namespace Value

variable {layer : Layer}

theorem map_fst_ofTomlEntries {doc : List (String × Toml.Value)} {entries : List (String × Value)}
    (h : ofTomlEntries layer doc = some entries) : entries.map Prod.fst = doc.map Prod.fst := by
  induction doc generalizing entries with
  | nil =>
    cases h
    rfl
  | cons entry doc ih =>
    simp only [ofTomlEntries, Option.bind_eq_bind, Option.bind_eq_some_iff] at h
    obtain ⟨v, -, rest, hrest, h⟩ := h
    cases h
    rw [List.map_cons, List.map_cons, ih hrest]

theorem find?_ofTomlEntries {doc : List (String × Toml.Value)} {entries : List (String × Value)}
    (h : ofTomlEntries layer doc = some entries) (key : String) :
    Assoc.find? key entries = (Assoc.find? key doc).bind (ofToml layer) := by
  induction doc generalizing entries with
  | nil =>
    cases h
    rfl
  | cons entry doc ih =>
    simp only [ofTomlEntries, Option.bind_eq_bind, Option.bind_eq_some_iff] at h
    obtain ⟨v, hv, rest, hrest, h⟩ := h
    cases h
    rw [Assoc.find?, Assoc.find?]
    split
    · exact hv.symm
    · exact ih hrest

theorem isSome_find?_iff {β : Type} {key : String} {entries : List (String × β)} :
    (Assoc.find? key entries).isSome = true ↔ key ∈ entries.map Prod.fst := by
  constructor
  · intro h
    obtain ⟨v, hv⟩ := Option.isSome_iff_exists.1 h
    exact List.mem_map_of_mem (f := Prod.fst) (Assoc.mem_of_find?_eq_some hv)
  · intro h
    obtain ⟨entry, hentry, rfl⟩ := List.mem_map.1 h
    exact Assoc.isSome_find?_of_mem hentry

theorem ofEntries_eq_none_iff {entries : List (String × Value)} :
    ofEntries layer entries = none ↔ Layering.markKey ∈ entries.map Prod.fst := by
  rw [← isSome_find?_iff, ofEntries]
  split <;> simp_all

mutual

theorem ofToml_eq_none_iff : ∀ v : Toml.Value, ofToml layer v = none ↔ v.Marked
  | .text s | .integer n | .float x | .flag b | .moment s => by
    simp only [ofToml, reduceCtorEq, false_iff]
    exact nofun
  | .list items => by
    rw [ofToml, Option.map_eq_none_iff, ofTomlItems_eq_none_iff items]
    constructor
    · rintro ⟨v, mem, marked⟩
      exact .item mem marked
    · rintro (_ | _ | ⟨mem, marked⟩)
      exact ⟨_, mem, marked⟩
  | .table entries => by
    have hentries := ofTomlEntries_eq_none_iff entries
    rw [ofToml]
    constructor
    · intro h
      cases hdoc : ofTomlEntries layer entries with
      | none =>
        obtain ⟨entry, mem, marked⟩ := hentries.1 hdoc
        exact .entry mem marked
      | some converted =>
        rw [hdoc] at h
        have hmark := ofEntries_eq_none_iff.1 h
        rw [map_fst_ofTomlEntries hdoc] at hmark
        obtain ⟨entry, mem, hkey⟩ := List.mem_map.1 hmark
        obtain ⟨key, v⟩ := entry
        cases hkey
        exact .here mem
    · intro h
      cases hdoc : ofTomlEntries layer entries with
      | none => rfl
      | some converted =>
        apply ofEntries_eq_none_iff.2
        rw [map_fst_ofTomlEntries hdoc]
        cases h with
        | here mark => exact List.mem_map_of_mem (f := Prod.fst) mark
        | entry mem marked => rw [hentries.2 ⟨_, mem, marked⟩] at hdoc; cases hdoc

theorem ofTomlItems_eq_none_iff : ∀ items : List Toml.Value,
    ofTomlItems layer items = none ↔ ∃ v ∈ items, v.Marked
  | [] => by simp [ofTomlItems]
  | item :: rest => by
    have hitem := ofToml_eq_none_iff item
    have hrest := ofTomlItems_eq_none_iff rest
    rw [ofTomlItems]
    cases h : ofToml layer item with
    | none => simp [← hitem, h]
    | some v => cases h' : ofTomlItems layer rest <;> simp [← hitem, h, ← hrest, h']

theorem ofTomlEntries_eq_none_iff : ∀ entries : List (String × Toml.Value),
    ofTomlEntries layer entries = none ↔ ∃ entry ∈ entries, entry.2.Marked
  | [] => by simp [ofTomlEntries]
  | (key, v) :: rest => by
    have hv := ofToml_eq_none_iff v
    have hrest := ofTomlEntries_eq_none_iff rest
    rw [ofTomlEntries]
    cases h : ofToml layer v with
    | none => simp [← hv, h]
    | some found => cases h' : ofTomlEntries layer rest <;> simp [← hv, h, ← hrest, h']

end

end Value

theorem ConfigFile.entries_of_text (path text : String) : ConfigFile.entries ⟨path, .ok text⟩ =
    match (Toml.read? text).bind (Value.ofTomlEntries (.file path)) with
    | some entries => .ok (.ofList entries)
    | none => .error (.malformed path) := rfl

/-- A document in which nothing is marked is taken over as it is. -/
theorem ConfigFile.entries_of_document {path text : String} {doc : List (String × Toml.Value)}
    (hdoc : Toml.read? text = some doc) (unmarked : ∀ entry ∈ doc, ¬ entry.2.Marked) :
    ∃ t, ConfigFile.entries ⟨path, .ok text⟩ = .ok t ∧
      ∀ key, t.find? key = (Assoc.find? key doc).map (Layering.tracked.ofToml path) := by
  cases hentries : Value.ofTomlEntries (.file path) doc with
  | none =>
    obtain ⟨entry, mem, marked⟩ := (Value.ofTomlEntries_eq_none_iff doc).1 hentries
    exact absurd marked (unmarked entry mem)
  | some entries =>
    have distinct : (entries.map Prod.fst).Nodup := by
      rw [Value.map_fst_ofTomlEntries hentries]
      exact Toml.nodup_read? hdoc
    refine ⟨.ofList entries, ?_, fun key => ?_⟩
    · rw [entries_of_text, hdoc, Option.bind_some, hentries]
    · rw [LayerTable.find?_ofList distinct, Value.find?_ofTomlEntries hentries]
      cases hv : Assoc.find? key doc with
      | none => rfl
      | some v =>
        cases hof : Value.ofToml (.file path) v with
        | none =>
          exact absurd ((Value.ofToml_eq_none_iff v).1 hof)
            (unmarked _ (Assoc.mem_of_find?_eq_some hv))
        | some found =>
          rw [Option.bind_some, hof]
          change some found = some ((Value.ofToml (.file path) v).getD (.unset (.file path)))
          rw [hof, Option.getD_some]

end SinkFencing
