import Mathlib.Data.List.Induction
import SinkFencing.Proofs.LayeringLaws

namespace SinkFencing.Layering

section Sources

variable (L : Layering)

def said (key : String) (v : String × String) : Option L.Value :=
  (L.ofEnv [v]).toOption.bind (L.find? · key)

/-- What the first variable that says something of a key says of it. -/
def value? (env : Environment) (key : String) : Option L.Value := env.findSome? (L.said key)

/-- No two variables say something of this key. -/
def Once (key : String) (env : Environment) : Prop :=
  env.Pairwise fun v w => L.said key v = none ∨ L.said key w = none

def Readable (env : Environment) : Prop := ∀ v ∈ env, ∃ t, L.ofEnv [v] = .ok t

/-- What a file that holds a document says of a key. -/
def fileValue? (file : Option ConfigFile) (key : String) : Option L.Value := do
  let found ← file
  let text ← found.text.toOption
  let doc ← L.document? text
  return L.ofToml found.path (← Assoc.find? key doc)

/-- There is no file, or one with a document in which no table below the root is marked. -/
def Valid (file : Option ConfigFile) : Prop :=
  ∀ found ∈ file, ∃ text doc, found.text = .ok text ∧ L.document? text = some doc ∧
    ∀ entry ∈ doc, ¬ entry.2.Marked

/-- What may be relied on of the lower layers: a file holds a document or is missing, the variables can be
read, and of no field two variables speak or two layers make a table. -/
structure Layerable (file : Option ConfigFile) (env : Environment) : Prop where
  valid : L.Valid file
  readable : L.Readable env
  once : ∀ k : Setting, L.Once k.key env
  plain : ∀ k : Setting, ¬ ((L.value? env k.key).any L.isTable = true ∧
    (L.fileValue? file k.key).any L.isTable = true)

def winner (file : Option ConfigFile) (env : Environment) (o : Overrides) (k : Setting) : L.Value :=
  ((k.given o).map (L.encode .overrides k.form) <|> L.value? env k.key <|>
    L.fileValue? file k.key).getD (L.encode .defaults k.form (k.get {}))

/-- A field as an override has it, or else as the environment or else the file writes it, or else as it is by
default. -/
def Resolves (file : Option ConfigFile) (env : Environment) (o : Overrides) (k : Setting)
    (a : k.Content) : Prop :=
  match k.given o, L.value? env k.key <|> L.fileValue? file k.key with
  | some given, _ => a = given
  | none, some v => L.decode k.form k.key v = .ok a
  | none, none => a = k.get {}

end Sources

variable {L : Layering} {file : Option ConfigFile} {env : Environment} {o : Overrides}

theorem valid_none : L.Valid none := by
  rintro found ⟨⟩

theorem said_of_ofEnv {v : String × String} {t : L.Table} (h : L.ofEnv [v] = .ok t)
    (key : String) : L.said key v = L.find? t key := by
  rw [said, h]
  rfl

theorem foldl_laid_none {said : List (Option L.Value)} (silent : ∀ v ∈ said, v = none)
    (below : Option L.Value) : said.foldl (fun below above => L.laid above below) below = below := by
  induction said with
  | nil => rfl
  | cons v said ih =>
    rw [List.foldl_cons, silent v List.mem_cons_self, laid_none_left]
    exact ih fun w hw => silent w (List.mem_cons_of_mem v hw)

theorem value?_of_mem {key : String} {v : String × String} {found : L.Value} (once : L.Once key env)
    (mem : v ∈ env) (h : L.said key v = some found) : L.value? env key = some found := by
  induction env with
  | nil => cases mem
  | cons w env ih =>
    obtain ⟨hfirst, hrest⟩ := List.pairwise_cons.1 once
    rw [value?, List.findSome?_cons]
    obtain rfl | mem := List.mem_cons.1 mem
    · rw [h]
    · obtain hw | hv := hfirst v mem
      · rw [hw]
        exact ih hrest mem
      · rw [h] at hv
        cases hv

namespace Lawful

variable (lawful : L.Lawful)

include lawful

/-- A successful read of the environment reads each of its variables, and the last of them is laid onto what
those before it say. -/
theorem ofEnv_snoc_eq_ok {v : String × String} {upper : L.Table}
    (h : L.ofEnv (env ++ [v]) = .ok upper) :
    ∃ below t, L.ofEnv env = .ok below ∧ L.ofEnv [v] = .ok t ∧ upper = L.merge below t := by
  rw [lawful.ofEnv_snoc] at h
  cases hbelow : L.ofEnv env with
  | error culprit => rw [hbelow] at h; cases h
  | ok below =>
    cases hv : L.ofEnv [v] with
    | error culprit => rw [hbelow, hv] at h; cases h
    | ok t =>
      rw [hbelow, hv] at h
      exact ⟨below, t, rfl, rfl, (Except.ok.inj h).symm⟩

theorem find?_ofEnv {upper : L.Table} (h : L.ofEnv env = .ok upper) (key : String) :
    L.find? upper key =
      (env.map (L.said key)).foldl (fun below above => L.laid above below) none := by
  induction env using List.reverseRecOn generalizing upper with
  | nil =>
    rw [lawful.ofEnv_nil] at h
    cases h
    exact lawful.find?_new key
  | append_singleton env v ih =>
    obtain ⟨below, t, hbelow, hv, rfl⟩ := lawful.ofEnv_snoc_eq_ok h
    rw [lawful.find?_merge, ih hbelow, List.map_append, List.foldl_append, List.map_singleton,
      List.foldl_cons, List.foldl_nil, said_of_ofEnv hv]

theorem find?_ofEnv_of_once {key : String} {upper : L.Table}
    (h : L.ofEnv env = .ok upper) (once : L.Once key env) :
    L.find? upper key = L.value? env key := by
  rw [lawful.find?_ofEnv h, value?]
  clear h
  induction env with
  | nil => rfl
  | cons v env ih =>
    obtain ⟨hfirst, hrest⟩ := List.pairwise_cons.1 once
    rw [List.map_cons, List.foldl_cons, laid_none_right, List.findSome?_cons]
    cases hv : L.said key v with
    | none => exact ih hrest
    | some found =>
      refine foldl_laid_none (fun w hw => ?_) _
      obtain ⟨w, hmem, rfl⟩ := List.mem_map.1 hw
      exact (hfirst w hmem).resolve_left (by rw [hv]; exact nofun)

theorem exists_ofEnv (h : L.Readable env) : ∃ upper, L.ofEnv env = .ok upper := by
  induction env using List.reverseRecOn with
  | nil => exact ⟨_, lawful.ofEnv_nil⟩
  | append_singleton env v ih =>
    obtain ⟨below, hbelow⟩ := ih fun w hw => h w (List.mem_append_left _ hw)
    obtain ⟨t, ht⟩ := h v (List.mem_append_right _ List.mem_cons_self)
    exact ⟨L.merge below t, by rw [lawful.ofEnv_snoc, hbelow, ht]; rfl⟩

/-- What a variable named as a field is read as is what the environment says of the field. -/
theorem value?_of_field (h : L.Readable env) (k : Setting) (once : L.Once k.key env)
    {v : String × String} (mem : v ∈ env) (hname : Environment.lower v.1.toList =
      Environment.lower (Environment.variableStart ++ k.key).toList) :
    L.value? env k.key = L.read v.2 := by
  cases hread : L.read v.2 with
  | none =>
    obtain ⟨t, ht⟩ := h v mem
    have htorn : L.ofEnv [v] = .error ⟨v.1⟩ := lawful.ofEnv_of_torn k hname hread
    rw [htorn] at ht
    cases ht
  | some found =>
    obtain ⟨t, ht, hfind⟩ := lawful.ofEnv_of_read k hname hread
    refine value?_of_mem once mem ?_
    exact (said_of_ofEnv ht _).trans ((hfind _).trans (if_pos rfl))

theorem exists_file (h : L.Valid file) : ∃ lower, file.mapM L.file = .ok lower ∧
    ∀ key, lower.bind (L.find? · key) = L.fileValue? file key := by
  cases file with
  | none => exact ⟨none, rfl, fun _ => rfl⟩
  | some found =>
    obtain ⟨path, text⟩ := found
    obtain ⟨text, doc, rfl, hdoc, unmarked⟩ := h _ rfl
    obtain ⟨t, ht, hfind⟩ := lawful.file_of_document hdoc unmarked
    refine ⟨some t, ?_, fun key => ?_⟩
    · change some <$> L.file _ = _
      rw [ht]
      rfl
    · change L.find? t key = (L.document? text).bind fun doc =>
        (Assoc.find? key doc).bind fun v => some (L.ofToml path v)
      rw [hfind, hdoc, Option.bind_some, Option.map_eq_bind]
      rfl

omit lawful in
theorem layered_eq_ok {lower : Option L.Table} {upper : L.Table}
    (hfile : file.mapM L.file = .ok lower) (henv : L.ofEnv env = .ok upper) :
    L.layered file env o =
      .ok ((L.defaults :: (lower.toList ++ [upper, L.overrides o])).foldl L.merge L.new) := by
  rw [layered, henv, hfile]
  rfl

theorem find?_layers (lower : Option L.Table) (upper : L.Table) (o : Overrides) (k : Setting) :
    L.find? ((L.defaults :: (lower.toList ++ [upper, L.overrides o])).foldl L.merge L.new) k.key =
      L.laid ((k.given o).map (L.encode .overrides k.form)) (L.laid (L.find? upper k.key)
        (L.laid (lower.bind (L.find? · k.key)) (some (L.encode .defaults k.form (k.get {}))))) := by
  have hdefaults : L.find? L.defaults k.key = some (L.encode .defaults k.form (k.get {})) :=
    lawful.find?_keyed _ k
  have hoverrides : L.find? (L.overrides o) k.key = (k.given o).map (L.encode .overrides k.form) :=
    lawful.find?_keyed _ k
  rw [lawful.find?_foldl_merge, lawful.find?_new]
  cases lower <;>
    simp only [Option.toList, List.nil_append, List.cons_append, List.map_cons, List.map_nil,
      List.foldl_cons, List.foldl_nil, laid_none_left, laid_none_right, Option.bind_none,
      Option.bind_some, hdefaults, hoverrides]

theorem find?_layers_eq_winner (h : L.Layerable file env) {lower : Option L.Table} {upper : L.Table}
    (hlower : ∀ key, lower.bind (L.find? · key) = L.fileValue? file key)
    (henv : L.ofEnv env = .ok upper) (k : Setting) :
    L.find? ((L.defaults :: (lower.toList ++ [upper, L.overrides o])).foldl L.merge L.new) k.key =
      some (L.winner file env o k) := by
  -- From the lowest layer up: the defaults hold no table, a file and variables not both, overrides none.
  let fallback := L.encode .defaults k.form (k.get {})
  have hdefault : L.isTable fallback = false := lawful.isTable_encode _ _ _
  have hfile : L.laid (L.fileValue? file k.key) (some fallback) =
      (L.fileValue? file k.key <|> some fallback) :=
    lawful.laid_of_not_tables fun tables => Bool.false_ne_true (hdefault.symm.trans tables.2)
  have hvariables : L.laid (L.value? env k.key) (L.fileValue? file k.key <|> some fallback) =
      (L.value? env k.key <|> L.fileValue? file k.key <|> some fallback) := by
    refine lawful.laid_of_not_tables ?_
    rintro ⟨hupper, hlower⟩
    cases hv : L.fileValue? file k.key with
    | some v =>
      rw [hv] at hlower
      exact h.plain k ⟨hupper, by rw [hv]; exact hlower⟩
    | none =>
      rw [hv] at hlower
      exact Bool.false_ne_true (hdefault.symm.trans hlower)
  have hoverride : ((k.given o).map (L.encode .overrides k.form)).any L.isTable = false := by
    cases k.given o with
    | none => rfl
    | some given => exact lawful.isTable_encode .overrides k given
  rw [lawful.find?_layers, hlower, lawful.find?_ofEnv_of_once henv (h.once k), hfile, hvariables,
    lawful.laid_of_not_tables fun tables => Bool.false_ne_true (hoverride.symm.trans tables.1), winner]
  cases (k.given o).map (L.encode .overrides k.form) <;> cases L.value? env k.key <;>
    cases L.fileValue? file k.key <;> rfl

theorem decode_winner_iff (k : Setting) (a : k.Content) :
    L.decode k.form k.key (L.winner file env o k) = .ok a ↔ L.Resolves file env o k a := by
  have hencoded (layer : Layer) (b : k.Content) :
      L.decode k.form k.key (L.encode layer k.form b) = .ok a ↔ a = b := by
    rw [lawful.decode_encode, Except.ok.injEq, eq_comm]
  unfold winner Resolves
  cases k.given o with
  | some given => exact hencoded .overrides given
  | none =>
    cases L.value? env k.key with
    | some v => exact Iff.rfl
    | none =>
      cases L.fileValue? file k.key with
      | some v => exact Iff.rfl
      | none => exact hencoded .defaults _

/-- Layers that may be relied on are merged, and each field holds what wins. -/
theorem exists_layered (h : L.Layerable file env) (o : Overrides) :
    ∃ t, L.layered file env o = .ok t ∧ ∀ k : Setting, L.find? t k.key = some (L.winner file env o k) := by
  obtain ⟨upper, hupper⟩ := lawful.exists_ofEnv h.readable
  obtain ⟨lower, hfile, hlower⟩ := lawful.exists_file h.valid
  exact ⟨_, layered_eq_ok hfile hupper, lawful.find?_layers_eq_winner h hlower hupper⟩

end Lawful

theorem reading_of_find? {t : L.Table} {k : Setting} {v : L.Value} (h : L.find? t k.key = some v) :
    L.reading t k = L.decode k.form k.key v := by
  rw [reading, h]

end SinkFencing.Layering
