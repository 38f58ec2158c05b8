import Mathlib
import SinkFencing.Proofs.LayerResolution
import SinkFencing.Proofs.TrackedLayers

namespace SinkFencing

theorem Setting.exists_get_iff {P : (k : Setting) → k.Content → Prop} :
    (∃ s, ∀ k, P k (k.get s)) ↔ ∀ k, ∃ a, P k a := by
  constructor
  · rintro ⟨s, hs⟩ k
    exact ⟨_, hs k⟩
  · intro h
    obtain ⟨strategy, hstrategy⟩ := h .strategy
    obtain ⟨delivery, hdelivery⟩ := h .delivery
    obtain ⟨naming, hnaming⟩ := h .naming
    obtain ⟨previousStems, hprevious⟩ := h .previousStems
    obtain ⟨topics, htopics⟩ := h .topics
    obtain ⟨stem, hstem⟩ := h .stem
    refine ⟨⟨delivery, stem, naming, strategy, topics, previousStems⟩, fun k => ?_⟩
    cases k <;> assumption

namespace Layering

def Fits (L : Layering) (k : Setting) (v : L.Value) : Prop := ∃ a, L.decode k.form k.key v = .ok a

section Load

variable {L : Layering} {file : Option ConfigFile} {env : Environment} {o : Overrides} {t : L.Table}

theorem load_of_layered (h : L.layered file env o = .ok t) : L.load file env o =
    match L.extract t with
    | .error e => .error (.failed e)
    | .ok s =>
      match s.check with
      | .error rejection => .error (.rejected rejection)
      | .ok () => .ok s := by
  rw [load, h]
  change ((L.extract t).mapError LoadError.failed >>= fun s => do
    s.check.mapError LoadError.rejected
    return s) = _
  cases L.extract t with
  | error e => rfl
  | ok s =>
    change (s.check.mapError LoadError.rejected >>= fun _ => Except.ok s) = _
    dsimp only
    cases s.check <;> rfl

theorem load_congr (lawful : L.Lawful) {file' : Option ConfigFile} {env' : Environment}
    {o' : Overrides} {t' : L.Table} (h : L.layered file env o = .ok t)
    (h' : L.layered file' env' o' = .ok t') (same : ∀ k, L.reading t k = L.reading t' k) :
    L.load file env o = L.load file' env' o' := by
  rw [load_of_layered h, load_of_layered h', lawful.extract_congr t t' same]

theorem load_eq_ok_iff (h : L.layered file env o = .ok t) {s : Settings} :
    L.load file env o = .ok s ↔ L.extract t = .ok s ∧ s.check = .ok () := by
  rw [load_of_layered h]
  cases L.extract t with
  | error e => simp
  | ok found =>
    cases hcheck : found.check with
    | error rejection =>
      simp only [hcheck, reduceCtorEq, Except.ok.injEq, false_iff, not_and]
      rintro rfl
      simp [hcheck]
    | ok _ =>
      simp only [hcheck, Except.ok.injEq, iff_self_and]
      rintro rfl
      exact hcheck

theorem load_eq_rejected_iff (h : L.layered file env o = .ok t) {rejection : Rejection} :
    L.load file env o = .error (.rejected rejection) ↔
      ∃ s, L.extract t = .ok s ∧ s.check = .error rejection := by
  rw [load_of_layered h]
  cases L.extract t with
  | error e => simp
  | ok found => cases hcheck : found.check <;> simp [hcheck]

theorem load_failed_iff (h : L.layered file env o = .ok t) :
    (∃ e, L.load file env o = .error (.failed e)) ↔ ¬ ∃ s, L.extract t = .ok s := by
  rw [load_of_layered h]
  cases L.extract t with
  | error e => simp
  | ok found => cases hcheck : found.check <;> simp [hcheck]

/-- A load resolves each field for itself and then checks the settings as a whole. It fails just if some
value that wins has not the type of its field, and what loses does not matter. -/
theorem load_fieldwise (lawful : L.Lawful) (h : L.Layerable file env) (o : Overrides) :
    (∃ t, L.layered file env o = .ok t ∧
      ∀ k : Setting, L.find? t k.key = some (L.winner file env o k)) ∧
    (∀ k : Setting, ∀ v ∈ env, Environment.lower v.1.toList =
        Environment.lower (Environment.variableStart ++ k.key).toList →
      L.value? env k.key = L.read v.2) ∧
    ((∃ s, ∀ k, L.Resolves file env o k (k.get s)) ↔ ∀ k, L.Fits k (L.winner file env o k)) ∧
    (∀ s, L.load file env o = .ok s ↔
      (∀ k, L.Resolves file env o k (k.get s)) ∧ s.check = .ok ()) ∧
    (∀ rejection, L.load file env o = .error (.rejected rejection) ↔
      ∃ s, (∀ k, L.Resolves file env o k (k.get s)) ∧ s.check = .error rejection) ∧
    ((∃ e, L.load file env o = .error (.failed e)) ↔ ∃ k, ¬ L.Fits k (L.winner file env o k)) ∧
    ∀ file' env' o', L.Layerable file' env' →
      (∀ k, L.winner file' env' o' k = L.winner file env o k) →
        L.load file' env' o' = L.load file env o := by
  obtain ⟨t, ht, wins⟩ := lawful.exists_layered h o
  have resolved (s : Settings) :
      L.extract t = .ok s ↔ ∀ k, L.Resolves file env o k (k.get s) := by
    rw [lawful.extract_eq_ok_iff]
    exact forall_congr' fun k => by rw [reading_of_find? (wins k), lawful.decode_winner_iff]
  have fits : (∃ s, ∀ k, L.Resolves file env o k (k.get s)) ↔
      ∀ k, L.Fits k (L.winner file env o k) := by
    rw [Setting.exists_get_iff]
    exact forall_congr' fun k => exists_congr fun a => (lawful.decode_winner_iff k a).symm
  refine ⟨⟨t, ht, wins⟩, fun k v mem => lawful.value?_of_field h.readable k (h.once k) mem, fits,
    fun s => ?_, fun rejection => ?_, ?_, ?_⟩
  · rw [load_eq_ok_iff ht, resolved]
  · simp only [load_eq_rejected_iff ht, resolved]
  · rw [load_failed_iff ht]
    simp only [resolved, fits, not_forall]
  · intro file' env' o' h' same
    obtain ⟨t', ht', wins'⟩ := lawful.exists_layered h' o'
    refine load_congr lawful ht' ht fun k => ?_
    rw [reading_of_find? (wins' k), reading_of_find? (wins k), same k]

end Load

def maskedText : String := "topics = 3\nnaming_strategy = \"pooling\"\n"

def unmaskedText : String := "naming_strategy = \"pooling\"\n"

def maskingEnv : Environment := [("PATH", "/bin"), ("txn_recovery_topics", "[t]")]

theorem read?_maskedText : Toml.read? maskedText =
    some [("naming_strategy", .text "pooling"), ("topics", .integer 3)] := by
  cbv

theorem read?_unmaskedText :
    Toml.read? unmaskedText = some [("naming_strategy", .text "pooling")] := by
  cbv

theorem ofEnv_path : tracked.ofEnv [("PATH", "/bin")] = .ok .new := by
  have hpath : Environment.path? Environment.variableStart "PATH" = none := by decide +kernel
  refine (Environment.entries_singleton _ _ _).trans ?_
  rw [Environment.entriesOf, hpath]
  rfl

theorem ofEnv_topics : tracked.ofEnv [("txn_recovery_topics", "[t]")] =
    .ok (.ofList [("topics", .texts .environment ["t"])]) :=
  Environment.entries_of_read .topics (by decide +kernel) rfl

theorem said_maskingEnv (key : String) : tracked.said key ("PATH", "/bin") = none ∧
    tracked.said key ("txn_recovery_topics", "[t]") =
      if "topics" = key then some (SinkFencing.Value.texts .environment ["t"]) else none :=
  ⟨said_of_ofEnv ofEnv_path key, said_of_ofEnv ofEnv_topics key⟩

theorem value?_maskingEnv (key : String) : tracked.value? maskingEnv key =
    if "topics" = key then some (SinkFencing.Value.texts .environment ["t"]) else none := by
  rw [value?, maskingEnv, List.findSome?_cons, (said_maskingEnv key).1, List.findSome?_cons,
    (said_maskingEnv key).2]
  split_ifs <;> rfl

theorem fileValue?_of_read? {path text : String} {doc : List (String × Toml.Value)}
    (hdoc : Toml.read? text = some doc) (key : String) :
    tracked.fileValue? (some ⟨path, .ok text⟩) key =
      (Assoc.find? key doc).map (tracked.ofToml path) := by
  change (Toml.read? text).bind (fun doc => (Assoc.find? key doc).bind fun v =>
    some (tracked.ofToml path v)) = _
  rw [hdoc, Option.bind_some, Option.map_eq_bind]
  rfl

theorem layerable_masking {text : String} {doc : List (String × Toml.Value)}
    (hdoc : Toml.read? text = some doc) (unmarked : ∀ entry ∈ doc, ¬ entry.2.Marked) :
    tracked.Layerable (some ⟨"sink.toml", .ok text⟩) maskingEnv where
  valid := by
    rintro found ⟨⟩
    exact ⟨text, doc, rfl, hdoc, unmarked⟩
  readable := List.forall_mem_cons.2 ⟨⟨_, ofEnv_path⟩,
    List.forall_mem_cons.2 ⟨⟨_, ofEnv_topics⟩, List.forall_mem_nil _⟩⟩
  once k := List.pairwise_cons.2
    ⟨fun _ _ => .inl (said_maskingEnv _).1, List.pairwise_singleton _ _⟩
  plain k := by
    rintro ⟨hvalue, -⟩
    rw [value?_maskingEnv] at hvalue
    split_ifs at hvalue <;> cases hvalue

theorem layerable_masked : tracked.Layerable (some ⟨"sink.toml", .ok maskedText⟩) maskingEnv :=
  layerable_masking read?_maskedText (List.forall_mem_cons.2 ⟨by rintro ⟨⟩,
    List.forall_mem_cons.2 ⟨by rintro ⟨⟩, List.forall_mem_nil _⟩⟩)

theorem layerable_unmasked : tracked.Layerable (some ⟨"sink.toml", .ok unmaskedText⟩) maskingEnv :=
  layerable_masking read?_unmaskedText
    (List.forall_mem_cons.2 ⟨by rintro ⟨⟩, List.forall_mem_nil _⟩)

theorem load_fieldwise_masked :
    (tracked.Lawful ∧ tracked.Layerable (some ⟨"sink.toml", .ok maskedText⟩) maskingEnv ∧
      tracked.Layerable (some ⟨"sink.toml", .ok unmaskedText⟩) maskingEnv) ∧
    Settings.load (some ⟨"sink.toml", .ok maskedText⟩) maskingEnv
        { delivery := some .exactlyOnce, stem := some "app" } =
      .ok ⟨.exactlyOnce, some "app", .pooling, none, ["t"], []⟩ ∧
    Settings.load (some ⟨"sink.toml", .ok unmaskedText⟩) maskingEnv
        { delivery := some .exactlyOnce, stem := some "app" } =
      Settings.load (some ⟨"sink.toml", .ok maskedText⟩) maskingEnv
        { delivery := some .exactlyOnce, stem := some "app" } := by
  obtain ⟨-, -, -, loads, -, -, same⟩ := load_fieldwise lawful_tracked layerable_masked
    { delivery := some .exactlyOnce, stem := some "app" }
  refine ⟨⟨lawful_tracked, layerable_masked, layerable_unmasked⟩,
    congrArg (Except.mapError LoadFault.ofError) ((loads _).2 ⟨fun k => ?_, rfl⟩),
    congrArg (Except.mapError LoadFault.ofError) (same _ _ _ layerable_unmasked fun k => ?_)⟩
  · cases k <;> simp only [Resolves, value?_maskingEnv, fileValue?_of_read? read?_maskedText] <;> rfl
  · cases k <;> simp only [winner, value?_maskingEnv, fileValue?_of_read? read?_maskedText,
      fileValue?_of_read? read?_unmaskedText] <;> rfl

def markedText : String := "other = \x7b ___figment_value_id = 1 \x7d\ntopics = [\"t\"]\n"

theorem read?_markedText : Toml.read? markedText =
    some [("other", .table [("___figment_value_id", .integer 1)]),
      ("topics", .list [.text "t"])] := by
  cbv

/-- A marked table under a key that is no field, or a torn text that an override masks, is enough for a load
to fail, although what wins resolves to settings that pass the check. -/
theorem load_not_by_winners :
    ((Toml.read? markedText).isSome = true ∧
      (∀ k, tracked.Resolves (some ⟨"sink.toml", .ok markedText⟩) [] {} k
        (k.get { topics := ["t"] })) ∧
      Settings.check { topics := ["t"] } = .ok () ∧
      Settings.load (some ⟨"sink.toml", .ok markedText⟩) [] {} =
        .error (.malformed "sink.toml")) ∧
    (∀ k, tracked.Resolves none [("TXN_RECOVERY_TOPICS", "\"é\\n\"")] { topics := some ["t"] } k
      (k.get { topics := ["t"] })) ∧
    Settings.load none [("TXN_RECOVERY_TOPICS", "\"é\\n\"")] { topics := some ["t"] } =
      .error (.torn ⟨"TXN_RECOVERY_TOPICS"⟩) := by
  have htorn : tracked.ofEnv [("TXN_RECOVERY_TOPICS", "\"é\\n\"")] =
      .error ⟨"TXN_RECOVERY_TOPICS"⟩ :=
    lawful_tracked.ofEnv_of_torn .topics (by decide +kernel) rfl
  refine ⟨⟨by rw [read?_markedText]; rfl, fun k => ?_, rfl, ?_⟩, fun k => ?_, ?_⟩
  · cases k <;> simp only [Resolves, fileValue?_of_read? read?_markedText] <;> rfl
  · have hfile : tracked.file ⟨"sink.toml", .ok markedText⟩ = .error (.malformed "sink.toml") := by
      refine (ConfigFile.entries_of_text _ _).trans ?_
      rw [read?_markedText]
      rfl
    have hlayers : tracked.layered (some ⟨"sink.toml", .ok markedText⟩) [] {} =
        .error (.failed (.malformed "sink.toml")) := by
      rw [layered, Option.mapM_some, hfile, lawful_tracked.ofEnv_nil]
      rfl
    rw [Settings.load, load, hlayers]
    rfl
  · have hvalue (key : String) :
        tracked.value? [("TXN_RECOVERY_TOPICS", "\"é\\n\"")] key = none := by
      rw [value?, List.findSome?_cons, said, htorn]
      rfl
    cases k <;> simp only [Resolves, hvalue] <;> rfl
  · rw [Settings.load, load, layered, htorn]
    rfl

end Layering

end SinkFencing
