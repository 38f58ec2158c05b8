import SinkFencing.Proofs.ConfigLoad
import SinkFencing.Proofs.EnvSpelling

namespace SinkFencing

namespace Setting

theorem given_of_ne_stem {k : Setting} (h : k ≠ stem) (o : Overrides) (given : Option String) :
    k.given { o with stem := given } = k.given o := by
  cases k with
  | stem => exact absurd rfl h
  | _ => rfl

end Setting

namespace Layering

def stemVariable : String := "TXN_RECOVERY_TRANSACTIONAL_ID_PREFIX"

section Spelling

variable (L : Layering)

def Spells (text s : String) : Prop :=
  ∃ found, L.read text = some found ∧ L.decode Setting.stem.form Setting.stem.key found = .ok (some s)

/-- What is relied on of how strings are written in variables: a plain text is itself, and every string has a
text in quotes with its characters escaped. -/
structure ReadsTexts : Prop where
  plain : ∀ v, EnvValue.Plain v → L.Spells v v
  quoted : ∀ s, L.Spells (EnvValue.quoting s) s

/-- Whatever else is set, the variable with this text and the override with this stem have the same effect,
where no other override sets the stem and no later variable does. -/
def SetsStem (v stem : String) : Prop :=
  ∀ (file : Option ConfigFile) (before after : Environment) (o : Overrides), o.stem = none →
    (∀ w ∈ after, L.said Setting.stem.key w = none) →
      L.load file (before ++ (stemVariable, v) :: after) o =
        L.load file (before ++ after) { o with stem := some stem }

end Spelling

variable {L : Layering} {before after : Environment} {v : String} {found : L.Value}

namespace Lawful

variable (lawful : L.Lawful)

include lawful

theorem ofEnv_stem (hread : L.read v = some found) :
    ∃ t, L.ofEnv [(stemVariable, v)] = .ok t ∧
      ∀ key, L.find? t key = if Setting.stem.key = key then some found else none :=
  lawful.ofEnv_of_read .stem (by decide +kernel) hread

theorem said_stem (hread : L.read v = some found) (key : String) :
    L.said key (stemVariable, v) = if Setting.stem.key = key then some found else none := by
  obtain ⟨t, ht, hfind⟩ := lawful.ofEnv_stem hread
  rw [said_of_ofEnv ht, hfind]

/-- A variable that can be read does not change which variable is torn, if one is. -/
theorem ofEnv_insert (before after : Environment) (hread : L.read v = some found) :
    (∃ culprit, L.ofEnv (before ++ (stemVariable, v) :: after) = .error culprit ∧
      L.ofEnv (before ++ after) = .error culprit) ∨
    ∃ upper upper', L.ofEnv (before ++ (stemVariable, v) :: after) = .ok upper ∧
      L.ofEnv (before ++ after) = .ok upper' := by
  induction after using List.reverseRecOn with
  | nil =>
    obtain ⟨t, ht, -⟩ := lawful.ofEnv_stem hread
    rw [lawful.ofEnv_snoc, ht, List.append_nil]
    cases L.ofEnv before with
    | error culprit => exact .inl ⟨culprit, rfl, rfl⟩
    | ok below => exact .inr ⟨_, _, rfl, rfl⟩
  | append_singleton after w ih =>
    rw [← List.cons_append, ← List.append_assoc, ← List.append_assoc, lawful.ofEnv_snoc,
      lawful.ofEnv_snoc]
    obtain ⟨culprit, h, h'⟩ | ⟨upper, upper', h, h'⟩ := ih
    · exact .inl ⟨culprit, by rw [h]; rfl, by rw [h']; rfl⟩
    · rw [h, h']
      cases L.ofEnv [w] with
      | error culprit => exact .inl ⟨culprit, rfl, rfl⟩
      | ok t => exact .inr ⟨_, _, rfl, rfl⟩

theorem find?_insert_of_ne {upper upper' : L.Table} (hread : L.read v = some found)
    (hupper : L.ofEnv (before ++ (stemVariable, v) :: after) = .ok upper)
    (hupper' : L.ofEnv (before ++ after) = .ok upper') {key : String}
    (hkey : Setting.stem.key ≠ key) : L.find? upper key = L.find? upper' key := by
  rw [lawful.find?_ofEnv hupper, lawful.find?_ofEnv hupper', List.map_append,
    List.map_append, List.map_cons, List.foldl_append, List.foldl_append, List.foldl_cons,
    lawful.said_stem hread, if_neg hkey, laid_none_left]

theorem find?_insert {upper : L.Table} (hread : L.read v = some found)
    (plain : L.isTable found = false)
    (hupper : L.ofEnv (before ++ (stemVariable, v) :: after) = .ok upper)
    (silent : ∀ w ∈ after, L.said Setting.stem.key w = none) :
    L.find? upper Setting.stem.key = some found := by
  rw [lawful.find?_ofEnv hupper, List.map_append, List.map_cons, List.foldl_append,
    List.foldl_cons, lawful.said_stem hread, if_pos rfl, lawful.laid_of_not_table plain]
  exact foldl_laid_none (List.forall_mem_map.2 silent) _

theorem setsStem_of_spells {stem : String} (h : L.Spells v stem) : L.SetsStem v stem := by
  obtain ⟨found, hread, means⟩ := h
  have plain := lawful.isTable_of_decode_stem means
  intro file before after o hstem silent
  obtain ⟨culprit, henv, henv'⟩ | ⟨upper, upper', hupper, hupper'⟩ :=
    lawful.ofEnv_insert before after hread
  · rw [load, layered, henv, load, layered, henv']
    rfl
  cases hfile : file.mapM L.file with
  | error e =>
    rw [load, layered, hupper, load, layered, hupper', hfile]
    rfl
  | ok lower =>
    refine load_congr lawful (layered_eq_ok hfile hupper) (layered_eq_ok hfile hupper') fun k => ?_
    by_cases hk : k = .stem
    · subst hk
      have hvariable := lawful.find?_layers lower upper o .stem
      rw [lawful.find?_insert hread plain hupper silent, lawful.laid_of_not_table plain,
        show Setting.stem.given o = none from congrArg (Option.map some) hstem, Option.map_none,
        laid_none_left] at hvariable
      have hoverride := lawful.find?_layers lower upper' { o with stem := some stem } .stem
      rw [show Setting.stem.given { o with stem := some stem } = some (some stem) from rfl,
        Option.map_some, lawful.laid_of_not_table (lawful.isTable_encode _ _ _)] at hoverride
      rw [reading_of_find? hvariable, means, reading_of_find? hoverride, lawful.decode_encode]
    · have hkey : Setting.stem.key ≠ k.key := fun he => hk (Setting.key_injective he).symm
      rw [reading, lawful.find?_layers, lawful.find?_insert_of_ne hread hupper hupper' hkey,
        ← Setting.given_of_ne_stem hk o (some stem), ← lawful.find?_layers, ← reading]

theorem load_override (stem : String) :
    L.load none [] { stem := some stem } = .ok { stem := some stem } ∨
      stem = "" ∧ L.load none [] { stem := some stem } = .error (.rejected .emptyStem) := by
  have layerable : L.Layerable none [] :=
    ⟨valid_none, List.forall_mem_nil _, fun _ => .nil, fun _ tables => Bool.false_ne_true tables.1⟩
  obtain ⟨t, ht, wins⟩ := lawful.exists_layered layerable { stem := some stem }
  have hextract : L.extract t = .ok { stem := some stem } := by
    rw [lawful.extract_eq_ok_iff]
    intro k
    rw [reading_of_find? (wins k), lawful.decode_winner_iff]
    cases k <;> rfl
  by_cases hstem : stem = ""
  · subst hstem
    exact .inr ⟨rfl, (load_eq_rejected_iff ht).2 ⟨_, hextract, rfl⟩⟩
  · refine .inl ((load_eq_ok_iff ht).2 ⟨hextract, ?_⟩)
    rw [Settings.check, if_neg fun he => hstem (Option.some.inj he)]
    rfl

end Lawful

theorem stem_eq_of_check {s : Settings} (h : s.check = .error .emptyStem) : s.stem = some "" := by
  by_contra hstem
  rw [Settings.check, if_neg hstem] at h
  unfold Settings.checkExactlyOnce at h
  split_ifs at h <;> cases h

theorem Lawful.spells_of_setsStem (lawful : L.Lawful) {stem : String} (h : L.SetsStem v stem) :
    L.Spells v stem := by
  -- With nothing else set, the outcome of the override tells the stem.
  have alone : L.load none [(stemVariable, v)] {} = L.load none [] { stem := some stem } :=
    h none [] [] {} rfl (List.forall_mem_nil _)
  cases hread : L.read v with
  | none =>
    have htorn : L.ofEnv [(stemVariable, v)] = .error ⟨stemVariable⟩ :=
      lawful.ofEnv_of_torn .stem (by decide +kernel) hread
    rw [load, layered, htorn] at alone
    obtain hload | ⟨-, hload⟩ := lawful.load_override stem <;> rw [hload] at alone <;> cases alone
  | some found =>
    obtain ⟨t, ht, -⟩ := lawful.ofEnv_stem hread
    have layerable : L.Layerable none [(stemVariable, v)] :=
      ⟨valid_none, List.forall_mem_cons.2 ⟨⟨t, ht⟩, List.forall_mem_nil _⟩,
        fun _ => List.pairwise_singleton _ _, fun _ tables => Bool.false_ne_true tables.2⟩
    obtain ⟨merged, hmerged, wins⟩ := lawful.exists_layered layerable {}
    obtain ⟨s, hextract, hstem⟩ : ∃ s, L.extract merged = .ok s ∧ s.stem = some stem := by
      obtain hload | ⟨rfl, hload⟩ := lawful.load_override stem <;> rw [hload] at alone
      · exact ⟨_, ((load_eq_ok_iff hmerged).1 alone).1, rfl⟩
      · obtain ⟨s, hextract, hcheck⟩ := (load_eq_rejected_iff hmerged).1 alone
        exact ⟨s, hextract, stem_eq_of_check hcheck⟩
    have hreading := (lawful.extract_eq_ok_iff merged s).1 hextract .stem
    rw [reading_of_find? (wins .stem)] at hreading
    have hwinner : L.winner none [(stemVariable, v)] {} .stem = found := by
      have hvalue : L.value? [(stemVariable, v)] Setting.stem.key = some found := by
        rw [value?, List.findSome?_cons, lawful.said_stem hread, if_pos rfl]
      rw [winner, hvalue]
      rfl
    rw [hwinner] at hreading
    exact ⟨found, hread, hreading.trans (congrArg Except.ok hstem)⟩

/-- The variable does what the override does just if its text stands for the override. A plain text does so
for itself, and every stem has a text in quotes. -/
theorem setsStem_iff_spells (lawful : L.Lawful) (texts : L.ReadsTexts) :
    (∀ v stem, L.SetsStem v stem ↔ L.Spells v stem) ∧
    (∀ v, EnvValue.Plain v → L.SetsStem v v) ∧
    ∀ stem, L.SetsStem (EnvValue.quoting stem) stem :=
  ⟨fun _ _ => ⟨lawful.spells_of_setsStem, lawful.setsStem_of_spells⟩,
    fun v h => lawful.setsStem_of_spells (texts.plain v h),
    fun stem => lawful.setsStem_of_spells (texts.quoted stem)⟩

theorem spells_of_read {text s : String}
    (h : EnvValue.read text = some (.text .environment s)) : tracked.Spells text s :=
  ⟨.text .environment s, h, rfl⟩

theorem readsTexts_tracked : tracked.ReadsTexts :=
  ⟨fun _ h => spells_of_read h.read, fun s => spells_of_read (EnvValue.read_quoting s)⟩

/-- Beside a variable for another field, a numeral is set in quotes and a plain text as it is. -/
theorem setsStem_iff_spells_numeral :
    (tracked.Lawful ∧ tracked.ReadsTexts) ∧
    tracked.Spells "\"7\"" "7" ∧ EnvValue.Plain "orders-7" ∧
      Settings.load none [(stemVariable, "\"7\""), ("TXN_RECOVERY_NAMING_STRATEGY", "pooling")] {} =
        Settings.load none [("TXN_RECOVERY_NAMING_STRATEGY", "pooling")] { stem := some "7" } ∧
      Settings.load none [(stemVariable, "orders-7"), ("TXN_RECOVERY_NAMING_STRATEGY", "pooling")] {} =
        Settings.load none [("TXN_RECOVERY_NAMING_STRATEGY", "pooling")]
          { stem := some "orders-7" } := by
  have plain : EnvValue.Plain "orders-7" := by
    refine ⟨?_, ?_, by decide, 'o', by simp, rfl⟩
    · rintro c (hc | hc) <;> cases hc <;> decide
    · rintro c hc
      cases hc
      decide
  have spells : tracked.Spells "\"7\"" "7" := spells_of_read rfl
  have silent : ∀ w ∈ [("TXN_RECOVERY_NAMING_STRATEGY", "pooling")],
      tracked.said Setting.stem.key w = none := by
    have hnaming : tracked.ofEnv [("TXN_RECOVERY_NAMING_STRATEGY", "pooling")] = _ :=
      Environment.entries_of_read .naming (by decide +kernel) rfl
    exact List.forall_mem_singleton.2 (said_of_ofEnv hnaming _)
  obtain ⟨hsets, hplain, -⟩ := setsStem_iff_spells lawful_tracked readsTexts_tracked
  exact ⟨⟨lawful_tracked, readsTexts_tracked⟩, spells, plain,
    congrArg (Except.mapError LoadFault.ofError) ((hsets _ _).2 spells none [] _ {} rfl silent),
    congrArg (Except.mapError LoadFault.ofError) (hplain _ plain none [] _ {} rfl silent)⟩

/-- A numeral is refused, blanks at the ends are lost, and a variable of the same name in other letter case
counts when it comes later. -/
theorem stem_not_verbatim :
    (Settings.load none [(stemVariable, "7")] {} =
        .error (.mistaken ⟨.mistyped (.unsigned .environment 7) "a string",
          ["transactional_id_prefix"], .environment⟩) ∧
      Settings.load none [] { stem := some "7" } = .ok { stem := some "7" }) ∧
    (Settings.load none [(stemVariable, " app")] {} = .ok { stem := some "app" } ∧
      Settings.load none [] { stem := some " app" } = .ok { stem := some " app" }) ∧
    (Settings.load none [(stemVariable, "app"), ("txn_recovery_transactional_id_prefix", "other")]
        {} = .ok { stem := some "other" } ∧
      Settings.load none [("txn_recovery_transactional_id_prefix", "other")]
        { stem := some "app" } = .ok { stem := some "app" }) := by
  have hname : Environment.lower "txn_recovery_transactional_id_prefix".toList =
      Environment.lower (Environment.variableStart ++ Setting.stem.key).toList := by
    decide +kernel
  have hnumeral : tracked.ofEnv [(stemVariable, "7")] = _ :=
    Environment.entries_of_read .stem (by decide +kernel) rfl
  have hblank : tracked.ofEnv [(stemVariable, " app")] = _ :=
    Environment.entries_of_read .stem (by decide +kernel) rfl
  have happ : tracked.ofEnv [(stemVariable, "app")] = _ :=
    Environment.entries_of_read .stem (by decide +kernel) rfl
  have hother : tracked.ofEnv [("txn_recovery_transactional_id_prefix", "other")] = _ :=
    Environment.entries_of_read .stem hname rfl
  have hboth := lawful_tracked.ofEnv_snoc [(stemVariable, "app")]
    ("txn_recovery_transactional_id_prefix", "other")
  rw [happ, hother, List.singleton_append] at hboth
  refine ⟨⟨?_, rfl⟩, ⟨?_, rfl⟩, ?_, ?_⟩
  · rw [Settings.load, load, layered, hnumeral]
    rfl
  · rw [Settings.load, load, layered, hblank]
    rfl
  · rw [Settings.load, load, layered, hboth]
    rfl
  · rw [Settings.load, load, layered, hother]
    rfl

end Layering

end SinkFencing
