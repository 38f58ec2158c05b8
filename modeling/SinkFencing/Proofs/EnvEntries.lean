import SinkFencing.Proofs.LayerLookup

namespace SinkFencing.Environment

variable {start name name' text : String} {v : Value}

theorem isBlank_of_between {c : Char} (h : 32 < c.toNat ∧ c.toNat < 133) :
    Text.isBlank c = false := by
  simp only [Text.isBlank, Text.inRanges, Text.blankRanges, List.any_cons, List.any_nil,
    Bool.or_false, Bool.or_eq_false_iff, Bool.and_eq_false_imp, decide_eq_true_eq,
    decide_eq_false_iff_not, Nat.not_le]
  omega

theorem isBlank_toLower (c : Char) : Text.isBlank c.toLower = Text.isBlank c := by
  unfold Char.toLower
  split
  · rename_i hupper
    have hbetween : 65 ≤ c.toNat ∧ c.toNat ≤ 90 := hupper
    have hlowered : (c.val + ('a'.val - 'A'.val)).toNat = c.toNat + 32 := by
      rw [UInt32.toNat_add, ← Char.toNat, show ('a'.val - 'A'.val).toNat = 32 from rfl]
      omega
    rw [isBlank_of_between (c := c) (by omega),
      isBlank_of_between (by rw [Char.toNat, hlowered]; omega)]
  · rfl

theorem lower_trim (cs : List Char) : lower (Text.trim cs) = Text.trim (lower cs) := by
  have hblank : Text.isBlank ∘ Char.toLower = Text.isBlank := funext isBlank_toLower
  simp only [lower, Text.trim, Text.trimBy, List.dropWhile_map, ← List.map_reverse, hblank]

/-- Names that differ in letter case alone set the same path. -/
theorem path?_congr (h : lower name.toList = lower name'.toList) :
    path? start name = path? start name' := by
  unfold path?
  rw [lower_trim, lower_trim, h]

theorem path?_of_field (k : Setting)
    (h : lower name.toList = lower (variableStart ++ k.key).toList) :
    path? variableStart name = some [k.key] := by
  rw [path?_congr h]
  cases k <;> decide +kernel

theorem new_merge_of_entriesOf {t : LayerTable} (h : entriesOf start name text = .ok t) :
    LayerTable.new.merge t = t := by
  unfold entriesOf at h
  split at h
  · split at h
    · cases h
      rfl
    · cases h
  · cases h
    rfl

theorem entries_singleton (start name text : String) :
    entries start [(name, text)] = entriesOf start name text := by
  rw [entries, List.foldlM_cons]
  cases h : entriesOf start name text with
  | error culprit => rfl
  | ok t => exact congrArg Except.ok (new_merge_of_entriesOf h)

theorem entries_of_read (k : Setting)
    (h : lower name.toList = lower (variableStart ++ k.key).toList)
    (hread : EnvValue.read text = some v) :
    entries variableStart [(name, text)] = .ok (.ofList [(k.key, v)]) := by
  rw [entries_singleton, entriesOf, path?_of_field k h]
  simp only [hread, nested]

theorem entries_of_torn (k : Setting)
    (h : lower name.toList = lower (variableStart ++ k.key).toList)
    (hread : EnvValue.read text = none) :
    entries variableStart [(name, text)] = .error ⟨name⟩ := by
  rw [entries_singleton, entriesOf, path?_of_field k h]
  simp only [hread]

theorem entries_snoc (start : String) (env : Environment) (w : String × String) :
    entries start (env ++ [w]) =
      (do return LayerTable.merge (← entries start env) (← entries start [w])) := by
  rw [entries_singleton, entries, List.foldlM_append, ← entries]
  simp only [List.foldlM_cons, List.foldlM_nil, bind_pure]

end SinkFencing.Environment
