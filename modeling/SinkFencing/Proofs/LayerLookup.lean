import SinkFencing.Config.Load
import SinkFencing.Proofs.LayeringLaws

namespace SinkFencing

theorem nodup_of_ascending {β : Type} {entries : List (String × β)}
    (h : entries.Pairwise fun x y => x.1 < y.1) : (entries.map Prod.fst).Nodup :=
  List.pairwise_map.2 (h.imp Std.ne_of_lt)

namespace Value

theorem onto_of_not_tables {upper lower : Value}
    (plain : ¬ (upper.isTable = true ∧ lower.isTable = true)) : onto upper lower = upper := by
  cases upper with
  | table layer entries =>
    cases lower with
    | table below inner => exact absurd ⟨rfl, rfl⟩ plain
    | _ => simp only [onto]
  | _ => simp only [onto]

theorem find?_joined {upper : List (String × Value)} (distinct : (upper.map Prod.fst).Nodup)
    (lower : List (String × Value)) (key : String) :
    Assoc.find? key (joined upper lower) =
      Layering.tracked.laid (Assoc.find? key upper : Option Value)
        (Assoc.find? key lower : Option Value) := by
  induction upper generalizing lower with
  | nil =>
    rw [joined, Assoc.find?_nil]
    exact (Layering.laid_none_left (L := .tracked) _).symm
  | cons entry upper ih =>
    obtain ⟨k, v⟩ := entry
    rw [List.map_cons, List.nodup_cons] at distinct
    rw [joined, ih distinct.2, Assoc.find?_set]
    by_cases hk : k = key
    · -- No later entry is for this key.
      have hlater : Assoc.find? key upper = none := by
        cases h : Assoc.find? key upper with
        | none => rfl
        | some found =>
          have hmem := List.mem_map_of_mem (f := Prod.fst) (Assoc.mem_of_find?_eq_some h)
          exact absurd (hk ▸ hmem) distinct.1
      rw [hlater, if_pos hk, Assoc.find?, if_pos hk, hk]
      cases Assoc.find? key lower <;> rfl
    · rw [if_neg hk, Assoc.find?, if_neg hk]

end Value

namespace LayerTable

theorem find?_merge (lower upper : LayerTable) (key : String) :
    (lower.merge upper).find? key = Layering.tracked.laid (upper.find? key) (lower.find? key) :=
  Value.find?_joined (nodup_of_ascending upper.ascending) lower.entries key

theorem find?_ofList {entries : List (String × Value)} (distinct : (entries.map Prod.fst).Nodup)
    (key : String) : (ofList entries).find? key = Assoc.find? key entries :=
  (Value.find?_joined distinct [] key).trans (Layering.laid_none_right (L := .tracked) _)

end LayerTable

end SinkFencing
