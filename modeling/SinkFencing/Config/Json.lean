import SinkFencing.Assoc
import SinkFencing.Config.Settings

namespace SinkFencing

namespace Json

def text? : Json → Option String
  | .text s => some s
  | _ => none

def texts? : Json → Option (List String)
  | .list items => items.mapM text?
  | _ => none

/-- A choice is its name, or an object with the name as its only key and nothing under it. -/
def choice? {α : Type} [Choice α] : Json → Option α
  | .text name => Choice.ofName? name
  | .object [(name, .null)] => Choice.ofName? name
  | _ => none

def optional? {α : Type} (read : Json → Option α) : Json → Option (Option α)
  | .null => some none
  | j => (read j).map some

def settingKeys : List String :=
  ["delivery_guarantee", "transactional_id_prefix", "naming_strategy", "abort_strategy", "topics",
    "previous_prefixes"]

/-- The named values of either form. Of a list, no more than the fields can be given. -/
def entries? : Json → Option (List (String × Json))
  | .object entries => some entries
  | .list items => if items.length ≤ settingKeys.length then some (settingKeys.zip items) else none
  | _ => none

def field {α : Type} (entries : List (String × Json)) (key : String) (read : Json → Option α)
    (default : α) : Option α :=
  match Assoc.find? key entries with
  | none => some default
  | some j => read j

end Json

open Json

def Settings.ofJson? (j : Json) : Option Settings := do
  let entries ← entries? j
  return {
    delivery := ← field entries "delivery_guarantee" choice? .atLeastOnce
    stem := ← field entries "transactional_id_prefix" (optional? text?) none
    naming := ← field entries "naming_strategy" choice? .incrementing
    strategy := ← field entries "abort_strategy" (optional? choice?) none
    topics := ← field entries "topics" texts? []
    previousStems := ← field entries "previous_prefixes" texts? [] }

def Overrides.ofJson? (j : Json) : Option Overrides := do
  let entries ← entries? j
  return {
    delivery := ← field entries "delivery_guarantee" (optional? choice?) none
    stem := ← field entries "transactional_id_prefix" (optional? text?) none
    naming := ← field entries "naming_strategy" (optional? choice?) none
    strategy := ← field entries "abort_strategy" (optional? choice?) none
    topics := ← field entries "topics" (optional? texts?) none
    previousStems := ← field entries "previous_prefixes" (optional? texts?) none }

end SinkFencing
