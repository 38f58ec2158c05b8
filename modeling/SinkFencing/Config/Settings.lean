import SinkFencing.Ascending
import SinkFencing.Json
import SinkFencing.Strategy

namespace SinkFencing

inductive Delivery
  /-- Fire and forget. -/
  | none
  /-- Flushed on checkpoints, with duplicates after a failure. -/
  | atLeastOnce
  /-- Inside broker transactions that are committed when a checkpoint completes. -/
  | exactlyOnce
deriving DecidableEq, Inhabited

instance : Choice Delivery :=
  ⟨"DeliveryGuarantee",
    [("none", .none), ("at-least-once", .atLeastOnce), ("exactly-once", .exactlyOnce)]⟩

def Delivery.name (d : Delivery) : String := Choice.nameOf d

structure Settings where
  delivery : Delivery := .atLeastOnce
  /-- The stem of the ids that the sink opens. -/
  stem : Option String := none
  naming : Naming := .incrementing
  /-- Replaces the strategy that the naming implies. -/
  strategy : Option Strategy := none
  topics : List String := []
  /-- Stems of earlier runs of the job. -/
  previousStems : List String := []
deriving DecidableEq, Inhabited

inductive Rejection
  | emptyStem
  | missingStem
  | emptyPreviousStem
  | pooledProbing
  | listingWithoutTopic
deriving DecidableEq

def Rejection.reason : Rejection → String
  | .emptyStem => "transactional_id_prefix must not be empty"
  | .missingStem => "exactly-once delivery requires transactional_id_prefix"
  | .emptyPreviousStem => "previous_prefixes must not be empty"
  | .pooledProbing => "pooling naming reuses slots and requires the listing abort strategy"
  | .listingWithoutTopic => "listing abort strategy requires at least one topic"

namespace Settings

def effectiveStrategy (s : Settings) : Strategy := s.strategy.getD s.naming.strategy

def isTransactional (s : Settings) : Bool := s.delivery = .exactlyOnce

def knownStems (s : Settings) : Ascending String := .ofList (s.stem.toList ++ s.previousStems)

def checkExactlyOnce (s : Settings) : Except Rejection Unit :=
  if s.stem = none then .error .missingStem
  else if "" ∈ s.previousStems then .error .emptyPreviousStem
  else if s.naming = .pooling ∧ s.effectiveStrategy = .probing then .error .pooledProbing
  else if s.effectiveStrategy = .listing ∧ s.topics = [] then .error .listingWithoutTopic
  else .ok ()

/-- An empty stem is refused whatever the delivery; all else concerns transactions alone. -/
def check (s : Settings) : Except Rejection Unit :=
  if s.stem = some "" then .error .emptyStem
  else if s.isTransactional then s.checkExactlyOnce
  else .ok ()

def toJson (s : Settings) : Json :=
  .object
    [("delivery_guarantee", .text s.delivery.name),
      ("transactional_id_prefix", (s.stem.map Json.text).getD .null),
      ("naming_strategy", .text s.naming.name),
      ("abort_strategy", (s.strategy.map fun strategy => Json.text strategy.name).getD .null),
      ("topics", .ofTexts s.topics),
      ("previous_prefixes", .ofTexts s.previousStems)]

end Settings

/-- Settings that replace others one by one, where they are given. -/
structure Overrides where
  delivery : Option Delivery := none
  stem : Option String := none
  naming : Option Naming := none
  strategy : Option Strategy := none
  topics : Option (List String) := none
  previousStems : Option (List String) := none
deriving DecidableEq, Inhabited

end SinkFencing
