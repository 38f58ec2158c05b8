import SinkFencing.Recovery

namespace SinkFencing

/-- A pass for every client. -/
abbrev Procedure (α : Type) : Type 1 := (σ : Type) → Client σ → Pass σ α

variable {α β : Type}

/-- The procedure learns of its client only what the calls answer. -/
inductive Procedure.Plain : {α : Type} → Procedure α → Prop
  | pure {α : Type} (a : α) : Plain fun _ _ => Pure.pure a
  | fail {α : Type} (fault : Fault) : Plain (α := α) fun _ _ => Pass.fail fault
  | note (notice : Notice) : Plain fun _ _ => Pass.note notice
  | abort (id : TxnId) : Plain fun _ client => Pass.abort client id
  | list (topics : List String) : Plain fun _ client => Pass.list client topics
  | bind {α β : Type} {first : Procedure α} {next : α → Procedure β} (head : Plain first)
      (tail : ∀ a, Plain (next a)) : Plain fun σ client => first σ client >>= fun a => next a σ client

namespace Procedure.Plain

theorem ofExcept (e : Except Fault α) : Plain fun _ _ => Pass.ofExcept e := by
  cases e with
  | ok a => exact .pure a
  | error fault => exact .fail fault

theorem each {items : List α} {act : α → Procedure Unit} (h : ∀ a, Plain (act a)) :
    Plain fun σ client => Pass.each items fun a => act a σ client := by
  induction items with
  | nil => exact .pure ()
  | cons a rest ih => exact .bind (h a) fun _ => ih

theorem ite {p q : Procedure α} (c : Prop) [Decidable c] (hp : Plain p) (hq : Plain q) :
    Plain fun σ client => if c then p σ client else q σ client := by
  by_cases h : c
  · simpa only [if_pos h] using hp
  · simpa only [if_neg h] using hq

end Procedure.Plain

open Procedure

variable (scope : Scope)

theorem Probing.plain_probe (id : TxnId) : Plain fun _ client => probe client id :=
  .bind (.abort id) fun epoch => .bind (.note _) fun _ => .pure epoch

theorem Probing.plain_usedFrom (stem : String) (owner : UInt32) (sequence : UInt64) :
    Plain fun _ client => usedFrom client stem owner sequence := by
  induction sequence using usedFrom.induct with
  | case1 sequence ih =>
    simp only [usedFrom_eq _ _ _ sequence]
    refine .bind (plain_probe _) fun epoch => .ite _ (.pure 0) ?_
    cases h : nextSequence sequence with
    | none => exact .pure 1
    | some next => exact .bind (ih next h) fun used => .pure (used + 1)

theorem Probing.plain_walkOwner (stem : String) (owner : UInt32) :
    Plain fun _ client => walkOwner client scope stem owner := by
  refine .bind (plain_usedFrom stem owner scope.start) fun used => ?_
  exact .ite _ (.bind (.note _) fun _ => .pure used) (.pure used)

theorem Probing.plain_walkOwners (stem : String) (owner : UInt32) :
    Plain fun _ client => walkOwners client scope stem owner := by
  induction owner using walkOwners.induct scope with
  | case1 owner ih =>
    simp only [walkOwners_eq _ _ _ owner]
    refine .bind (plain_walkOwner scope stem owner) fun used => .ite _ (.pure ()) ?_
    cases h : scope.placement.nextOwner owner with
    | none => exact .pure ()
    | some next => exact ih next h

theorem Listing.plain_run : Plain fun _ client => Listing.run client scope := by
  refine .bind (.list scope.topics) fun names => ?_
  refine .ite _ (.pure ()) ?_
  refine .bind (.ofExcept _) fun ids => ?_
  refine .bind (.note _) fun _ => ?_
  refine .bind (.each fun id => .note _) fun _ => ?_
  exact .each fun id => .bind (.abort id) fun _ => .note _

theorem plain_pass (strategy : Strategy) : Plain fun _ client => strategy.pass client scope := by
  cases strategy with
  | probing => exact .each fun stem => Probing.plain_walkOwners scope stem _
  | listing => exact Listing.plain_run scope

end SinkFencing
