import Mathlib.Data.Option.Basic
import SinkFencing.Text.Reader

namespace SinkFencing

theorem Reading.bind_eq_got_iff {α β : Type} {r : Reading α} {f : α → Reading β} {b : β} :
    (r >>= f) = .got b ↔ ∃ a, r = .got a ∧ f a = .got b := by
  cases r with
  | got a =>
    constructor
    · intro h
      exact ⟨a, rfl, h⟩
    · rintro ⟨_, ⟨⟩, h⟩
      exact h
  | mismatch => exact ⟨nofun, fun ⟨_, h, _⟩ => nomatch h⟩
  | torn => exact ⟨nofun, fun ⟨_, h, _⟩ => nomatch h⟩

namespace Reader

variable {α β : Type}

theorem bind_eq_got_iff {r : Reader α} {f : α → Reader β} {text rest : List Char} {b : β} :
    (r >>= f) text = .got (b, rest) ↔
      ∃ a between, r text = .got (a, between) ∧ f a between = .got (b, rest) := by
  change (r text >>= fun got => f got.1 got.2) = _ ↔ _
  rw [Reading.bind_eq_got_iff, Prod.exists]

theorem bind_of_got {r : Reader α} {text rest : List Char} {a : α} (h : r text = .got (a, rest))
    (f : α → Reader β) : (r >>= f) text = f a rest := by
  change (r text >>= fun got => f got.1 got.2) = _
  rw [h]
  rfl

theorem all_eq_got_iff {r : Reader α} {text : List Char} {a : α} :
    all r text = .got a ↔ r text = .got (a, []) := by
  change (r text >>= fun got => do guard got.2.isEmpty; return got.1) = _ ↔ _
  rw [Reading.bind_eq_got_iff, Prod.exists]
  constructor
  · rintro ⟨found, rest, hread, h⟩
    cases rest with
    | nil =>
      cases h
      exact hread
    | cons c rest => cases h
  · intro h
    exact ⟨a, [], h, rfl⟩

theorem all?_eq_some_iff {r : Reader α} {text : List Char} {a : α} :
    all? r text = some a ↔ r text = .got (a, []) := by
  rw [← all_eq_got_iff, all?]
  cases all r text <;> simp [Reading.value?]

section Takes

variable {p q : Char → Bool}

/-- Whatever the reader takes of a text consists of characters of this kind. -/
def Takes (p : Char → Bool) (r : Reader α) : Prop :=
  ∀ text a rest, r text = .got (a, rest) → ∃ taken, text = taken ++ rest ∧ ∀ c ∈ taken, p c = true

theorem Takes.bind {r : Reader α} {f : α → Reader β} (hr : Takes p r) (hf : ∀ a, Takes p (f a)) :
    Takes p (r >>= f) := by
  intro text b rest h
  obtain ⟨a, between, hread, hnext⟩ := bind_eq_got_iff.1 h
  obtain ⟨first, rfl, hfirst⟩ := hr text a between hread
  obtain ⟨second, rfl, hsecond⟩ := hf a between b rest hnext
  exact ⟨first ++ second, (List.append_assoc _ _ _).symm,
    List.forall_mem_append.2 ⟨hfirst, hsecond⟩⟩

theorem takes_pure (a : α) : Takes p (pure a : Reader α) := by
  rintro text _ _ ⟨⟩
  exact ⟨[], rfl, nofun⟩

theorem takes_guard (P : Prop) [Decidable P] : Takes p (guard P : Reader Unit) := by
  intro text a rest h
  by_cases hP : P
  · simp only [guard, if_pos hP] at h
    exact takes_pure () text a rest h
  · simp only [guard, if_neg hP] at h
    cases h

theorem takes_eats {s : String} (h : ∀ c ∈ s.toList, p c = true) : Takes p (eats s) := by
  intro text a rest heats
  unfold eats at heats
  split at heats
  · rename_i hbegins
    cases heats
    obtain ⟨after, rfl⟩ := List.isPrefixOf_iff_prefix.1 hbegins
    exact ⟨s.toList, by rw [← String.length_toList, List.drop_left], h⟩
  · cases heats
    exact ⟨[], rfl, nofun⟩

theorem takes_takeWhile (h : ∀ c, q c = true → p c = true) : Takes p (takeWhile q) := by
  rintro text _ _ ⟨⟩
  exact ⟨text.takeWhile q, List.takeWhile_append_dropWhile.symm, fun c hc =>
    h c (List.all_eq_true.1 List.all_takeWhile c hc)⟩

theorem takes_takeWhile1 (h : ∀ c, q c = true → p c = true) : Takes p (takeWhile1 q) :=
  (takes_takeWhile h).bind fun taken => (takes_guard _).bind fun _ => takes_pure taken

theorem takes_satisfy (h : ∀ c, q c = true → p c = true) : Takes p (satisfy q) := by
  intro text c rest hsatisfy
  match text with
  | [] => cases hsatisfy
  | d :: text =>
    simp only [satisfy] at hsatisfy
    split at hsatisfy
    · rename_i hd
      cases hsatisfy
      exact ⟨[c], rfl, by simpa using h c hd⟩
    · cases hsatisfy

theorem takes_accept {c : Char} (h : p c = true) : Takes p (accept c) :=
  (takes_satisfy fun d hd => by rwa [of_decide_eq_true hd]).bind fun _ => takes_pure ()

/-- A text that is read as a whole consists of such characters. -/
theorem Takes.of_all? {r : Reader α} (hr : Takes p r) {text : List Char} {a : α}
    (h : all? r text = some a) : ∀ c ∈ text, p c = true := by
  obtain ⟨taken, rfl, htaken⟩ := hr text a [] (all?_eq_some_iff.1 h)
  rwa [List.append_nil]

theorem takes_sign (plus : p '+' = true) (minus : p '-' = true) : Takes p sign := by
  unfold sign
  refine (takes_eats (by simpa using minus)).bind fun negative => ?_
  cases negative
  · exact (takes_eats (by simpa using plus)).bind fun _ => takes_pure _
  · exact takes_pure _

end Takes

end Reader

end SinkFencing
