import SinkFencing.Proofs.TxnIdGrammar

namespace SinkFencing.TxnId

/-- The decimal digits of `n` behind so many zeros. -/
def zeroPadded (zeros n : Nat) : List Char := List.replicate zeros '0' ++ Nat.toDigits 10 n

/-- The composed id with zeros put in front of its owner and of its sequence. -/
def Parts.padded (p : Parts) (ownerZeros sequenceZeros : Nat) : TxnId :=
  ⟨p.stem ++ "-" ++ String.ofList (zeroPadded ownerZeros p.owner.toNat) ++ "-" ++
    String.ofList (zeroPadded sequenceZeros p.sequence.toNat)⟩

theorem zeroPadded_left_inj {n zeros zeros' : Nat} :
    zeroPadded zeros n = zeroPadded zeros' n ↔ zeros = zeros' := by
  constructor
  · intro h
    simpa [zeroPadded] using congrArg List.length h
  · intro h
    rw [h]

theorem digit_of_isDigit {c : Char} (h : c.isDigit = true) :
    c.toNat - '0'.toNat < 10 ∧ Nat.toDigits 10 (c.toNat - '0'.toNat) = [c] := by
  have hzero : '0'.toNat = 48 := rfl
  have hrange : 48 ≤ c.val ∧ c.val ≤ 57 := by simpa [Char.isDigit] using h
  have hlo : 48 ≤ c.toNat := UInt32.le_iff_toNat_le.1 hrange.1
  have hhi : c.toNat ≤ 57 := UInt32.le_iff_toNat_le.1 hrange.2
  have hlt : c.toNat - '0'.toNat < 10 := by omega
  refine ⟨hlt, ?_⟩
  rw [Nat.toDigits_of_lt_base hlt, List.singleton_inj]
  apply Char.toNat_inj.1
  rw [Nat.toNat_digitChar_of_lt_ten hlt]
  omega

namespace Numeral

variable {token : List Char} {n : Nat}

theorem exists_zeros (h : Numeral token n) : ∃ zeros, token = TxnId.zeroPadded zeros n := by
  simp only [TxnId.zeroPadded]
  induction h with
  | @digit c isDigit => exact ⟨0, (digit_of_isDigit isDigit).2.symm⟩
  | @snoc front n c _ isDigit ih =>
    obtain ⟨zeros, rfl⟩ := ih
    obtain ⟨hlt, hlast⟩ := digit_of_isDigit isDigit
    rcases Nat.eq_zero_or_pos n with rfl | pos
    · -- All digits so far are zeros, and the only one of the number comes next.
      refine ⟨zeros + 1, ?_⟩
      rw [Nat.mul_zero, Nat.zero_add, hlast, List.replicate_succ', Nat.toDigits_zero]
    · refine ⟨zeros, ?_⟩
      rw [List.append_assoc, ← hlast, Nat.toDigits_append_toDigits (by decide) pos hlt]

theorem zeroPadded (zeros n : Nat) : Numeral (TxnId.zeroPadded zeros n) n := by
  have some : TxnId.zeroPadded zeros n ≠ [] := by simp [TxnId.zeroPadded, Nat.toDigits_ne_nil]
  have digits : ∀ c ∈ TxnId.zeroPadded zeros n, c.isDigit = true := by
    intro c hc
    rcases List.mem_append.1 hc with hc | hc
    · rw [List.eq_of_mem_replicate hc]
      rfl
    · exact Nat.isDigit_of_mem_toDigits (by decide) (by decide) hc
  have value : Nat.ofDigitChars 10 (TxnId.zeroPadded zeros n) 0 = n := by
    rw [TxnId.zeroPadded, Nat.ofDigitChars_append, Nat.ofDigitChars_replicate_zero, Nat.mul_zero,
      Nat.ofDigitChars_ten_toDigits]
  have h := Numeral.of_digits some digits
  rwa [value] at h

end Numeral

namespace Parts

variable {p : Parts}

theorem padded_zero (p : Parts) : p.padded 0 0 = p.compose := by
  simp [padded, zeroPadded, Parts.compose, TxnId.compose, Nat.repr_eq_ofList_toDigits]

theorem written_iff_padded {raw : String} : Written raw p ↔ ∃ i j, raw = (p.padded i j).text := by
  constructor
  · intro h
    obtain ⟨owner, sequence, howner, hsequence, hraw⟩ := h
    obtain ⟨i, hi⟩ := howner.exists_zeros
    obtain ⟨j, hj⟩ := hsequence.exists_zeros
    refine ⟨i, j, ?_⟩
    rw [hraw, padded, ← hi, ← hj, String.ofList_toList, String.ofList_toList]
  · intro h
    obtain ⟨i, j, hraw⟩ := h
    refine ⟨_, _, ?_, ?_, hraw⟩
    · rw [String.toList_ofList]
      exact .zeroPadded i _
    · rw [String.toList_ofList]
      exact .zeroPadded j _

theorem toList_padded (p : Parts) (i j : Nat) : (p.padded i j).text.toList =
    (p.stem.toList ++ separator :: zeroPadded i p.owner.toNat) ++
      separator :: zeroPadded j p.sequence.toNat := by
  simp [padded, String.toList_append, separator]

end Parts

theorem parts_eq_ok_iff {id : TxnId} {p : Parts} :
    id.parts = .ok p ↔ ∃ i j, id = p.padded i j := by
  rw [parts, Parts.read_eq_ok_iff, Parts.written_iff_padded]
  constructor
  · intro h
    obtain ⟨i, j, htext⟩ := h
    exact ⟨i, j, ext_of_text htext⟩
  · intro h
    obtain ⟨i, j, rfl⟩ := h
    exact ⟨i, j, rfl⟩

theorem Parts.padded_inj {p q : Parts} {i j i' j' : Nat} :
    p.padded i j = q.padded i' j' ↔ p = q ∧ i = i' ∧ j = j' := by
  constructor
  · intro h
    have hp : (p.padded i j).parts = .ok p := parts_eq_ok_iff.2 ⟨i, j, rfl⟩
    have hq : (q.padded i' j').parts = .ok q := parts_eq_ok_iff.2 ⟨i', j', rfl⟩
    rw [h, hq] at hp
    cases hp
    -- The numerals hold no separator, so they are found again in the text.
    have hsplit := congrArg (fun id : TxnId => splitLast separator id.text.toList) h
    simp only [toList_padded] at hsplit
    rw [splitLast_append (Numeral.zeroPadded _ _).separator_not_mem,
      splitLast_append (Numeral.zeroPadded _ _).separator_not_mem] at hsplit
    obtain ⟨howner, hsequence⟩ := Prod.mk.inj (Option.some.inj hsplit)
    have howner := List.cons.inj (List.append_cancel_left howner)
    exact ⟨rfl, zeroPadded_left_inj.1 howner.2, zeroPadded_left_inj.1 hsequence⟩
  · intro h
    obtain ⟨rfl, rfl, rfl⟩ := h
    rfl

/-- A text is accepted just if it is that of a composed id, up to zeros in front of the two numbers, and it has
the parts that this one is composed from. It is regenerated from them just if there are no such zeros, and
equal to another id with these parts just if both have as many. -/
theorem regenerated_but_for_zeros (raw : String) :
    (∀ id, parse raw = .ok id ↔ id.text = raw ∧ ∃ (p : Parts) (i j : Nat), id = p.padded i j) ∧
    ∀ (p : Parts) (i j : Nat), raw = (p.padded i j).text →
      (⟨raw⟩ : TxnId).parts = .ok p ∧ (p.compose.text = raw ↔ i = 0 ∧ j = 0) ∧
      ∀ other : TxnId, other.parts = .ok p →
        ∃ i' j', other = p.padded i' j' ∧ (other.text = raw ↔ i' = i ∧ j' = j) := by
  refine ⟨fun id => ?_, fun p i j hraw => ?_⟩
  · rw [parse_eq_ok_iff]
    refine and_congr_right fun htext => exists_congr fun p => ?_
    rw [← htext]
    exact parts_eq_ok_iff
  · subst hraw
    have same {i' j' : Nat} : (p.padded i' j').text = (p.padded i j).text ↔ i' = i ∧ j' = j := by
      rw [← TxnId.mk.injEq, Parts.padded_inj]
      exact and_iff_right rfl
    refine ⟨parts_eq_ok_iff.2 ⟨i, j, rfl⟩, ?_, fun other hother => ?_⟩
    · rw [← Parts.padded_zero, same, eq_comm, @eq_comm _ 0 j]
    · obtain ⟨i', j', rfl⟩ := parts_eq_ok_iff.1 hother
      exact ⟨i', j', rfl, same⟩

/-- An id with a zero in front is accepted, and has the parts of the id without. -/
theorem leading_zero_not_regenerated :
    let id : TxnId := ⟨"app-0-00"⟩
    let p : Parts := ⟨"app", 0, 0⟩
    parse "app-0-00" = .ok id ∧ id.parts = .ok p ∧ p.compose.parts = .ok p ∧
      p.compose.text = "app-0-0" ∧ p.compose ≠ id := by
  intro id p
  have hparts : id.parts = .ok p := parts_eq_ok_iff.2 ⟨0, 1, by decide⟩
  exact ⟨rfl, hparts, parts_compose _ _ _, by decide, by decide⟩

end SinkFencing.TxnId
