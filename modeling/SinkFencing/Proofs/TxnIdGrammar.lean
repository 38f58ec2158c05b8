import SinkFencing.Proofs.TxnIdOrder

namespace SinkFencing.TxnId

/-- The decimal numerals and their values. -/
inductive Numeral : List Char → Nat → Prop
  | digit {c : Char} (isDigit : c.isDigit = true) : Numeral [c] (c.toNat - '0'.toNat)
  | snoc {front : List Char} {n : Nat} {c : Char} (number : Numeral front n)
      (isDigit : c.isDigit = true) : Numeral (front ++ [c]) (10 * n + (c.toNat - '0'.toNat))

namespace Numeral

variable {front rest token : List Char} {n : Nat}

theorem ne_nil (h : Numeral token n) : token ≠ [] := by
  cases h <;> simp

theorem isDigit_of_mem (h : Numeral token n) {c : Char} (hc : c ∈ token) : c.isDigit = true := by
  induction h with
  | digit isDigit =>
    rw [List.mem_singleton.1 hc]
    exact isDigit
  | snoc _ isDigit ih =>
    rcases List.mem_append.1 hc with hc | hc
    · exact ih hc
    · rw [List.mem_singleton.1 hc]
      exact isDigit

theorem separator_not_mem (h : Numeral token n) : separator ∉ token := by
  intro hc
  have := h.isDigit_of_mem hc
  revert this
  decide

theorem eq_ofDigitChars (h : Numeral token n) : n = Nat.ofDigitChars 10 token 0 := by
  induction h with
  | digit => simp [Nat.ofDigitChars_cons]
  | snoc _ _ ih =>
    rw [Nat.ofDigitChars_append, ← ih]
    simp [Nat.ofDigitChars_cons]

theorem append (h : Numeral front n) (digits : ∀ c ∈ rest, c.isDigit = true) :
    Numeral (front ++ rest) (Nat.ofDigitChars 10 rest n) := by
  induction rest generalizing front n with
  | nil => simpa using h
  | cons c rest ih =>
    have hnext := h.snoc (digits c List.mem_cons_self)
    have := ih hnext fun d hd => digits d (List.mem_cons_of_mem c hd)
    simpa [Nat.ofDigitChars_cons] using this

theorem of_digits (some : token ≠ []) (digits : ∀ c ∈ token, c.isDigit = true) :
    Numeral token (Nat.ofDigitChars 10 token 0) := by
  cases token with
  | nil => exact absurd rfl some
  | cons c rest =>
    have hfirst : Numeral [c] (c.toNat - '0'.toNat) := .digit (digits c List.mem_cons_self)
    have := hfirst.append fun d hd => digits d (List.mem_cons_of_mem c hd)
    simpa [Nat.ofDigitChars_cons] using this

end Numeral

theorem readNumber_eq_ok_iff {number : IdNumber} {bound n : Nat} {token : List Char} :
    readNumber number bound token = .ok n ↔ Numeral token n ∧ n < bound := by
  constructor
  · intro h
    rw [readNumber] at h
    split at h
    · rename_i hdigits
      obtain ⟨some, digits⟩ := hdigits
      dsimp only at h
      split at h
      · rename_i hlt
        cases h
        exact ⟨.of_digits some (List.all_eq_true.1 digits), hlt⟩
      · cases h
    · cases h
  · intro h
    obtain ⟨numeral, hlt⟩ := h
    have digits : token.all Char.isDigit = true :=
      List.all_eq_true.2 fun c hc => numeral.isDigit_of_mem hc
    rw [readNumber, if_pos ⟨numeral.ne_nil, digits⟩]
    simp only [← numeral.eq_ofDigitChars, if_pos hlt]

theorem Parts.ofTokens_eq_ok_iff {stem owner sequence : List Char} {parts : Parts} :
    Parts.ofTokens stem owner sequence = .ok parts ↔ parts.stem = String.ofList stem ∧
      Numeral owner parts.owner.toNat ∧ Numeral sequence parts.sequence.toNat := by
  constructor
  · intro h
    rw [ofTokens] at h
    cases ho : readNumber .owner UInt32.size owner with
    | error why => rw [ho] at h; cases h
    | ok o =>
      cases hs : readNumber .sequence UInt64.size sequence with
      | error why => rw [ho, hs] at h; cases h
      | ok s =>
        rw [ho, hs] at h
        have he : (⟨String.ofList stem, .ofNat o, .ofNat s⟩ : Parts) = parts := Except.ok.inj h
        obtain ⟨howner, holt⟩ := readNumber_eq_ok_iff.1 ho
        obtain ⟨hsequence, hslt⟩ := readNumber_eq_ok_iff.1 hs
        have howner' : (UInt32.ofNat o).toNat = o := UInt32.toNat_ofNat_of_lt' holt
        have hsequence' : (UInt64.ofNat s).toNat = s := UInt64.toNat_ofNat_of_lt' hslt
        rw [← he, howner', hsequence']
        exact ⟨rfl, howner, hsequence⟩
  · intro h
    obtain ⟨hstem, howner, hsequence⟩ := h
    have ho : readNumber .owner UInt32.size owner = .ok parts.owner.toNat :=
      readNumber_eq_ok_iff.2 ⟨howner, parts.owner.toNat_lt_size⟩
    have hs : readNumber .sequence UInt64.size sequence = .ok parts.sequence.toNat :=
      readNumber_eq_ok_iff.2 ⟨hsequence, parts.sequence.toNat_lt_size⟩
    rw [ofTokens, ho, hs, ← hstem]
    simp [bind, Except.bind, pure, Except.pure]

theorem Parts.ofChars_eq_ok_iff {raw : List Char} {parts : Parts} :
    Parts.ofChars raw = .ok parts ↔ ∃ owner sequence, Numeral owner parts.owner.toNat ∧
      Numeral sequence parts.sequence.toNat ∧
      raw = (parts.stem.toList ++ separator :: owner) ++ separator :: sequence := by
  constructor
  · intro h
    rw [ofChars] at h
    split at h
    · cases h
    · rename_i front sequence hfront
      split at h
      · cases h
      · rename_i stem owner hstem
        obtain ⟨hraw, -⟩ := eq_append_of_splitLast hfront
        obtain ⟨hfront, -⟩ := eq_append_of_splitLast hstem
        obtain ⟨hparts, howner, hsequence⟩ := ofTokens_eq_ok_iff.1 h
        refine ⟨owner, sequence, howner, hsequence, ?_⟩
        rw [hparts, String.toList_ofList, hraw, hfront]
  · intro h
    obtain ⟨owner, sequence, howner, hsequence, hraw⟩ := h
    rw [hraw, ofChars, splitLast_append hsequence.separator_not_mem]
    simp only [splitLast_append howner.separator_not_mem]
    exact ofTokens_eq_ok_iff.2 ⟨String.ofList_toList.symm, howner, hsequence⟩

/-- The text is a stem and two numerals, which are those of the parts. -/
def Written (raw : String) (parts : Parts) : Prop :=
  ∃ owner sequence : String, Numeral owner.toList parts.owner.toNat ∧
    Numeral sequence.toList parts.sequence.toNat ∧
    raw = parts.stem ++ "-" ++ owner ++ "-" ++ sequence

theorem Parts.read_eq_ok_iff {raw : String} {parts : Parts} :
    Parts.read raw = .ok parts ↔ Written raw parts := by
  have hread : Parts.read raw = .ok parts ↔ Parts.ofChars raw.toList = .ok parts := by
    rw [read]
    cases Parts.ofChars raw.toList with
    | error why =>
      refine iff_of_false (fun h => ?_) fun h => ?_
      · cases h
      · cases h
    | ok found =>
      constructor
      · intro h
        exact congrArg Except.ok (Except.ok.inj h)
      · intro h
        exact congrArg Except.ok (Except.ok.inj h)
  rw [hread, ofChars_eq_ok_iff, Written]
  constructor
  · intro h
    obtain ⟨owner, sequence, howner, hsequence, hraw⟩ := h
    refine ⟨String.ofList owner, String.ofList sequence, ?_, ?_, ?_⟩
    · rw [String.toList_ofList]
      exact howner
    · rw [String.toList_ofList]
      exact hsequence
    · rw [← String.toList_inj, hraw]
      simp [String.toList_append, separator]
  · intro h
    obtain ⟨owner, sequence, howner, hsequence, hraw⟩ := h
    refine ⟨owner.toList, sequence.toList, howner, hsequence, ?_⟩
    rw [hraw]
    simp [String.toList_append, separator]

theorem Parts.malformed_of_read {raw : String} {fault : Fault} (h : Parts.read raw = .error fault) :
    ∃ why, fault = .malformed raw why := by
  rw [read] at h
  cases hc : Parts.ofChars raw.toList with
  | ok parts => rw [hc] at h; cases h
  | error why => rw [hc] at h; exact ⟨why, (Except.error.inj h).symm⟩

theorem parse_eq_ok_iff {raw : String} {id : TxnId} :
    parse raw = .ok id ↔ id.text = raw ∧ ∃ parts, Parts.read raw = .ok parts := by
  rw [parse]
  cases Parts.read raw with
  | error fault => simp [Except.map]
  | ok parts =>
    have hid : (⟨raw⟩ : TxnId) = id ↔ id.text = raw :=
      ⟨fun he => he ▸ rfl, fun htext => ext_of_text htext.symm⟩
    simp [Except.map, hid]

theorem parse_eq_error_iff {raw : String} {fault : Fault} :
    parse raw = .error fault ↔ Parts.read raw = .error fault := by
  rw [parse]
  cases Parts.read raw <;> simp [Except.map]

/-- The texts that have parts are just those of the grammar, each with the parts it is written from, and any
other text is refused by its name. What was composed has the parts it was composed from. An id that is
accepted keeps its text. -/
theorem read_exact :
    (∀ raw parts, Parts.read raw = .ok parts ↔ Written raw parts) ∧
    (∀ raw, (∃ why, Parts.read raw = .error (.malformed raw why)) ↔ ∀ parts, ¬ Written raw parts) ∧
    (∀ stem owner sequence,
      (compose stem owner sequence).parts = .ok ⟨stem, owner, sequence⟩) ∧
    Function.Injective Parts.compose ∧
    (∀ raw id, parse raw = .ok id ↔ id.text = raw ∧ ∃ parts, Written raw parts) ∧
    (∀ raw fault, parse raw = .error fault ↔ Parts.read raw = .error fault) := by
  refine ⟨fun raw parts => Parts.read_eq_ok_iff, fun raw => ?_, parts_compose,
    Parts.compose_injective, fun raw id => ?_, fun raw fault => parse_eq_error_iff⟩
  · simp only [← Parts.read_eq_ok_iff]
    cases h : Parts.read raw with
    | ok parts => simp
    | error fault =>
      obtain ⟨why, hfault⟩ := Parts.malformed_of_read h
      simp [hfault]
  · simp only [← Parts.read_eq_ok_iff]
    exact parse_eq_ok_iff

example : Parts.read "a-1-00-007" = .ok ⟨"a-1", 0, 7⟩ := rfl

example : Parts.read "app-0-+2" = .error (.malformed "app-0-+2" (.notNumeral .sequence "+2")) := rfl

end SinkFencing.TxnId
