import SinkFencing.Fault

namespace SinkFencing

structure TxnId where
  text : String
deriving DecidableEq

namespace TxnId

instance : LT TxnId := ⟨fun a b => a.text < b.text⟩
instance : LE TxnId := ⟨fun a b => a.text ≤ b.text⟩
instance : DecidableLT TxnId := fun a b => inferInstanceAs (Decidable (a.text < b.text))
instance : ToString TxnId := ⟨text⟩

theorem ext_of_text {a b : TxnId} (h : a.text = b.text) : a = b := by cases a; cases b; simp_all

instance : Std.IsLinearOrder TxnId where
  le_refl _ := Std.le_refl (α := String) _
  le_trans _ _ _ h h' := Std.le_trans (α := String) h h'
  le_antisymm _ _ h h' := ext_of_text (Std.le_antisymm h h')
  le_total _ _ := Std.le_total (α := String)

instance : Std.LawfulOrderLT TxnId where
  lt_iff _ _ := Std.LawfulOrderLT.lt_iff (α := String) _ _

structure Parts where
  stem : String
  owner : UInt32
  sequence : UInt64
deriving DecidableEq

def separator : Char := '-'

def compose (stem : String) (owner : UInt32) (sequence : UInt64) : TxnId :=
  ⟨stem ++ "-" ++ owner.toNat.repr ++ "-" ++ sequence.toNat.repr⟩

def Parts.compose (p : Parts) : TxnId := TxnId.compose p.stem p.owner p.sequence

/-- Composes from unchecked integers; the owner is checked before the sequence. -/
def ofInts (stem : String) (owner sequence : Int) : Except Fault TxnId :=
  if owner < 0 ∨ (UInt32.size : Int) ≤ owner then .error (.refused (.ownerRange owner))
  else if sequence < 0 ∨ (UInt64.size : Int) ≤ sequence then
    .error (.refused (.negativeSequence sequence))
  else .ok (compose stem (.ofNat owner.toNat) (.ofNat sequence.toNat))

/-- The texts before and after the last `c`. -/
def splitLast (c : Char) : List Char → Option (List Char × List Char)
  | [] => none
  | x :: rest =>
    match splitLast c rest with
    | some (before, after) => some (x :: before, after)
    | none => if x = c then some ([], rest) else none

theorem splitLast_of_not_mem {c : Char} {s : List Char} (h : c ∉ s) : splitLast c s = none := by
  induction s with
  | nil => rfl
  | cons x rest ih =>
    have hx : x ≠ c := fun e => h (e ▸ List.mem_cons_self)
    rw [splitLast, ih fun hc => h (List.mem_cons_of_mem _ hc)]
    simp [hx]

theorem not_mem_of_splitLast {c : Char} {s : List Char} (h : splitLast c s = none) : c ∉ s := by
  induction s with
  | nil => simp
  | cons x rest ih =>
    rw [splitLast] at h
    split at h
    · cases h
    · rename_i hnone
      split at h
      · cases h
      · rename_i hx
        simp [ih hnone, Ne.symm hx]

theorem splitLast_append {c : Char} {before after : List Char} (h : c ∉ after) :
    splitLast c (before ++ c :: after) = some (before, after) := by
  induction before with
  | nil => simp [splitLast, splitLast_of_not_mem h]
  | cons x before ih => rw [List.cons_append, splitLast, ih]

theorem eq_append_of_splitLast {c : Char} {s before after : List Char}
    (h : splitLast c s = some (before, after)) : s = before ++ c :: after ∧ c ∉ after := by
  induction s generalizing before after with
  | nil => simp [splitLast] at h
  | cons x rest ih =>
    rw [splitLast] at h
    split at h
    · rename_i hrest
      obtain ⟨rfl, hc⟩ := ih hrest
      cases h
      exact ⟨rfl, hc⟩
    · rename_i hnone
      split at h
      · rename_i hx
        cases h
        exact ⟨by rw [hx]; rfl, not_mem_of_splitLast hnone⟩
      · cases h

/-- The value of a numeral below `bound`. Leading zeros are allowed, signs are not. -/
def readNumber (number : IdNumber) (bound : Nat) (token : List Char) : Except Malformation Nat :=
  if token ≠ [] ∧ token.all Char.isDigit then
    let n := Nat.ofDigitChars 10 token 0
    if n < bound then .ok n else .error (.outOfRange number (String.ofList token))
  else .error (.notNumeral number (String.ofList token))

theorem separator_not_mem_repr (n : Nat) : separator ∉ n.repr.toList := by
  rw [Nat.toList_repr]
  intro h
  have := Nat.isDigit_of_mem_toDigits (by decide) (by decide) h
  revert this
  decide

theorem readNumber_repr {number : IdNumber} {bound n : Nat} (h : n < bound) :
    readNumber number bound n.repr.toList = .ok n := by
  have hdigits : (Nat.toDigits 10 n).all Char.isDigit :=
    List.all_eq_true.2 fun c hc => Nat.isDigit_of_mem_toDigits (by decide) (by decide) hc
  rw [readNumber, Nat.toList_repr, if_pos ⟨Nat.toDigits_ne_nil, hdigits⟩,
    Nat.ofDigitChars_ten_toDigits]
  simp [h]

/-- The owner is read before the sequence, so of two bad numbers the owner is reported. -/
def Parts.ofTokens (stem owner sequence : List Char) : Except Malformation Parts := do
  let o ← readNumber .owner UInt32.size owner
  let s ← readNumber .sequence UInt64.size sequence
  return ⟨String.ofList stem, .ofNat o, .ofNat s⟩

def Parts.ofChars (raw : List Char) : Except Malformation Parts :=
  match splitLast separator raw with
  | none => .error .tooFewParts
  | some (front, sequence) =>
    match splitLast separator front with
    | none => .error .tooFewParts
    | some (stem, owner) => Parts.ofTokens stem owner sequence

def Parts.read (raw : String) : Except Fault Parts :=
  (Parts.ofChars raw.toList).mapError (.malformed raw)

/-- The parts of an id whose text was never checked. -/
def parts (id : TxnId) : Except Fault Parts := Parts.read id.text

/-- Accepts a text that has parts, and keeps it as it stands. -/
def parse (raw : String) : Except Fault TxnId := (Parts.read raw).map fun _ => ⟨raw⟩

def parse? (raw : String) : Option TxnId := (parse raw).toOption

theorem toList_compose (stem : String) (owner : UInt32) (sequence : UInt64) :
    (compose stem owner sequence).text.toList =
      (stem.toList ++ separator :: owner.toNat.repr.toList) ++
        separator :: sequence.toNat.repr.toList := by
  simp [compose, String.toList_append, separator]

theorem parts_compose (stem : String) (owner : UInt32) (sequence : UInt64) :
    (compose stem owner sequence).parts = .ok ⟨stem, owner, sequence⟩ := by
  have : Parts.ofChars (compose stem owner sequence).text.toList = .ok ⟨stem, owner, sequence⟩ := by
    rw [toList_compose, Parts.ofChars, splitLast_append (separator_not_mem_repr _)]
    simp only [splitLast_append (separator_not_mem_repr _)]
    rw [Parts.ofTokens, readNumber_repr owner.toNat_lt, readNumber_repr sequence.toNat_lt]
    simp [bind, Except.bind, pure, Except.pure, String.ofList_toList]
  exact congrArg (Except.mapError _) this

end TxnId

end SinkFencing
