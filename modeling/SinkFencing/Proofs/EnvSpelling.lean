import Mathlib.Data.List.TakeWhile
import SinkFencing.Config.EnvValue
import SinkFencing.Proofs.Readers

namespace SinkFencing

namespace EnvValue

open Reader

def isNumeral (c : Char) : Bool :=
  isDigit c || c = '+' || c = '-' || c = '.' || c = 'e' || c = 'E'

theorem isNumeral_of_isDigit : ∀ c, isDigit c = true → isNumeral c = true := by
  intro c hc
  simp [isNumeral, hc]

theorem takes_exponent : Takes isNumeral exponent := by
  have hdigits (negative : Bool) : Takes isNumeral (do
      return signed negative (ofDigits 10 (← takeWhile1 isDigit))) :=
    (takes_takeWhile1 isNumeral_of_isDigit).bind fun digits => takes_pure _
  intro text n rest h
  match text with
  | [] =>
    cases h
    exact ⟨[], rfl, nofun⟩
  | c :: text =>
    have hunfold : exponent (c :: text) = if some c = some 'e' ∨ some c = some 'E' then (do
        let negative ← sign
        return signed negative (ofDigits 10 (← takeWhile1 isDigit)) : Reader Int) text
        else .got (0, c :: text) := by
      change (if some c = some 'e' ∨ some c = some 'E' then _ else _ : Reader Int) (c :: text) = _
      split <;> rfl
    rw [hunfold] at h
    split at h
    · rename_i hc
      have hmark : isNumeral c = true := by
        obtain hc | hc := hc <;> cases hc <;> decide
      obtain ⟨taken, rfl, htaken⟩ := ((takes_sign rfl rfl).bind hdigits) text n rest h
      exact ⟨c :: taken, rfl, List.forall_mem_cons.2 ⟨hmark, htaken⟩⟩
    · cases h
      exact ⟨[], rfl, nofun⟩

theorem takes_decimal : Takes isNumeral decimal :=
  (takes_sign rfl rfl).bind fun _ => (takes_takeWhile isNumeral_of_isDigit).bind fun _ =>
    (takes_accept rfl).bind fun _ => (takes_takeWhile isNumeral_of_isDigit).bind fun _ =>
      (takes_guard _).bind fun _ => takes_exponent.bind fun _ => takes_pure _

theorem takes_integer (minus : Bool) : Takes isNumeral (integer minus) := by
  unfold integer
  cases minus
  · exact (takes_eats (by simp [isNumeral])).bind fun _ =>
      (takes_takeWhile1 isNumeral_of_isDigit).bind fun _ => takes_pure _
  · exact (takes_accept rfl).bind fun _ =>
      (takes_takeWhile1 isNumeral_of_isDigit).bind fun _ => takes_pure _

/-- Any other character makes a text of what could be a number. -/
theorem bare_of_not_isNumeral {text : List Char} {c : Char} (hc : c ∈ text)
    (h : isNumeral c = false) : bare text = .text .environment (String.ofList text) := by
  have hnone {α : Type} {r : Reader α} (hr : Takes isNumeral r) : all? r text = none := by
    cases hall : all? r text with
    | none => rfl
    | some a =>
      have := hr.of_all? hall c hc
      rw [h] at this
      cases this
  have hunsigned : unsigned? text = none := by
    rw [unsigned?, hnone (takes_integer false)]
    rfl
  have hsigned : signed? text = none := by
    rw [signed?, hnone (takes_integer true)]
    rfl
  rw [bare, float?, hnone takes_decimal, hunsigned, hsigned]
  rfl

/-- A text that is no flag and no number, has no blank at its ends, and does not begin with a bracket or a
quote. -/
structure Plain (v : String) : Prop where
  unblank : ∀ c, v.toList.head? = some c ∨ v.toList.getLast? = some c → Text.isBlank c = false
  unopened : ∀ c, v.toList.head? = some c → c ≠ '[' ∧ c ≠ '\x7b' ∧ c ≠ '"' ∧ c ≠ '\''
  unflagged : v ≠ "true" ∧ v ≠ "false"
  worded : ∃ c ∈ v.toList, isNumeral c = false

theorem isBlank_of_isSpace {c : Char} (h : isSpace c = true) : Text.isBlank c = true := by
  simp only [isSpace, Bool.or_eq_true, decide_eq_true_eq] at h
  obtain (((rfl | rfl) | rfl) | rfl) | rfl := h <;> decide

theorem isSpace_of_isSeparator {c : Char} (h : isSeparator c = true) : isSpace c = false := by
  simp only [isSeparator, Bool.or_eq_true, decide_eq_true_eq] at h
  obtain (((rfl | rfl) | rfl) | rfl) | rfl := h <;> decide

theorem dropWhile_eq_self_of_head? {p : Char → Bool} {text : List Char}
    (h : ∀ c, text.head? = some c → p c = false) : text.dropWhile p = text := by
  cases text with
  | nil => rfl
  | cons c text => exact List.dropWhile_cons_of_neg (by simp [h c rfl])

theorem spaced_eq {α : Type} (r : Reader α) {text : List Char}
    (h : ∀ c, text.head? = some c → isSpace c = false) : spaced r text =
      (r text >>= fun got => .got (got.1, got.2.dropWhile isSpace)) := by
  change (r (text.dropWhile isSpace) >>= fun got => .got (got.1, got.2.dropWhile isSpace)) = _
  rw [dropWhile_eq_self_of_head? h]

/-- What does not begin with a bracket or a quote is a flag, or else bare up to the first separator. -/
theorem value_eq (depth : Nat) {text : List Char}
    (unblank : ∀ c, text.head? = some c → isSpace c = false)
    (unopened : ∀ c, text.head? = some c → c ≠ '[' ∧ c ≠ '\x7b' ∧ c ≠ '"' ∧ c ≠ '\'') :
    value (depth + 1) text =
      if "true".toList.isPrefixOf text then
        .got (.flag .environment true, (text.drop 4).dropWhile isSpace)
      else if "false".toList.isPrefixOf text then
        .got (.flag .environment false, (text.drop 5).dropWhile isSpace)
      else
        .got (bare (Text.trim (text.takeWhile fun c => !isSeparator c)),
          (text.dropWhile fun c => !isSeparator c).dropWhile isSpace) := by
  rw [value, spaced_eq _ unblank]
  by_cases htrue : "true".toList.isPrefixOf text = true
  · have heats : eats "true" text = .got (true, text.drop 4) := if_pos htrue
    rw [if_pos htrue, bind_of_got heats]
    rfl
  have heats : eats "true" text = .got (false, text) := if_neg htrue
  rw [if_neg htrue, bind_of_got heats, if_neg Bool.false_ne_true]
  by_cases hfalse : "false".toList.isPrefixOf text = true
  · have heats : eats "false" text = .got (true, text.drop 5) := if_pos hfalse
    rw [if_pos hfalse, bind_of_got heats]
    rfl
  have heats : eats "false" text = .got (false, text) := if_neg hfalse
  rw [if_neg hfalse, bind_of_got heats, if_neg Bool.false_ne_true]
  cases text with
  | nil => rfl
  | cons c text =>
    obtain ⟨hlist, htable, hquote, hletter⟩ := unopened c rfl
    rw [bind_of_got (show peek? (c :: text) = .got (some c, c :: text) from rfl)]
    generalize hfront : some c = front
    split
    · cases hfront
      exact absurd rfl hlist
    · cases hfront
      exact absurd rfl htable
    · cases hfront
      exact absurd rfl hquote
    · cases hfront
      exact absurd rfl hletter
    · rfl

theorem dropWhile_ne_nil {p : Char → Bool} {text : List Char} (some : text ≠ [])
    (h : ∀ c, text.getLast? = .some c → p c = false) : text.dropWhile p ≠ [] := by
  intro hall
  rw [List.dropWhile_eq_nil_iff] at hall
  have hlast := hall _ (List.getLast_mem some)
  rw [h _ (List.getLast?_eq_some_getLast some)] at hlast
  cases hlast

theorem trim_eq_self {text : List Char}
    (h : ∀ c, text.head? = some c ∨ text.getLast? = some c → Text.isBlank c = false) :
    Text.trim text = text := by
  rw [Text.trim, Text.trimBy, dropWhile_eq_self_of_head? fun c hc => h c (.inl hc),
    dropWhile_eq_self_of_head? fun c hc => h c (.inr (by rwa [List.head?_reverse] at hc)),
    List.reverse_reverse]

theorem read_of_value {v : String} {found : Value} {rest : List Char}
    (h : value (v.length + 1) v.toList = .got (found, rest)) :
    read v = some (if rest = [] then found else .text .environment v) := by
  have hall : all (value (v.length + 1)) v.toList =
      if rest = [] then .got found else .mismatch := by
    change (value (v.length + 1) v.toList >>= _) = _
    rw [h]
    cases rest <;> rfl
  rw [read, hall]
  by_cases hrest : rest = []
  · rw [if_pos hrest, if_pos hrest]
  · rw [if_neg hrest, if_neg hrest]

theorem Plain.read {v : String} (h : Plain v) : EnvValue.read v = some (.text .environment v) := by
  have unblank (c : Char) (hc : v.toList.head? = some c ∨ v.toList.getLast? = some c) :
      isSpace c = false := by
    by_contra hspace
    have hblank := isBlank_of_isSpace (eq_true_of_ne_false hspace)
    rw [h.unblank c hc] at hblank
    cases hblank
  have hvalue := value_eq v.length (fun c hc => unblank c (.inl hc)) h.unopened
  -- What follows a word at the beginning is not blank, so the text goes on.
  have longer {word : String} (other : v ≠ word) (hbegins : word.toList.isPrefixOf v.toList) :
      (v.toList.drop word.length).dropWhile isSpace ≠ [] := by
    obtain ⟨after, hafter⟩ := List.isPrefixOf_iff_prefix.1 hbegins
    rw [← hafter, ← String.length_toList, List.drop_left]
    refine dropWhile_ne_nil (fun hnil => other ?_) fun c hc => ?_
    · rw [hnil, List.append_nil] at hafter
      exact (String.toList_injective hafter).symm
    · have hlast : v.toList.getLast? = some c := by
        rw [← hafter, List.getLast?_append, hc, Option.some_or]
      exact unblank c (.inr hlast)
  by_cases htrue : "true".toList.isPrefixOf v.toList = true
  · rw [if_pos htrue] at hvalue
    rw [read_of_value hvalue]
    exact congrArg some (if_neg (longer h.unflagged.1 htrue))
  by_cases hfalse : "false".toList.isPrefixOf v.toList = true
  · rw [if_neg htrue, if_pos hfalse] at hvalue
    rw [read_of_value hvalue]
    exact congrArg some (if_neg (longer h.unflagged.2 hfalse))
  rw [if_neg htrue, if_neg hfalse] at hvalue
  rw [read_of_value hvalue]
  cases hrest : v.toList.dropWhile fun c => !isSeparator c with
  | nil =>
    obtain ⟨c, hc, word⟩ := h.worded
    have hwhole := List.takeWhile_append_dropWhile (p := fun c => !isSeparator c) (l := v.toList)
    rw [hrest, List.append_nil] at hwhole
    rw [hwhole, trim_eq_self h.unblank, bare_of_not_isNumeral hc word, String.ofList_toList]
    rfl
  | cons c rest =>
    have hseparator := List.head?_dropWhile_not (fun c => !isSeparator c) v.toList
    rw [hrest] at hseparator
    have hkept : (c :: rest).dropWhile isSpace = c :: rest := dropWhile_eq_self_of_head? <| by
      rintro _ ⟨⟩
      exact isSpace_of_isSeparator (by simpa using hseparator)
    rw [hkept]
    rfl

def hexDigits : Nat → Nat → List Char
  | 0, _ => []
  | k + 1, n => hexDigits k (n / 16) ++ [Nat.digitChar (n % 16)]

def escape (c : Char) : List Char := '\\' :: 'U' :: hexDigits 8 c.toNat

/-- A text in quotes, with every character escaped. -/
def quoting (w : String) : String := String.ofList ('"' :: (w.toList.flatMap escape ++ ['"']))

theorem digitChar_spec : ∀ d < 16, isHexDigit (Nat.digitChar d) = true ∧
    digitValue (Nat.digitChar d) = d := by
  decide

theorem length_hexDigits (k n : Nat) : (hexDigits k n).length = k := by
  induction k generalizing n with
  | zero => rfl
  | succ k ih => rw [hexDigits, List.length_append, ih, List.length_singleton]

theorem isHexDigit_of_mem {k n : Nat} {c : Char} (h : c ∈ hexDigits k n) : isHexDigit c = true := by
  induction k generalizing n with
  | zero => cases h
  | succ k ih =>
    obtain h | h := List.mem_append.1 h
    · exact ih h
    · rw [List.mem_singleton.1 h]
      exact (digitChar_spec _ (Nat.mod_lt n (by decide))).1

theorem ofDigits_hexDigits {n : Nat} (h : n < 0x100000000) : ofDigits 16 (hexDigits 8 n) = n := by
  have last (digits : List Char) (m : Nat) :
      ofDigits 16 (digits ++ [Nat.digitChar (m % 16)]) = 16 * ofDigits 16 digits + m % 16 := by
    rw [ofDigits, List.foldl_append, ← ofDigits, List.foldl_cons, List.foldl_nil,
      (digitChar_spec _ (Nat.mod_lt m (by decide))).2]
  simp only [hexDigits, last]
  simp only [ofDigits, List.foldl_nil]
  omega

theorem scalar?_toNat (c : Char) : scalar? c.toNat = some c := by
  have hvalid : c.toNat < 0xd800 ∨ (0xdfff < c.toNat ∧ c.toNat < 0x110000) := c.valid
  rw [scalar?, if_pos hvalid, Char.ofNat_toNat]

theorem hexScalar_eq_got {digits : Nat} {code : List Char} {c : Char} (rest : List Char)
    (length : code.length = digits) (hex : ∀ d ∈ code, isHexDigit d = true)
    (hc : scalar? (ofDigits 16 code) = some c) :
    hexScalar digits (code ++ rest) = .got (c, rest) := by
  subst length
  have htake : (code ++ rest).take code.length = code := List.take_left
  have hdrop : (code ++ rest).drop code.length = rest := List.drop_left
  rw [hexScalar, bind_of_got (show Reader.rest _ = .got (_, _) from rfl), htake, hdrop, guard,
    if_pos ⟨rfl, List.all_eq_true.2 hex⟩, hc]
  rfl

theorem innerChar_eq (text : List Char) : innerChar ('\\' :: 'U' :: text) =
    (hexScalar 8 text >>= fun got => .got (some got.1, got.2)) := rfl

theorem innerChar_escape (c : Char) (rest : List Char) :
    innerChar (escape c ++ rest) = .got (some c, rest) := by
  have hcode : ofDigits 16 (hexDigits 8 c.toNat) = c.toNat := by
    have hvalid : c.toNat < 0xd800 ∨ (0xdfff < c.toNat ∧ c.toNat < 0x110000) := c.valid
    exact ofDigits_hexDigits (by omega)
  have hread := hexScalar_eq_got rest (length_hexDigits 8 c.toNat) (fun _ => isHexDigit_of_mem)
    (by rw [hcode, scalar?_toNat])
  rw [escape, List.cons_append, List.cons_append, innerChar_eq, hread]
  rfl

theorem upTo_innerChar (cs : List Char) {n : Nat} (h : cs.length < n) :
    upTo innerChar n (cs.flatMap escape) = .got (cs, []) := by
  induction cs generalizing n with
  | nil =>
    cases n with
    | zero => cases h
    | succ n => rfl
  | cons c cs ih =>
    cases n with
    | zero => cases h
    | succ n =>
      rw [List.flatMap_cons, upTo, bind_of_got (innerChar_escape c _)]
      dsimp only
      rw [bind_of_got (ih (Nat.lt_of_succ_lt_succ h))]
      rfl

theorem length_le_flatMap_escape (cs : List Char) : cs.length ≤ (cs.flatMap escape).length := by
  induction cs with
  | nil => exact Nat.le_refl 0
  | cons c cs ih =>
    rw [List.flatMap_cons, List.length_append, List.length_cons, escape, List.length_cons]
    omega

theorem inner_escaped (cs : List Char) :
    inner (cs.flatMap escape) = .got (String.ofList cs, []) := by
  cases cs with
  | nil => rfl
  | cons c cs =>
    have hrepeated : repeated innerChar ((c :: cs).flatMap escape) = .got (c :: cs, []) :=
      upTo_innerChar (c :: cs) (Nat.lt_succ_of_le (length_le_flatMap_escape _))
    -- Nothing stands before the first escape, so nothing is cut.
    obtain ⟨text, htext⟩ : ∃ text, (c :: cs).flatMap escape = '\\' :: text := ⟨_, rfl⟩
    rw [htext] at hrepeated ⊢
    rw [inner, bind_of_got (show takeWhile _ _ = .got ([], '\\' :: text) from rfl),
      bind_of_got (show peek? _ = .got (some '\\', _) from rfl), if_pos rfl,
      bind_of_got (show cut [] _ = .got ([], _) from rfl), bind_of_got hrepeated]
    rfl

theorem splitAtQuote_append {front rest inner after : List Char}
    (plain : ∀ c ∈ front, c ≠ '"' ∧ c ≠ '\\') (h : splitAtQuote rest = some (inner, after)) :
    splitAtQuote (front ++ rest) = some (front ++ inner, after) := by
  induction front with
  | nil => exact h
  | cons c front ih =>
    obtain ⟨hquote, hslash⟩ := plain c List.mem_cons_self
    rw [List.cons_append, splitAtQuote, ih fun d hd => plain d (List.mem_cons_of_mem c hd)]
    · rfl
    · exact hquote
    · exact fun _ _ he _ => hslash he

theorem splitAtQuote_escaped (cs rest : List Char) :
    splitAtQuote (cs.flatMap escape ++ '"' :: rest) = some (cs.flatMap escape, rest) := by
  induction cs with
  | nil => rfl
  | cons c cs ih =>
    have plain : ∀ d ∈ hexDigits 8 c.toNat, d ≠ '"' ∧ d ≠ '\\' := fun d hd => by
      constructor <;> rintro rfl <;> exact absurd (isHexDigit_of_mem hd) (by decide)
    have hdigits := splitAtQuote_append plain ih
    rw [List.flatMap_cons, escape, List.append_assoc, List.cons_append, List.cons_append,
      splitAtQuote, hdigits]
    rfl

theorem quoted_escaped (cs : List Char) :
    quoted ('"' :: (cs.flatMap escape ++ ['"'])) = .got (String.ofList cs, []) := by
  have hsplit : untilQuote (cs.flatMap escape ++ ['"']) = .got (cs.flatMap escape, []) := by
    rw [untilQuote, splitAtQuote_escaped]
    rfl
  have hall : all inner (cs.flatMap escape) = .got (String.ofList cs) :=
    all_eq_got_iff.2 (inner_escaped cs)
  rw [quoted, bind_of_got (show accept '"' _ = .got ((), _) from rfl), bind_of_got hsplit, hall]
  rfl

theorem read_quoting (w : String) : EnvValue.read (quoting w) = some (.text .environment w) := by
  have hvalue : value ((quoting w).length + 1) ('"' :: (w.toList.flatMap escape ++ ['"'])) =
      .got (.text .environment w, []) := by
    rw [value, spaced_eq _ (by rintro _ ⟨⟩; rfl),
      bind_of_got (show eats "true" _ = .got (false, _) from rfl), if_neg Bool.false_ne_true,
      bind_of_got (show eats "false" _ = .got (false, _) from rfl), if_neg Bool.false_ne_true,
      bind_of_got (show peek? _ = .got (some '"', _) from rfl)]
    change ((quoted >>= fun s => pure (.text .environment s) : Reader Value) _ >>= _) = _
    rw [bind_of_got (quoted_escaped _), String.ofList_toList]
    rfl
  rw [read_of_value (v := quoting w) (by rw [quoting, String.toList_ofList]; exact hvalue)]
  rfl

end EnvValue

end SinkFencing
