import Mathlib.Logic.Basic
import SinkFencing.Proofs.TxnIdGrammar
import SinkFencing.Tool.Outcome

namespace SinkFencing

namespace Json

theorem shortEscape_inj {c c' short : Char} (h : shortEscape? c = some short)
    (h' : shortEscape? c' = some short) : c = c' := by
  unfold shortEscape? at h
  split at h <;> cases h <;> (unfold shortEscape? at h'; split at h' <;> simp_all)

theorem shortEscape_ne_u {c short : Char} (h : shortEscape? c = some short) : short ≠ 'u' := by
  unfold shortEscape? at h
  split at h <;> cases h <;> decide

theorem ne_of_shortEscape_eq_none {c : Char} (h : shortEscape? c = none) : c ≠ '"' ∧ c ≠ '\\' := by
  constructor <;> rintro rfl <;> cases h

theorem escapeChar_cases (c : Char) :
    (∃ short, shortEscape? c = some short ∧ escapeChar c = ['\\', short]) ∨
    (c.toNat < 0x20 ∧ escapeChar c = '\\' :: 'u' :: '0' :: '0' :: hexPair c.toNat) ∨
    (c ≠ '"' ∧ c ≠ '\\' ∧ escapeChar c = [c]) := by
  unfold escapeChar
  cases h : shortEscape? c with
  | some short => exact .inl ⟨short, rfl, rfl⟩
  | none =>
    by_cases hc : c.toNat < 0x20
    · exact .inr (.inl ⟨hc, by simp [hc]⟩)
    · obtain ⟨hquote, hslash⟩ := ne_of_shortEscape_eq_none h
      exact .inr (.inr ⟨hquote, hslash, by simp [hc]⟩)

theorem hexPair_inj : ∀ n < 0x20, ∀ m < 0x20, hexPair n = hexPair m → n = m := by decide

/-- No escape is the beginning of another one. -/
theorem escapeChar_append_inj {c c' : Char} {rest rest' : List Char}
    (h : escapeChar c ++ rest = escapeChar c' ++ rest') : c = c' ∧ rest = rest' := by
  obtain ⟨short, hc, he⟩ | ⟨hc, he⟩ | ⟨-, hc, he⟩ := escapeChar_cases c <;>
    obtain ⟨short', hc', he'⟩ | ⟨hc', he'⟩ | ⟨-, hc', he'⟩ := escapeChar_cases c' <;>
    rw [he, he'] at h <;>
    simp only [List.cons_append, List.nil_append, List.cons.injEq, true_and] at h
  · exact ⟨shortEscape_inj hc (h.1 ▸ hc'), h.2⟩
  · exact absurd h.1 (shortEscape_ne_u hc)
  · exact absurd h.1.symm hc'
  · exact absurd h.1.symm (shortEscape_ne_u hc')
  · obtain ⟨hpair, hrest⟩ := List.append_inj h rfl
    exact ⟨Char.toNat_inj.1 (hexPair_inj _ hc _ hc' hpair), hrest⟩
  · exact absurd h.1.symm hc'
  · exact absurd h.1 hc
  · exact absurd h.1 hc
  · exact h

theorem quote_not_head_escapeChar {c : Char} {rest rest' : List Char} :
    '"' :: rest ≠ escapeChar c ++ rest' := by
  intro h
  obtain ⟨short, -, he⟩ | ⟨-, he⟩ | ⟨hc, -, he⟩ := escapeChar_cases c <;>
    rw [he, List.cons_append, List.cons.injEq] at h
  · exact absurd h.1 (by decide)
  · exact absurd h.1 (by decide)
  · exact hc h.1.symm

theorem escaped_append_quote_inj {s s' rest rest' : List Char}
    (h : s.flatMap escapeChar ++ '"' :: rest = s'.flatMap escapeChar ++ '"' :: rest') :
    s = s' ∧ rest = rest' := by
  induction s generalizing s' with
  | nil =>
    cases s' with
    | nil => simpa using h
    | cons c' s' =>
      rw [List.flatMap_nil, List.nil_append, List.flatMap_cons, List.append_assoc] at h
      exact absurd h quote_not_head_escapeChar
  | cons c s ih =>
    cases s' with
    | nil =>
      rw [List.flatMap_nil, List.nil_append, List.flatMap_cons, List.append_assoc] at h
      exact absurd h.symm quote_not_head_escapeChar
    | cons c' s' =>
      simp only [List.flatMap_cons, List.append_assoc] at h
      obtain ⟨rfl, htail⟩ := escapeChar_append_inj h
      obtain ⟨rfl, hrest⟩ := ih htail
      exact ⟨rfl, hrest⟩

end Json

theorem isDigit_of_mem_repr {n : Nat} : ∀ c ∈ n.repr.toList, c.isDigit = true := by
  intro c hc
  rw [Nat.toList_repr] at hc
  exact Nat.isDigit_of_mem_toDigits (by decide) (by decide) hc

theorem repr_append_inj {n m : Nat} {c : Char} {rest rest' : List Char} (hc : c.isDigit = false)
    (h : n.repr.toList ++ c :: rest = m.repr.toList ++ c :: rest') : n = m ∧ rest = rest' := by
  have hdigits := congrArg (List.takeWhile Char.isDigit) h
  rw [List.takeWhile_append_of_pos isDigit_of_mem_repr,
    List.takeWhile_append_of_pos isDigit_of_mem_repr, List.takeWhile_cons_of_neg (by simp [hc]),
    List.takeWhile_cons_of_neg (by simp [hc]), List.append_nil, List.append_nil] at hdigits
  have hvalue := congrArg (Nat.ofDigitChars 10 · 0) hdigits
  simp only [Nat.toList_repr, Nat.ofDigitChars_ten_toDigits] at hvalue
  rw [hdigits] at h
  exact ⟨hvalue, (List.cons.inj (List.append_cancel_left h)).2⟩

namespace Tool

theorem toList_partsJson (p : TxnId.Parts) : (partsJson p).compact.toList =
    "\x7b\"owner\":".toList ++ (p.owner.toNat.repr.toList ++ ',' :: ("\"prefix\":\"".toList ++
      (p.stem.toList.flatMap Json.escapeChar ++ '"' :: (",\"sequence\":".toList ++
        (p.sequence.toNat.repr.toList ++ ['\x7d']))))) := by
  simp [partsJson, Json.compact, Json.compactEntries, Json.ofNat, Json.atom?, Json.quoted,
    Json.escapeChar, Json.shortEscape?]

theorem partsJson_inj {p q : TxnId.Parts} (h : (partsJson p).compact = (partsJson q).compact) :
    p = q := by
  have htext := congrArg String.toList h
  rw [toList_partsJson, toList_partsJson] at htext
  obtain ⟨howner, htext⟩ := repr_append_inj (by decide) (List.append_cancel_left htext)
  obtain ⟨hstem, htext⟩ := Json.escaped_append_quote_inj (List.append_cancel_left htext)
  obtain ⟨hsequence, -⟩ := repr_append_inj (by decide) (List.append_cancel_left htext)
  cases p
  cases q
  rw [TxnId.Parts.mk.injEq]
  exact ⟨String.toList_inj.1 hstem, UInt32.toNat_inj.1 howner, UInt64.toNat_inj.1 hsequence⟩

def outcome (files : String → Option FileText) (host : Host) (args : List String) : Outcome :=
  .ofAnswer (Id.run (invoke (m := Id) files host args))

variable {files : String → Option FileText} {host : Host} {args : List String}

theorem ofAnswer_eq_printed_iff {answer : Except Failure Answer} {s : String} :
    Outcome.ofAnswer answer = ⟨0, s ++ "\n", ""⟩ ↔ answer = .ok (.text s) := by
  constructor
  · intro h
    match answer with
    | .ok .help => exact absurd (Outcome.mk.inj h).2.2 (by simp [help])
    | .ok (.text found) =>
      have htext : found ++ "\n" = s ++ "\n" := (Outcome.mk.inj h).2.1
      rw [(String.append_left_inj _).1 htext]
    | .error failure =>
      have hcode : failure.code = 0 := (Outcome.mk.inj h).1
      unfold Failure.code at hcode
      split at hcode <;> cases hcode
  · rintro rfl
    rfl

theorem mapError_eq_ok_iff {ε ε' α : Type} {x : Except ε α} {f : ε → ε'} {a : α} :
    x.mapError f = .ok a ↔ x = .ok a := by
  cases x with
  | error fault =>
    change Except.error _ = _ ↔ _
    simp only [reduceCtorEq]
  | ok found =>
    change Except.ok _ = _ ↔ _
    simp only [Except.ok.injEq]

theorem requiredNumber_eq_ok_iff {α : Type} {read : String → Except IntegerFault α} {flag : String}
    {n : α} : Command.requiredNumber read flag args = .ok n ↔
      ∃ text, Command.valueOf? flag args = some text ∧ read text = .ok n := by
  unfold Command.requiredNumber Command.required
  cases Command.valueOf? flag args with
  | none => simp [bind, Except.bind]
  | some text =>
    change (read text).mapError _ = .ok n ↔ _
    simp only [mapError_eq_ok_iff, Option.some.injEq, exists_eq_left']

theorem ofArgs_eq_build {env : Environment} {command : Command} (named : args.head? = some "build")
    (h : Command.ofArgs args env = .ok command) : command = .help ∨
      ∃ stem owner sequence, command = .build stem owner sequence ∧
        Command.valueOf? "--prefix" args = some stem ∧
        Command.requiredNumber Integer.readInt64 "--owner" args = .ok owner ∧
        Command.requiredNumber Integer.readInt64 "--sequence" args = .ok sequence := by
  unfold Command.ofArgs at h
  split at h
  · exact .inl (Except.ok.inj h).symm
  · rw [named] at h
    unfold Command.required at h
    cases hstem : Command.valueOf? "--prefix" args with
    | none => rw [hstem] at h; cases h
    | some stem =>
      cases howner : Command.requiredNumber Integer.readInt64 "--owner" args with
      | error fault => rw [hstem, howner] at h; cases h
      | ok owner =>
        cases hsequence : Command.requiredNumber Integer.readInt64 "--sequence" args with
        | error fault => rw [hstem, howner, hsequence] at h; cases h
        | ok sequence =>
          rw [hstem, howner, hsequence] at h
          exact .inr ⟨stem, owner, sequence, (Except.ok.inj h).symm, rfl, rfl, rfl⟩

theorem buildAnswer_eq_ok {stem id : String} {owner sequence : Int}
    (h : buildAnswer stem owner sequence = .ok id) : ∃ (o : UInt32) (s : UInt64),
      owner = o.toNat ∧ sequence = s.toNat ∧ id = (TxnId.compose stem o s).text := by
  unfold buildAnswer TxnId.ofInts at h
  split at h
  · cases h
  split at h
  · cases h
  rename_i howner hsequence
  refine ⟨.ofNat owner.toNat, .ofNat sequence.toNat, ?_, ?_, (Except.ok.inj h).symm⟩
  · rw [UInt32.toNat_ofNat_of_lt' (by omega)]
    omega
  · rw [UInt64.toNat_ofNat_of_lt' (by omega)]
    omega

theorem build_of_prints {id : String} (named : args.head? = some "build")
    (printed : outcome files host args = ⟨0, id ++ "\n", ""⟩) : ∃ parts : TxnId.Parts,
      Command.valueOf? "--prefix" args = some parts.stem ∧
      Command.requiredNumber Integer.readInt64 "--owner" args = .ok (parts.owner.toNat : Int) ∧
      Command.requiredNumber Integer.readInt64 "--sequence" args =
        .ok (parts.sequence.toNat : Int) ∧
      id = parts.compose.text := by
  have answered := ofAnswer_eq_printed_iff.1 printed
  unfold invoke at answered
  cases hcommand : Command.ofArgs args host.env with
  | error fault => rw [hcommand] at answered; cases answered
  | ok command =>
    rw [hcommand] at answered
    obtain rfl | ⟨stem, owner, sequence, rfl, hstem, howner, hsequence⟩ :=
      ofArgs_eq_build named hcommand
    · cases answered
    · change (buildAnswer stem owner sequence).map Answer.text = .ok (.text id) at answered
      cases hbuilt : buildAnswer stem owner sequence with
      | error failure => rw [hbuilt] at answered; cases answered
      | ok built =>
        rw [hbuilt] at answered
        cases answered
        obtain ⟨o, s, rfl, rfl, hid⟩ := buildAnswer_eq_ok hbuilt
        exact ⟨⟨stem, o, s⟩, hstem, howner, hsequence, hid⟩

theorem startsWith_dash_iff {s : String} : s.startsWith "-" = true ↔ s.toList.head? = some '-' := by
  rw [String.startsWith_string_iff]
  cases s.toList <;> simp [eq_comm]

/-- A composed id begins like a flag just if its stem does or there is no stem. -/
theorem compose_startsWith_dash_iff (p : TxnId.Parts) : p.compose.text.startsWith "-" = true ↔
    p.stem = "" ∨ p.stem.startsWith "-" = true := by
  rw [startsWith_dash_iff, startsWith_dash_iff, TxnId.Parts.compose, TxnId.toList_compose,
    ← String.toList_inj]
  cases p.stem.toList <;> simp [TxnId.separator]

theorem ne_help_of_parts {raw : String} {parts : TxnId.Parts}
    (h : (⟨raw⟩ : TxnId).parts = .ok parts) : "-h" ≠ raw ∧ "--help" ≠ raw := by
  constructor <;> rintro rfl <;> cases h

theorem outcome_parse {raw : String} {parts : TxnId.Parts}
    (h : (⟨raw⟩ : TxnId).parts = .ok parts) : outcome files host ["parse", raw] =
      if raw.startsWith "-" then ⟨1, "", "Error: parse requires an id\n"⟩
      else ⟨0, (partsJson parts).compact ++ "\n", ""⟩ := by
  obtain ⟨hshort, hlong⟩ := ne_help_of_parts h
  have hcommand : Command.ofArgs ["parse", raw] host.env =
      (Command.idArgument "parse" ["parse", raw]).map .parse := by
    unfold Command.ofArgs
    rw [if_neg (by simp [hshort, hlong])]
    rfl
  unfold outcome invoke
  by_cases dashed : raw.startsWith "-" = true
  · rw [hcommand, Command.idArgument, if_pos dashed, if_pos dashed]
    rfl
  · rw [hcommand, Command.idArgument, if_neg dashed, if_neg dashed]
    have hread : TxnId.Parts.read raw = .ok parts := h
    have hparse : TxnId.parse raw = .ok ⟨raw⟩ := TxnId.parse_eq_ok_iff.2 ⟨rfl, parts, hread⟩
    have hanswer : parseAnswer raw = .ok (partsJson parts).compact := by
      unfold parseAnswer
      rw [hparse]
      change ((⟨raw⟩ : TxnId).parts.mapError Failure.refused >>= _) = _
      rw [h]
      rfl
    change Outcome.ofAnswer ((parseAnswer raw).map Answer.text) = _
    rw [hanswer]
    rfl

/-- Where `build` prints an id, `parse` prints the parts that were given, from which no others are printed
alike, just if the stem is not empty and does not begin with a dash. Of another id it sees no argument. -/
theorem parse_undoes_build {id : String} (named : args.head? = some "build")
    (printed : outcome files host args = ⟨0, id ++ "\n", ""⟩) : ∃ parts : TxnId.Parts,
      Command.valueOf? "--prefix" args = some parts.stem ∧
      (∃ text, Command.valueOf? "--owner" args = some text ∧
        Integer.readInt64 text = .ok (parts.owner.toNat : Int)) ∧
      (∃ text, Command.valueOf? "--sequence" args = some text ∧
        Integer.readInt64 text = .ok (parts.sequence.toNat : Int)) ∧
      id = parts.compose.text ∧
      (∀ (files' : String → Option FileText) (host' : Host),
        outcome files' host' ["parse", id] =
          if parts.stem = "" ∨ parts.stem.startsWith "-" then
            ⟨1, "", "Error: parse requires an id\n"⟩
          else ⟨0, (partsJson parts).compact ++ "\n", ""⟩) ∧
      ∀ other : TxnId.Parts, (partsJson other).compact = (partsJson parts).compact → other = parts := by
  obtain ⟨parts, hstem, howner, hsequence, rfl⟩ := build_of_prints named printed
  refine ⟨parts, hstem, requiredNumber_eq_ok_iff.1 howner, requiredNumber_eq_ok_iff.1 hsequence, rfl,
    fun files' host' => ?_, fun other => partsJson_inj⟩
  have hparts : parts.compose.parts = .ok parts := TxnId.parts_compose _ _ _
  exact (outcome_parse hparts).trans (if_congr (compose_startsWith_dash_iff parts) rfl rfl)

/-- The flags stand in another order, and the numbers have a sign and zeros in front. -/
theorem parse_undoes_build_reordered :
    let files : String → Option FileText := fun _ => none
    let host : Host := ⟨[], "/"⟩
    let args := ["build", "--owner", "+7", "--sequence", "007", "--prefix", "a-1"]
    args.head? = some "build" ∧ outcome files host args = ⟨0, "a-1-7-7" ++ "\n", ""⟩ ∧
      outcome files host ["parse", "a-1-7-7"] =
        ⟨0, "\x7b\"owner\":7,\"prefix\":\"a-1\",\"sequence\":7\x7d\n", ""⟩ := by
  intro files host args
  have named : args.head? = some "build" := rfl
  have printed : outcome files host args = ⟨0, "a-1-7-7" ++ "\n", ""⟩ := rfl
  obtain ⟨parts, -, -, -, hid, hparse, -⟩ := parse_undoes_build named printed
  obtain rfl : (⟨"a-1", 7, 7⟩ : TxnId.Parts) = parts :=
    TxnId.Parts.compose_injective (TxnId.ext_of_text hid)
  have plain : ¬ ("a-1" = "" ∨ "a-1".startsWith "-" = true) := by
    rw [startsWith_dash_iff]
    decide
  exact ⟨named, printed, (hparse files host).trans (if_neg plain)⟩

/-- An id that begins with a dash is printed and not read. -/
theorem dashed_id_refused :
    let files : String → Option FileText := fun _ => none
    let host : Host := ⟨[], "/"⟩
    outcome files host ["build", "--prefix", "-app", "--owner", "0", "--sequence", "0"] =
        ⟨0, "-app-0-0\n", ""⟩ ∧
      outcome files host ["parse", "-app-0-0"] = ⟨1, "", "Error: parse requires an id\n"⟩ := by
  intro files host
  have hparts : (TxnId.compose "-app" 0 0).parts = .ok ⟨"-app", 0, 0⟩ := TxnId.parts_compose _ _ _
  refine ⟨rfl, (outcome_parse hparts).trans (if_pos ?_)⟩
  rw [startsWith_dash_iff]
  rfl

end Tool

end SinkFencing
