import CLangExamples.Http.Config

/-!
# The numbers of the configuration

`parse_ull` is to take decimal numerals and nothing else, and `config_init_port` those up to 65535. `parse_ull` takes what
`strtoull` makes of the front of a string, so it keeps to this exactly on numerals and on the strings that `strtoull` itself
refuses or converts to `ULLONG_MAX`.
-/

namespace CLangExamples.Http

open CString Strtoul

/-- A row of decimal digits. -/
def IsNumeral (s : CString) : Prop := s.bytes ≠ [] ∧ ∀ b ∈ s.bytes, isdigit b = true

/-- What `parse_ull` is to do with a string. -/
structure ParseUllLaw (setsEinval : Bool) (s : CString) : Prop where
  accepts : IsNumeral s → digitsValue s.bytes < ulongMax →
    ∀ output, parseUll setsEinval s output = (.ok, BitVec.ofNat 64 (digitsValue s.bytes))
  rejects : ¬(IsNumeral s ∧ digitsValue s.bytes < ulongMax) → ∀ output, parseUll setsEinval s output = (.err, output)

/-- What `config_init_port` is to do when `HTTP_SERVER_PORT` is a string. -/
structure PortLaw (setsEinval : Bool) (s : CString) : Prop where
  accepts : IsNumeral s → digitsValue s.bytes ≤ 65535 →
    ∀ uninit env config, env "HTTP_SERVER_PORT" = some s →
      configInitPort setsEinval uninit env config =
        ⟨.ok, [], { config with serverPort := BitVec.ofNat 16 (digitsValue s.bytes) }⟩
  rejects : ¬(IsNumeral s ∧ digitsValue s.bytes ≤ 65535) →
    ∀ uninit env config, env "HTTP_SERVER_PORT" = some s →
      configInitPort setsEinval uninit env config =
          ⟨.err, ["HTTP_SERVER_PORT: bad value: Not a Number"], config⟩ ∨
        configInitPort setsEinval uninit env config =
          ⟨.err, ["HTTP_SERVER_PORT: bad value: value is too big"], config⟩

namespace HttpConfigAux

variable {setsEinval : Bool} {s : CString}

/-- What `strtoull` refuses or converts to `ULLONG_MAX`, `parse_ull` refuses, and writes nothing. -/
theorem parseUll_of_refused (h : Refused setsEinval s.bytes) (output : BitVec 64) :
    parseUll setsEinval s output = (.err, output) := by
  unfold parseUll
  exact if_pos ((strtoul_refused_iff setsEinval s.bytes).2 h)

theorem parseUll_of_not_refused (h : ¬Refused setsEinval s.bytes) (output : BitVec 64) :
    parseUll setsEinval s output = (.ok, BitVec.ofNat 64 (strtoul setsEinval s.bytes).value) := by
  unfold parseUll
  exact if_neg fun hrefused => h ((strtoul_refused_iff setsEinval s.bytes).1 hrefused)

/-- A numeral is all digits. -/
theorem leading_of_numeral (h : IsNumeral s) : leadingDigits s.bytes = s.bytes ∧ leadingMinus s.bytes = false := by
  obtain ⟨b, t, hbytes⟩ := List.exists_cons_of_ne_nil h.1
  obtain ⟨hspace, hminus, hplus⟩ := isdigit_first (h.2 b (by simp [hbytes]))
  have hsign : readSign (s.bytes.dropWhile isspace) = (false, s.bytes) := by
    rw [hbytes, List.dropWhile_cons_of_neg (by simp [hspace]), readSign, if_neg hminus, if_neg hplus]
  unfold leadingDigits leadingMinus
  rw [hsign]
  exact ⟨List.takeWhile_eq_self_iff.2 h.2, rfl⟩

/-- A numeral is refused exactly from `ULLONG_MAX` on. -/
theorem refused_numeral_iff (h : IsNumeral s) : Refused setsEinval s.bytes ↔ ¬digitsValue s.bytes < ulongMax := by
  obtain ⟨hdigits, hminus⟩ := leading_of_numeral h
  unfold Refused
  rw [hdigits, hminus]
  simp only [h.1, false_and, false_or, Bool.false_eq_true, if_false]
  omega

/-- A numeral below `ULLONG_MAX` is parsed. -/
theorem parseUll_numeral (h : IsNumeral s) (hlt : digitsValue s.bytes < ulongMax) (output : BitVec 64) :
    parseUll setsEinval s output = (.ok, BitVec.ofNat 64 (digitsValue s.bytes)) := by
  have hnot : ¬Refused setsEinval s.bytes := by
    rw [refused_numeral_iff h]
    exact not_not.2 hlt
  rw [parseUll_of_not_refused hnot, strtoul_digits setsEinval h.2 h.1 (Nat.le_of_lt hlt)]

theorem parseUllLaw_iff : ParseUllLaw setsEinval s ↔ IsNumeral s ∨ Refused setsEinval s.bytes := by
  constructor
  · intro hlaw
    by_cases hnumeral : IsNumeral s
    · exact Or.inl hnumeral
    · refine Or.inr ?_
      by_contra hnot
      have hrejects := hlaw.rejects (fun h => hnumeral h.1) 0
      rw [parseUll_of_not_refused hnot] at hrejects
      cases hrejects
  · intro h
    refine ⟨parseUll_numeral, ?_⟩
    intro hnot output
    refine parseUll_of_refused ?_ output
    rcases h with hnumeral | hrefused
    · exact (refused_numeral_iff hnumeral).2 fun hlt => hnot ⟨hnumeral, hlt⟩
    · exact hrefused

/-! ## The numbers -/

section

variable {key notANumber : String} {default : BitVec 64} {max : Option Nat} {set : Config → BitVec 64 → Config}
  {uninit : BitVec 64} {env : Environment} {config : Config}

/-- A number of the configuration when `parse_ull` fails. -/
theorem number_of_err (henv : env key = some s) (h : parseUll setsEinval s uninit = (.err, uninit)) :
    configInitNumber key notANumber default max set setsEinval uninit env config = ⟨.err, [key ++ notANumber], config⟩ := by
  rw [configInitNumber, henv]
  simp only
  rw [h]
  rfl

/-- A number of the configuration when `parse_ull` gives one. -/
theorem number_of_ok {value : BitVec 64} (henv : env key = some s) (h : parseUll setsEinval s uninit = (.ok, value)) :
    configInitNumber key notANumber default max set setsEinval uninit env config =
      if max.any (value.toNat > ·) then ⟨.err, [key ++ ": bad value: value is too big"], config⟩
      else ⟨.ok, [], set config value⟩ := by
  rw [configInitNumber, henv]
  simp only
  rw [h]
  rfl

end

/-- `config_init_port` when `parse_ull` fails. -/
theorem port_of_err {uninit : BitVec 64} {env : Environment} {config : Config} (henv : env "HTTP_SERVER_PORT" = some s)
    (h : parseUll setsEinval s uninit = (.err, uninit)) :
    configInitPort setsEinval uninit env config = ⟨.err, ["HTTP_SERVER_PORT: bad value: Not a Number"], config⟩ :=
  number_of_err henv h

/-- `config_init_port` when `parse_ull` gives a number. -/
theorem port_of_ok {uninit : BitVec 64} {env : Environment} {config : Config} {value : BitVec 64}
    (henv : env "HTTP_SERVER_PORT" = some s) (h : parseUll setsEinval s uninit = (.ok, value)) :
    configInitPort setsEinval uninit env config =
      if 65535 < value.toNat then ⟨.err, ["HTTP_SERVER_PORT: bad value: value is too big"], config⟩
      else ⟨.ok, [], { config with serverPort := value.setWidth 16 }⟩ := by
  have hany : (some uint16Max).any (value.toNat > ·) = decide (65535 < value.toNat) := rfl
  rw [configInitPort, number_of_ok henv h, hany]
  simp only [decide_eq_true_eq]
  rfl

/-- `config_init_port` does what it is to do where `parse_ull` does. -/
theorem portLaw_of_parseUllLaw (h : ParseUllLaw setsEinval s) : PortLaw setsEinval s := by
  have hmax : 65535 < ulongMax := by decide
  have hvalue : digitsValue s.bytes < ulongMax → (BitVec.ofNat 64 (digitsValue s.bytes)).toNat = digitsValue s.bytes := by
    intro hlt
    rw [BitVec.toNat_ofNat]
    unfold ulongMax at hlt
    omega
  constructor
  · intro hnumeral hle uninit env config henv
    have hlt : digitsValue s.bytes < ulongMax := by omega
    rw [port_of_ok henv (h.accepts hnumeral hlt uninit), hvalue hlt, if_neg (by omega)]
    rw [BitVec.setWidth_ofNat_of_le (by decide)]
  · intro hnot uninit env config henv
    by_cases hparsed : IsNumeral s ∧ digitsValue s.bytes < ulongMax
    · right
      rw [port_of_ok henv (h.accepts hparsed.1 hparsed.2 uninit), hvalue hparsed.2, if_pos]
      by_contra hle
      exact hnot ⟨hparsed.1, by omega⟩
    · left
      exact port_of_err henv (h.rejects hparsed uninit)

end HttpConfigAux

open HttpConfigAux

/-- `parse_ull` and `config_init_port` do what they are to do with a string exactly when it is a numeral, or `strtoull`
refuses it or converts it to `ULLONG_MAX`. -/
theorem parse_ull_numerals_iff (setsEinval : Bool) (s : CString) :
    (ParseUllLaw setsEinval s ∧ PortLaw setsEinval s) ↔ IsNumeral s ∨ Refused setsEinval s.bytes := by
  rw [← parseUllLaw_iff, and_iff_left_iff_imp]
  exact portLaw_of_parseUllLaw

/-- `"12abc"` -/
def twelveAbc : CString where
  bytes := [0x31#8, 0x32#8, 0x61#8, 0x62#8, 0x63#8]
  no_nul := by decide

/-- `HTTP_SERVER_PORT=12abc` is taken for 12. -/
theorem parse_ull_takes_front :
    ¬IsNumeral twelveAbc ∧ parseUll true twelveAbc 0 = (.ok, 12) ∧
      configInitPort true 0 (fun _ => some twelveAbc) configZero = ⟨.ok, [], { configZero with serverPort := 12 }⟩ ∧
      ¬ParseUllLaw true twelveAbc ∧ ¬PortLaw true twelveAbc := by
  have hnot : ¬IsNumeral twelveAbc := fun h => absurd (h.2 0x61#8 (by decide)) (by decide)
  have hparse : parseUll true twelveAbc 0 = (.ok, 12) := rfl
  have hport : configInitPort true 0 (fun _ => some twelveAbc) configZero =
      ⟨.ok, [], { configZero with serverPort := 12 }⟩ := by
    rw [port_of_ok rfl hparse, if_neg (by decide)]
    rfl
  refine ⟨hnot, hparse, hport, ?_, ?_⟩
  · intro hlaw
    have hrejects := hlaw.rejects (fun h => hnot h.1) 0
    rw [hparse] at hrejects
    cases hrejects
  · intro hlaw
    have hrejects := hlaw.rejects (fun h => hnot h.1) 0 (fun _ => some twelveAbc) configZero rfl
    rw [hport] at hrejects
    rcases hrejects with hrejects | hrejects
    · cases hrejects
    · cases hrejects

end CLangExamples.Http
