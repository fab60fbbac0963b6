import MoonBoofuzz.Data.Machine
import MoonBoofuzz.Definition.Decimal

namespace MoonBoofuzz

open Text

namespace Httpd

/-! Numbers from the command line and from the heads of requests. -/

/-- The body of both readers: digits up to a cap. -/
def cappedDigit {ε : Type} (notDigit overCap : ε) (cap value : Int32) (unit : UInt16) :
    Except ε Int32 :=
  if IsDigit unit then
    let value := nextDigit value unit
    if value ≤ cap then .ok value else .error overCap
  else .error notDigit

/-- `67108864`. -/
def flagCap : Int32 := 67108864

section

variable {ε : Type} {notDigit overCap : ε} {cap : Int32}

theorem toInt_ofNat_step {value : Nat} {unit : UInt16} (hcap : cap ≤ flagCap)
    (hvalue : (value : Int) ≤ cap.toInt) (hdigit : IsDigit unit) :
    (Int32.ofNat (value * 10 + (unit.toNat - 48))).toInt =
      (value : Int) * 10 + (unit.toNat - 48) := by
  have hlarge : cap.toInt ≤ 67108864 := Int32.le_iff_toInt_le.mp hcap
  have hlower := hdigit.1
  have hupper := hdigit.2
  rw [Int32.toInt_ofNat_of_lt (by omega)]
  omega

theorem cappedDigit_counts (hcap : 0 ≤ cap) (hlarge : cap ≤ flagCap) :
    Counts (cappedDigit notDigit overCap cap) Int32.ofNat cap.toInt.toNat := by
  have hnonnegative : 0 ≤ cap.toInt := Int32.le_iff_toInt_le.mp hcap
  constructor
  · intro value unit hdigit hbound
    have hvalue : (value : Int) ≤ cap.toInt := by omega
    have hlower := hdigit.1
    have hwithin : Int32.ofNat (value * 10 + (unit.toNat - 48)) ≤ cap := by
      rw [Int32.le_iff_toInt_le, toInt_ofNat_step hlarge hvalue hdigit]
      omega
    rw [cappedDigit, if_pos hdigit, nextDigit_ofNat value hdigit]
    exact if_pos hwithin
  · intro value unit hbound hover
    have hvalue : (value : Int) ≤ cap.toInt := by omega
    rw [cappedDigit]
    split
    · rename_i hdigit
      have hbeyond := hover hdigit
      have hlower := hdigit.1
      have houtside : ¬Int32.ofNat (value * 10 + (unit.toNat - 48)) ≤ cap := by
        rw [Int32.le_iff_toInt_le, toInt_ofNat_step hlarge hvalue hdigit]
        omega
      rw [nextDigit_ofNat value hdigit]
      exact ⟨overCap, if_neg houtside⟩
    · exact ⟨notDigit, rfl⟩

theorem foldlM_cappedDigit {text : Text} {number : Int32} (hcap : 0 ≤ cap)
    (hlarge : cap ≤ flagCap) (hfilled : text ≠ []) :
    text.foldlM (cappedDigit notDigit overCap cap) 0 = .ok number ↔
      0 ≤ number.toInt ∧ number ≤ cap ∧ readNatural text = some number.toInt.toNat := by
  have hnonnegative : 0 ≤ cap.toInt := Int32.le_iff_toInt_le.mp hcap
  have hupper := cap.toInt_lt
  have hcounts : Counts (cappedDigit notDigit overCap cap) Int32.ofNat cap.toInt.toNat :=
    cappedDigit_counts hcap hlarge
  rw [readNatural_eq_some]
  constructor
  · intro hok
    obtain ⟨hdigits, hbound, hnumber⟩ := hcounts.result hok
    have hvalue : number.toInt = (digitsFrom 0 text : Int) := by
      rw [hnumber, Int32.toInt_ofNat_of_lt (by omega)]
    refine ⟨by omega, ?_, hfilled, hdigits, by omega⟩
    rw [Int32.le_iff_toInt_le, hvalue]
    omega
  · rintro ⟨hpositive, hle, -, hdigits, hvalue⟩
    rw [Int32.le_iff_toInt_le] at hle
    have hfold : text.foldlM (cappedDigit notDigit overCap cap) (Int32.ofNat 0) =
        .ok (Int32.ofNat (digitsFrom 0 text)) :=
      hcounts.accepted hdigits (by omega)
    have hnumber : Int32.ofNat (digitsFrom 0 text) = number := by
      rw [hvalue, ← Int32.ofInt_eq_ofNat, Int.toNat_of_nonneg hpositive, Int32.ofInt_toInt]
    exact hfold.trans (congrArg Except.ok hnumber)

end

inductive RequestReject where
  | badRequest (message : Text)
  | bodyTooLarge
  | headTooLarge
  | unsupportedTransferEncoding

def contentLengthDigits : RequestReject :=
  .badRequest (ofAscii "Content-Length must be digits")

def parseContentLength (text : Text) (maxBody : Int32) : Except RequestReject Int32 :=
  if text = [] then .error contentLengthDigits
  else text.foldlM (cappedDigit contentLengthDigits .bodyTooLarge maxBody) 0

/-- One value after another, the first one kept and every other one compared with it. -/
def agreeingLength (maxBody value : Int32) (text : Text) : Except RequestReject Int32 := do
  let parsed ← parseContentLength text maxBody
  if value < 0 then .ok parsed
  else if parsed ≠ value then
    .error (.badRequest (ofAscii "conflicting Content-Length headers"))
  else .ok value

def contentLengthFrom (seen : List Text) (maxBody : Int32) : Except RequestReject Int32 :=
  if seen = [] then .ok 0
  else seen.foldlM (agreeingLength maxBody) (-1)

theorem parseContentLength_eq_ok {text : Text} {maxBody number : Int32} (hcap : 0 ≤ maxBody)
    (hlarge : maxBody ≤ flagCap) :
    parseContentLength text maxBody = .ok number ↔
      0 ≤ number.toInt ∧ number ≤ maxBody ∧ readNatural text = some number.toInt.toNat := by
  rw [parseContentLength]
  split
  · rename_i hempty
    constructor
    · intro hok
      cases hok
    · exact fun hread => absurd hempty (readNatural_eq_some.mp hread.2.2).1
  · rename_i hfilled
    exact foldlM_cappedDigit hcap hlarge hfilled

/-- The running value on a prefix that has been accepted stays exact in the next step. -/
theorem nextDigit_exact {front : Text} {unit : UInt16} {maxBody value : Int32}
    (hcap : 0 ≤ maxBody) (hlarge : maxBody ≤ flagCap)
    (hfront : front.foldlM (cappedDigit contentLengthDigits .bodyTooLarge maxBody) 0 =
      .ok value) (hdigit : IsDigit unit) :
    (nextDigit value unit).toInt = value.toInt * 10 + (unit.toNat - 48) := by
  have hnonnegative : 0 ≤ maxBody.toInt := Int32.le_iff_toInt_le.mp hcap
  have hupper := maxBody.toInt_lt
  obtain ⟨-, hbound, hvalue⟩ := (cappedDigit_counts hcap hlarge).result hfront
  have hexact : value.toInt = (digitsFrom 0 front : Int) := by
    rw [hvalue, Int32.toInt_ofNat_of_lt (by omega)]
  rw [hexact, hvalue, nextDigit_ofNat _ hdigit, toInt_ofNat_step hlarge (by omega) hdigit]

theorem agreeingLength_bounds {maxBody value next : Int32} {text : Text} (hcap : 0 ≤ maxBody)
    (hlarge : maxBody ≤ flagCap) (hvalue : ¬value < 0 → value ≤ maxBody)
    (hnext : agreeingLength maxBody value text = .ok next) :
    ¬next < 0 ∧ next ≤ maxBody := by
  rw [agreeingLength] at hnext
  obtain ⟨parsed, hparsed, hkept⟩ := exceptBind_eq_ok_iff.mp hnext
  have hread := (parseContentLength_eq_ok hcap hlarge).mp hparsed
  split at hkept
  · obtain rfl : parsed = next := Except.ok.inj hkept
    exact ⟨Int32.not_lt.mpr (Int32.le_iff_toInt_le.mpr hread.1), hread.2.1⟩
  · rename_i hset
    split at hkept
    · cases hkept
    · obtain rfl : value = next := Except.ok.inj hkept
      exact ⟨hset, hvalue hset⟩

theorem foldlM_agreeingLength {maxBody number : Int32} (hcap : 0 ≤ maxBody)
    (hlarge : maxBody ≤ flagCap) (texts : List Text) (value : Int32)
    (hfirst : value < 0 → texts ≠ []) (hvalue : ¬value < 0 → value ≤ maxBody)
    (hfold : texts.foldlM (agreeingLength maxBody) value = .ok number) :
    0 ≤ number ∧ number ≤ maxBody := by
  induction texts generalizing value with
  | nil =>
      obtain rfl : value = number := Except.ok.inj hfold
      have hplain : ¬value < 0 := fun hnegative => hfirst hnegative rfl
      exact ⟨Int32.not_lt.mp hplain, hvalue hplain⟩
  | cons text rest ih =>
      rw [List.foldlM_cons] at hfold
      obtain ⟨next, hstep, hrest⟩ := exceptBind_eq_ok_iff.mp hfold
      have hbounds := agreeingLength_bounds hcap hlarge hvalue hstep
      exact ih next (fun hnegative => absurd hnegative hbounds.1) (fun _ => hbounds.2) hrest

theorem contentLengthFrom_bounds {seen : List Text} {maxBody number : Int32}
    (hcap : 0 ≤ maxBody) (hlarge : maxBody ≤ flagCap)
    (hnumber : contentLengthFrom seen maxBody = .ok number) :
    0 ≤ number ∧ number ≤ maxBody := by
  rw [contentLengthFrom] at hnumber
  split at hnumber
  · obtain rfl : (0 : Int32) = number := Except.ok.inj hnumber
    exact ⟨Int32.le_refl 0, hcap⟩
  · rename_i hfilled
    exact foldlM_agreeingLength hcap hlarge seen (-1) (fun _ => hfilled)
      (fun hplain => absurd (by decide) hplain) hnumber

inductive HttpdArgError where
  | httpdArg (message : Text)
  /-- `--help`, which prints the usage and leaves the program. -/
  | help

def missingValue (flag : Text) : HttpdArgError :=
  .httpdArg (ofAscii "missing value for " ++ flag)

/-- The flag's value is `args[index + 1]`, where there is one. -/
def parseFlag (value : Option Text) (flag : Text) (cap : Int32) : Except HttpdArgError Int32 :=
  match value with
  | none => .error (missingValue flag)
  | some text =>
      if text = [] then
        .error (.httpdArg (flag ++ ofAscii " expects a non-negative integer"))
      else
        text.foldlM (cappedDigit
          (.httpdArg (flag ++ ofAscii " expects a non-negative integer, got \"" ++ text ++
            ofAscii "\""))
          (.httpdArg (flag ++ ofAscii " is capped at " ++ integer cap.toInt)) cap) 0

theorem parseFlag_eq_ok {value : Option Text} {flag : Text} {cap number : Int32} (hcap : 0 ≤ cap)
    (hlarge : cap ≤ flagCap) :
    parseFlag value flag cap = .ok number ↔
      ∃ text, value = some text ∧ 0 ≤ number.toInt ∧ number ≤ cap ∧
        readNatural text = some number.toInt.toNat := by
  cases value with
  | none =>
      constructor
      · intro hok
        cases hok
      · rintro ⟨text, hnone, -⟩
        cases hnone
  | some text =>
      simp only [parseFlag, Option.some.injEq, exists_eq_left']
      split
      · rename_i hempty
        constructor
        · intro hok
          cases hok
        · exact fun hread => absurd hempty (readNatural_eq_some.mp hread.2.2).1
      · rename_i hfilled
        exact foldlM_cappedDigit hcap hlarge hfilled

structure HttpdConfig where
  port : Int32
  maxHead : Int32
  maxBody : Int32
  labMode : Bool
deriving DecidableEq, Repr

/-- `DEFAULT_HEAD_CAP` and `DEFAULT_BODY_CAP`. -/
def defaultConfig : HttpdConfig := ⟨9000, 8192, 1048576, false⟩

def applyFlag (config : HttpdConfig) (flag : Text) (value : Option Text) :
    Except HttpdArgError HttpdConfig :=
  if flag = ofAscii "--port" then do
    let port ← parseFlag value flag 65535
    .ok { config with port := port }
  else if flag = ofAscii "--max-head" then do
    let maxHead ← parseFlag value flag flagCap
    if maxHead < 16 then .error (.httpdArg (ofAscii "--max-head must be at least 16"))
    else .ok { config with maxHead := maxHead }
  else if flag = ofAscii "--max-body" then do
    let maxBody ← parseFlag value flag flagCap
    .ok { config with maxBody := maxBody }
  else if flag = ofAscii "--lab-mode" then
    match value with
    | none => .error (missingValue flag)
    | some mode =>
        if mode = ofAscii "on" then .ok { config with labMode := true }
        else if mode = ofAscii "off" then .ok { config with labMode := false }
        else .error (.httpdArg (ofAscii "--lab-mode expects on or off, got \"" ++ mode ++
          ofAscii "\""))
  else if flag = ofAscii "--help" ∨ flag = ofAscii "-h" then .error .help
  else .error (.httpdArg (ofAscii "unknown argument \"" ++ flag ++ ofAscii "\"; see --help"))

def parseArgsFrom (config : HttpdConfig) : List Text → Except HttpdArgError HttpdConfig
  | [] => .ok config
  | [flag] => applyFlag config flag none
  | flag :: value :: rest => do
      let config ← applyFlag config flag (some value)
      parseArgsFrom config rest

def parseArgs (args : List Text) : Except HttpdArgError HttpdConfig :=
  parseArgsFrom defaultConfig args

/-- What every configuration keeps, whatever flags it was read from. -/
structure HttpdConfig.Bounded (config : HttpdConfig) : Prop where
  port : 0 ≤ config.port ∧ config.port ≤ 65535
  maxHead : 16 ≤ config.maxHead ∧ config.maxHead ≤ flagCap
  maxBody : 0 ≤ config.maxBody ∧ config.maxBody ≤ flagCap

theorem parseFlag_bounds {value : Option Text} {flag : Text} {cap number : Int32} (hcap : 0 ≤ cap)
    (hlarge : cap ≤ flagCap) (hnumber : parseFlag value flag cap = .ok number) :
    0 ≤ number ∧ number ≤ cap := by
  obtain ⟨text, -, hpositive, hle, -⟩ := (parseFlag_eq_ok hcap hlarge).mp hnumber
  exact ⟨Int32.le_iff_toInt_le.mpr hpositive, hle⟩

theorem applyFlag_bounded {config next : HttpdConfig} {flag : Text} {value : Option Text}
    (hconfig : config.Bounded) (hnext : applyFlag config flag value = .ok next) :
    next.Bounded := by
  unfold applyFlag at hnext
  split at hnext
  · obtain ⟨port, hport, hset⟩ := exceptBind_eq_ok_iff.mp hnext
    obtain rfl := Except.ok.inj hset
    exact { hconfig with port := parseFlag_bounds (by decide) (by decide) hport }
  split at hnext
  · obtain ⟨maxHead, hhead, hset⟩ := exceptBind_eq_ok_iff.mp hnext
    have hbounds := parseFlag_bounds (by decide) (by decide) hhead
    split at hset
    · cases hset
    · rename_i hlarge
      obtain rfl := Except.ok.inj hset
      exact { hconfig with maxHead := ⟨Int32.not_lt.mp hlarge, hbounds.2⟩ }
  split at hnext
  · obtain ⟨maxBody, hbody, hset⟩ := exceptBind_eq_ok_iff.mp hnext
    obtain rfl := Except.ok.inj hset
    exact { hconfig with maxBody := parseFlag_bounds (by decide) (by decide) hbody }
  split at hnext
  · cases value with
    | none => cases hnext
    | some mode =>
        simp only at hnext
        split at hnext
        · obtain rfl := Except.ok.inj hnext
          exact { hconfig with }
        split at hnext
        · obtain rfl := Except.ok.inj hnext
          exact { hconfig with }
        · cases hnext
  split at hnext
  · cases hnext
  · cases hnext

theorem parseArgsFrom_bounded (config : HttpdConfig) (args : List Text) {result : HttpdConfig}
    (hconfig : config.Bounded) (hresult : parseArgsFrom config args = .ok result) :
    result.Bounded := by
  induction config, args using parseArgsFrom.induct with
  | case1 config =>
      obtain rfl : config = result := Except.ok.inj hresult
      exact hconfig
  | case2 config flag => exact applyFlag_bounded hconfig hresult
  | case3 config flag value rest ih =>
      rw [parseArgsFrom] at hresult
      obtain ⟨next, hstep, hrest⟩ := exceptBind_eq_ok_iff.mp hresult
      exact ih next (applyFlag_bounded hconfig hstep) hrest

/-- The caps that the command line sets are the ones the readers are exact under. -/
theorem parseArgs_bounded {args : List Text} {config : HttpdConfig}
    (hconfig : parseArgs args = .ok config) : config.Bounded :=
  parseArgsFrom_bounded defaultConfig args ⟨by decide, by decide, by decide⟩ hconfig

theorem decimal_limits_exact (maxBody : Int32) (hcap : 0 ≤ maxBody)
    (hlarge : maxBody ≤ 67108864) :
    (∀ text number, decimalU64 text = .ok number ↔ readNatural text = some number.toNat) ∧
      (∀ text, (∃ reason, decimalU64 text = .error reason) ↔
        ∀ value, readNatural text = some value → 2 ^ 64 ≤ value) ∧
      (∀ text number, parseContentLength text maxBody = .ok number ↔
        0 ≤ number.toInt ∧ number ≤ maxBody ∧ readNatural text = some number.toInt.toNat) ∧
      (∀ text, (∃ reason, parseContentLength text maxBody = .error reason) ↔
        ∀ value : Nat, readNatural text = some value → maxBody.toInt < value) ∧
      ∀ (front : Text) (unit : UInt16) (value : Int32), IsDigit unit →
        front.foldlM (cappedDigit contentLengthDigits .bodyTooLarge maxBody) 0 = .ok value →
          (nextDigit value unit).toInt = value.toInt * 10 + (unit.toNat - 48) := by
  have hnonnegative : 0 ≤ maxBody.toInt := Int32.le_iff_toInt_le.mp hcap
  have hupper := maxBody.toInt_lt
  refine ⟨fun text number => decimalU64_eq_ok, fun text => decimalU64_eq_error,
    fun text number => parseContentLength_eq_ok hcap hlarge, fun text => ?_,
    fun front unit value hdigit hfront => nextDigit_exact hcap hlarge hfront hdigit⟩
  constructor
  · rintro ⟨reason, hreason⟩ value hread
    by_contra hsmall
    have hvalue : (Int32.ofNat value).toInt = value := Int32.toInt_ofNat_of_lt (by omega)
    have hok : parseContentLength text maxBody = .ok (Int32.ofNat value) := by
      rw [parseContentLength_eq_ok hcap hlarge, Int32.le_iff_toInt_le, hvalue]
      exact ⟨by omega, by omega, hread⟩
    rw [hreason] at hok
    cases hok
  · intro hover
    cases hanswer : parseContentLength text maxBody with
    | error reason => exact ⟨reason, rfl⟩
    | ok number =>
        obtain ⟨hpositive, hle, hread⟩ := (parseContentLength_eq_ok hcap hlarge).mp hanswer
        have hbeyond := hover _ hread
        rw [Int32.le_iff_toInt_le] at hle
        omega

theorem decimal_limits_exact_default :
    (0 : Int32) ≤ 1048576 ∧ (1048576 : Int32) ≤ 67108864 ∧
      parseContentLength (ofAscii "0012") 1048576 = .ok 12 ∧
      decimalU64 (ofAscii "0012") = .ok 12 :=
  have hexact := decimal_limits_exact 1048576 (by decide) (by decide)
  ⟨by decide, by decide, (hexact.2.2.1 _ _).mpr ⟨by decide, by decide, by decide⟩,
    (hexact.1 _ _).mpr (by decide)⟩

end Httpd

end MoonBoofuzz
