import ZmqBridge.Model.Params

/-!
# ZmqBridge — integer options

`getInt` prints the default, looks the property up, reads what it finds with `atoi`
and then raises what is too small. `atoi` reads decimal numerals only: of a numeral
behind `0x` it reads the `0`.

* `clampedAtoi_numeral`, `clampedAtoi_hex` — what is made of a text;
* `getInt_reads_iff` — exactly which settings are read as they are meant;
* `reconnect_stop_misread` — the setting in the shipped configuration;
* `intParams_keep_default` — no option has a default that is not kept.
-/

namespace ZmqBridge

open Lib

-- ---------------------------------------------------------------------------
-- What is made of a text
-- ---------------------------------------------------------------------------

/-- What `getInt` makes of the text it has found. -/
def clampedAtoi (minValue : Int) (text : List Byte) : Option Int :=
  (atoi text).map (raiseToMin minValue)

/-- What is not too small is kept, and nothing else is. -/
theorem raiseToMin_eq_self_iff {minValue z : Int} (hMin : 0 ≤ minValue) :
    raiseToMin minValue z = z ↔ z = 0 ∨ minValue ≤ z := by
  unfold raiseToMin
  dsimp only
  split_ifs <;> omega

theorem getInt_eq (properties : Properties) (name property : List Byte)
    (defaultValue minValue : Int) :
    getInt properties name property defaultValue minValue =
      clampedAtoi minValue
        ((properties (paramName (tportParam name property))).getD (printInt defaultValue)) := by
  rw [getInt, TransportImpl.getParameter, clampedAtoi]
  cases properties (paramName (tportParam name property)) with
  | none => exact Option.map_eq_bind.symm
  | some text => exact Option.map_eq_bind.symm

/-- A number that is read is kept if and only if it is not too small. -/
theorem clampedAtoi_eq_iff {minValue z : Int} {text : List Byte} (hMin : 0 ≤ minValue)
    (hText : atoi text = some z) :
    clampedAtoi minValue text = some z ↔ z = 0 ∨ minValue ≤ z := by
  rw [clampedAtoi, hText, Option.map_some, Option.some.injEq, raiseToMin_eq_self_iff hMin]

theorem clampedAtoi_numeral {minValue : Int} {v : Nat} (hMin : 0 ≤ minValue)
    (hLe : minValue ≤ v) (hv : v < 2 ^ 31) :
    clampedAtoi minValue (numeral 10 v) = some (v : Int) := by
  have hText : atoi (numeral 10 v) = some (v : Int) := by
    rw [← printInt_natCast]
    exact atoi_printInt (by omega) (by omega)
  exact (clampedAtoi_eq_iff hMin hText).mpr (Or.inr hLe)

theorem clampedAtoi_hex {minValue : Int} (hMin : 0 ≤ minValue) (v : Nat) :
    clampedAtoi minValue (hexNumeral v) = some 0 :=
  (clampedAtoi_eq_iff hMin (atoi_hex v)).mpr (Or.inl rfl)

/-- For every value there is a text that is read as another one. -/
theorem exists_other_text {minValue : Int} {v : Nat} (hMin : 0 ≤ minValue)
    (hLe : minValue ≤ v) (hv : v < 2 ^ 31) (z : Int) :
    ∃ text, clampedAtoi minValue text ≠ some z := by
  by_cases hz : z = 0
  · refine ⟨numeral 10 (max v 1), ?_⟩
    rw [clampedAtoi_numeral hMin (by omega) (by omega), ne_eq, Option.some.injEq]
    omega
  · refine ⟨hexNumeral 0, ?_⟩
    rw [clampedAtoi_hex hMin, ne_eq, Option.some.injEq]
    omega

-- ---------------------------------------------------------------------------
-- The settings of an option
-- ---------------------------------------------------------------------------

/-- How an option is set: to a numeral in one of the documented notations, or not. -/
inductive IntSetting where
  | decimal
  | hexadecimal
  | unset
  deriving DecidableEq, Repr

/-- The property that stands for the value `v`. -/
def IntSetting.property : IntSetting → Nat → Option (List Byte)
  | .decimal, v => some (numeral 10 v)
  | .hexadecimal, v => some (hexNumeral v)
  | .unset, _ => none

/-- The value that is meant. -/
def IntSetting.value : IntSetting → Nat → Int → Int
  | .decimal, v, _ => v
  | .hexadecimal, v, _ => v
  | .unset, _, defaultValue => defaultValue

/-- **A setting is read as it is meant**, whatever the other properties are. -/
def IntSetting.Reads (setting : IntSetting) (name : List Byte) (param : IntParam) (v : Nat) :
    Prop :=
  ∀ properties : Properties,
    properties (tportParam name param.property) = setting.property v →
      getInt properties name param.property param.defaultValue param.minValue =
        some (setting.value v param.defaultValue)

/-- The notation of the setting is understood; a default must not be too small. -/
def IntSetting.Understood (setting : IntSetting) (param : IntParam) (v : Nat) : Prop :=
  match setting with
  | .decimal => True
  | .hexadecimal => v = 0
  | .unset => param.defaultValue = 0 ∨ param.minValue ≤ param.defaultValue

/-- The name of the option is not cut off. -/
def IntParam.NameFits (param : IntParam) (name : List Byte) : Prop :=
  (tportParam name param.property).length < paramNameMaxLength

/-- The default is an `int`. -/
def IntParam.IsInt (param : IntParam) : Prop :=
  -2 ^ 31 ≤ param.defaultValue ∧ param.defaultValue < 2 ^ 31

section Settings

variable {setting : IntSetting} {name : List Byte} {param : IntParam} {v : Nat}

theorem paramName_of_fits {text : List Byte} (h : text.length < paramNameMaxLength) :
    paramName text = text :=
  List.take_of_length_le (Nat.le_sub_one_of_lt h)

theorem paramName_ne {text : List Byte} (h : ¬ text.length < paramNameMaxLength) :
    paramName text ≠ text := by
  intro hEq
  have hLen := congrArg List.length hEq
  rw [paramName, List.length_take] at hLen
  have hMax : paramNameMaxLength = 1024 := rfl
  omega

/-- The text that is read, if the name fits. -/
def IntSetting.text (setting : IntSetting) (param : IntParam) (v : Nat) : List Byte :=
  (setting.property v).getD (printInt param.defaultValue)

/-- Without a cut, only the text matters. -/
theorem reads_iff_text (hFits : param.NameFits name) :
    setting.Reads name param v ↔
      clampedAtoi param.minValue (setting.text param v) =
        some (setting.value v param.defaultValue) := by
  constructor
  · intro hReads
    rw [← hReads (fun _ => setting.property v) rfl, getInt_eq]
    rfl
  · intro hText properties hSet
    rw [getInt_eq, paramName_of_fits hFits, hSet]
    exact hText

/-- A name that is cut off is the name of another option. -/
theorem not_reads_of_cut (hMin : 0 ≤ param.minValue) (hLe : param.minValue ≤ v)
    (hv : v < 2 ^ 31) (hCut : ¬ param.NameFits name) : ¬ setting.Reads name param v := by
  obtain ⟨other, hOther⟩ :=
    exists_other_text hMin hLe hv (setting.value v param.defaultValue)
  intro hReads
  have hNe := paramName_ne hCut
  refine hOther ?_
  rw [← hReads (fun key => if key = tportParam name param.property then setting.property v
    else some other) (if_pos rfl), getInt_eq, if_neg hNe]
  rfl

/-- What is read of each setting. -/
theorem text_understood_iff (hMin : 0 ≤ param.minValue) (hLe : param.minValue ≤ v)
    (hv : v < 2 ^ 31) (hInt : param.IsInt) :
    clampedAtoi param.minValue (setting.text param v) =
        some (setting.value v param.defaultValue) ↔ setting.Understood param v := by
  cases setting with
  | decimal => exact iff_of_true (clampedAtoi_numeral hMin hLe hv) trivial
  | hexadecimal =>
    show clampedAtoi param.minValue (hexNumeral v) = some (v : Int) ↔ v = 0
    rw [clampedAtoi_hex hMin, Option.some.injEq]
    omega
  | unset => exact clampedAtoi_eq_iff hMin (atoi_printInt hInt.1 hInt.2)

end Settings

/--
**Which settings of an integer option are read as they are meant.** For every option,
every transport, every value `v` that is an `int` and not below the least value of the
option: a decimal numeral of `v`, a hexadecimal numeral of `v` behind `0x`, or no
setting at all is read as `v` or as the default, whatever the other properties are, if
and only if the name of the option has less than 1024 bytes and

* the numeral is decimal, or
* the numeral is hexadecimal and `v` is 0, or
* nothing is set, and the default is 0 or not below the least value.
-/
theorem getInt_reads_iff (setting : IntSetting) (name : List Byte) (param : IntParam) (v : Nat)
    (hInt : param.IsInt) (hMin : 0 ≤ param.minValue) (hLe : param.minValue ≤ v)
    (hv : v < 2 ^ 31) :
    setting.Reads name param v ↔ param.NameFits name ∧ setting.Understood param v := by
  by_cases hFits : param.NameFits name
  · rw [reads_iff_text hFits, text_understood_iff hMin hLe hv hInt, and_iff_right hFits]
  · exact iff_of_false (not_reads_of_cut hMin hLe hv hFits) fun h => hFits h.1

/-- The name `oz` of the shipped configuration. -/
def ozName : List Byte := [0x6f, 0x7a]

/-- `reconnect_stop=1` is read as it is meant. -/
theorem getInt_reads_reconnectStop : IntSetting.Reads .decimal ozName reconnectStop 1 :=
  (getInt_reads_iff .decimal ozName reconnectStop 1 ⟨by decide, by decide⟩ (by decide)
    (by decide) (by decide)).mpr ⟨show _ < _ by decide, trivial⟩

/-- **`reconnect_stop=0x1` is read as 0**, as in the shipped configuration. -/
theorem reconnect_stop_misread :
    hexNumeral 1 = [0x30, 0x78, 0x31] ∧
    getInt (fun key => if key = tportParam ozName reconnectStop.property then
        some (hexNumeral 1) else none) ozName reconnectStop.property
      reconnectStop.defaultValue reconnectStop.minValue = some 0 ∧
    ¬ IntSetting.Reads .hexadecimal ozName reconnectStop 1 := by
  have hFits : reconnectStop.NameFits ozName := show _ < _ by decide
  have hRead : clampedAtoi reconnectStop.minValue (hexNumeral 1) = some 0 :=
    clampedAtoi_hex (by decide) 1
  refine ⟨by decide +kernel, ?_, ?_⟩
  · rw [getInt_eq, paramName_of_fits hFits, if_pos rfl]
    exact hRead
  · rw [reads_iff_text hFits]
    intro hOne
    cases hRead.symm.trans hOne

-- ---------------------------------------------------------------------------
-- The options of a transport
-- ---------------------------------------------------------------------------

/-- **Every option keeps its default**, unless the transport has a name of almost a
thousand bytes. -/
theorem intParams_keep_default {param : IntParam}
    (hParam : param ∈ commonIntParams ++ namingIntParams) {name : List Byte}
    (hName : name.length ≤ 980) (v : Nat) : IntSetting.Reads .unset name param v := by
  have hTable : ∀ param ∈ commonIntParams ++ namingIntParams,
      param.property.length ≤ 23 ∧ 0 ≤ param.minValue ∧
        (-2 ^ 31 ≤ param.defaultValue ∧ param.defaultValue < 2 ^ 31) ∧
        (param.defaultValue = 0 ∨ param.minValue ≤ param.defaultValue) := by
    decide
  obtain ⟨hLen, hMin, hInt, hDefault⟩ := hTable param hParam
  have hStart : tportParamStart.length = 18 := rfl
  have hFits : param.NameFits name := by
    show (tportParamStart ++ [0x2e] ++ name ++ [0x2e] ++ param.property).length < 1024
    simp only [List.length_append, List.length_singleton]
    omega
  rw [reads_iff_text hFits]
  exact (clampedAtoi_eq_iff hMin (atoi_printInt hInt.1 hInt.2)).mpr hDefault

end ZmqBridge
