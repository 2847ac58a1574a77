import DelayedOrderSms.Python.Datetime
import DelayedOrderSms.Python.Regex

/-!
# `time_utils.py`

The two readers of time expressions, `parseDynamicTime` for the values of an event and
`parseOffset` for its `etaOffset`.  They share one pattern and the chain of units.
-/

namespace OrderSimulator

open Python

/-- `(?P<sign>[+-])?` -/
def signPart : Regex := .opt (.group "sign" (.set fun c => c = '+' ∨ c = '-'))

/-- `(?P<amount>\d+)?` -/
def amountPart : Regex := .opt (.group "amount" (.plus isDigit))

/-- `(?P<unit>ms|s|m|h|d)?` -/
def unitPart : Regex :=
  .opt (.group "unit" (.alt (.lit "ms".toList) (.alt (.lit "s".toList) (.alt (.lit "m".toList)
    (.alt (.lit "h".toList) (.lit "d".toList))))))

/-- `_TIME_EXPRESSION_PATTERN`.  `re.match` starts at the beginning of the string, which is all
that `^` asks for. -/
def timeExpressionPattern : Regex :=
  .seq (.lit "now".toList) (.seq signPart (.seq amountPart (.seq unitPart .eos)))

def toIsoZ (dt : Datetime) : String := replace dt.isoformat "+00:00" "Z"

/-- Noon of 12 May 2026. -/
def noon : Datetime := ⟨63914184000000000, by decide, by decide⟩

example : toIsoZ noon = "2026-05-12T12:00:00Z" := by decide

/-- The chain on the unit, which both readers contain. -/
def unitDelta (unit : Option (List Char)) (amount : ℤ) : Except Exception Timedelta :=
  if unit = some "ms".toList then Timedelta.ofMicros (amount * 1000)
  else if unit = some "s".toList then Timedelta.ofMicros (amount * 1000000)
  else if unit = some "m".toList then Timedelta.ofMicros (amount * 60000000)
  else if unit = some "h".toList then Timedelta.ofMicros (amount * 3600000000)
  else if unit = some "d".toList then Timedelta.ofMicros (amount * 86400000000)
  else Timedelta.ofMicros (amount * 1000000)

/-- Resolves a dynamic expression; any other value is left alone. -/
def parseDynamicTime (value : String) (baseTime : Datetime) : Except Exception String :=
  match timeExpressionPattern.exec value.toList with
  | none => .ok value
  | some groups =>
      match groups.get? "sign" with
      | none => .ok (toIsoZ baseTime)
      | some sign => do
          let amount ← intOfStr (groups.getD "amount" "0".toList)
          let delta ← unitDelta (groups.get? "unit") amount
          let resolved ← if sign = "+".toList then baseTime.add delta else baseTime.sub delta
          return toIsoZ resolved

/-- `parseOffset` once a leading `now` is gone. -/
def matchOffset (offsetStr : List Char) : Except Exception Timedelta :=
  match timeExpressionPattern.exec ("now".toList ++ offsetStr) with
  | none => .error
      { type := .valueError
        text := some ("Invalid offset expression: " ++ String.ofList offsetStr) }
  | some groups =>
      match groups.get? "sign" with
      | none => .ok Timedelta.zero
      | some sign => do
          let amount ← intOfStr (groups.getD "amount" "0".toList)
          let delta ← unitDelta (groups.get? "unit") amount
          if sign = "+".toList then return delta else delta.neg

/-- Parses an offset, with or without a leading `now`.  What is not a string has no
`startswith`. -/
def parseOffset (offset : Json) : Except Exception Timedelta :=
  if !offset.truthy then .ok Timedelta.zero
  else
    match offset with
    | .str s => matchOffset (if "now".toList.isPrefixOf s.toList then s.toList.drop 3 else s.toList)
    | _ => .error { type := .attributeError }

/-- Resolves the dynamic expressions of a payload. -/
def resolveDynamicTimes (payload : Json) (baseTime : Datetime) : Except Exception Json :=
  payload.mapStrings fun s => parseDynamicTime s baseTime

/-- The text of an instant still begins with a digit. -/
lemma exists_toIsoZ_eq_cons (dt : Datetime) :
    ∃ c cs, (toIsoZ dt).toList = c :: cs ∧ c.isDigit := by
  obtain ⟨c, cs, hiso, hc⟩ := dt.exists_isoformat_eq_cons
  have hplus : ¬"+00:00".toList <+: c :: cs := by
    have hoffset : "+00:00".toList = ['+', '0', '0', ':', '0', '0'] := by decide
    rw [hoffset, List.cons_prefix_cons]
    rintro ⟨rfl, _⟩
    simp at hc
  exact ⟨c, _, by rw [toIsoZ, replace, hiso, String.toList_ofList, replaceChars_cons hplus], hc⟩

end OrderSimulator
