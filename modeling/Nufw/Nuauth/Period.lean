import Nufw.Nuauth.Connections

/-!
# Periods

`period.c`: the end of a period for a given time, `0` when the time is outside the period and `-1`
when the period has no end. Times are integers; the one place where the source computes in
`unsigned int`, the start of the day, is taken modulo `2 ^ 32` as it is there.
-/

namespace Nufw

/-- `get_start_of_day_from_time_t`, of type `unsigned int`. -/
def getStartOfDayFromTimeT (pcktTime offset : Int) : Int :=
  (pcktTime - pcktTime.tmod 86400 - offset) % 2 ^ 32

/-- The week day part of an item: `none` when the day is outside it, otherwise the end of its last
day, or `-1` when the item has no day. The sums are of type `unsigned int`. -/
def endOfDays (item : PeriodItem) (tm : Tm) (pcktTime : Int) : Option Int :=
  let dayStart := getStartOfDayFromTimeT pcktTime tm.gmtoff
  if item.startDay = -1 then some (-1)
  else if item.startDay ≤ item.endDay then
    if tm.wday ≥ item.startDay ∧ tm.wday ≤ item.endDay then
      some ((dayStart + 86400 * (item.endDay - tm.wday + 1)) % 2 ^ 32)
    else none
  -- the interval goes over the end of the week
  else if tm.wday ≥ item.startDay then
    some ((dayStart + 86400 * (8 - tm.wday + item.endDay)) % 2 ^ 32)
  else if tm.wday ≤ item.endDay then
    some ((dayStart + 86400 * (item.endDay - tm.wday + 1)) % 2 ^ 32)
  else none

/-- The hour part of an item, given the end its days allow. -/
def endOfHours (item : PeriodItem) (tm : Tm) (pcktTime endtime : Int) : Int :=
  if item.startHour = -1 then endtime
  else if tm.hour ≥ item.startHour ∧ (tm.hour < item.endHour ∨ item.endHour = -1) then
    if item.endHour = -1 then endtime
    else (getStartOfDayFromTimeT pcktTime tm.gmtoff + 3600 * item.endHour) % 2 ^ 32
  else 0

/-- `get_end_of_period_item_for_time`. -/
def getEndOfPeriodItemForTime (conf : Params) (item : PeriodItem) (pcktTime : Int) : Int :=
  if item.duration > 0 then pcktTime + item.duration
  else if item.startDate ≠ -1 ∨ item.endDate ≠ -1 then
    if item.startDate ≠ -1 ∧ item.startDate > pcktTime then 0
    else if item.endDate ≠ -1 then if item.endDate ≥ pcktTime then item.endDate else 0
    else -1
  else
    let tm := conf.localtime pcktTime
    match endOfDays item tm pcktTime with
    | none => 0
    | some endtime => endOfHours item tm pcktTime endtime

/-- The loop of `get_end_of_period_for_time_t` over the items. -/
def endOfItems (conf : Params) (pcktTime : Int) : List PeriodItem → Int → Int
  | [], result => result
  | item :: items, result =>
    let provend := getEndOfPeriodItemForTime conf item pcktTime
    if provend = 0 then 0
    else endOfItems conf pcktTime items
      (if result = -1 ∨ provend < result then provend else result)

/-- `get_end_of_period_for_time_t`: an unknown period is never valid. -/
def getEndOfPeriodForTimeT (conf : Params) (period : Bytes) (pcktTime : Int) : Int :=
  match conf.periods.lookup period with
  | none => 0
  | some items => endOfItems conf pcktTime items (-1)

end Nufw
