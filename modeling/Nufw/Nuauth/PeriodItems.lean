import Nufw.Nuauth.Period
import Mathlib.Algebra.Order.Ring.Int

/-!
# The end of a period item

What `get_end_of_period_item_for_time` promises of one item: `0` exactly when the time is outside
the item, and otherwise an end before which no instant is outside. The week day and the hour are
those of the local time, while `get_start_of_day_from_time_t` cuts the day where the day of UTC
begins, in 32 bits. The end is therefore one day off when the two days differ, and whether that
shows depends on what the days next to the item's are (`item_end_right_iff`).

The zone of the server is a constant offset here, and the item has its days and hours in the ranges
that `period.h` gives.
-/

namespace Nufw

variable {item : PeriodItem} {offset t : Int}

/-! ### The instants of an item -/

/-- `localtime_r` in a zone with a constant offset. -/
def Tm.atOffset (offset t : Int) : Tm :=
  ⟨((t + offset) / 86400 + 4) % 7, (t + offset) % 86400 / 3600, offset⟩

/-- The fields of an item as `period.h` documents them. -/
structure PeriodItem.WellFormed (item : PeriodItem) : Prop where
  startDay : -1 ≤ item.startDay ∧ item.startDay ≤ 6
  endDay : -1 ≤ item.endDay ∧ item.endDay ≤ 6
  startHour : -1 ≤ item.startHour ∧ item.startHour ≤ 24
  endHour : -1 ≤ item.endHour ∧ item.endHour ≤ 24

/-- A week day is in the range of the item, which goes over the end of the week when it starts
behind its end. -/
def InDays (item : PeriodItem) (wday : Int) : Prop :=
  item.startDay = -1 ∨
    if item.startDay ≤ item.endDay then item.startDay ≤ wday ∧ wday ≤ item.endDay
    else item.startDay ≤ wday ∨ wday ≤ item.endDay

def InHours (item : PeriodItem) (hour : Int) : Prop :=
  item.startHour = -1 ∨ item.startHour ≤ hour ∧ (hour < item.endHour ∨ item.endHour = -1)

def InDates (item : PeriodItem) (t : Int) : Prop :=
  (item.startDate ≠ -1 → item.startDate ≤ t) ∧ (item.endDate ≠ -1 → t ≤ item.endDate)

instance InDays.decidable (item : PeriodItem) (wday : Int) : Decidable (InDays item wday) :=
  inferInstanceAs (Decidable (_ ∨ ite _ _ _))

instance InHours.decidable (item : PeriodItem) (hour : Int) : Decidable (InHours item hour) :=
  inferInstanceAs (Decidable (_ ∨ _))

instance InDates.decidable (item : PeriodItem) (t : Int) : Decidable (InDates item t) :=
  inferInstanceAs (Decidable (_ ∧ _))

/-- The local week day and the local hour are within the bounds of the item. -/
def InCalendar (item : PeriodItem) (tm : Tm) : Prop :=
  InDays item tm.wday ∧ InHours item tm.hour

instance InCalendar.decidable (item : PeriodItem) (tm : Tm) : Decidable (InCalendar item tm) :=
  inferInstanceAs (Decidable (_ ∧ _))

/-- An instant is inside an item. A duration says nothing of instants. -/
def InItem (localtime : Int → Tm) (item : PeriodItem) (t : Int) : Prop :=
  if item.duration > 0 then True
  else if item.startDate ≠ -1 ∨ item.endDate ≠ -1 then InDates item t
  else InCalendar item (localtime t)

instance InItem.decidable (localtime : Int → Tm) (item : PeriodItem) (t : Int) :
    Decidable (InItem localtime item t) :=
  inferInstanceAs (Decidable (ite _ _ (ite _ _ _)))

/-- The end of an item is right at a time. -/
structure ItemEndRight (conf : Params) (item : PeriodItem) (t : Int) : Prop where
  outside : getEndOfPeriodItemForTime conf item t = 0 ↔ ¬ InItem conf.localtime item t
  finite : getEndOfPeriodItemForTime conf item t ≠ 0 →
    getEndOfPeriodItemForTime conf item t ≠ -1 →
      t ≤ getEndOfPeriodItemForTime conf item t ∧
        ∀ u, t ≤ u → u < getEndOfPeriodItemForTime conf item t → InItem conf.localtime item u

/-! ### When the end is right -/

/-- The number of days from a day of the item to its last one, both counted. -/
def daysLeft (item : PeriodItem) (wday : Int) : Int :=
  if item.endDay < item.startDay ∧ item.startDay ≤ wday then 8 - wday + item.endDay
  else item.endDay - wday + 1

/-- The end of the last day does not overflow, and it is not moved over an instant outside: not by
a day behind the last one, not before the time itself, and not over a night when the item has a
start hour. -/
def DaysCounted (item : PeriodItem) (offset t : Int) : Prop :=
  let left := daysLeft item (Tm.atOffset offset t).wday
  (t / 86400 + left) * 86400 - offset < 2 ^ 32 ∧
    ((t + offset) / 86400 < t / 86400 → InDays item ((item.endDay + 1) % 7)) ∧
    (t / 86400 < (t + offset) / 86400 → 2 ≤ left ∨ (t + offset) % 86400 = 0) ∧
    (0 < item.startHour → t / 86400 + left ≤ (t + offset) / 86400 + 1)

/-- The end hour does not overflow, and it is counted from the local day, or from a day next to it
when the item has all hours of both, or ends where the local day begins. -/
def HoursCounted (item : PeriodItem) (offset t : Int) : Prop :=
  t / 86400 * 86400 - offset + 3600 * item.endHour < 2 ^ 32 ∧
    ((t + offset) / 86400 = t / 86400 ∨
      ((t + offset) / 86400 < t / 86400 ∧ item.startHour = 0 ∧ item.endHour = 24 ∧
        InDays item (((t + offset) / 86400 + 5) % 7)) ∨
      (t / 86400 < (t + offset) / 86400 ∧ item.endHour = 24 ∧ (t + offset) % 86400 = 0))

/-- The condition for the end of an item to be right: the epoch is not the end of the dates, and for
a time inside the days and hours these are counted. -/
def EndCounted (item : PeriodItem) (offset t : Int) : Prop :=
  if item.duration > 0 then True
  else if item.startDate ≠ -1 ∨ item.endDate ≠ -1 then
    ¬ (t = 0 ∧ item.endDate = 0 ∧ item.startDate ≤ 0)
  else InCalendar item (Tm.atOffset offset t) →
    if item.startHour ≠ -1 ∧ item.endHour ≠ -1 then HoursCounted item offset t
    else item.startDay ≠ -1 → DaysCounted item offset t

/-! ### What the code computes -/

/-- The start of the day is the one of the day of UTC, moved by the offset. -/
theorem getStartOfDayFromTimeT_eq (ht : 0 ≤ t) :
    getStartOfDayFromTimeT t offset = (t / 86400 * 86400 - offset) % 2 ^ 32 := by
  have hday : t - t.tmod 86400 = t / 86400 * 86400 := by
    rw [Int.tmod_eq_emod_of_nonneg ht]
    omega
  rw [getStartOfDayFromTimeT, hday]

theorem endOfDays_of_not_inDays {tm : Tm} (h : ¬ InDays item tm.wday) :
    endOfDays item tm t = none := by
  rw [InDays, not_or] at h
  obtain ⟨hday, h⟩ := h
  rw [endOfDays, if_neg hday]
  split at h
  · next hle => rw [if_pos hle, if_neg h]
  · next hle => rw [if_neg hle, if_neg (fun h' ↦ h (Or.inl h')), if_neg (fun h' ↦ h (Or.inr h'))]

theorem endOfDays_of_inDays {tm : Tm} (ht : 0 ≤ t) (hday : item.startDay ≠ -1)
    (h : InDays item tm.wday) :
    endOfDays item tm t =
      some (((t / 86400 + daysLeft item tm.wday) * 86400 - tm.gmtoff) % 2 ^ 32) := by
  have hsum : ∀ k : Int, (getStartOfDayFromTimeT t tm.gmtoff + 86400 * k) % 2 ^ 32 =
      ((t / 86400 + k) * 86400 - tm.gmtoff) % 2 ^ 32 := by
    intro k
    rw [getStartOfDayFromTimeT_eq ht, Int.emod_add_emod]
    congr 1
    omega
  have hin := h.resolve_left hday
  rw [endOfDays, if_neg hday, daysLeft]
  split at hin
  · next hle => rw [if_pos hle, if_pos hin, hsum, if_neg (by omega)]
  · next hle =>
    rw [if_neg hle]
    by_cases hstart : item.startDay ≤ tm.wday
    · rw [if_pos hstart, hsum, if_pos ⟨by omega, hstart⟩]
    · rw [if_neg hstart, if_pos (hin.resolve_left hstart), hsum, if_neg (by omega)]

theorem endOfDays_unused {tm : Tm} (hday : item.startDay = -1) :
    endOfDays item tm t = some (-1) := by
  rw [endOfDays, if_pos hday]

theorem endOfHours_of_not_inHours {tm : Tm} {endtime : Int} (h : ¬ InHours item tm.hour) :
    endOfHours item tm t endtime = 0 := by
  rw [InHours, not_or] at h
  rw [endOfHours, if_neg h.1, if_neg h.2]

/-- Without an end hour the end of the days stands. -/
theorem endOfHours_unused {tm : Tm} {endtime : Int} (h : InHours item tm.hour)
    (hhour : item.startHour = -1 ∨ item.endHour = -1) :
    endOfHours item tm t endtime = endtime := by
  rw [endOfHours]
  by_cases hstart : item.startHour = -1
  · rw [if_pos hstart]
  · rw [if_neg hstart, if_pos (h.resolve_left hstart), if_pos (hhour.resolve_left hstart)]

theorem endOfHours_of_inHours {tm : Tm} {endtime : Int} (ht : 0 ≤ t) (h : InHours item tm.hour)
    (hstart : item.startHour ≠ -1) (hend : item.endHour ≠ -1) :
    endOfHours item tm t endtime =
      (t / 86400 * 86400 - tm.gmtoff + 3600 * item.endHour) % 2 ^ 32 := by
  rw [endOfHours, if_neg hstart, if_pos (h.resolve_left hstart), if_neg hend,
    getStartOfDayFromTimeT_eq ht, Int.emod_add_emod]

/-! ### The days of an item -/

theorem daysLeft_pos (hwf : item.WellFormed) {w : Int} (hw : 0 ≤ w ∧ w < 7)
    (hday : item.startDay ≠ -1) (h : InDays item w) :
    0 < daysLeft item w ∧ daysLeft item w ≤ 7 := by
  have hin := h.resolve_left hday
  have hend := hwf.endDay
  rw [daysLeft]
  split at hin <;> split <;> omega

/-- The days up to the last one are in the item. -/
theorem inDays_of_lt_daysLeft (hwf : item.WellFormed) {w : Int} (hw : 0 ≤ w ∧ w < 7)
    (hday : item.startDay ≠ -1) (h : InDays item w) {j : Int} (hj : 0 ≤ j)
    (hlt : j < daysLeft item w) : InDays item ((w + j) % 7) := by
  have hin := h.resolve_left hday
  have hstart := hwf.startDay
  have hend := hwf.endDay
  refine Or.inr ?_
  rw [daysLeft] at hlt
  split at hin
  · next hle =>
    rw [if_neg (by omega)] at hlt
    rw [if_pos hle, Int.emod_eq_of_lt (by omega) (by omega)]
    omega
  · next hle =>
    rw [if_neg hle]
    split at hlt
    · -- over the end of the week
      by_cases hweek : w + j < 7
      · rw [Int.emod_eq_of_lt (by omega) hweek]
        omega
      · rw [← Int.sub_emod_right, Int.emod_eq_of_lt (by omega) (by omega)]
        omega
    · rw [Int.emod_eq_of_lt (by omega) (by omega)]
      omega

/-- The day behind them is the one behind the last. -/
theorem add_daysLeft_emod (w : Int) :
    (w + daysLeft item w) % 7 = (item.endDay + 1) % 7 := by
  rw [daysLeft]
  split <;> omega

/-- An end in 32 bits that is not before the time has not overflowed. -/
theorem lt_of_le_emod {v : Int} (hv : v ≤ t + 8 * 86400) (h : t ≤ v % 2 ^ 32) :
    v < 2 ^ 32 := by
  by_contra hge
  omega

/-- The instants from a time to an end, all of them inside the days and hours of an item. -/
def InsideUntil (item : PeriodItem) (offset t r : Int) : Prop :=
  r ≠ 0 ∧ t ≤ r ∧ ∀ u, t ≤ u → u < r → InCalendar item (Tm.atOffset offset u)

/-- The end of the last day is right exactly when the days are counted. -/
theorem insideUntil_days_iff (hwf : item.WellFormed) (hoff : -43200 ≤ offset ∧ offset ≤ 50400)
    (ht : 0 ≤ t) (hday : item.startDay ≠ -1) (hhour : item.startHour = -1 ∨ item.endHour = -1)
    (hin : InCalendar item (Tm.atOffset offset t)) :
    InsideUntil item offset t
        (((t / 86400 + daysLeft item (Tm.atOffset offset t).wday) * 86400 - offset) % 2 ^ 32) ↔
      DaysCounted item offset t := by
  obtain ⟨hdays, hhours⟩ := hin
  have hw : 0 ≤ (Tm.atOffset offset t).wday ∧ (Tm.atOffset offset t).wday < 7 := by
    simp only [Tm.atOffset]
    omega
  have hleft := daysLeft_pos hwf hw hday hdays
  have hnext := fun j ↦ @inDays_of_lt_daysLeft item hwf _ hw hday hdays j
  have hlast := @add_daysLeft_emod item (Tm.atOffset offset t).wday
  rw [DaysCounted]
  generalize daysLeft item (Tm.atOffset offset t).wday = left at *
  simp only [Tm.atOffset] at hw hnext hlast hhours
  constructor
  · rintro ⟨-, hle, hall⟩
    have hfits : (t / 86400 + left) * 86400 - offset < 2 ^ 32 :=
      lt_of_le_emod (by omega) hle
    rw [Int.emod_eq_of_lt (by omega) hfits] at hle hall
    refine ⟨hfits, ?_, ?_, ?_⟩
    · -- the midnight behind the last day is before the end
      intro hlt
      have hmid := (hall (((t + offset) / 86400 + left) * 86400 - offset) (by omega) (by omega)).1
      rw [← hlast]
      simp only [Tm.atOffset] at hmid
      convert hmid using 1
      omega
    · intro hlt
      omega
    · -- so is the next midnight
      intro hpos
      by_contra hgt
      have hmid := (hall (((t + offset) / 86400 + 1) * 86400 - offset) (by omega) (by omega)).2
      simp only [Tm.atOffset, InHours] at hmid
      omega
  · rintro ⟨hfits, hbehind, hbefore, hnight⟩
    rw [Int.emod_eq_of_lt (by omega) hfits]
    refine ⟨by omega, by omega, fun u hu hlt ↦ ⟨?_, ?_⟩⟩
    · simp only [Tm.atOffset]
      by_cases hj : (u + offset) / 86400 - (t + offset) / 86400 < left
      · have := hnext ((u + offset) / 86400 - (t + offset) / 86400) (by omega) hj
        convert this using 1
        omega
      · have := hbehind (by omega)
        rw [← hlast] at this
        convert this using 1
        omega
    · simp only [Tm.atOffset, InHours] at hhours ⊢
      rcases hhour with hunused | hunused
      · exact Or.inl hunused
      rcases hhours with hstart | ⟨hge, -⟩
      · exact Or.inl hstart
      refine Or.inr ⟨?_, Or.inr hunused⟩
      by_cases hpos : 0 < item.startHour
      · -- the end is not behind the local day
        have hday := hnight hpos
        have hsame : (u + offset) / 86400 = (t + offset) / 86400 := by omega
        omega
      · omega

/-- The end hour is right exactly when the hours are counted. -/
theorem insideUntil_hours_iff (hwf : item.WellFormed) (hoff : -43200 ≤ offset ∧ offset ≤ 50400)
    (ht : 0 ≤ t) (hstart : item.startHour ≠ -1) (hend : item.endHour ≠ -1)
    (hin : InCalendar item (Tm.atOffset offset t)) :
    InsideUntil item offset t ((t / 86400 * 86400 - offset + 3600 * item.endHour) % 2 ^ 32) ↔
      HoursCounted item offset t := by
  obtain ⟨hdays, hhours⟩ := hin
  have hhours' := hhours.resolve_left hstart
  have hge := hwf.startHour
  have hle24 := hwf.endHour
  simp only [Tm.atOffset] at hhours' hdays
  rw [HoursCounted]
  constructor
  · rintro ⟨-, hle, hall⟩
    have hfits : t / 86400 * 86400 - offset + 3600 * item.endHour < 2 ^ 32 :=
      lt_of_le_emod (by omega) hle
    refine ⟨hfits, ?_⟩
    -- at the end hour of the local day the item is over, unless that is midnight
    have hover : item.endHour < 24 →
        (t / 86400 * 86400 - offset + 3600 * item.endHour) % 2 ^ 32 ≤
          (t + offset) / 86400 * 86400 + 3600 * item.endHour - offset := by
      intro hlt
      by_contra hgt
      have hmid := (hall ((t + offset) / 86400 * 86400 + 3600 * item.endHour - offset) (by omega)
        (by omega)).2
      simp only [Tm.atOffset, InHours] at hmid
      omega
    rcases Int.lt_trichotomy ((t + offset) / 86400) (t / 86400) with hlt | heq | hgt
    · rw [Int.emod_eq_of_lt (by omega) hfits] at hle hall hover
      have h24 : item.endHour = 24 := by omega
      have hmid := hall (((t + offset) / 86400 + 1) * 86400 - offset) (by omega) (by omega)
      simp only [Tm.atOffset, InCalendar, InHours] at hmid
      refine Or.inr (Or.inl ⟨hlt, by omega, h24, ?_⟩)
      convert hmid.1 using 1
      omega
    · exact Or.inl heq
    · exact Or.inr (Or.inr ⟨hgt, by omega, by omega⟩)
  · rintro ⟨hfits, hday⟩
    rw [Int.emod_eq_of_lt (by omega) hfits]
    refine ⟨by omega, by omega, fun u hu hlt ↦ ?_⟩
    simp only [Tm.atOffset, InCalendar, InHours]
    rcases hday with hsame | ⟨hbefore, hs, he, hnext⟩ | ⟨hbehind, he, hmid⟩
    · have hd : (u + offset) / 86400 = (t + offset) / 86400 := by omega
      exact ⟨hd ▸ hdays, by omega⟩
    · refine ⟨?_, by omega⟩
      by_cases hd : (u + offset) / 86400 = (t + offset) / 86400
      · exact hd ▸ hdays
      · convert hnext using 1
        omega
    · omega

/-! ### The end of an item -/

/-- Outside an item, the end only has to be `0`. -/
theorem itemEndRight_of_not_inItem {conf : Params} (h : ¬ InItem conf.localtime item t)
    (h0 : getEndOfPeriodItemForTime conf item t = 0) : ItemEndRight conf item t :=
  ⟨⟨fun _ ↦ h, fun _ ↦ h0⟩, fun hne ↦ absurd h0 hne⟩

/-- Inside an item, the end is none or behind instants that are all inside. -/
theorem itemEndRight_iff_of_inItem {conf : Params} {r : Int} (h : InItem conf.localtime item t)
    (hr : getEndOfPeriodItemForTime conf item t = r) :
    ItemEndRight conf item t ↔
      r = -1 ∨ r ≠ 0 ∧ t ≤ r ∧ ∀ u, t ≤ u → u < r → InItem conf.localtime item u := by
  constructor
  · rintro ⟨hout, hfin⟩
    rw [hr] at hout hfin
    have hne : r ≠ 0 := fun h0 ↦ hout.1 h0 h
    by_cases h1 : r = -1
    · exact Or.inl h1
    · exact Or.inr ⟨hne, hfin hne h1⟩
  · intro hright
    refine ⟨?_, ?_⟩
    · rw [hr]
      exact ⟨fun h0 ↦ absurd h0 (by rcases hright with h1 | h1 <;> omega), fun h' ↦ absurd h h'⟩
    · rw [hr]
      intro _ h1
      exact (hright.resolve_left h1).2

/-- The end of a duration is right. -/
theorem itemEndRight_duration {conf : Params} (ht : 0 ≤ t) (hd : item.duration > 0) :
    ItemEndRight conf item t := by
  have hin : ∀ u, InItem conf.localtime item u := fun u ↦ by rw [InItem, if_pos hd]; trivial
  have hr : getEndOfPeriodItemForTime conf item t = t + item.duration := by
    rw [getEndOfPeriodItemForTime, if_pos hd]
  rw [itemEndRight_iff_of_inItem (hin t) hr]
  exact Or.inr ⟨by omega, by omega, fun u _ _ ↦ hin u⟩

/-- The end of dates is right unless it is the epoch. -/
theorem itemEndRight_dates_iff {conf : Params} (ht : 0 ≤ t) (hd : ¬ item.duration > 0)
    (hdates : item.startDate ≠ -1 ∨ item.endDate ≠ -1) :
    ItemEndRight conf item t ↔ ¬ (t = 0 ∧ item.endDate = 0 ∧ item.startDate ≤ 0) := by
  have hin : ∀ u, InItem conf.localtime item u ↔ InDates item u := fun u ↦ by
    rw [InItem, if_neg hd, if_pos hdates]
  have hend : getEndOfPeriodItemForTime conf item t =
      if InDates item t then item.endDate else 0 := by
    rw [getEndOfPeriodItemForTime, if_neg hd, if_pos hdates]
    simp only [InDates]
    split_ifs <;> omega
  by_cases hdt : InDates item t
  · rw [if_pos hdt] at hend
    rw [itemEndRight_iff_of_inItem ((hin t).2 hdt) hend]
    simp only [hin]
    simp only [InDates] at hdt ⊢
    constructor
    · intro h
      omega
    · intro h
      by_cases h1 : item.endDate = -1
      · exact Or.inl h1
      · refine Or.inr ⟨by omega, by omega, fun u hu hlt ↦ ?_⟩
        omega
  · rw [if_neg hdt] at hend
    have := itemEndRight_of_not_inItem (fun h ↦ hdt ((hin t).1 h)) hend
    refine iff_of_true this ?_
    rw [InDates] at hdt
    omega

/-- The end of days and hours is right exactly when they are counted. -/
theorem itemEndRight_calendar_iff {conf : Params} (hwf : item.WellFormed)
    (hoff : -43200 ≤ offset ∧ offset ≤ 50400)
    (hlocal : ∀ u, conf.localtime u = Tm.atOffset offset u) (ht : 0 ≤ t)
    (hd : ¬ item.duration > 0) (hdates : ¬ (item.startDate ≠ -1 ∨ item.endDate ≠ -1)) :
    ItemEndRight conf item t ↔
      (InCalendar item (Tm.atOffset offset t) →
        if item.startHour ≠ -1 ∧ item.endHour ≠ -1 then HoursCounted item offset t
        else item.startDay ≠ -1 → DaysCounted item offset t) := by
  have hin : ∀ u, InItem conf.localtime item u ↔ InCalendar item (Tm.atOffset offset u) :=
    fun u ↦ by rw [InItem, if_neg hd, if_neg hdates, hlocal]
  have hnone : endOfDays item (Tm.atOffset offset t) t = none →
      getEndOfPeriodItemForTime conf item t = 0 := by
    intro hdays
    simp only [getEndOfPeriodItemForTime, if_neg hd, if_neg hdates, hlocal, hdays]
  have hend : ∀ endtime, endOfDays item (Tm.atOffset offset t) t = some endtime →
      getEndOfPeriodItemForTime conf item t =
        endOfHours item (Tm.atOffset offset t) t endtime := by
    intro endtime hdays
    simp only [getEndOfPeriodItemForTime, if_neg hd, if_neg hdates, hlocal, hdays]
  by_cases hcal : InCalendar item (Tm.atOffset offset t)
  · have hinside : ∀ r, getEndOfPeriodItemForTime conf item t = r % 2 ^ 32 →
        (ItemEndRight conf item t ↔ InsideUntil item offset t (r % 2 ^ 32)) := by
      intro r hr
      rw [itemEndRight_iff_of_inItem ((hin t).2 hcal) hr]
      simp only [hin]
      exact or_iff_right (by omega)
    rw [forall_prop_of_true hcal]
    by_cases hhour : item.startHour ≠ -1 ∧ item.endHour ≠ -1
    · rw [if_pos hhour, ← insideUntil_hours_iff hwf hoff ht hhour.1 hhour.2 hcal]
      refine hinside _ ?_
      obtain ⟨endtime, hdays⟩ : ∃ e, endOfDays item (Tm.atOffset offset t) t = some e := by
        by_cases hday : item.startDay = -1
        · exact ⟨_, endOfDays_unused hday⟩
        · exact ⟨_, endOfDays_of_inDays ht hday hcal.1⟩
      rw [hend endtime hdays]
      exact endOfHours_of_inHours ht hcal.2 hhour.1 hhour.2
    · rw [if_neg hhour]
      have hunused : item.startHour = -1 ∨ item.endHour = -1 := by omega
      by_cases hday : item.startDay = -1
      · have hend' := (hend _ (endOfDays_unused hday)).trans (endOfHours_unused hcal.2 hunused)
        exact iff_of_true ((itemEndRight_iff_of_inItem ((hin t).2 hcal) hend').2 (Or.inl rfl))
          (fun h ↦ absurd hday h)
      · have hend' := (hend _ (endOfDays_of_inDays ht hday hcal.1)).trans
          (endOfHours_unused hcal.2 hunused)
        rw [forall_prop_of_true hday, ← insideUntil_days_iff hwf hoff ht hday hunused hcal]
        exact hinside _ hend'
  · have h0 : getEndOfPeriodItemForTime conf item t = 0 := by
      cases hdays : endOfDays item (Tm.atOffset offset t) t with
      | none => exact hnone hdays
      | some endtime =>
        rw [hend endtime hdays]
        refine endOfHours_of_not_inHours fun h ↦ hcal ⟨?_, h⟩
        by_contra hno
        rw [endOfDays_of_not_inDays hno] at hdays
        exact Option.some_ne_none _ hdays.symm
    exact iff_of_true (itemEndRight_of_not_inItem (fun h ↦ hcal ((hin t).1 h)) h0)
      (fun h ↦ absurd h hcal)

/-- **The end of an item is right exactly when it is counted from the local day**, or where the
difference does not show. -/
theorem item_end_right_iff (conf : Params) (item : PeriodItem) (offset t : Int)
    (hwf : item.WellFormed) (hoff : -43200 ≤ offset ∧ offset ≤ 50400)
    (hlocal : ∀ u, conf.localtime u = Tm.atOffset offset u) (ht : 0 ≤ t) :
    ItemEndRight conf item t ↔ EndCounted item offset t := by
  rw [EndCounted]
  by_cases hd : item.duration > 0
  · rw [if_pos hd]
    exact iff_of_true (itemEndRight_duration ht hd) trivial
  rw [if_neg hd]
  by_cases hdates : item.startDate ≠ -1 ∨ item.endDate ≠ -1
  · rw [if_pos hdates]
    exact itemEndRight_dates_iff ht hd hdates
  · rw [if_neg hdates]
    exact itemEndRight_calendar_iff hwf hoff hlocal ht hd hdates

/-- From Monday to Friday, from 9 to 18 hours. -/
def workingHours : PeriodItem := ⟨0, -1, -1, 1, 5, 9, 18⟩

/-- The configuration of a server five hours west of UTC. -/
def westernServer : Params :=
  { Params.default with localtime := Tm.atOffset (-18000) }

/-- At noon of a Thursday. -/
theorem workingHours_right :
    ItemEndRight westernServer workingHours 1199984400 ∧
      getEndOfPeriodItemForTime westernServer workingHours 1199984400 = 1200006000 := by
  refine ⟨?_, by decide +kernel⟩
  refine (item_end_right_iff westernServer workingHours (-18000) 1199984400 ?_ (by decide)
    (fun _ ↦ rfl) (by decide)).2 ?_
  · exact ⟨by decide, by decide, by decide, by decide⟩
  · intro _
    rw [if_pos (by decide)]
    exact ⟨by decide, Or.inl (by decide)⟩

/-- Monday to Friday. -/
def workingDays : PeriodItem := ⟨0, -1, -1, 1, 5, -1, -1⟩

/-- In the evening of a Friday UTC has its Saturday already, and the local Saturday is taken for a
day of the item. -/
theorem workingDays_not_right : ¬ ItemEndRight westernServer workingDays 1200106800 := by
  intro h
  have hend : getEndOfPeriodItemForTime westernServer workingDays 1200106800 = 1200200400 := by
    decide +kernel
  have hin := (h.finite (by rw [hend]; decide) (by rw [hend]; decide)).2 1200114000 (by decide)
    (by rw [hend]; decide)
  exact absurd hin (by decide +kernel)

end Nufw
