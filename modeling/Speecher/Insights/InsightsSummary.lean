import Mathlib.Data.List.TakeWhile
import Mathlib.Order.Bounds.Basic
import Speecher.Foundations.Streaks

/-!
# Streaks of dictation days

`byDay` adds the dictations up by day, days in order, and `summarizeStreaks` finds the streaks among them: the current
one by walking back from today, or from yesterday when today is idle, the best one in one pass over the days up to
today, and when there is no current one the last one, by walking back from the latest day. The three are what they
stand for, for any dictations and any today (`streaks_exact`).
-/

namespace Speecher

/-- A dictation as the summary reads it: the day it finished, as a Julian day, its audio and its words. -/
structure DictationDay where
  date : ℤ
  audioMs : ℤ := 0
  words : ℤ := 0

structure DayTotals where
  dictations : ℕ := 0
  words : ℤ := 0
  audioMs : ℤ := 0
  deriving DecidableEq

/-- A dictation counted. -/
def DayTotals.count (totals : DayTotals) (record : DictationDay) : DayTotals :=
  ⟨totals.dictations + 1, totals.words + record.words, totals.audioMs + record.audioMs⟩

/-- A dictation counted at its day. -/
def countInto (record : DictationDay) : List (ℤ × DayTotals) → List (ℤ × DayTotals)
  | [] => [(record.date, DayTotals.count {} record)]
  | (day, totals) :: days =>
    if record.date < day then (record.date, DayTotals.count {} record) :: (day, totals) :: days
    else if record.date = day then (day, totals.count record) :: days
    else (day, totals) :: countInto record days

/-- The days with dictations, each once and in order. -/
structure DayMap where
  days : List (ℤ × DayTotals)
  sorted : days.Pairwise fun a b => a.1 < b.1

theorem mem_countInto {record : DictationDay} {days : List (ℤ × DayTotals)} {day : ℤ} :
    day ∈ (countInto record days).map Prod.fst ↔ day = record.date ∨ day ∈ days.map Prod.fst := by
  fun_induction countInto record days with
  | case1 => simp
  | case2 first totals days hlt => simp
  | case3 totals days hlt => simp
  | case4 first totals days hlt hne ih =>
    rw [List.map_cons, List.mem_cons, ih, List.map_cons, List.mem_cons]
    tauto

theorem sorted_countInto {record : DictationDay} {days : List (ℤ × DayTotals)}
    (h : days.Pairwise fun a b => a.1 < b.1) : (countInto record days).Pairwise fun a b => a.1 < b.1 := by
  fun_induction countInto record days with
  | case1 => exact List.pairwise_singleton ..
  | case2 first totals days hlt =>
    refine List.pairwise_cons.mpr ⟨fun later hlater => ?_, h⟩
    rcases List.mem_cons.mp hlater with rfl | hlater
    · exact hlt
    · exact Int.lt_trans hlt ((List.pairwise_cons.mp h).1 later hlater)
  | case3 totals days hlt =>
    exact List.pairwise_cons.mpr ⟨fun later hlater => (List.pairwise_cons.mp h).1 later hlater, (List.pairwise_cons.mp h).2⟩
  | case4 first totals days hlt hne ih =>
    obtain ⟨hfirst, hdays⟩ := List.pairwise_cons.mp h
    refine List.pairwise_cons.mpr ⟨fun later hlater => ?_, ih hdays⟩
    rcases mem_countInto.mp (List.mem_map_of_mem hlater) with heq | hmem
    · show first < later.1
      omega
    · obtain ⟨found, hfound, heq⟩ := List.mem_map.mp hmem
      exact heq ▸ hfirst found hfound

namespace DayMap

def count (map : DayMap) (record : DictationDay) : DayMap := ⟨countInto record map.days, sorted_countInto map.sorted⟩

def keys (map : DayMap) : List ℤ := map.days.map Prod.fst

def contains (map : DayMap) (day : ℤ) : Bool := map.keys.contains day

theorem keys_sorted (map : DayMap) : map.keys.Pairwise (· < ·) := List.pairwise_map.mpr map.sorted

theorem contains_iff {map : DayMap} {day : ℤ} : map.contains day = true ↔ day ∈ map.keys := List.contains_iff_mem

end DayMap

def byDay (records : List DictationDay) : DayMap := records.foldl DayMap.count ⟨[], .nil⟩

theorem mem_keys_byDay {records : List DictationDay} {day : ℤ} :
    day ∈ (byDay records).keys ↔ ∃ record ∈ records, record.date = day := by
  have hfold : ∀ map : DayMap, day ∈ (records.foldl DayMap.count map).keys ↔
      day ∈ map.keys ∨ ∃ record ∈ records, record.date = day := by
    induction records with
    | nil => simp
    | cons record records ih =>
      intro map
      rw [List.foldl_cons, ih, DayMap.keys, DayMap.count, mem_countInto, DayMap.keys]
      simp only [List.mem_cons, exists_eq_or_imp, eq_comm (a := day)]
      tauto
  exact (hfold ⟨[], .nil⟩).trans (or_iff_right List.not_mem_nil)

/-! ## The streaks -/

/-- The streak fields of `InsightsSummary`. -/
structure InsightsStreaks where
  currentStreak : ℕ := 0
  bestStreak : ℕ := 0
  bestStreakEnd : Option ℤ := none
  bestStreakEndsToday : Bool := false
  brokenStreakLength : ℕ := 0
  brokenStreakEnded : Option ℤ := none
  weekActivity : List Bool := []
  todayIndex : ℕ := 0
  deriving DecidableEq

/-- Walking back one day leaves fewer days to come. -/
theorem length_filter_le_pred {days : List ℤ} {day : ℤ} (h : day ∈ days) :
    (days.filter (· ≤ day - 1)).length < (days.filter (· ≤ day)).length := by
  have hsub : days.filter (· ≤ day - 1) = (days.filter (· ≤ day)).filter (· ≤ day - 1) := by
    rw [List.filter_filter]
    refine List.filter_congr fun d _ => ?_
    by_cases hd : d ≤ day - 1
    · simp [hd, (by omega : d ≤ day)]
    · simp [hd]
  rw [hsub, List.length_filter_lt_length_iff_exists]
  exact ⟨day, List.mem_filter.mpr ⟨h, by simp⟩, by simp only [decide_eq_true_eq]; omega⟩

/-- How many days it takes to walk back from a day to one without dictation. -/
def walkBack (map : DayMap) (day : ℤ) : ℕ :=
  if h : map.contains day then walkBack map (day - 1) + 1 else 0
termination_by (map.keys.filter (· ≤ day)).length
decreasing_by exact length_filter_le_pred (DayMap.contains_iff.mp h)

/-- The pass over the days: the run so far, the day before, and the best run. -/
structure StreakPass where
  run : ℕ := 0
  previous : Option ℤ := none
  bestStreak : ℕ := 0
  bestStreakEnd : Option ℤ := none

/-- A day of the pass. -/
def StreakPass.day (pass : StreakPass) (day : ℤ) : StreakPass :=
  let run := if pass.previous.any fun previous => day - previous = 1 then pass.run + 1 else 1
  { run
    previous := some day
    bestStreak := if pass.bestStreak < run then run else pass.bestStreak
    bestStreakEnd := if pass.bestStreak < run then some day else pass.bestStreakEnd }

/-- The pass over the days up to today. -/
def streakPass (map : DayMap) (today : ℤ) : StreakPass := (map.keys.takeWhile (· ≤ today)).foldl StreakPass.day {}

/-- Monday is 1. -/
def dayOfWeek (day : ℤ) : ℤ := day % 7 + 1

def summarizeStreaks (map : DayMap) (today : ℤ) : InsightsStreaks :=
  let currentStreak := walkBack map (if map.contains today then today else today - 1)
  let pass := streakPass map today
  let broken := if currentStreak = 0 then pass.previous else none
  let monday := today + (1 - dayOfWeek today)
  { currentStreak
    bestStreak := pass.bestStreak
    bestStreakEnd := pass.bestStreakEnd
    bestStreakEndsToday := 0 < pass.bestStreak && pass.bestStreakEnd = some today
    brokenStreakLength := match broken with | some previous => walkBack map previous | none => 0
    brokenStreakEnded := broken.map (· + 1)
    weekActivity := (List.range 7).map fun (i : ℕ) => monday + i ≤ today && map.contains (monday + i)
    todayIndex := (dayOfWeek today - 1).toNat }

/-! ## What they are -/

/-- The days with dictations. -/
def dictationDays (records : List DictationDay) : Set ℤ := { day | ∃ record ∈ records, record.date = day }

/-- Walking back finds the maximal run. -/
theorem wholeStreak_walkBack (map : DayMap) (day : ℤ) : WholeStreak { d | d ∈ map.keys } day (walkBack map day) := by
  fun_induction walkBack map day with
  | case1 day h ih => exact ih.succ (DayMap.contains_iff.mp h)
  | case2 day h => exact .zero (mt DayMap.contains_iff.mpr h)

/-- What the pass holds after the days so far. -/
structure Passed (pass : StreakPass) (days : List ℤ) : Prop where
  previous : pass.previous = days.getLast?
  latest : ∀ last, days.getLast? = some last → ∀ d ∈ days, d ≤ last
  run : ∀ last, days.getLast? = some last → WholeStreak { d | d ∈ days } last pass.run ∧ 0 < pass.run
  best : Longest { d | d ∈ days } pass.bestStreak pass.bestStreakEnd

theorem passed_nil : Passed {} [] := by
  refine ⟨rfl, fun _ h => ?_, fun _ h => ?_, by simpa using Longest.empty⟩
  · cases h
  · cases h

/-- The run that ends at a day after all others. -/
theorem Passed.run_day {pass : StreakPass} {days : List ℤ} (h : Passed pass days) {day : ℤ}
    (hday : ∀ d ∈ days, d < day) :
    WholeStreak (insert day { d | d ∈ days }) day (pass.day day).run ∧ 0 < (pass.day day).run := by
  have hmem : day ∈ insert day { d | d ∈ days } := Set.mem_insert ..
  -- a day of its own, where the day before is idle
  have hsingle (hidle : day - 1 ∉ days) : WholeStreak (insert day { d | d ∈ days }) day 1 := by
    refine WholeStreak.succ hmem (.zero ?_)
    rintro (heq | hbefore)
    · omega
    · exact hidle hbefore
  rw [StreakPass.day]
  cases hprevious : pass.previous with
  | none =>
    have hnil : days = [] := List.getLast?_eq_none_iff.mp (h.previous ▸ hprevious)
    refine ⟨hsingle ?_, Nat.zero_lt_one⟩
    rw [hnil]
    exact List.not_mem_nil
  | some previous =>
    have hlast := h.previous ▸ hprevious
    rw [Option.any_some]
    by_cases hnext : day - previous = 1
    · have hbefore : previous = day - 1 := by omega
      have hrun : WholeStreak (insert day { d | d ∈ days }) previous pass.run :=
        (h.run previous hlast).1.insert_later (by omega)
      rw [if_pos (by simpa using hnext)]
      exact ⟨.succ hmem (hbefore ▸ hrun), Nat.succ_pos _⟩
    · rw [if_neg (by simpa using hnext)]
      refine ⟨hsingle fun hidle => ?_, Nat.zero_lt_one⟩
      have hle := h.latest previous hlast _ hidle
      have hlt := hday previous (List.mem_of_getLast? hlast)
      omega

/-- A day after all others. -/
theorem Passed.day {pass : StreakPass} {days : List ℤ} (h : Passed pass days) {day : ℤ} (hday : ∀ d ∈ days, d < day) :
    Passed (pass.day day) (days ++ [day]) := by
  have hset : { d | d ∈ days ++ [day] } = insert day { d | d ∈ days } := by
    ext d
    simp [or_comm]
  have hrun := h.run_day hday
  have hend : ∀ last, (days ++ [day]).getLast? = some last → last = day := by simp
  refine ⟨by simp [StreakPass.day], fun last hlast d hd => ?_, fun last hlast => ?_, ?_⟩
  · rw [hend last hlast]
    rcases List.mem_append.mp hd with hd | hd
    · exact Int.le_of_lt (hday d hd)
    · exact Int.le_of_eq (List.mem_singleton.mp hd)
  · rw [hset, hend last hlast]
    exact hrun
  · rw [hset]
    exact h.best.insert hday hrun.1 hrun.2

/-- Days in order. -/
theorem Passed.days {pass : StreakPass} {done days : List ℤ} (h : Passed pass done)
    (hsorted : (done ++ days).Pairwise (· < ·)) : Passed (days.foldl StreakPass.day pass) (done ++ days) := by
  induction days generalizing pass done with
  | nil => rwa [List.append_nil]
  | cons day days ih =>
    have hday : ∀ d ∈ done, d < day := fun d hd =>
      (List.pairwise_append.mp hsorted).2.2 d hd day List.mem_cons_self
    rw [List.append_cons] at hsorted ⊢
    exact ih (h.day hday) hsorted

/-- The days up to a day, of days in order. -/
theorem mem_takeWhile_le {days : List ℤ} (hsorted : days.Pairwise (· < ·)) {today day : ℤ} :
    day ∈ days.takeWhile (· ≤ today) ↔ day ∈ days ∧ day ≤ today := by
  refine ⟨fun h => ⟨(List.takeWhile_prefix _).subset h, by simpa using List.mem_takeWhile_imp h⟩, fun ⟨h, hle⟩ => ?_⟩
  clear * - hsorted h hle
  induction days with
  | nil => cases h
  | cons first days ih =>
    obtain ⟨hfirst, hdays⟩ := List.pairwise_cons.mp hsorted
    rcases List.mem_cons.mp h with rfl | h
    · rw [List.takeWhile_cons_of_pos (by simpa using hle)]
      exact List.mem_cons_self
    · have hlt := hfirst day h
      rw [List.takeWhile_cons_of_pos (by simp only [decide_eq_true_eq]; omega)]
      exact List.mem_cons_of_mem first (ih hdays h)

/-- What the pass holds in the end. -/
theorem passed_all (map : DayMap) (today : ℤ) :
    Passed (streakPass map today) (map.keys.takeWhile (· ≤ today)) :=
  passed_nil.days (map.keys_sorted.sublist (List.takeWhile_sublist _))

/-- The streak that broke. -/
theorem brokenStreak_eq {map : DayMap} {today latest : ℤ} (hidle : (summarizeStreaks map today).currentStreak = 0)
    (hprevious : (streakPass map today).previous = some latest) :
    (summarizeStreaks map today).brokenStreakLength = walkBack map latest ∧
      (summarizeStreaks map today).brokenStreakEnded = some (latest + 1) := by
  have hcurrent : walkBack map (if map.contains today then today else today - 1) = 0 := hidle
  simp only [summarizeStreaks, hcurrent, hprevious, if_true, Option.map_some, and_self]

theorem brokenStreakLength_eq_zero {map : DayMap} {today : ℤ}
    (h : (summarizeStreaks map today).currentStreak = 0 → (streakPass map today).previous = none) :
    (summarizeStreaks map today).brokenStreakLength = 0 := by
  rw [summarizeStreaks]
  by_cases hidle : walkBack map (if map.contains today then today else today - 1) = 0
  · simp only [hidle, h hidle, if_true]
  · simp only [hidle, if_false]

/-- **The streaks are what they stand for**, whatever the days of the dictations, also days after today: the best streak
and its end among the days up to today, the current one, the one that broke, and that neither is longer than the
best. -/
theorem streaks_exact (records : List DictationDay) (today : ℤ) :
    let D := dictationDays records
    let streaks := summarizeStreaks (byDay records) today
    Longest { day | day ∈ D ∧ day ≤ today } streaks.bestStreak streaks.bestStreakEnd ∧
      (today ∈ D → WholeStreak D today streaks.currentStreak) ∧
      (today ∉ D → WholeStreak D (today - 1) streaks.currentStreak) ∧
      (streaks.currentStreak = 0 → (∃ day ∈ D, day ≤ today) →
        ∃ latest, IsGreatest { day | day ∈ D ∧ day ≤ today } latest ∧ WholeStreak D latest streaks.brokenStreakLength ∧
          streaks.brokenStreakEnded = some (latest + 1)) ∧
      max streaks.currentStreak streaks.brokenStreakLength ≤ streaks.bestStreak := by
  intro D streaks
  have hmem : ∀ day, day ∈ (byDay records).keys ↔ day ∈ D := fun day => mem_keys_byDay
  have hkeys : { day | day ∈ (byDay records).keys } = D := Set.ext hmem
  have hmemUp : ∀ day, day ∈ (byDay records).keys.takeWhile (· ≤ today) ↔ day ∈ D ∧ day ≤ today := fun day => by
    rw [mem_takeWhile_le (byDay records).keys_sorted, hmem]
  have hwalk : ∀ day, WholeStreak D day (walkBack (byDay records) day) := fun day =>
    hkeys ▸ wholeStreak_walkBack (byDay records) day
  have hpassed := passed_all (byDay records) today
  have hbest : Longest { day | day ∈ D ∧ day ≤ today } streaks.bestStreak streaks.bestStreakEnd :=
    (Set.ext hmemUp : { day | day ∈ (byDay records).keys.takeWhile (· ≤ today) } = _) ▸ hpassed.best
  -- a run that ends by today is one of the days up to today
  have hle : ∀ last n, last ≤ today → WholeStreak D last n → n ≤ streaks.bestStreak := fun last n hlast hwhole =>
    hbest.longest last n fun k hk => ⟨hwhole.within k hk, by omega⟩
  have hcurrent : streaks.currentStreak = walkBack (byDay records)
      (if (byDay records).contains today then today else today - 1) := rfl
  have htoday : today ∈ D → WholeStreak D today streaks.currentStreak := fun h => by
    rw [hcurrent, if_pos (DayMap.contains_iff.mpr ((hmem today).mpr h))]
    exact hwalk today
  have hyesterday : today ∉ D → WholeStreak D (today - 1) streaks.currentStreak := fun h => by
    rw [hcurrent, if_neg (mt DayMap.contains_iff.mp (mt (hmem today).mp h))]
    exact hwalk (today - 1)
  -- the latest day, where there is one
  have hlatest : ∀ latest, (streakPass (byDay records) today).previous = some latest →
      IsGreatest { day | day ∈ D ∧ day ≤ today } latest := fun latest hprevious => by
    have hlast := hpassed.previous ▸ hprevious
    exact ⟨(hmemUp latest).mp (List.mem_of_getLast? hlast),
      fun day hday => hpassed.latest latest hlast day ((hmemUp day).mpr hday)⟩
  have hbroken : streaks.currentStreak = 0 → (∃ day ∈ D, day ≤ today) →
      ∃ latest, IsGreatest { day | day ∈ D ∧ day ≤ today } latest ∧ WholeStreak D latest streaks.brokenStreakLength ∧
        streaks.brokenStreakEnded = some (latest + 1) := by
    rintro hidle ⟨day, hday, hupto⟩
    cases hprevious : (streakPass (byDay records) today).previous with
    | none =>
      have hnil := List.getLast?_eq_none_iff.mp (hpassed.previous ▸ hprevious)
      have hin := (hmemUp day).mpr ⟨hday, hupto⟩
      rw [hnil] at hin
      cases hin
    | some latest =>
      obtain ⟨hlength, hended⟩ := brokenStreak_eq hidle hprevious
      exact ⟨latest, hlatest latest hprevious, hlength ▸ hwalk latest, hended⟩
  have hcurrentLe : streaks.currentStreak ≤ streaks.bestStreak := by
    by_cases h : today ∈ D
    · exact hle today _ (Int.le_refl today) (htoday h)
    · exact hle (today - 1) _ (by omega) (hyesterday h)
  have hbrokenLe : streaks.brokenStreakLength ≤ streaks.bestStreak := by
    by_cases h : streaks.currentStreak = 0 → (streakPass (byDay records) today).previous = none
    · exact brokenStreakLength_eq_zero h ▸ Nat.zero_le _
    · obtain ⟨hidle, hsome⟩ := Classical.not_imp.mp h
      obtain ⟨latest, hprevious⟩ := Option.ne_none_iff_exists'.mp hsome
      obtain ⟨hmemLatest, -⟩ := hlatest latest hprevious
      exact hle latest _ hmemLatest.2 ((brokenStreak_eq hidle hprevious).1 ▸ hwalk latest)
  exact ⟨hbest, htoday, hyesterday, hbroken, max_le hcurrentLe hbrokenLe⟩

end Speecher
