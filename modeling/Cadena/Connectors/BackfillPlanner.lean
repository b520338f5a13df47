import Cadena.Base.IsoTime
import Mathlib.Data.Int.Init
import Mathlib.Data.List.Chain
import Mathlib.Tactic.Linarith
import Mathlib.Tactic.Ring

/-!
# The plan of a backfill

`planChunks` cuts the range of a backfill into windows of whole minutes. The
windows partition the range (`planChunks_partitions`), which is what lets
chunks run in any order and be retried. The two quotients that the source
rounds up are those of a whole number of minutes below 2^23 by one below 2^16,
where rounding to a double precision number changes no ceiling.
-/

namespace Cadena.Connectors

open Cadena.Base

def MINUTE_MS : Int := 60000
def MIN_CHUNK_SECONDS : Int := 60
def MAX_CHUNK_SECONDS : Int := 31 * 86400
def MAX_CHUNKS_PER_JOB : Int := 5000
def MAX_BACKFILL_SPAN_MS : Int := 10 * 366 * 86400000

structure PlannedChunk where
  seq : Nat
  windowStart : Millis
  windowEnd : Millis
  deriving DecidableEq

inductive BackfillPlanError where
  | notWhole | notMinutes | invalidTimestamp | emptyRange | tooLong
  | tooManyChunks (count suggested : Int)
  deriving DecidableEq

def BackfillPlanError.message : BackfillPlanError → String
  | notWhole => s!"chunk_seconds must be a whole number between {MIN_CHUNK_SECONDS} and {MAX_CHUNK_SECONDS}"
  | notMinutes => "chunk_seconds must be a multiple of 60, because provider queries have minute precision"
  | invalidTimestamp => "from and to must be valid timestamps"
  | emptyRange => "from must be earlier than to, at whole-minute precision"
  | tooLong => "The range spans more than 10 years; split it into several jobs"
  | tooManyChunks count suggested =>
    s!"This range and window size make {count} chunks; the limit is {MAX_CHUNKS_PER_JOB}. Use chunk_seconds of at least {suggested}, or a shorter range."

/-- JQL datetimes have minute precision, so windows must too. -/
def floorToMinute (instant : Millis) : Millis := instant / MINUTE_MS * MINUTE_MS

/-- `Math.ceil(a / b)`. -/
def ceilDiv (a b : Int) : Int := (a + b - 1) / b

def plannedChunk (start stop step : Int) (seq : Nat) : PlannedChunk where
  seq := seq
  windowStart := start + seq * step
  windowEnd := min (start + seq * step + step) stop

/-- `none` stands for a timestamp that is not valid, and for a number of
seconds that is not whole. -/
def planChunks (fromTime toTime : Option Millis) (chunkSeconds : Option Int) :
    Except BackfillPlanError (List PlannedChunk) :=
  match chunkSeconds with
  | none => .error .notWhole
  | some seconds =>
    if seconds < MIN_CHUNK_SECONDS ∨ MAX_CHUNK_SECONDS < seconds then .error .notWhole
    else if seconds % 60 ≠ 0 then .error .notMinutes
    else match fromTime.map floorToMinute, toTime.map floorToMinute with
      | some start, some stop =>
        if stop ≤ start then .error .emptyRange
        else if MAX_BACKFILL_SPAN_MS < stop - start then .error .tooLong
        else
          let step := seconds * 1000
          let count := ceilDiv (stop - start) step
          if MAX_CHUNKS_PER_JOB < count then
            .error (.tooManyChunks count
              (ceilDiv (stop - start) (MAX_CHUNKS_PER_JOB * 1000 * 60) * 60))
          else .ok ((List.range count.toNat).map (plannedChunk start stop step))
      | _, _ => .error .invalidTimestamp

/-! ## Windows -/

/-- Consecutive windows from `start` to `stop`, none of them longer than
`longest`. -/
structure Partitions (start stop longest : Int) (chunks : List PlannedChunk) : Prop where
  numbered : chunks.map (·.seq) = List.range chunks.length
  nonempty : ∀ c ∈ chunks, c.windowStart < c.windowEnd
  bounded : ∀ c ∈ chunks, c.windowEnd - c.windowStart ≤ longest
  consecutive : chunks.IsChain fun c d => c.windowEnd = d.windowStart
  first : chunks.head?.map (·.windowStart) = some start
  last : chunks.getLast?.map (·.windowEnd) = some stop
  exact : ∀ x, start ≤ x → x < stop → ∃! c, c ∈ chunks ∧ c.windowStart ≤ x ∧ x < c.windowEnd

theorem ceilDiv_le_iff {a b n : Int} (hb : 0 < b) : ceilDiv a b ≤ n ↔ a ≤ n * b := by
  rw [ceilDiv, ← Int.lt_add_one_iff, Int.ediv_lt_iff_lt_mul hb, Int.add_mul, Int.one_mul]
  omega

theorem le_ceilDiv_mul {a b : Int} (hb : 0 < b) : a ≤ ceilDiv a b * b :=
  (ceilDiv_le_iff hb).mp (le_refl _)

theorem ceilDiv_sub_one_mul_lt {a b : Int} (hb : 0 < b) : (ceilDiv a b - 1) * b < a := by
  by_contra hno
  have := (ceilDiv_le_iff hb).mpr (not_lt.mp hno)
  omega

theorem ceilDiv_pos {a b : Int} (ha : 0 < a) (hb : 0 < b) : 0 < ceilDiv a b := by
  by_contra hno
  have := (ceilDiv_le_iff hb).mp (not_lt.mp hno)
  omega

section Windows

variable {start stop step : Int}

theorem windowStart_lt (hstep : 0 < step) {k : Nat}
    (hk : k < (ceilDiv (stop - start) step).toNat) : start + k * step < stop := by
  have hcount := ceilDiv_sub_one_mul_lt (a := stop - start) hstep
  have hle : (k : Int) * step ≤ (ceilDiv (stop - start) step - 1) * step :=
    Int.mul_le_mul_of_nonneg_right (by omega) (le_of_lt hstep)
  linarith

theorem partitions_windows (hstep : 0 < step) (hrange : start < stop) :
    Partitions start stop step
      ((List.range (ceilDiv (stop - start) step).toNat).map (plannedChunk start stop step)) := by
  generalize hn : (ceilDiv (stop - start) step).toNat = n
  have hlt : ∀ k, k < n → start + (k : Int) * step < stop := fun k hk =>
    windowStart_lt hstep (hn ▸ hk)
  have hpos : 0 < n := by
    have := ceilDiv_pos (sub_pos.mpr hrange) hstep
    omega
  have hcover : stop - start ≤ (n : Int) * step := by
    have := le_ceilDiv_mul (a := stop - start) hstep
    have hcast : ((ceilDiv (stop - start) step).toNat : Int) = ceilDiv (stop - start) step := by
      have := ceilDiv_pos (sub_pos.mpr hrange) hstep
      omega
    rwa [← hcast, hn] at this
  refine ⟨?_, ?_, ?_, ?_, ?_, ?_, ?_⟩
  · rw [List.length_map, List.length_range, List.map_map]
    exact List.map_id _
  · intro c hc
    obtain ⟨k, hk, rfl⟩ := List.mem_map.mp hc
    show start + (k : Int) * step < min (start + k * step + step) stop
    exact lt_min (by linarith) (hlt k (List.mem_range.mp hk))
  · intro c hc
    obtain ⟨k, hk, rfl⟩ := List.mem_map.mp hc
    show min (start + (k : Int) * step + step) stop - (start + k * step) ≤ step
    have := min_le_left (start + (k : Int) * step + step) stop
    linarith
  · rw [List.isChain_iff_getElem]
    intro i hi
    simp only [List.length_map, List.length_range] at hi
    have hnext := hlt (i + 1) hi
    simp only [List.getElem_map, List.getElem_range, plannedChunk]
    push_cast at hnext ⊢
    rw [add_mul, one_mul] at hnext ⊢
    rw [min_eq_left (by linarith)]
    ring
  · obtain ⟨m, rfl⟩ := Nat.exists_eq_succ_of_ne_zero hpos.ne'
    rw [List.range_succ_eq_map]
    simp [plannedChunk]
  · obtain ⟨m, rfl⟩ := Nat.exists_eq_succ_of_ne_zero hpos.ne'
    rw [List.range_succ, List.map_append, List.map_singleton, List.getLast?_concat]
    simp only [Option.map_some, plannedChunk, Option.some.injEq]
    push_cast at hcover
    rw [add_mul, one_mul] at hcover
    exact min_eq_right (by linarith)
  · intro x hlow hhigh
    have hq0 : 0 ≤ (x - start) / step := Int.ediv_nonneg (by omega) (le_of_lt hstep)
    have hq1 : (x - start) / step * step ≤ x - start := Int.ediv_mul_le _ hstep.ne'
    have hq2 : x - start < ((x - start) / step + 1) * step := Int.lt_ediv_add_one_mul_self _ hstep
    obtain ⟨q, hq⟩ := Int.eq_ofNat_of_zero_le hq0
    rw [hq] at hq1 hq2
    rw [add_mul, one_mul] at hq2
    have hqn : q < n := by
      by_contra hno
      have : (n : Int) * step ≤ q * step :=
        Int.mul_le_mul_of_nonneg_right (by omega) (le_of_lt hstep)
      linarith
    refine ⟨plannedChunk start stop step q, ⟨List.mem_map_of_mem (List.mem_range.mpr hqn), ?_, ?_⟩, ?_⟩
    · simp only [plannedChunk]
      linarith
    · simp only [plannedChunk, lt_min_iff]
      exact ⟨by linarith, hhigh⟩
    · rintro c ⟨hc, hstart, hend⟩
      obtain ⟨k, -, rfl⟩ := List.mem_map.mp hc
      simp only [plannedChunk, lt_min_iff] at hstart hend
      have hk : (x - start) / step = k := by
        refine le_antisymm ?_ ?_
        · rw [← Int.lt_add_one_iff, Int.ediv_lt_iff_lt_mul hstep, add_mul, one_mul]
          linarith [hend.1]
        · rw [Int.le_ediv_iff_mul_le hstep]
          linarith
      rw [hq] at hk
      have : q = k := by exact_mod_cast hk
      rw [this]

end Windows

/-! ## The plan -/

theorem planChunks_ok {fromTime toTime : Option Millis} {chunkSeconds : Option Int}
    {chunks : List PlannedChunk} (h : planChunks fromTime toTime chunkSeconds = .ok chunks) :
    ∃ a b seconds, fromTime = some a ∧ toTime = some b ∧ chunkSeconds = some seconds ∧
      0 < seconds ∧ floorToMinute a < floorToMinute b ∧
      ceilDiv (floorToMinute b - floorToMinute a) (seconds * 1000) ≤ MAX_CHUNKS_PER_JOB ∧
      chunks = (List.range (ceilDiv (floorToMinute b - floorToMinute a) (seconds * 1000)).toNat).map
        (plannedChunk (floorToMinute a) (floorToMinute b) (seconds * 1000)) := by
  cases chunkSeconds with
  | none => cases h
  | some seconds =>
    rw [planChunks] at h
    split at h
    case isTrue => cases h
    case isFalse hbounds =>
      split at h
      case isTrue => cases h
      case isFalse =>
        cases fromTime with
        | none => cases h
        | some a =>
          cases toTime with
          | none => cases h
          | some b =>
            dsimp only [Option.map_some] at h
            split at h
            case isTrue => cases h
            case isFalse hrange =>
              split at h
              case isTrue => cases h
              case isFalse =>
                split at h
                case isTrue => cases h
                case isFalse hcount =>
                  refine ⟨a, b, seconds, rfl, rfl, rfl, ?_, not_le.mp hrange,
                    not_lt.mp hcount, (Except.ok.inj h).symm⟩
                  have := (not_or.mp hbounds).1
                  rw [MIN_CHUNK_SECONDS] at this
                  omega

theorem planChunks_refused {fromTime toTime : Option Millis} {chunkSeconds : Option Int}
    {count suggested : Int}
    (h : planChunks fromTime toTime chunkSeconds = .error (.tooManyChunks count suggested)) :
    ∃ a b, fromTime = some a ∧ toTime = some b ∧ floorToMinute a < floorToMinute b ∧
      floorToMinute b - floorToMinute a ≤ MAX_BACKFILL_SPAN_MS ∧
      suggested = ceilDiv (floorToMinute b - floorToMinute a) (MAX_CHUNKS_PER_JOB * 1000 * 60) * 60 := by
  cases chunkSeconds with
  | none => cases h
  | some seconds =>
    rw [planChunks] at h
    split at h
    case isTrue => cases h
    case isFalse =>
      split at h
      case isTrue => cases h
      case isFalse =>
        cases fromTime with
        | none => cases h
        | some a =>
          cases toTime with
          | none => cases h
          | some b =>
            dsimp only [Option.map_some] at h
            split at h
            case isTrue => cases h
            case isFalse hrange =>
              split at h
              case isTrue => cases h
              case isFalse hspan =>
                split at h
                case isTrue =>
                  injection h with h
                  injection h with _ hsuggested
                  exact ⟨a, b, rfl, rfl, not_le.mp hrange, not_lt.mp hspan, hsuggested.symm⟩
                case isFalse => cases h

theorem suggested_spec {span : Int} (hpos : 0 < span) (hspan : span ≤ MAX_BACKFILL_SPAN_MS) :
    let suggested := ceilDiv span (MAX_CHUNKS_PER_JOB * 1000 * 60) * 60
    MIN_CHUNK_SECONDS ≤ suggested ∧ suggested ≤ MAX_CHUNK_SECONDS ∧ suggested % 60 = 0 ∧
      ceilDiv span (suggested * 1000) ≤ MAX_CHUNKS_PER_JOB := by
  have hlow : 0 < ceilDiv span (MAX_CHUNKS_PER_JOB * 1000 * 60) := ceilDiv_pos hpos (by decide)
  have hhigh : ceilDiv span (MAX_CHUNKS_PER_JOB * 1000 * 60) ≤ 44640 :=
    (ceilDiv_le_iff (by decide)).mpr (le_trans hspan (by decide))
  have hcover := le_ceilDiv_mul (a := span) (b := MAX_CHUNKS_PER_JOB * 1000 * 60) (by decide)
  generalize ceilDiv span (MAX_CHUNKS_PER_JOB * 1000 * 60) = minutes at hlow hhigh hcover ⊢
  simp only [MIN_CHUNK_SECONDS, MAX_CHUNK_SECONDS, MAX_CHUNKS_PER_JOB] at hcover ⊢
  refine ⟨by omega, by omega, by omega, ?_⟩
  rw [ceilDiv_le_iff (by omega)]
  omega

/-- The chunks of a plan partition its range, and a range that was refused for
too many of them is planned with the seconds that are suggested. -/
theorem planChunks_partitions (fromTime toTime : Option Millis) (chunkSeconds : Option Int) :
    (∀ chunks, planChunks fromTime toTime chunkSeconds = .ok chunks →
      ∃ a b seconds, fromTime = some a ∧ toTime = some b ∧ chunkSeconds = some seconds ∧
        Partitions (floorToMinute a) (floorToMinute b) (seconds * 1000) chunks ∧
        (chunks.length : Int) ≤ MAX_CHUNKS_PER_JOB) ∧
    (∀ count suggested,
      planChunks fromTime toTime chunkSeconds = .error (.tooManyChunks count suggested) →
        ∃ chunks, planChunks fromTime toTime (some suggested) = .ok chunks) := by
  constructor
  · intro chunks h
    obtain ⟨a, b, seconds, ha, hb, hseconds, hpos, hrange, hcount, rfl⟩ := planChunks_ok h
    refine ⟨a, b, seconds, ha, hb, hseconds, partitions_windows (by omega) hrange, ?_⟩
    rw [List.length_map, List.length_range]
    have := ceilDiv_pos (sub_pos.mpr hrange) (b := seconds * 1000) (by omega)
    omega
  · intro count suggested h
    obtain ⟨a, b, rfl, rfl, hrange, hspan, rfl⟩ := planChunks_refused h
    obtain ⟨hmin, hmax, hwhole, hfew⟩ := suggested_spec (sub_pos.mpr hrange) hspan
    rw [planChunks, if_neg (not_or.mpr ⟨not_lt.mpr hmin, not_lt.mpr hmax⟩), if_neg (not_not.mpr hwhole)]
    dsimp only [Option.map_some]
    rw [if_neg (not_le.mpr hrange), if_neg (not_lt.mpr hspan), if_neg (not_lt.mpr hfew)]
    exact ⟨_, rfl⟩

/-- Two days by the hour, and ten years by the minute. -/
theorem plans_hold :
    (∃ chunks, planChunks (some 30000) (some 172800000) (some 3600) = .ok chunks ∧
      Partitions 0 172800000 3600000 chunks) ∧
    ∃ chunks, planChunks (some 0) (some 316224000000) (some 63300) = .ok chunks := by
  constructor
  · have hok : (planChunks (some 30000) (some 172800000) (some 3600)).toOption.isSome = true := by
      decide
    cases hplan : planChunks (some 30000) (some 172800000) (some 3600) with
    | error e =>
      rw [hplan] at hok
      cases hok
    | ok chunks =>
      obtain ⟨a, b, seconds, ha, hb, hseconds, hpartitions, -⟩ :=
        (planChunks_partitions (some 30000) (some 172800000) (some 3600)).1 chunks hplan
      obtain rfl := Option.some.inj ha
      obtain rfl := Option.some.inj hb
      obtain rfl := Option.some.inj hseconds
      exact ⟨chunks, rfl, hpartitions⟩
  · exact (planChunks_partitions (some 0) (some 316224000000) (some 60)).2 5270400 63300 rfl

end Cadena.Connectors
