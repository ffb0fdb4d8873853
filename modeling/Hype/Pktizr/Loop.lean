import Mathlib.Algebra.Order.Field.Rat
import Hype.Basic

set_option autoImplicit false

/-! # The generator: `loop_cb`

`loop_cb` enumerates `tot_cnt = tgt_cnt * prt_cnt * count` iterations and at iteration `i`
picks target `(i % tgt_cnt) / count` and port `(i / tgt_cnt) / count` of the range lists.
The range lists, the token bucket and the script are outside `pktizr.c`; the model takes
what they return at each iteration from a `LoopEnv`, and records the index pairs the loop
passes to `range_list_pick`.

`loopCb_stop` says what a run picks: the pairs of the indices before the first iteration
whose test reads `args->stop` set, or of `0, ..., tot_cnt - 1` when there is none
(`loopCb_picks`), with `tot_cnt` computed in `size_t`. `loopCb_covers` says which pairs
those are: every port, but only the targets `t` with `t * count < tgt_cnt`.
-/

namespace Hype.Pktizr

/-- `tot_cnt = tgt_cnt * prt_cnt * args->count`, in `size_t`. -/
def totCnt (tgtCnt prtCnt count : Nat) : Nat := tgtCnt * prtCnt * count % SIZET

/-- The indices `loop_cb` passes to `range_list_pick` at iteration `i`: the target's,
`(i % tgt_cnt) / args->count`, and the port's, `(i / tgt_cnt) / args->count`. -/
def pickIdx (tgtCnt count i : Nat) : Nat × Nat := ((i % tgtCnt) / count, (i / tgtCnt) / count)

/-- What the environment of `loop_cb` decides at iteration `i`. -/
structure LoopEnv where
  /-- `args->stop`, read by the loop test of iteration `i` -/
  stop : Nat → Bool
  /-- `bucket.tokens` after `bucket_consume` at iteration `i`, from the tokens before -/
  consume : Nat → ℚ → ℚ
  /-- `script_loop` at iteration `i` on the target and port of the picked indices -/
  scriptLoop : Nat → Nat × Nat → Int

/-- The locals of `loop_cb`, and the index pairs passed to `range_list_pick` so far. -/
structure LoopState where
  i : Nat
  tokens : ℚ
  picks : List (Nat × Nat)

/-- The body of the loop of `loop_cb` at `s.i`. -/
def loopStep (tgtCnt count : Nat) (env : LoopEnv) (s : LoopState) : LoopState :=
  let tokens := env.consume s.i s.tokens
  let idx := pickIdx tgtCnt count s.i
  let rc := env.scriptLoop s.i idx
  ⟨s.i + 1, if rc < 0 then tokens else tokens - 1, s.picks ++ [idx]⟩

/-- `for (; i < tot_cnt && !args->stop; i++)`, for at most `fuel` iterations. -/
def loopRun (tgtCnt count tot : Nat) (env : LoopEnv) : Nat → LoopState → LoopState
  | 0, s => s
  | fuel + 1, s =>
      if s.i < tot ∧ env.stop s.i = false then
        loopRun tgtCnt count tot env fuel (loopStep tgtCnt count env s)
      else s

/-- `loop_cb`, from the tokens `bucket_init` leaves. The loop runs at most `tot_cnt`
iterations, which is the fuel it is given. -/
def loopCb (tgtCnt prtCnt count : Nat) (tokens : ℚ) (env : LoopEnv) : LoopState :=
  let tot := totCnt tgtCnt prtCnt count
  loopRun tgtCnt count tot env tot ⟨0, tokens, []⟩

@[simp] theorem loopStep_i (tgtCnt count : Nat) (env : LoopEnv) (s : LoopState) :
    (loopStep tgtCnt count env s).i = s.i + 1 := rfl

@[simp] theorem loopStep_picks (tgtCnt count : Nat) (env : LoopEnv) (s : LoopState) :
    (loopStep tgtCnt count env s).picks = s.picks ++ [pickIdx tgtCnt count s.i] := rfl

/-- The iteration whose loop test first reads `args->stop` set, among the `k` from `i`; `i + k`
when there is none. -/
def firstStop (stop : Nat → Bool) (i : Nat) : Nat → Nat
  | 0 => i
  | k + 1 => if stop i then i else firstStop stop (i + 1) k

theorem le_firstStop (stop : Nat → Bool) : ∀ (i k : Nat), i ≤ firstStop stop i k
  | _, 0 => Nat.le_refl _
  | i, k + 1 => by
      rw [firstStop]
      split
      · exact Nat.le_refl _
      · exact Nat.le_of_succ_le (le_firstStop stop (i + 1) k)

/-- A run stops at the first iteration whose test reads `args->stop` set, and adds the pairs
of the indices before it. -/
theorem loopRun_stop (tgtCnt count tot : Nat) (env : LoopEnv) :
    ∀ (fuel : Nat) (s : LoopState), tot = s.i + fuel →
      (loopRun tgtCnt count tot env fuel s).i = firstStop env.stop s.i fuel ∧
        (loopRun tgtCnt count tot env fuel s).picks =
          s.picks ++ (List.range' s.i (firstStop env.stop s.i fuel - s.i)).map
            (pickIdx tgtCnt count)
  | 0, s, _ => by simp [loopRun, firstStop]
  | fuel + 1, s, h => by
      rw [loopRun, firstStop]
      by_cases hs : env.stop s.i
      · rw [if_neg (fun h' => by simp [hs] at h'), if_pos hs]
        simp
      · rw [if_pos ⟨by omega, by simpa using hs⟩, if_neg hs]
        obtain ⟨hi, hp⟩ :=
          loopRun_stop tgtCnt count tot env fuel (loopStep tgtCnt count env s) (by simp; omega)
        have hle := le_firstStop env.stop (s.i + 1) fuel
        rw [loopStep_i] at hi hp
        refine ⟨hi, ?_⟩
        rw [hp, loopStep_picks, show firstStop env.stop (s.i + 1) fuel - s.i =
          (firstStop env.stop (s.i + 1) fuel - (s.i + 1)) + 1 by omega, List.range'_succ,
          List.map_cons, List.append_assoc, List.singleton_append]

/-- `loop_cb` runs the iterations before the first one whose test reads `args->stop` set,
or all `tot_cnt` of them, and passes `range_list_pick` the pairs of exactly those
indices. -/
theorem loopCb_stop (tgtCnt prtCnt count : Nat) (tokens : ℚ) (env : LoopEnv) :
    (loopCb tgtCnt prtCnt count tokens env).i = firstStop env.stop 0 (totCnt tgtCnt prtCnt count) ∧
      (loopCb tgtCnt prtCnt count tokens env).picks =
        (List.range (firstStop env.stop 0 (totCnt tgtCnt prtCnt count))).map
          (pickIdx tgtCnt count) := by
  obtain ⟨hi, hp⟩ := loopRun_stop tgtCnt count (totCnt tgtCnt prtCnt count) env
    (totCnt tgtCnt prtCnt count) ⟨0, tokens, []⟩ (by simp)
  exact ⟨hi, by rw [loopCb, hp, List.range_eq_range']; simp⟩

theorem firstStop_eq_add (stop : Nat → Bool) (hstop : ∀ i, stop i = false) :
    ∀ (i k : Nat), firstStop stop i k = i + k
  | _, 0 => rfl
  | i, k + 1 => by
      rw [firstStop, if_neg (by simp [hstop]), firstStop_eq_add stop hstop (i + 1) k]
      omega

/-- The pairs a run of `loop_cb` that is not stopped passes to `range_list_pick`. -/
theorem loopCb_picks (tgtCnt prtCnt count : Nat) (tokens : ℚ) (env : LoopEnv)
    (hstop : ∀ i, env.stop i = false) :
    (loopCb tgtCnt prtCnt count tokens env).picks =
      (List.range (totCnt tgtCnt prtCnt count)).map (pickIdx tgtCnt count) := by
  rw [(loopCb_stop tgtCnt prtCnt count tokens env).2, firstStop_eq_add _ hstop, Nat.zero_add]

/-- The iteration `loop_cb` picks a pair at: the port's `count` blocks of `tgt_cnt`, and in
the first of them the target's `count` copies. -/
theorem pickIdx_at {tgtCnt count t p : Nat} (hc : 0 < count) (ht : t * count < tgtCnt) :
    pickIdx tgtCnt count (p * count * tgtCnt + t * count) = (t, p) := by
  have hmod : (p * count * tgtCnt + t * count) % tgtCnt = t * count := by
    rw [Nat.mul_comm _ tgtCnt, Nat.mul_add_mod, Nat.mod_eq_of_lt ht]
  have hdiv : (p * count * tgtCnt + t * count) / tgtCnt = p * count := by
    rw [Nat.mul_comm _ tgtCnt, Nat.mul_add_div (by omega), Nat.div_eq_of_lt ht, Nat.add_zero]
  simp only [pickIdx, hmod, hdiv, Nat.mul_div_cancel _ hc]

/-- The pair an index below `tot_cnt` picks: its target times `count` stays below
`tgt_cnt`, and its port below `prt_cnt`. -/
theorem pickIdx_lt {tgtCnt prtCnt count i : Nat} (hi : i < prtCnt * count * tgtCnt) :
    0 < count ∧ (pickIdx tgtCnt count i).1 * count < tgtCnt ∧
      (pickIdx tgtCnt count i).2 < prtCnt := by
  have hc : 0 < count := Nat.pos_of_ne_zero fun h => by simp [h] at hi
  have hT : 0 < tgtCnt := Nat.pos_of_ne_zero fun h => by simp [h] at hi
  refine ⟨hc, lt_of_le_of_lt (Nat.div_mul_le_self _ _) (Nat.mod_lt _ hT), ?_⟩
  rwa [pickIdx, Nat.div_lt_iff_lt_mul hc, Nat.div_lt_iff_lt_mul hT]

/-- The pairs a run of `loop_cb` that is not stopped covers, when `tot_cnt` does not wrap:
every port, but of the targets only those below `tgt_cnt / count`, rounded up. Target `t`
is picked only while `t * count < tgt_cnt`, since its index `(i % tgt_cnt) / count` divides
a remainder below `tgt_cnt`; with `--count` above one the targets past that are never
scanned, and with `--count 0` nothing is. -/
theorem loopCb_covers (tgtCnt prtCnt count : Nat) (tokens : ℚ) (env : LoopEnv)
    (hstop : ∀ i, env.stop i = false) (hlt : tgtCnt * prtCnt * count < SIZET) (t p : Nat) :
    (t, p) ∈ (loopCb tgtCnt prtCnt count tokens env).picks ↔
      0 < count ∧ t * count < tgtCnt ∧ p < prtCnt := by
  have hcomm : tgtCnt * prtCnt * count = prtCnt * count * tgtCnt := by
    rw [Nat.mul_assoc, Nat.mul_comm]
  rw [loopCb_picks tgtCnt prtCnt count tokens env hstop, totCnt, Nat.mod_eq_of_lt hlt,
    List.mem_map, hcomm]
  constructor
  · rintro ⟨i, hi, hpick⟩
    simpa only [hpick] using pickIdx_lt (List.mem_range.mp hi)
  · rintro ⟨hc, ht, hp⟩
    refine ⟨p * count * tgtCnt + t * count, List.mem_range.mpr ?_, pickIdx_at hc ht⟩
    calc p * count * tgtCnt + t * count < p * count * tgtCnt + count * tgtCnt := by
          have : t * count < count * tgtCnt :=
            lt_of_lt_of_le ht (Nat.le_mul_of_pos_left tgtCnt hc)
          omega
      _ = (p + 1) * count * tgtCnt := by rw [Nat.succ_mul, Nat.add_mul]
      _ ≤ prtCnt * count * tgtCnt := Nat.mul_le_mul_right _ (Nat.mul_le_mul_right _ hp)

/-- Three targets, one port, two copies: the third target is never picked. -/
theorem loopCb_covers_three :
    (∀ i, (⟨fun _ => false, fun _ t => t, fun _ _ => 0⟩ : LoopEnv).stop i = false) ∧
      3 * 1 * 2 < SIZET ∧
      ((2, 0) ∈ (loopCb 3 1 2 0 ⟨fun _ => false, fun _ t => t, fun _ _ => 0⟩).picks ↔
        0 < 2 ∧ 2 * 2 < 3 ∧ 0 < 1) :=
  ⟨fun _ => rfl, by decide,
    loopCb_covers 3 1 2 0 ⟨fun _ => false, fun _ t => t, fun _ _ => 0⟩ (fun _ => rfl) (by decide)
      2 0⟩

/-- Three targets, one port, two copies each: the run picks target `0` four times,
target `1` twice and target `2` never. -/
theorem loop_cb_skips_target (tokens : ℚ) (consume : Nat → ℚ → ℚ)
    (scriptLoop : Nat → Nat × Nat → Int) :
    (loopCb 3 1 2 tokens ⟨fun _ => false, consume, scriptLoop⟩).picks =
        [(0, 0), (0, 0), (1, 0), (0, 0), (0, 0), (1, 0)] ∧
      (loopCb 3 1 2 tokens ⟨fun _ => false, consume, scriptLoop⟩).picks.count (2, 0) = 0 := by
  rw [loopCb_picks 3 1 2 tokens _ (fun _ => rfl)]
  exact ⟨rfl, rfl⟩

end Hype.Pktizr
