import Hype.Lpack.Format
import Mathlib.Tactic.Ring

set_option autoImplicit false

/-! # Integers in bytes

`packint` and `unpackint` of `lpack.c`, and what they compute: `packint` writes the
`size`-byte two's complement of a number (`packint_signed`, `packint_unsigned`), and
`unpackint` reads back the integer the bytes denote, or raises when it does not fit a
`lua_Integer` (`unpackint_denote`). Each undoes the other: `unpackint` reads back what
`packint` wrote (`unpackint_packint_signed`), and `packint` writes back the bytes
`unpackint` read (`packint_unpackint_signed`).

Both functions index the buffer as `buff[islittle ? i : size - 1 - i]`; the model keeps
the bytes least significant first and reverses them for big endian (`byteOrder`).
-/

namespace Hype.Lpack

/-! ## Little-endian naturals -/

/-- The `k` bytes of `m`, least significant first; the bits above `8 * k` are dropped. -/
def leBytes : Nat → Nat → List UInt8
  | 0, _ => []
  | k + 1, m => UInt8.ofNat (m % 256) :: leBytes k (m / 256)

/-- The natural whose bytes, least significant first, are the list. -/
def ofLE : List UInt8 → Nat
  | [] => 0
  | b :: bs => b.toNat + 256 * ofLE bs

@[simp] theorem leBytes_zero (m : Nat) : leBytes 0 m = [] := rfl
@[simp] theorem leBytes_succ (k m : Nat) :
    leBytes (k + 1) m = UInt8.ofNat (m % 256) :: leBytes k (m / 256) := rfl
@[simp] theorem ofLE_nil : ofLE [] = 0 := rfl
@[simp] theorem ofLE_cons (b : UInt8) (bs : List UInt8) : ofLE (b :: bs) = b.toNat + 256 * ofLE bs := rfl

@[simp] theorem length_leBytes (k m : Nat) : (leBytes k m).length = k := by
  induction k generalizing m <;> simp [*]

theorem ofLE_leBytes (k m : Nat) : ofLE (leBytes k m) = m % 256 ^ k := by
  induction k generalizing m with
  | zero => simp [Nat.mod_one]
  | succ k ih =>
      rw [leBytes_succ, ofLE_cons, ih, toNat_ofNat_byte, Nat.mod_mod, Nat.pow_succ', Nat.mod_mul]

theorem ofLE_lt (l : List UInt8) : ofLE l < 256 ^ l.length := by
  induction l with
  | nil => simp
  | cons b bs ih =>
      have := byte_toNat_lt b
      rw [ofLE_cons, List.length_cons, Nat.pow_succ]
      omega

theorem leBytes_ofLE (l : List UInt8) : leBytes l.length (ofLE l) = l := by
  induction l with
  | nil => rfl
  | cons b bs ih =>
      have hb := byte_toNat_lt b
      rw [List.length_cons, leBytes_succ, ofLE_cons]
      congr 1
      · apply byte_ext; simp; omega
      · rw [show (b.toNat + 256 * ofLE bs) / 256 = ofLE bs by omega, ih]

theorem ofLE_append (l₁ l₂ : List UInt8) :
    ofLE (l₁ ++ l₂) = ofLE l₁ + 256 ^ l₁.length * ofLE l₂ := by
  induction l₁ with
  | nil => simp
  | cons b bs ih => rw [List.cons_append, ofLE_cons, ofLE_cons, ih, List.length_cons, Nat.pow_succ]; ring

theorem leBytes_mod (k m : Nat) : leBytes k (m % 256 ^ k) = leBytes k m := by
  induction k generalizing m with
  | zero => rfl
  | succ k ih =>
      rw [leBytes_succ, leBytes_succ, Nat.pow_succ', Nat.mod_mul_right_div_self, ih, Nat.mod_mul_right_mod]

theorem leBytes_add (a b x y : Nat) (hx : x < 256 ^ a) :
    leBytes (a + b) (x + 256 ^ a * y) = leBytes a x ++ leBytes b y := by
  induction a generalizing x with
  | zero => simp at hx; subst hx; simp
  | succ a ih =>
      rw [Nat.add_right_comm, leBytes_succ, leBytes_succ, List.cons_append]
      have h1 : (x + 256 ^ (a + 1) * y) % 256 = x % 256 := by
        rw [Nat.pow_succ', Nat.mul_assoc, Nat.add_mul_mod_self_left]
      have h2 : (x + 256 ^ (a + 1) * y) / 256 = x / 256 + 256 ^ a * y := by
        rw [Nat.pow_succ', Nat.mul_assoc, Nat.add_mul_div_left _ _ (by norm_num)]
      rw [h1, h2, ih _ (by rw [Nat.pow_succ'] at hx; omega)]

theorem leBytes_pow_sub_one (b : Nat) : leBytes b (256 ^ b - 1) = List.replicate b (UInt8.ofNat 255) := by
  induction b with
  | zero => rfl
  | succ b ih =>
      have hp : 0 < 256 ^ b := Nat.pos_pow_of_pos _ (by decide)
      rw [leBytes_succ, List.replicate_succ]
      have h1 : (256 ^ (b + 1) - 1) % 256 = 255 := by rw [Nat.pow_succ]; omega
      have h2 : (256 ^ (b + 1) - 1) / 256 = 256 ^ b - 1 := by rw [Nat.pow_succ]; omega
      rw [h1, h2, ih]

/-! ## `packint` -/

/-- The loop of `packint`: byte `i` is `n >> (NB * i) & MC`. -/
def packintLE : Nat → Nat → List UInt8
  | 0, _ => []
  | k + 1, n => UInt8.ofNat (n &&& MC) :: packintLE k (n >>> NB)

/-- The bytes as they lie in the buffer, `le` holding them least significant first:
`buff[islittle ? i : size - 1 - i]`. -/
def byteOrder (islittle : Bool) (le : List UInt8) : List UInt8 :=
  if islittle then le else le.reverse

@[simp] theorem length_byteOrder (islittle : Bool) (l : List UInt8) :
    (byteOrder islittle l).length = l.length := by
  unfold byteOrder; split <;> simp

@[simp] theorem byteOrder_byteOrder (islittle : Bool) (l : List UInt8) :
    byteOrder islittle (byteOrder islittle l) = l := by
  unfold byteOrder; split <;> simp

/-- `packint(b, n, islittle, size, neg)`: `n` is the `lua_Unsigned` of the integer. The
bytes past `SZINT` of a negative number are corrected to `MC`. -/
def packint (n : Nat) (islittle : Bool) (size : Nat) (neg : Bool) : List UInt8 :=
  let le := packintLE size n
  byteOrder islittle
    (if neg && size > SZINT then le.take SZINT ++ List.replicate (size - SZINT) (UInt8.ofNat MC)
    else le)

theorem packintLE_eq (k n : Nat) : packintLE k n = leBytes k n := by
  induction k generalizing n with
  | zero => rfl
  | succ k ih =>
      have h1 : n &&& MC = n % 256 := Nat.and_pow_two_sub_one_eq_mod n 8
      have h2 : n >>> NB = n / 256 := Nat.shiftRight_eq_div_pow n 8
      rw [packintLE, leBytes_succ, h1, h2, ih]

theorem xor_two_pow_of_lt {x m : Nat} (hx : x < 2 ^ m) : x ^^^ 2 ^ m = 2 ^ m + x := by
  apply Nat.eq_of_testBit_eq
  intro i
  rw [Nat.testBit_xor, Nat.testBit_two_pow]
  rcases Nat.lt_trichotomy i m with h | rfl | h
  · rw [Nat.testBit_two_pow_add_gt h]; simp [Nat.ne_of_gt h]
  · rw [Nat.testBit_two_pow_add_eq, Nat.testBit_lt_two_pow hx]; simp
  · have hm : 2 ^ (m + 1) ≤ 2 ^ i := Nat.pow_le_pow_right (by omega) h
    rw [Nat.testBit_lt_two_pow (by omega : x < 2 ^ i),
      Nat.testBit_lt_two_pow (by rw [Nat.pow_succ] at hm; omega : 2 ^ m + x < 2 ^ i)]
    simp [Nat.ne_of_lt h]

theorem xor_two_pow_of_ge {x m : Nat} (h1 : 2 ^ m ≤ x) (h2 : x < 2 ^ (m + 1)) :
    x ^^^ 2 ^ m = x - 2 ^ m := by
  have hy : x - 2 ^ m < 2 ^ m := by rw [Nat.pow_succ] at h2; omega
  have hx : x = (x - 2 ^ m) ^^^ 2 ^ m := by rw [xor_two_pow_of_lt hy]; omega
  conv_lhs => rw [hx]
  rw [Nat.xor_assoc, Nat.xor_self, Nat.xor_zero]

/-! ## `unpackint` -/

/-- The loop of `unpackint`, from `i = limit - 1` down to `0`: `res <<= NB; res |= byte i`. -/
def unpackintLoop (le : List UInt8) : Nat → Nat → Nat
  | 0, res => res
  | i + 1, res => unpackintLoop le i (res <<< NB ||| (le.getD i 0).toNat)

/-- `int mask = (!issigned || (lua_Integer)res >= 0) ? 0 : MC;` -/
def signMask (issigned : Bool) (res : Nat) : Nat :=
  if !issigned || 0 ≤ (BitVec.ofNat 64 res).toInt then 0 else MC

/-- `unpackint(L, str, islittle, size, issigned)`, where `str` holds the `size` bytes at
`data + pos`. `res` is a `lua_Unsigned`; the model keeps it below `2 ^ 64` by reading at most
`SZINT` bytes. -/
def unpackint (str : List UInt8) (islittle : Bool) (size : Nat) (issigned : Bool) :
    Except LuaError LuaInteger :=
  let le := byteOrder islittle str
  let limit := if size ≤ SZINT then size else SZINT
  let res := unpackintLoop le limit 0
  if size < SZINT then
    if issigned then
      let mask := 2 ^ (size * NB - 1)
      .ok (BitVec.ofNat 64 (res ^^^ mask) - BitVec.ofNat 64 mask)
    else .ok (BitVec.ofNat 64 res)
  else if size > SZINT then
    if (le.drop limit).all (fun b => b.toNat == signMask issigned res) then
      .ok (BitVec.ofNat 64 res)
    else .error (.error s!"{size}-byte integer does not fit into Lua Integer")
  else .ok (BitVec.ofNat 64 res)

/-! ## What the bytes mean -/

/-- The integer the bytes `str` denote: unsigned, or two's complement when `issigned`. -/
def denote (str : List UInt8) (islittle issigned : Bool) : Int :=
  let u := ofLE (byteOrder islittle str)
  if issigned ∧ 2 ^ (8 * str.length - 1) ≤ u then (u : Int) - 2 ^ (8 * str.length) else u

/-- Whether an integer is a `lua_Integer` (signed) or a `lua_Unsigned` (unsigned). -/
def fitsLuaInteger (issigned : Bool) (v : Int) : Bool :=
  if issigned then decide (-2 ^ 63 ≤ v ∧ v < 2 ^ 63) else decide (v < 2 ^ 64)

theorem shiftLeft_lor_byte (res : Nat) (b : UInt8) :
    res <<< NB ||| b.toNat = res * 256 + b.toNat := by
  rw [Nat.shiftLeft_eq, Nat.mul_comm,
    ← Nat.mul_add_lt_is_or (show b.toNat < 2 ^ NB from byte_toNat_lt b)]
  show 2 ^ 8 * res + b.toNat = _
  omega

theorem unpackintLoop_eq (le : List UInt8) (i res : Nat) (hi : i ≤ le.length) :
    unpackintLoop le i res = res * 256 ^ i + ofLE (le.take i) := by
  induction i generalizing res with
  | zero => simp [unpackintLoop]
  | succ i ih =>
      rw [unpackintLoop, shiftLeft_lor_byte, ih _ (by omega), List.take_succ,
        List.getElem?_eq_getElem (by omega), ofLE_append, List.length_take_of_le (by omega)]
      simp only [Option.toList_some, ofLE_cons, ofLE_nil, List.getD_eq_getElem?_getD,
        List.getElem?_eq_getElem (show i < le.length by omega), Option.getD_some]
      rw [Nat.pow_succ]
      ring

theorem all_toNat_eq_zero (l : List UInt8) :
    (l.all fun b => b.toNat == 0) = true ↔ ofLE l = 0 := by
  induction l with
  | nil => simp
  | cons b bs ih => simp [ih]

theorem all_toNat_eq_MC (l : List UInt8) :
    (l.all fun b => b.toNat == MC) = true ↔ ofLE l = 256 ^ l.length - 1 := by
  induction l with
  | nil => simp
  | cons b bs ih =>
      have hb := byte_toNat_lt b
      have hx := ofLE_lt bs
      have hp : 0 < 256 ^ bs.length := Nat.pos_pow_of_pos _ (by decide)
      rw [List.all_cons, Bool.and_eq_true, ih, beq_iff_eq, ofLE_cons, List.length_cons,
        Nat.pow_succ, show MC = 255 from rfl]
      generalize 256 ^ bs.length = P at *
      omega

theorem fitsLuaInteger_true (v : Int) :
    fitsLuaInteger true v = true ↔ -2 ^ 63 ≤ v ∧ v < 2 ^ 63 := by simp [fitsLuaInteger]

theorem fitsLuaInteger_false (v : Int) : fitsLuaInteger false v = true ↔ v < 2 ^ 64 := by
  simp [fitsLuaInteger]

theorem signMask_eq (issigned : Bool) {res : Nat} (h : res < 2 ^ 64) :
    signMask issigned res = if issigned ∧ 2 ^ 63 ≤ res then MC else 0 := by
  unfold signMask
  rw [BitVec.toInt_eq_toNat_cond, BitVec.toNat_ofNat, Nat.mod_eq_of_lt h]
  cases issigned
  · rfl
  · simp only [Bool.not_true, Bool.false_or, decide_eq_true_eq, true_and]
    split_ifs <;> omega

/-- The check of the bytes beyond a `lua_Integer`: they all equal the sign mask. -/
theorem all_eq_signMask (l : List UInt8) (c : Prop) [Decidable c] :
    (l.all fun b => b.toNat == if c then MC else 0) = true ↔
      ofLE l = if c then 256 ^ l.length - 1 else 0 := by
  by_cases hc : c
  · simp only [hc, ite_true]; exact all_toNat_eq_MC l
  · simp only [hc, ite_false]; exact all_toNat_eq_zero l

/-- The arithmetic of a wide integer: `R` is its low `lua_Integer`, `H` the rest. It fits a
`lua_Integer` exactly when `H` extends the sign of `R`, and then it is `R`. -/
theorem wide_fits (issigned : Bool) {R H P : Nat} (hR : R < 2 ^ 64) (hH : H < P) :
    let S : Int := if issigned ∧ 2 ^ 63 * P ≤ R + 2 ^ 64 * H then
      ((R + 2 ^ 64 * H : Nat) : Int) - ((2 ^ 64 * P : Nat) : Int) else ((R + 2 ^ 64 * H : Nat) : Int)
    (fitsLuaInteger issigned S = true ↔ H = if issigned ∧ 2 ^ 63 ≤ R then P - 1 else 0) ∧
      (fitsLuaInteger issigned S = true → BitVec.ofInt 64 S = BitVec.ofNat 64 R) := by
  intro S
  have hmod : S % 2 ^ 64 = (R : Int) % 2 ^ 64 := by
    simp only [S]; split_ifs <;> omega
  refine ⟨?_, fun _ => BitVec.eq_of_toNat_eq ?_⟩
  · cases issigned
    · simp only [S, fitsLuaInteger_false, Bool.false_eq_true, false_and, ite_false]; omega
    · simp only [S, fitsLuaInteger_true, true_and]; split_ifs <;> omega
  · simp only [BitVec.toNat_ofNat, BitVec.toNat_ofInt]; omega

/-- The sign extension of `unpackint`: `(res ^ mask) - mask`, for the sign bit
`mask = 2 ^ m` of `m + 1` bits, is the two's complement value of `res`. -/
theorem ofNat_xor_sub_two_pow {U m : Nat} (hU : U < 2 ^ (m + 1)) :
    BitVec.ofNat 64 (U ^^^ 2 ^ m) - BitVec.ofNat 64 (2 ^ m) =
      BitVec.ofInt 64 (if 2 ^ m ≤ U then (U : Int) - 2 ^ (m + 1) else U) := by
  by_cases hUM : U < 2 ^ m
  · rw [xor_two_pow_of_lt hUM, if_neg (by omega), BitVec.ofNat_add, BitVec.add_comm,
      BitVec.add_sub_cancel, BitVec.ofInt_natCast]
  · have hsplit : (U : Int) - 2 ^ (m + 1) = ((U - 2 ^ m : Nat) : Int) - ((2 ^ m : Nat) : Int) := by
      push_cast [Nat.cast_sub (Nat.le_of_not_lt hUM)]; ring
    have hadd : BitVec.ofInt 64 (((U - 2 ^ m : Nat) : Int) - ((2 ^ m : Nat) : Int)) +
        BitVec.ofNat 64 (2 ^ m) = BitVec.ofNat 64 (U - 2 ^ m) := by
      rw [← BitVec.ofInt_natCast 64 (2 ^ m), ← BitVec.ofInt_add, Int.sub_add_cancel,
        BitVec.ofInt_natCast]
    rw [xor_two_pow_of_ge (by omega) hU, if_pos (by omega), hsplit, ← hadd, BitVec.add_sub_cancel]

/-- The bytes `unpackint` reads, as one number below `256 ^ size`. -/
theorem unpackintLoop_byteOrder (str : List UInt8) (islittle : Bool) :
    unpackintLoop (byteOrder islittle str) str.length 0 = ofLE (byteOrder islittle str) := by
  rw [unpackintLoop_eq _ _ 0 (by simp), ← length_byteOrder islittle str, List.take_length]
  simp

/-- Fewer bytes than a `lua_Integer`: a signed item gets its sign extended. -/
theorem unpackint_lt_SZINT (str : List UInt8) (islittle issigned : Bool)
    (h1 : 1 ≤ str.length) (hk : str.length < SZINT) :
    unpackint str islittle str.length issigned =
      .ok (BitVec.ofInt 64 (denote str islittle issigned)) := by
  have hU := ofLE_lt (byteOrder islittle str)
  simp only [unpackint, denote, hk, ite_true, Nat.le_of_lt hk, unpackintLoop_byteOrder]
  rw [length_byteOrder] at hU
  generalize ofLE (byteOrder islittle str) = U at *
  generalize str.length = k at *
  simp only [SZINT, NB] at hk ⊢
  have h256 : (256 : Nat) ^ k = 2 ^ (8 * k - 1 + 1) := by
    rw [show 8 * k - 1 + 1 = 8 * k by omega, Nat.pow_mul]
  cases issigned
  · simp only [Bool.false_eq_true, ite_false, false_and, BitVec.ofInt_natCast]
  · rw [h256] at hU
    rw [show k * 8 - 1 = 8 * k - 1 by omega, ofNat_xor_sub_two_pow hU,
      show 8 * k - 1 + 1 = 8 * k by omega]
    simp

/-- Exactly a `lua_Integer`: the bytes are its two's complement. -/
theorem unpackint_SZINT (str : List UInt8) (islittle issigned : Bool) (hk : str.length = SZINT) :
    unpackint str islittle str.length issigned =
      .ok (BitVec.ofInt 64 (denote str islittle issigned)) := by
  have hU := ofLE_lt (byteOrder islittle str)
  have hres := unpackintLoop_byteOrder str islittle
  rw [length_byteOrder, hk] at hU
  rw [hk] at hres
  simp only [unpackint, denote, hk, Nat.lt_irrefl, ite_false, le_refl, ite_true, gt_iff_lt,
    hres]
  generalize ofLE (byteOrder islittle str) = U at *
  simp only [SZINT] at hU ⊢
  apply congrArg
  apply BitVec.eq_of_toNat_eq
  simp only [BitVec.toNat_ofNat, BitVec.toNat_ofInt]
  split <;> omega

/-- More bytes than a `lua_Integer`: the bytes beyond it must extend its sign. -/
theorem unpackint_gt_SZINT (str : List UInt8) (islittle issigned : Bool)
    (hk : SZINT < str.length) (h16 : str.length ≤ MAXINTSIZE) :
    unpackint str islittle str.length issigned =
      if fitsLuaInteger issigned (denote str islittle issigned) = false then
        .error (.error s!"{str.length}-byte integer does not fit into Lua Integer")
      else .ok (BitVec.ofInt 64 (denote str islittle issigned)) := by
  unfold unpackint denote
  generalize hle : byteOrder islittle str = le
  have hlen : le.length = str.length := by rw [← hle, length_byteOrder]
  generalize str.length = k at *
  simp only [MAXINTSIZE, SZINT, NB] at *
  have hpow : (2 : Int) ^ (8 * k) = ((2 ^ (8 * k) : Nat) : Int) := by simp
  rw [hpow]
  have hres : unpackintLoop le 8 0 = ofLE (le.take 8) := by
    rw [unpackintLoop_eq le 8 0 (by omega)]; simp
  have hsplit : ofLE le = ofLE (le.take 8) + 2 ^ 64 * ofLE (le.drop 8) := by
    conv_lhs => rw [← List.take_append_drop 8 le]
    rw [ofLE_append, List.length_take_of_le (by omega)]; rfl
  have hH := ofLE_lt (le.drop 8)
  have hR : ofLE (le.take 8) < 2 ^ 64 := by
    have := ofLE_lt (le.take 8)
    rwa [List.length_take_of_le (by omega)] at this
  have hlen8 : (le.drop 8).length = k - 8 := by simp [hlen]
  rw [hlen8] at hH
  have hP63 : 2 ^ (8 * k - 1) = 2 ^ 63 * 256 ^ (k - 8) := by
    rw [show 8 * k - 1 = 63 + 8 * (k - 8) by omega, Nat.pow_add, Nat.pow_mul]
  have hP64 : 2 ^ (8 * k) = 2 ^ 64 * 256 ^ (k - 8) := by
    rw [show 8 * k = 64 + 8 * (k - 8) by omega, Nat.pow_add, Nat.pow_mul]
  simp only [show ¬ (k < 8) by omega, ite_false, show ¬ (k ≤ 8) by omega, gt_iff_lt, hk,
    ite_true, hres, hsplit, hP63, hP64]
  rw [signMask_eq issigned hR]
  have hall := all_eq_signMask (le.drop 8) (issigned ∧ 2 ^ 63 ≤ ofLE (le.take 8))
  rw [hlen8] at hall
  generalize le.drop 8 = hi at *
  generalize ofLE (le.take 8) = R at *
  generalize ofLE hi = H at *
  generalize 256 ^ (k - 8) = P at *
  obtain ⟨hfit, hval⟩ := wide_fits issigned hR hH
  by_cases hA : (hi.all fun b => b.toNat == if issigned = true ∧ 2 ^ 63 ≤ R then MC else 0) = true
  · have hf := hfit.mpr (hall.mp hA)
    rw [if_pos hA, if_neg (by rw [hf]; simp)]
    exact congrArg _ (hval hf).symm
  · have hf : fitsLuaInteger issigned _ = false := Bool.eq_false_iff.mpr
      fun h => hA (hall.mpr (hfit.mp h))
    rw [if_neg hA, if_pos hf]

/-- `unpackint` of `k` bytes, `1 ≤ k ≤ MAXINTSIZE`, is the integer they denote taken
modulo `2 ^ 64`; it raises exactly when more than `SZINT` bytes denote an integer out of
range. -/
theorem unpackint_denote (str : List UInt8) (islittle issigned : Bool)
    (h1 : 1 ≤ str.length) (h16 : str.length ≤ MAXINTSIZE) :
    unpackint str islittle str.length issigned =
      if SZINT < str.length ∧ fitsLuaInteger issigned (denote str islittle issigned) = false then
        .error (.error s!"{str.length}-byte integer does not fit into Lua Integer")
      else .ok (BitVec.ofInt 64 (denote str islittle issigned)) := by
  rcases Nat.lt_trichotomy str.length SZINT with hk | hk | hk
  · rw [unpackint_lt_SZINT str islittle issigned h1 hk, if_neg (by omega)]
  · rw [unpackint_SZINT str islittle issigned hk, if_neg (by omega)]
  · rw [unpackint_gt_SZINT str islittle issigned hk h16]
    simp only [hk, true_and]

/-- The `k`-byte two's complement of `v`, in the byte order `islittle`. -/
def twosComplement (k : Nat) (v : Int) (islittle : Bool) : List UInt8 :=
  byteOrder islittle (leBytes k (v % 2 ^ (8 * k)).toNat)

theorem take_leBytes (j k m : Nat) (h : j ≤ k) : (leBytes k m).take j = leBytes j m := by
  induction j generalizing k m with
  | zero => simp
  | succ j ih =>
      obtain ⟨k, rfl⟩ : ∃ k', k = k' + 1 := ⟨k - 1, by omega⟩
      simp [ih k (m / 256) (by omega)]

theorem toNat_emod_two_pow (m k : Nat) :
    (((m : Int) % 2 ^ (8 * k)).toNat) = m % 2 ^ (8 * k) := by
  rw [show (2 : Int) ^ (8 * k) = ((2 ^ (8 * k) : Nat) : Int) by simp, ← Int.ofNat_emod,
    Int.toNat_ofNat]

/-- `packint` of an unsigned number writes its `k`-byte two's complement: the low `k`
bytes, zero-extended beyond `SZINT`. -/
theorem packint_unsigned (m : Nat) (islittle : Bool) (k : Nat) :
    packint m islittle k false = twosComplement k m islittle := by
  simp only [packint, twosComplement, packintLE_eq, Bool.false_and, ite_false,
    toNat_emod_two_pow, Nat.pow_mul]
  rw [← leBytes_mod k m]; rfl

/-- `packint` of a `lua_Integer` with `neg = (n < 0)` writes the `k`-byte two's complement
of its signed value: beyond `SZINT` bytes the sign is extended. -/
theorem packint_signed (n : LuaInteger) (islittle : Bool) (k : Nat) :
    packint n.toNat islittle k (decide (n.toInt < 0)) = twosComplement k n.toInt islittle := by
  have hn := n.isLt
  have hi : (n.toNat : Int) = n.toInt % 2 ^ 64 := by
    rw [BitVec.toInt_eq_toNat_cond]; split <;> omega
  have hlo : -2 ^ 63 ≤ n.toInt := by rw [BitVec.toInt_eq_toNat_cond]; split <;> omega
  unfold packint twosComplement
  dsimp only
  congr 1
  rw [packintLE_eq]
  by_cases hw : n.toInt < 0 ∧ 8 < k
  · rw [if_pos (by simp [hw, SZINT])]
    obtain ⟨j, rfl⟩ : ∃ j, k = 8 + j := ⟨k - 8, by omega⟩
    have hv : (n.toInt % 2 ^ (8 * (8 + j))).toNat = n.toNat + 256 ^ 8 * (256 ^ j - 1) := by
      have hM : (2 : Int) ^ (8 * (8 + j)) = 2 ^ 64 * ((256 ^ j : Nat) : Int) := by
        rw [show 8 * (8 + j) = 64 + 8 * j by ring, pow_add, pow_mul]; push_cast; norm_num
      have hP1 : 1 ≤ 256 ^ j := Nat.one_le_pow _ _ (by omega)
      rw [hM, ← Int.add_emod_self, Int.emod_eq_of_lt (by omega) (by omega)]
      generalize 256 ^ j = P at *
      have : (256 : Nat) ^ 8 = 2 ^ 64 := rfl
      omega
    rw [hv, leBytes_add _ _ _ _ (by simpa using n.isLt), leBytes_pow_sub_one,
      take_leBytes SZINT (8 + j) n.toNat (by simp [SZINT])]
    simp only [SZINT, Nat.add_sub_cancel_left]; rfl
  · rw [if_neg (by simp [SZINT]; omega)]
    have hv : n.toInt % 2 ^ (8 * k) = (n.toNat : Int) % 2 ^ (8 * k) := by
      by_cases hk : k ≤ 8
      · have hd : (2 : Int) ^ (8 * k) ∣ 2 ^ 64 := pow_dvd_pow 2 (by omega)
        rw [hi, Int.emod_emod_of_dvd _ hd]
      · have hhi : n.toInt < 2 ^ 63 := by rw [BitVec.toInt_eq_toNat_cond]; split <;> omega
        congr 1; omega
    rw [hv, toNat_emod_two_pow, Nat.pow_mul, ← leBytes_mod k n.toNat]

/-! ## Round trips -/

/-- `k ≥ 1` bytes hold twice the magnitude of their sign bit. -/
theorem pow_256_eq {k : Nat} (hk : 1 ≤ k) : (256 : Nat) ^ k = 2 * 2 ^ (8 * k - 1) := by
  rw [← Nat.pow_succ', show (256 : Nat) = 2 ^ 8 from rfl, ← Nat.pow_mul]; congr 1; omega

theorem two_pow_eight_mul {k : Nat} (hk : 1 ≤ k) :
    (2 : Int) ^ (8 * k) = 2 * ((2 ^ (8 * k - 1) : Nat) : Int) := by
  rw [show 8 * k = 8 * k - 1 + 1 by omega, pow_succ]; push_cast; ring

/-- The bytes of a two's complement denote the integer again, when it fits in them. -/
theorem denote_twosComplement {k : Nat} {v : Int} (islittle issigned : Bool) (hk : 1 ≤ k)
    (hv : if issigned then -2 ^ (8 * k - 1) ≤ v ∧ v < 2 ^ (8 * k - 1) else 0 ≤ v ∧ v < 2 ^ (8 * k)) :
    denote (twosComplement k v islittle) islittle issigned = v := by
  unfold denote twosComplement
  rw [length_byteOrder, length_leBytes, byteOrder_byteOrder, ofLE_leBytes]
  have hI' : (2 : Int) ^ (8 * k - 1) = ((2 ^ (8 * k - 1) : Nat) : Int) := by push_cast; rfl
  rw [pow_256_eq hk, two_pow_eight_mul hk]
  simp only [two_pow_eight_mul hk, hI'] at hv
  generalize 2 ^ (8 * k - 1) = M at *
  cases issigned
  · simp only [Bool.false_eq_true, ite_false] at hv
    rw [Int.emod_eq_of_lt hv.1 hv.2, Nat.mod_eq_of_lt (by omega)]
    simp only [Bool.false_eq_true, false_and, ite_false]
    omega
  · simp only [ite_true] at hv
    by_cases h0 : 0 ≤ v
    · rw [Int.emod_eq_of_lt h0 (by omega), Nat.mod_eq_of_lt (by omega), if_neg (by omega)]
      omega
    · rw [← Int.add_emod_self, Int.emod_eq_of_lt (by omega) (by omega),
        Nat.mod_eq_of_lt (by omega), if_pos ⟨rfl, by omega⟩]
      omega

theorem ofInt_toInt (n : LuaInteger) : BitVec.ofInt 64 n.toInt = n := by
  apply BitVec.eq_of_toNat_eq
  have := n.isLt
  rw [BitVec.toNat_ofInt, BitVec.toInt_eq_toNat_cond]
  split <;> omega

theorem length_twosComplement (k : Nat) (v : Int) (islittle : Bool) :
    (twosComplement k v islittle).length = k := by
  simp [twosComplement]

/-- A signed item `str_pack` accepts reads back as the same `lua_Integer`. -/
theorem unpackint_packint_signed (n : LuaInteger) (islittle : Bool) {k : Nat}
    (hk : 1 ≤ k ∧ k ≤ MAXINTSIZE)
    (hacc : 8 ≤ k ∨ (-2 ^ (8 * k - 1) ≤ n.toInt ∧ n.toInt < 2 ^ (8 * k - 1))) :
    unpackint (packint n.toNat islittle k (decide (n.toInt < 0))) islittle k true = .ok n := by
  have hv : -2 ^ (8 * k - 1) ≤ n.toInt ∧ n.toInt < 2 ^ (8 * k - 1) := by
    rcases hacc with h8 | h
    · have h63 : (2 : Int) ^ 63 ≤ 2 ^ (8 * k - 1) := by
        exact_mod_cast Nat.pow_le_pow_right (by norm_num) (by omega)
      have := n.isLt
      rw [BitVec.toInt_eq_toNat_cond]
      split <;> omega
    · exact h
  have hd := unpackint_denote (twosComplement k n.toInt islittle) islittle true
    (by rw [length_twosComplement]; exact hk.1) (by rw [length_twosComplement]; exact hk.2)
  rw [length_twosComplement, denote_twosComplement islittle true hk.1 (by simpa using hv)] at hd
  rw [packint_signed, hd, if_neg, ofInt_toInt]
  rw [(fitsLuaInteger_true _).mpr (by
    have := n.isLt; rw [BitVec.toInt_eq_toNat_cond]; split <;> omega)]
  simp

/-- An unsigned item that fits its bytes and a `lua_Unsigned` reads back as itself. -/
theorem unpackint_packint_unsigned (m : Nat) (islittle : Bool) {k : Nat}
    (hk : 1 ≤ k ∧ k ≤ MAXINTSIZE) (hm : m < 2 ^ (8 * k)) (hm64 : m < 2 ^ 64) :
    unpackint (packint m islittle k false) islittle k false = .ok (BitVec.ofNat 64 m) := by
  have hd := unpackint_denote (twosComplement k m islittle) islittle false
    (by rw [length_twosComplement]; exact hk.1) (by rw [length_twosComplement]; exact hk.2)
  rw [length_twosComplement, denote_twosComplement islittle false hk.1
    (by simp only [Bool.false_eq_true, ite_false]; exact ⟨by omega, by exact_mod_cast hm⟩)] at hd
  rw [packint_unsigned, hd, if_neg (by rw [(fitsLuaInteger_false _).mpr (by exact_mod_cast hm64)]; simp)]
  rfl

/-- The other way: the two's complement of the integer some bytes denote is the bytes. -/
theorem twosComplement_denote (str : List UInt8) (islittle issigned : Bool) :
    twosComplement str.length (denote str islittle issigned) islittle = str := by
  have hu := ofLE_lt (byteOrder islittle str)
  rw [length_byteOrder] at hu
  have hM : (256 : Nat) ^ str.length = 2 ^ (8 * str.length) := by
    rw [Nat.pow_mul]
  rw [hM] at hu
  have h : ((denote str islittle issigned) % 2 ^ (8 * str.length)).toNat =
      ofLE (byteOrder islittle str) := by
    unfold denote
    generalize ofLE (byteOrder islittle str) = u at *
    have hu' : (u : Int) < 2 ^ (8 * str.length) := by exact_mod_cast hu
    dsimp only
    split
    · rw [show (u : Int) - 2 ^ (8 * str.length) = u + 2 ^ (8 * str.length) * (-1) by omega,
        Int.add_mul_emod_self_left, Int.emod_eq_of_lt (by omega) hu', Int.toNat_natCast]
    · rw [Int.emod_eq_of_lt (by omega) hu', Int.toNat_natCast]
  rw [twosComplement, h, ← length_byteOrder islittle str, leBytes_ofLE, byteOrder_byteOrder]

/-- The two's complement value of `k` bytes lies in `[-2 ^ (8k - 1), 2 ^ (8k - 1))`. -/
theorem denote_signed_bounds (str : List UInt8) (islittle : Bool) (hk : 1 ≤ str.length) :
    -2 ^ (8 * str.length - 1) ≤ denote str islittle true ∧
      denote str islittle true < 2 ^ (8 * str.length - 1) := by
  have hu := ofLE_lt (byteOrder islittle str)
  rw [length_byteOrder] at hu
  have hI' : (2 : Int) ^ (8 * str.length - 1) = ((2 ^ (8 * str.length - 1) : Nat) : Int) := by
    push_cast; rfl
  rw [pow_256_eq hk] at hu
  unfold denote
  rw [two_pow_eight_mul hk, hI']
  generalize 2 ^ (8 * str.length - 1) = M at *
  generalize ofLE (byteOrder islittle str) = u at *
  simp only [true_and]
  split <;> omega

/-- A `lua_Integer` in range is its own `BitVec.ofInt`. -/
theorem toInt_ofInt_of_bounds {v : Int} (h1 : -2 ^ 63 ≤ v) (h2 : v < 2 ^ 63) :
    (BitVec.ofInt 64 v).toInt = v := by
  rw [BitVec.toInt_eq_toNat_cond, BitVec.toNat_ofInt]
  split <;> omega

/-- A signed `unpackint` that does not raise returns the value of the bytes. -/
theorem unpackint_signed_toInt {str : List UInt8} {islittle : Bool} {res : LuaInteger}
    (h1 : 1 ≤ str.length) (h16 : str.length ≤ MAXINTSIZE)
    (h : unpackint str islittle str.length true = .ok res) :
    res.toInt = denote str islittle true := by
  rw [unpackint_denote str islittle true h1 h16] at h
  split at h
  · cases h
  rename_i hfit
  cases h
  have hb := denote_signed_bounds str islittle h1
  by_cases hk : SZINT < str.length
  · have hf : fitsLuaInteger true (denote str islittle true) = true := by
      simpa [hk] using hfit
    obtain ⟨hl, hr⟩ := (fitsLuaInteger_true _).mp hf
    exact toInt_ofInt_of_bounds hl hr
  · have h63 : (2 : Int) ^ (8 * str.length - 1) ≤ 2 ^ 63 := by
      exact_mod_cast Nat.pow_le_pow_right (by norm_num) (by simp only [SZINT] at hk; omega)
    exact toInt_ofInt_of_bounds (by omega) (by omega)

/-- An unsigned `unpackint` that does not raise returns the value of the bytes. -/
theorem unpackint_unsigned_toNat {str : List UInt8} {islittle : Bool} {res : LuaInteger}
    (h1 : 1 ≤ str.length) (h16 : str.length ≤ MAXINTSIZE)
    (h : unpackint str islittle str.length false = .ok res) :
    res.toNat = ofLE (byteOrder islittle str) := by
  rw [unpackint_denote str islittle false h1 h16] at h
  split at h
  · cases h
  rename_i hfit
  cases h
  have hu := ofLE_lt (byteOrder islittle str)
  rw [length_byteOrder] at hu
  have h64 : ofLE (byteOrder islittle str) < 2 ^ 64 := by
    by_cases hk : SZINT < str.length
    · have hf : fitsLuaInteger false (denote str islittle false) = true := by
        simpa [hk] using hfit
      have := (fitsLuaInteger_false _).mp hf
      simp only [denote, Bool.false_eq_true, false_and, ite_false] at this
      exact_mod_cast this
    · calc ofLE (byteOrder islittle str) < 256 ^ str.length := hu
        _ ≤ 256 ^ 8 := Nat.pow_le_pow_right (by norm_num) (by simp only [SZINT] at hk; omega)
        _ = 2 ^ 64 := by norm_num
  simp only [denote, Bool.false_eq_true, false_and, ite_false, BitVec.toNat_ofInt]
  omega

/-- The bytes a signed `unpackint` read are the `packint` of its result, which lies in the
range of their two's complement. -/
theorem packint_unpackint_signed {str : List UInt8} {islittle : Bool} {res : LuaInteger}
    (h1 : 1 ≤ str.length) (h16 : str.length ≤ MAXINTSIZE)
    (h : unpackint str islittle str.length true = .ok res) :
    (-2 ^ (8 * str.length - 1) ≤ res.toInt ∧ res.toInt < 2 ^ (8 * str.length - 1)) ∧
      packint res.toNat islittle str.length (decide (res.toInt < 0)) = str := by
  have hval := unpackint_signed_toInt h1 h16 h
  rw [packint_signed, hval, twosComplement_denote]
  exact ⟨denote_signed_bounds str islittle h1, rfl⟩

/-- The bytes an unsigned `unpackint` read are the `packint` of its result, which fits
them. -/
theorem packint_unpackint_unsigned {str : List UInt8} {islittle : Bool} {res : LuaInteger}
    (h1 : 1 ≤ str.length) (h16 : str.length ≤ MAXINTSIZE)
    (h : unpackint str islittle str.length false = .ok res) :
    res.toNat < 2 ^ (8 * str.length) ∧ packint res.toNat islittle str.length false = str := by
  have hd := twosComplement_denote str islittle false
  simp only [denote, Bool.false_eq_true, false_and, ite_false] at hd
  rw [unpackint_unsigned_toNat h1 h16 h, packint_unsigned, hd, Nat.pow_mul,
    ← length_byteOrder islittle str]
  exact ⟨ofLE_lt _, rfl⟩

end Hype.Lpack
