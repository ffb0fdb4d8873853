import Hype.Lpack.Int

set_option autoImplicit false

/-! # `str_pack`

The loop of `str_pack` is a state machine over `PackState`: each iteration reads one item
with `getdetails`, adds its padding and then the item (`packOption`, the `switch` of the
loop). `PackReach` is the set of states a run reaches.

The layout theorem says what every iteration of every run does to the buffer: `totalsize`
is its length, and each item lies behind fewer padding bytes than its alignment, at an
offset that is a multiple of it. `totalsize` counts the bytes of a `luaL_Buffer`, which the
Lua core keeps below `2 ^ 64`, so the model adds it up in `Nat`.
-/

namespace Hype.Lpack

/-- `copywithendian(dest, src, size, islittle)`: the bytes `src` in order when `islittle` is
the native byte order, reversed otherwise. -/
def copywithendian (src : List UInt8) (islittle : Bool) : List UInt8 :=
  if islittle == nativeLittle then src else src.reverse

/-- The first `size` bytes of `u` after the assignment in `Kfloat`: `u.f = (float)n` for
`size == sizeof(float)`, otherwise the `lua_Number` itself (`u.d` and `u.n` are the same
`double`). Native memory is little endian. -/
def floatBytes (F : Ftypes) (size : Nat) (n : UInt64) : List UInt8 :=
  if size = 4 then leBytes 4 (F.tofloat n).toNat else leBytes size n.toNat

/-- The `switch (opt)` of `str_pack`, entered after `arg++`: the bytes the item adds after
its padding, what it adds to `totalsize` beyond `ntoalign + size`, and `arg` after it. -/
def packOption (F : Ftypes) (args : List Value) (islittle : Bool) (opt : KOption)
    (size arg : Nat) : Except LuaError (List UInt8 × Nat × Nat) :=
  match opt with
  | .kint => do
      let n ← checkinteger F args arg
      let lim : Int := 2 ^ (size * NB - 1)
      if size < SZINT ∧ ¬(-lim ≤ n.toInt ∧ n.toInt < lim) then
        throw (.argerror arg "integer overflow")
      else pure (packint n.toNat islittle size (decide (n.toInt < 0)), 0, arg)
  | .kuint => do
      let n ← checkinteger F args arg
      if size < SZINT ∧ ¬(n.toNat < 2 ^ (size * NB)) then
        throw (.argerror arg "unsigned overflow")
      else pure (packint n.toNat islittle size false, 0, arg)
  | .kfloat => do
      let n ← checknumber F args arg
      pure (copywithendian (floatBytes F size n) islittle, 0, arg)
  | .kchar => do
      let s ← checklstring args arg
      if s.length ≠ size then throw (.argerror arg "wrong length")
      else pure (s, 0, arg)
  | .kstring => do
      let s ← checklstring args arg
      if ¬(size ≥ 8 ∨ s.length < 2 ^ (size * NB)) then
        throw (.argerror arg "string length does not fit in given size")
      else pure (packint s.length islittle size false ++ s, s.length, arg)
  | .kzstr => do
      let s ← checklstring args arg
      if strlen s ≠ s.length then throw (.argerror arg "string contains zeros")
      else pure (s ++ [0], s.length + 1, arg)
  | .kpadding => pure ([PACKPADBYTE], 0, arg - 1)
  | .kpaddalign | .knop => pure ([], 0, arg - 1)

/-- The locals of `str_pack` that live across iterations. -/
structure PackState where
  h : Header
  /-- the stack slot of the last argument read -/
  arg : Nat
  totalsize : Nat
  /-- the bytes in the `luaL_Buffer` -/
  b : List UInt8

/-- The state before the loop. -/
def PackState.init : PackState := ⟨initheader, 1, 0, []⟩

/-- One iteration of the loop of `str_pack` on the format `c :: cs`. -/
def packStep (F : Ftypes) (args : List Value) (s : PackState) (c : Char) (cs : List Char) :
    Except LuaError (PackState × List Char) := do
  let d ← getdetails s.h s.totalsize c cs
  let (item, len, arg) ← packOption F args d.h.islittle d.opt d.size (s.arg + 1)
  pure (⟨d.h, arg, s.totalsize + d.ntoalign + d.size + len,
    s.b ++ List.replicate d.ntoalign PACKPADBYTE ++ item⟩, d.rest)

/-- The inversion lemma of `packStep`. -/
theorem packStep_ok {F : Ftypes} {args : List Value} {s s' : PackState} {c : Char}
    {cs r : List Char} (hs : packStep F args s c cs = .ok (s', r)) :
    ∃ d item len, getdetails s.h s.totalsize c cs = .ok d ∧
      packOption F args d.h.islittle d.opt d.size (s.arg + 1) = .ok (item, len, s'.arg) ∧
      s' = ⟨d.h, s'.arg, s.totalsize + d.ntoalign + d.size + len,
        s.b ++ List.replicate d.ntoalign PACKPADBYTE ++ item⟩ ∧ r = d.rest := by
  obtain ⟨d, hd, hs⟩ := bind_eq_ok.mp hs
  obtain ⟨⟨item, len, arg⟩, ho, hs⟩ := bind_eq_ok.mp hs
  simp only [pure, Except.pure, Except.ok.injEq, Prod.mk.injEq] at hs
  obtain ⟨rfl, rfl⟩ := hs
  exact ⟨d, item, len, hd, ho, rfl, rfl⟩

theorem packStep_rest_length {F : Ftypes} {args : List Value} {s s' : PackState} {c : Char}
    {cs r : List Char} (hs : packStep F args s c cs = .ok (s', r)) :
    r.length < (c :: cs).length := by
  obtain ⟨d, -, -, hd, -, -, rfl⟩ := packStep_ok hs
  exact getdetails_rest_length hd

/-- The loop `while (*fmt != '\0')` of `str_pack`. -/
def packLoop (F : Ftypes) (args : List Value) (s : PackState) :
    List Char → Except LuaError PackState
  | [] => .ok s
  | c :: cs =>
      match hs : packStep F args s c cs with
      | .error e => .error e
      | .ok (s', r) => packLoop F args s' r
termination_by fmt => fmt.length
decreasing_by exact packStep_rest_length hs

theorem packLoop_nil (F : Ftypes) (args : List Value) (s : PackState) :
    packLoop F args s [] = .ok s := by
  rw [packLoop]

theorem packLoop_step {F : Ftypes} {args : List Value} {s s' : PackState} {c : Char}
    {cs r : List Char} (hs : packStep F args s c cs = .ok (s', r)) :
    packLoop F args s (c :: cs) = packLoop F args s' r := by
  rw [packLoop]
  split <;> simp_all

/-- The characters `luaL_checkstring` gives for a format: those before its first `'\0'`. -/
def cFormat (fmt : List Char) : List Char := fmt.takeWhile (· != '\x00')

/-- `str_pack(fmt, ...)`: the result of `luaL_pushresult`. -/
def strPack (F : Ftypes) (fmt : List Char) (args : List Value) :
    Except LuaError (List UInt8) :=
  (packLoop F args PackState.init (cFormat fmt)).map (·.b)

/-- The states the loop of `str_pack` reaches on `fmt`, with the format still to read. -/
inductive PackReach (F : Ftypes) (args : List Value) (fmt : List Char) :
    PackState → List Char → Prop
  | init : PackReach F args fmt PackState.init (cFormat fmt)
  | step {s s' : PackState} {c : Char} {cs r : List Char} :
      PackReach F args fmt s (c :: cs) → packStep F args s c cs = .ok (s', r) →
      PackReach F args fmt s' r

/-- A run of the loop from a reachable state ends in a reachable state with the format
read. -/
theorem packLoop_reach {F : Ftypes} {args : List Value} {fmt : List Char} :
    ∀ (rest : List Char) {s s' : PackState}, PackReach F args fmt s rest →
      packLoop F args s rest = .ok s' → PackReach F args fmt s' []
  | [], s, s', hr, hl => by rw [packLoop] at hl; cases hl; exact hr
  | c :: cs, s, s', hr, hl => by
      rw [packLoop] at hl
      split at hl
      · cases hl
      rename_i s₁ r hs
      have := packStep_rest_length hs
      exact packLoop_reach r (hr.step hs) hl
termination_by rest => rest.length

theorem strPack_reach {F : Ftypes} {fmt : List Char} {args : List Value} {out : List UInt8}
    (h : strPack F fmt args = .ok out) : ∃ s, PackReach F args fmt s [] ∧ out = s.b := by
  obtain ⟨s, hl, rfl⟩ := map_eq_ok h
  exact ⟨s, packLoop_reach _ .init hl, rfl⟩

/-! ## The items -/

/-- What an item adds to `totalsize` beyond its padding and `size`: the string of an `s`
item, and the string and its terminator for a `z` item. -/
def strExtra (opt : KOption) (v : Option Value) : Nat :=
  match opt, v with
  | .kstring, some (.string s) => s.length
  | .kzstr, some (.string s) => s.length + 1
  | _, _ => 0

@[simp] theorem length_packint (n : Nat) (islittle : Bool) (size : Nat) (neg : Bool) :
    (packint n islittle size neg).length = size := by
  unfold packint
  simp only [length_byteOrder, packintLE_eq]
  split
  · simp only [SZINT, List.length_append, List.length_take, length_leBytes,
      List.length_replicate]
    omega
  · exact length_leBytes size n

theorem length_floatBytes (F : Ftypes) (size : Nat) (n : UInt64) :
    (floatBytes F size n).length = size := by
  unfold floatBytes; split <;> simp [*]

theorem checklstring_ok {args : List Value} {arg : Nat} {s : List UInt8}
    (h : checklstring args arg = .ok s) : args[arg - 2]? = some (.string s) := by
  unfold checklstring at h; split at h <;> simp_all

/-- Every item is `size` bytes plus its string, and keeps `arg` on its own argument or,
for padding and no-ops, gives it back. -/
theorem packOption_ok {F : Ftypes} {args : List Value} {islittle : Bool} {opt : KOption}
    {size arg : Nat} {item : List UInt8} {len arg' : Nat} (hsz : SizeOf opt size)
    (h : packOption F args islittle opt size arg = .ok (item, len, arg')) :
    item.length = size + len ∧ len = strExtra opt args[arg - 2]? ∧
      arg' = (if opt = .kpadding ∨ opt = .kpaddalign ∨ opt = .knop then arg - 1 else arg) := by
  cases opt
  case kfloat =>
    obtain ⟨n, -, h⟩ := bind_eq_ok.mp h
    cases h
    simp [strExtra, length_floatBytes, copywithendian, apply_ite List.length]
  case kpadding | kpaddalign | knop => cases h; simp_all [strExtra, SizeOf]
  case kint | kuint =>
    obtain ⟨n, -, h⟩ := bind_eq_ok.mp h
    try dsimp only at h
    split at h
    · cases h
    · cases h; exact ⟨length_packint .., rfl, by simp⟩
  all_goals
    obtain ⟨s, hs, h⟩ := bind_eq_ok.mp h
    split at h
    · cases h
    · cases h; simp_all [strExtra, checklstring_ok hs, SizeOf]

/-- What one iteration does to the buffer: padding, then an item of `size` bytes plus its
string, placed at a multiple of its alignment. -/
theorem packStep_layout {F : Ftypes} {args : List Value} {s s' : PackState} {c : Char}
    {cs r : List Char} (hs : packStep F args s c cs = .ok (s', r)) :
    ∃ d item, getdetails s.h s.totalsize c cs = .ok d ∧ r = d.rest ∧
      s'.b = s.b ++ List.replicate d.ntoalign PACKPADBYTE ++ item ∧
      item.length = d.size + strExtra d.opt args[s.arg - 1]? ∧
      s'.totalsize = s.totalsize + d.ntoalign + item.length ∧
      d.ntoalign < d.toalign ∧ (s.totalsize + d.ntoalign) % d.toalign = 0 := by
  obtain ⟨d, item, len, hd, ho, hs', rfl⟩ := packStep_ok hs
  obtain ⟨-, hsz, -, -, hlt, hmod⟩ := getdetails_ok hd
  obtain ⟨hlen, hx, -⟩ := packOption_ok hsz ho
  rw [show s.arg + 1 - 2 = s.arg - 1 by omega] at hx
  rw [hs']
  exact ⟨d, item, hd, rfl, rfl, hlen ▸ hx ▸ rfl, by dsimp only; omega, hlt, hmod⟩

/-- `totalsize` is the length of the buffer in every reachable state. -/
theorem PackReach.totalsize_eq {F : Ftypes} {args : List Value} {fmt : List Char}
    {s : PackState} {rest : List Char} (hr : PackReach F args fmt s rest) :
    s.totalsize = s.b.length := by
  induction hr with
  | init => rfl
  | step _ hs ih =>
      obtain ⟨d, item, -, -, hb, -, ht, -⟩ := packStep_layout hs
      rw [ht, hb, ih, List.length_append, List.length_append, List.length_replicate]

/-- The layout of `str_pack`. At every iteration of every run, `totalsize` is the length of
the buffer before and after the item; the item is preceded by `ntoalign` bytes
`LUA_PACKPADBYTE`, fewer than its alignment, which bring it to a multiple of that
alignment; and it is `size` bytes long plus its string. A successful `str_pack` returns
the buffer of the final state. -/
theorem str_pack_layout (F : Ftypes) (args : List Value) (fmt : List Char) :
    (∀ (s s' : PackState) (c : Char) (cs r : List Char), PackReach F args fmt s (c :: cs) →
      packStep F args s c cs = .ok (s', r) →
      ∃ d item, getdetails s.h s.totalsize c cs = .ok d ∧ r = d.rest ∧
        s.totalsize = s.b.length ∧ s'.totalsize = s'.b.length ∧
        s'.b = s.b ++ List.replicate d.ntoalign PACKPADBYTE ++ item ∧
        item.length = d.size + strExtra d.opt args[s.arg - 1]? ∧
        d.ntoalign < d.toalign ∧ (s.b.length + d.ntoalign) % d.toalign = 0) ∧
    ∀ out, strPack F fmt args = .ok out →
      ∃ s, PackReach F args fmt s [] ∧ out = s.b ∧ out.length = s.totalsize := by
  refine ⟨fun s s' c cs r hr hs => ?_, fun out h => ?_⟩
  · obtain ⟨d, item, hd, hr', hb, hlen, -, hlt, hmod⟩ := packStep_layout hs
    have ht := hr.totalsize_eq
    exact ⟨d, item, hd, hr', ht, (hr.step hs).totalsize_eq, hb, hlen, hlt, ht ▸ hmod⟩
  · obtain ⟨s, hr, rfl⟩ := strPack_reach h
    exact ⟨s, hr, rfl, hr.totalsize_eq.symm⟩

/-! ## Integers -/

theorem packOption_kint {F : Ftypes} {args : List Value} {islittle : Bool} {size arg : Nat}
    {n : LuaInteger} (hn : checkinteger F args arg = .ok n) :
    packOption F args islittle .kint size arg =
      if size < SZINT ∧
          ¬(-(2 ^ (size * NB - 1) : Int) ≤ n.toInt ∧ n.toInt < 2 ^ (size * NB - 1)) then
        .error (.argerror arg "integer overflow")
      else .ok (packint n.toNat islittle size (decide (n.toInt < 0)), 0, arg) := by
  simp only [packOption, hn, bind, Except.bind]; rfl

theorem packOption_kuint {F : Ftypes} {args : List Value} {islittle : Bool} {size arg : Nat}
    {n : LuaInteger} (hn : checkinteger F args arg = .ok n) :
    packOption F args islittle .kuint size arg =
      if size < SZINT ∧ ¬(n.toNat < 2 ^ (size * NB)) then
        .error (.argerror arg "unsigned overflow")
      else .ok (packint n.toNat islittle size false, 0, arg) := by
  simp only [packOption, hn, bind, Except.bind]; rfl

/-- Integers of `k` bytes, `1 ≤ k ≤ MAXINTSIZE`. `str_pack` accepts a signed item exactly
when it fits `k` bytes of two's complement or `k` is at least a `lua_Integer`, an unsigned
item exactly when it fits `k` unsigned bytes or `k` is at least a `lua_Integer`; what it
writes is then the `k`-byte two's complement of the signed, respectively unsigned, value.
`unpackint` of `k` bytes gives the integer they denote modulo `2 ^ 64`, and raises exactly
when `k > 8` and that integer is out of range. -/
theorem integer_encoding (F : Ftypes) (args : List Value) (arg : Nat) (n : LuaInteger)
    (islittle : Bool) {k : Nat} (hn : checkinteger F args arg = .ok n)
    (hk : 1 ≤ k ∧ k ≤ MAXINTSIZE) :
    packOption F args islittle .kint k arg =
      (if 8 ≤ k ∨ (-2 ^ (8 * k - 1) ≤ n.toInt ∧ n.toInt < 2 ^ (8 * k - 1)) then
        .ok (twosComplement k n.toInt islittle, 0, arg)
      else .error (.argerror arg "integer overflow")) ∧
    packOption F args islittle .kuint k arg =
      (if 8 ≤ k ∨ (0 ≤ n.toInt ∧ n.toInt < 2 ^ (8 * k)) then
        .ok (twosComplement k n.toNat islittle, 0, arg)
      else .error (.argerror arg "unsigned overflow")) ∧
    ∀ (str : List UInt8) (issigned : Bool), str.length = k →
      unpackint str islittle k issigned =
        if 8 < k ∧ fitsLuaInteger issigned (denote str islittle issigned) = false then
          .error (.error s!"{k}-byte integer does not fit into Lua Integer")
        else .ok (BitVec.ofInt 64 (denote str islittle issigned)) := by
  have hNB : k * NB = 8 * k := Nat.mul_comm k 8
  refine ⟨?_, ?_, fun str issigned hs => by subst hs; exact unpackint_denote str _ _ hk.1 hk.2⟩
  · rw [packOption_kint hn, hNB, packint_signed]
    by_cases hc : 8 ≤ k ∨ (-2 ^ (8 * k - 1) ≤ n.toInt ∧ n.toInt < 2 ^ (8 * k - 1))
    · rw [if_neg (by simp only [SZINT]; omega), if_pos hc]
    · rw [if_pos (by simp only [SZINT]; omega), if_neg hc]
  · rw [packOption_kuint hn, hNB, packint_unsigned]
    by_cases hk8 : 8 ≤ k
    · rw [if_neg (by simp only [SZINT]; omega), if_pos (.inl hk8)]
    · have h56 : 2 ^ (8 * k) ≤ 2 ^ 56 := Nat.pow_le_pow_right (by omega) (by omega)
      have hcast : ((2 ^ (8 * k) : Nat) : Int) = 2 ^ (8 * k) := by push_cast; rfl
      have hcond : n.toNat < 2 ^ (8 * k) ↔ 0 ≤ n.toInt ∧ n.toInt < 2 ^ (8 * k) := by
        have := n.isLt
        rw [← hcast, BitVec.toInt_eq_toNat_cond]
        split <;> omega
      simp only [SZINT, show k < 8 by omega, true_and, hk8, false_or, hcond, ite_not]

/-- Two-byte items of `300`: the signed one is its two's complement. -/
theorem integer_encoding_300 :
    checkinteger ⟨fun _ => none, fun _ => 0, fun _ => 0, fun _ => 0⟩ [.integer 300] 2 = .ok 300 ∧
      (1 ≤ 2 ∧ 2 ≤ MAXINTSIZE) ∧
      packOption ⟨fun _ => none, fun _ => 0, fun _ => 0, fun _ => 0⟩ [.integer 300] true .kint 2 2 =
        .ok (twosComplement 2 (300 : LuaInteger).toInt true, 0, 2) :=
  ⟨rfl, by decide, by
    rw [(integer_encoding ⟨fun _ => none, fun _ => 0, fun _ => 0, fun _ => 0⟩ [.integer 300] 2 300
      true rfl ⟨by decide, by decide⟩).1, if_pos (by decide)]⟩

end Hype.Lpack
