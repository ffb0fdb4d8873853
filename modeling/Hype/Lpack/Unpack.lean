import Hype.Lpack.Pack

set_option autoImplicit false

/-! # `str_unpack`

The loop of `str_unpack` is a state machine over `UnpackState`: each iteration reads an
item with `getdetails`, checks that it lies inside the data, skips the padding and pushes
the item (`unpackOption`, the `switch` of the loop). `pos` is a `size_t`; the model reduces
it modulo `SIZET` wherever the code adds to it a length it has not checked.

A pushed string is the call `lua_pushlstring(L, data + off, len)`: the model records the
slice of memory it copies, which need not lie inside the data. The stack check
`luaL_checkstack(L, 2, "too many results")` belongs to the Lua core's stack limit and is
not modelled.

`strUnpack_start` says where the loop starts: `posrelat` and the check after it accept
`init` in `[1, ld + 1]` and in `[-ld, -1]` (`startPos`), and nothing else.
`str_unpack_strings_inside` says where the strings it returns lie: inside the data, or
ending past `2 ^ 64`, which only the check of an `s` item, made in `size_t`, lets through.
-/

namespace Hype.Lpack

/-- A value `str_unpack` pushes. -/
inductive Pushed
  | integer (n : LuaInteger)
  /-- A float, by the bit pattern of its `lua_Number`. -/
  | number (x : UInt64)
  /-- `lua_pushlstring(L, data + off, len)`: the `len` bytes of memory from `data + off`. -/
  | lstring (off len : Nat)
  deriving DecidableEq, Repr

/-- `posrelat(pos, len)`: a negative position counts back from the end. -/
def posrelat (pos : LuaInteger) (len : Nat) : LuaInteger :=
  if 0 ≤ pos.toInt then pos
  else if (0 - pos).toNat > len then 0
  else BitVec.ofNat 64 len + pos + 1

/-- `luaL_optinteger(L, arg, def)`: `def` when there is no argument `arg`. -/
def optinteger (F : Ftypes) (args : List Value) (arg : Nat) (df : LuaInteger) :
    Except LuaError LuaInteger :=
  match args[arg - 2]? with
  | none => .ok df
  | some _ => checkinteger F args arg

/-- `(size_t)(int)n` for a `size_t` `n`: the C compiler keeps the low 32 bits and extends
their sign. -/
def intCast (n : Nat) : Nat := ((BitVec.ofNat 32 n).signExtend 64).toNat

/-- `(int)` keeps a length below `2 ^ 31`. -/
theorem intCast_of_lt {n : Nat} (h : n < 2 ^ 31) : intCast n = n := by
  have h32 : (BitVec.ofNat 32 n).toInt = n := by
    rw [BitVec.toInt_eq_toNat_cond, BitVec.toNat_ofNat, Nat.mod_eq_of_lt (by omega),
      if_pos (by omega)]
  rw [intCast, BitVec.signExtend, h32, BitVec.toNat_ofInt]
  omega

/-- The `lua_Number` of the `size` bytes `u` after `copywithendian`: `(lua_Number)u.f` for
`size == sizeof(float)`, otherwise `u.d`, the `lua_Number` itself. -/
def floatOf (F : Ftypes) (size : Nat) (u : List UInt8) : UInt64 :=
  if size = 4 then F.offloat (UInt32.ofNat (ofLE u)) else UInt64.ofNat (ofLE u)

/-- The `switch (opt)` of `str_unpack`, entered after `pos += ntoalign`: the value pushed,
if any, and `pos` before the final `pos += size`. `str` are the `size` bytes at
`data + pos`. -/
def unpackOption (F : Ftypes) (data : List UInt8) (islittle : Bool) (opt : KOption)
    (size pos : Nat) : Except LuaError (Option Pushed × Nat) :=
  let str := (data.drop pos).take size
  match opt with
  | .kint | .kuint => do
      let res ← unpackint str islittle size (opt == .kint)
      pure (some (.integer res), pos)
  | .kfloat => pure (some (.number (floatOf F size (copywithendian str islittle))), pos)
  | .kchar => pure (some (.lstring pos size), pos)
  | .kstring => do
      let len := (← unpackint str islittle size false).toNat
      if (pos + len + size) % SIZET > data.length then
        throw (.argerror 2 "data string too short")
      else pure (some (.lstring (pos + size) len), (pos + len) % SIZET)
  | .kzstr =>
      let len := intCast (strlen (data.drop pos))
      pure (some (.lstring pos len), (pos + len + 1) % SIZET)
  | .kpaddalign | .kpadding | .knop => pure (none, pos)

/-- The locals of `str_unpack` that live across iterations; `out` are the values pushed so
far. -/
structure UnpackState where
  h : Header
  pos : Nat
  out : List Pushed

/-- One iteration of the loop of `str_unpack` on the format `c :: cs`. The first check is
`(size_t)ntoalign + size > ~pos`. -/
def unpackStep (F : Ftypes) (data : List UInt8) (s : UnpackState) (c : Char)
    (cs : List Char) : Except LuaError (UnpackState × List Char) := do
  let d ← getdetails s.h s.pos c cs
  if d.ntoalign + d.size > SIZET - 1 - s.pos ∨ s.pos + d.ntoalign + d.size > data.length then
    throw (.argerror 2 "data string too short")
  else
    let (v, pos) ← unpackOption F data d.h.islittle d.opt d.size (s.pos + d.ntoalign)
    pure (⟨d.h, (pos + d.size) % SIZET, s.out ++ v.toList⟩, d.rest)

/-- The inversion lemma of `unpackStep`. -/
theorem unpackStep_ok {F : Ftypes} {data : List UInt8} {s s' : UnpackState} {c : Char}
    {cs r : List Char} (hs : unpackStep F data s c cs = .ok (s', r)) :
    ∃ d v pos, getdetails s.h s.pos c cs = .ok d ∧
      d.ntoalign + d.size ≤ SIZET - 1 - s.pos ∧ s.pos + d.ntoalign + d.size ≤ data.length ∧
      unpackOption F data d.h.islittle d.opt d.size (s.pos + d.ntoalign) = .ok (v, pos) ∧
      s' = ⟨d.h, (pos + d.size) % SIZET, s.out ++ v.toList⟩ ∧ r = d.rest := by
  obtain ⟨d, hd, hs⟩ := bind_eq_ok.mp hs
  split at hs
  · cases hs
  rename_i hc
  obtain ⟨⟨v, pos⟩, ho, hs⟩ := bind_eq_ok.mp hs
  cases hs
  exact ⟨d, v, pos, hd, by omega, by omega, ho, rfl, rfl⟩

theorem unpackStep_rest_length {F : Ftypes} {data : List UInt8} {s s' : UnpackState}
    {c : Char} {cs r : List Char} (hs : unpackStep F data s c cs = .ok (s', r)) :
    r.length < (c :: cs).length := by
  obtain ⟨d, -, -, hd, -, -, -, -, rfl⟩ := unpackStep_ok hs
  exact getdetails_rest_length hd

/-- The loop `while (*fmt != '\0')` of `str_unpack`. -/
def unpackLoop (F : Ftypes) (data : List UInt8) (s : UnpackState) :
    List Char → Except LuaError UnpackState
  | [] => .ok s
  | c :: cs =>
      match hs : unpackStep F data s c cs with
      | .error e => .error e
      | .ok (s', r) => unpackLoop F data s' r
termination_by fmt => fmt.length
decreasing_by exact unpackStep_rest_length hs

theorem unpackLoop_nil (F : Ftypes) (data : List UInt8) (s : UnpackState) :
    unpackLoop F data s [] = .ok s := by
  rw [unpackLoop]

theorem unpackLoop_step {F : Ftypes} {data : List UInt8} {s s' : UnpackState} {c : Char}
    {cs r : List Char} (hs : unpackStep F data s c cs = .ok (s', r)) :
    unpackLoop F data s (c :: cs) = unpackLoop F data s' r := by
  rw [unpackLoop]
  split <;> simp_all

/-- The states the loop of `str_unpack` passes through from `U₀` over the format `fmt`, with
the format left to read. -/
inductive UnpackReach (F : Ftypes) (data : List UInt8) (U₀ : UnpackState) (fmt : List Char) :
    UnpackState → List Char → Prop
  | init : UnpackReach F data U₀ fmt U₀ fmt
  | step {U U' : UnpackState} {c : Char} {cs r : List Char} :
      UnpackReach F data U₀ fmt U (c :: cs) → unpackStep F data U c cs = .ok (U', r) →
        UnpackReach F data U₀ fmt U' r

/-- A run of the loop from a reachable state ends in a reachable state with the format
read. -/
theorem unpackLoop_reach {F : Ftypes} {data : List UInt8} {U₀ : UnpackState}
    {fmt : List Char} :
    ∀ (rest : List Char) {U U' : UnpackState}, UnpackReach F data U₀ fmt U rest →
      unpackLoop F data U rest = .ok U' → UnpackReach F data U₀ fmt U' []
  | [], U, U', hr, hl => by rw [unpackLoop_nil] at hl; cases hl; exact hr
  | c :: cs, U, U', hr, hl => by
      rw [unpackLoop] at hl
      split at hl
      · cases hl
      rename_i U₁ r hs
      have := unpackStep_rest_length hs
      exact unpackLoop_reach r (hr.step hs) hl
termination_by rest => rest.length

/-- The loop only adds values. -/
theorem UnpackReach.out_grows {F : Ftypes} {data : List UInt8} {U₀ U : UnpackState}
    {fmt rest : List Char} (hr : UnpackReach F data U₀ fmt U rest) : U₀.out <+: U.out := by
  induction hr with
  | init => exact List.prefix_refl _
  | step _ hs ih =>
      obtain ⟨-, -, -, -, -, -, -, rfl, -⟩ := unpackStep_ok hs
      exact ih.trans (List.prefix_append _ _)

/-- `str_unpack(fmt, data [, init])`: the values it returns, the next position last. -/
def strUnpack (F : Ftypes) (fmt : List Char) (args : List Value) :
    Except LuaError (List Pushed) := do
  let data ← checklstring args 2
  let init ← optinteger F args 3 1
  let pos := ((posrelat init data.length).toNat + SIZET - 1) % SIZET
  if pos > data.length then throw (.argerror 3 "initial position out of string")
  else
    let s ← unpackLoop F data ⟨initheader, pos, []⟩ (cFormat fmt)
    pure (s.out ++ [.integer (BitVec.ofNat 64 (s.pos + 1))])

/-- A successful `str_unpack` returns the values of a run of its loop over the data, and the
position after it. -/
theorem strUnpack_reach {F : Ftypes} {fmt : List Char} {args : List Value} {ps : List Pushed}
    (h : strUnpack F fmt args = .ok ps) :
    ∃ data pos U, args[0]? = some (.string data) ∧
      UnpackReach F data ⟨initheader, pos, []⟩ (cFormat fmt) U [] ∧
      ps = U.out ++ [.integer (BitVec.ofNat 64 (U.pos + 1))] := by
  obtain ⟨data, hd, h⟩ := bind_eq_ok.mp h
  obtain ⟨init, -, h⟩ := bind_eq_ok.mp h
  dsimp only at h
  split at h
  · cases h
  obtain ⟨U, hl, h⟩ := bind_eq_ok.mp h
  cases h
  exact ⟨data, _, U, checklstring_ok hd, unpackLoop_reach _ .init hl, rfl⟩

/-! ## The initial position -/

/-- The byte `str_unpack` starts reading at, by its argument `init`: byte `init - 1` for
`1 <= init <= ld + 1`, byte `ld + init` for `-ld <= init <= -1`, and none for the other
values, `0` among them. -/
def startPos (init : Int) (ld : Nat) : Option Nat :=
  if 1 ≤ init ∧ init ≤ ld + 1 then some (init - 1).toNat
  else if -(ld : Int) ≤ init ∧ init < 0 then some (ld + init).toNat
  else none

/-- `posrelat` and the check that follows it compute `startPos`. -/
theorem posrelat_start (init : LuaInteger) {ld : Nat} (hlen : ld < LUA_MAXINTEGER) :
    startPos init.toInt ld = some (((posrelat init ld).toNat + SIZET - 1) % SIZET) ∧
        ((posrelat init ld).toNat + SIZET - 1) % SIZET ≤ ld ∨
      startPos init.toInt ld = none ∧ ld < ((posrelat init ld).toNat + SIZET - 1) % SIZET := by
  have hn := init.isLt
  simp only [LUA_MAXINTEGER] at hlen
  simp only [SIZET]
  by_cases hs : 0 ≤ init.toInt
  · -- a position from the start
    have hc : 2 * init.toNat < 2 ^ 64 := by
      by_contra h; rw [BitVec.toInt_eq_toNat_cond, if_neg h] at hs; omega
    rw [posrelat, if_pos hs, BitVec.toInt_eq_toNat_cond, if_pos hc]
    unfold startPos
    split_ifs
    all_goals first | exact .inl ⟨congrArg some (by omega), by omega⟩ | exact .inr ⟨rfl, by omega⟩
  · -- a position back from the end
    have hc : ¬2 * init.toNat < 2 ^ 64 := fun h => by
      rw [BitVec.toInt_eq_toNat_cond, if_pos h] at hs; omega
    have hneg : (0 - init).toNat = 2 ^ 64 - init.toNat := by
      simp only [BitVec.toNat_sub, BitVec.toNat_ofNat, BitVec.ofNat_eq_ofNat]; omega
    rw [BitVec.toInt_eq_toNat_cond, if_neg hc]
    unfold startPos
    by_cases hb : (0 - init).toNat > ld
    · rw [posrelat, if_neg hs, if_pos hb]
      simp only [BitVec.toNat_ofNat, BitVec.ofNat_eq_ofNat]
      split_ifs
      all_goals first | exact .inl ⟨congrArg some (by omega), by omega⟩ | exact .inr ⟨rfl, by omega⟩
    · rw [posrelat, if_neg hs, if_neg hb]
      simp only [BitVec.toNat_add, BitVec.toNat_ofNat, BitVec.ofNat_eq_ofNat]
      split_ifs
      all_goals first | exact .inl ⟨congrArg some (by omega), by omega⟩ | exact .inr ⟨rfl, by omega⟩

/-- Where `str_unpack` starts: for every data string and every `init`, it runs its loop
from byte `init - 1` when `1 <= init <= ld + 1`, from byte `ld + init` when
`-ld <= init <= -1`, and otherwise raises `initial position out of string`: for `init = 0`,
past `ld + 1`, and before `-ld`, where `posrelat` gives `0`. -/
theorem strUnpack_start (F : Ftypes) (fmt : List Char) (data : List UInt8) (rest : List Value)
    (init : LuaInteger) (hlen : data.length < LUA_MAXINTEGER)
    (hinit : optinteger F (.string data :: rest) 3 1 = .ok init) :
    strUnpack F fmt (.string data :: rest) =
      match startPos init.toInt data.length with
      | none => .error (.argerror 3 "initial position out of string")
      | some pos => (unpackLoop F data ⟨initheader, pos, []⟩ (cFormat fmt)).map
          (fun s => s.out ++ [.integer (BitVec.ofNat 64 (s.pos + 1))]) := by
  simp only [strUnpack, checklstring, Nat.sub_self, List.getElem?_cons_zero, bind, Except.bind,
    hinit, gt_iff_lt]
  rcases posrelat_start init hlen with ⟨h, hle⟩ | ⟨h, hgt⟩
  · rw [h, if_neg (not_lt.mpr hle)]
    dsimp only
    cases unpackLoop F data ⟨initheader, _, []⟩ (cFormat fmt) <;> rfl
  · rw [h, if_pos hgt]
    rfl

/-- The last byte of three, by `init = -1`. -/
theorem strUnpack_start_back :
    [1, 2, 3].length < LUA_MAXINTEGER ∧
      optinteger ⟨fun _ => none, fun _ => 0, fun _ => 0, fun _ => 0⟩
        [.string [1, 2, 3], .integer (-1)] 3 1 = .ok (-1) ∧
      strUnpack ⟨fun _ => none, fun _ => 0, fun _ => 0, fun _ => 0⟩ ['B']
          [.string [1, 2, 3], .integer (-1)] =
        match startPos (-1 : LuaInteger).toInt [1, 2, 3].length with
        | none => .error (.argerror 3 "initial position out of string")
        | some pos => (unpackLoop ⟨fun _ => none, fun _ => 0, fun _ => 0, fun _ => 0⟩
            [1, 2, 3] ⟨initheader, pos, []⟩ (cFormat ['B'])).map
              (fun s => s.out ++ [.integer (BitVec.ofNat 64 (s.pos + 1))]) :=
  ⟨by decide, rfl, strUnpack_start _ ['B'] [1, 2, 3] [.integer (-1)] (-1) (by decide) rfl⟩

/-! ## Runs on given data -/

/-- `str_unpack` from position `pos + 1` of a data string shorter than `2 ^ 63`: the loop
starts at `pos`, and its last result is the position after it. -/
theorem strUnpack_eq {F : Ftypes} {fmt : List Char} {data : List UInt8} {rest : List Value}
    (pos : Nat) (hpos : pos ≤ data.length) (hlen : data.length < LUA_MAXINTEGER)
    (hinit : optinteger F (.string data :: rest) 3 1 = .ok (BitVec.ofNat 64 (pos + 1))) :
    strUnpack F fmt (.string data :: rest) =
      (unpackLoop F data ⟨initheader, pos, []⟩ (cFormat fmt)).map
        (fun s => s.out ++ [.integer (BitVec.ofNat 64 (s.pos + 1))]) := by
  simp only [LUA_MAXINTEGER] at hlen
  have hp : posrelat (BitVec.ofNat 64 (pos + 1)) data.length = BitVec.ofNat 64 (pos + 1) := by
    rw [posrelat, if_pos]
    rw [BitVec.toInt_eq_toNat_cond, BitVec.toNat_ofNat]
    split <;> omega
  have hq : ((BitVec.ofNat 64 (pos + 1)).toNat + SIZET - 1) % SIZET = pos := by
    rw [BitVec.toNat_ofNat]; simp only [SIZET]; omega
  simp only [strUnpack, checklstring, Nat.sub_self, List.getElem?_cons_zero, bind, Except.bind,
    hinit, hp, hq, gt_iff_lt, not_lt.mpr hpos, ite_false]
  cases unpackLoop F data ⟨initheader, pos, []⟩ (cFormat fmt) <;> rfl

/-- An `s8` item whose length prefix is eight bytes `0xFF`: the check
`pos + len + size <= ld` wraps around `2 ^ 64` and passes, and `str_unpack` returns a string
of `2 ^ 64 - 1` bytes that starts at the end of the data. -/
theorem str_unpack_wrapped_length (F : Ftypes) :
    strUnpack F ['s', '8'] [.string (List.replicate 8 255)] =
      .ok [.lstring 8 (2 ^ 64 - 1), .integer 8] := by
  have h1 : unpackStep F (List.replicate 8 255) ⟨initheader, 0, []⟩ 's' ['8'] =
      .ok (⟨initheader, 7, [.lstring 8 (2 ^ 64 - 1)]⟩, []) := by
    set_option maxRecDepth 20000 in rfl
  rw [strUnpack_eq 0 ?_ ?_ ?_, show cFormat ['s', '8'] = ['s', '8'] from rfl,
    unpackLoop_step h1, unpackLoop_nil]
  all_goals first | rfl | simp [LUA_MAXINTEGER]

/-- A `z` item over data with no zero: `strlen` runs into the terminator the Lua string
keeps past its end, `pos` moves past `ld`, and the next position returned is `ld + 2`. -/
theorem str_unpack_unterminated (F : Ftypes) :
    strUnpack F ['z'] [.string [97]] = .ok [.lstring 0 1, .integer 3] := by
  have h1 : unpackStep F [97] ⟨initheader, 0, []⟩ 'z' [] =
      .ok (⟨initheader, 2, [.lstring 0 1]⟩, []) := by
    set_option maxRecDepth 20000 in rfl
  rw [strUnpack_eq 0 ?_ ?_ ?_, show cFormat ['z'] = ['z'] from rfl,
    unpackLoop_step h1, unpackLoop_nil]
  all_goals first | rfl | simp [LUA_MAXINTEGER]

/-- A `z` item of a string with no zero, packed. -/
theorem strPack_zstr (F : Ftypes) {s : List UInt8} (hs : 0 ∉ s) :
    strPack F ['z'] [.string s] = .ok (s ++ [0]) := by
  have hd : getdetails initheader 0 'z' [] = .ok ⟨.kzstr, 0, 0, 0, initheader, []⟩ := rfl
  have hl := (strlen_eq_length_iff s).mpr hs
  have h1 : packStep F [.string s] PackState.init 'z' [] =
      .ok (⟨initheader, 2, s.length + 1, s ++ [0]⟩, []) := by
    simp [packStep, PackState.init, hd, bind, Except.bind, packOption, checklstring, hl]
    rfl
  simp only [strPack, show cFormat ['z'] = ['z'] from rfl, packLoop_step h1, packLoop_nil]
  rfl

/-- A `z` item read back from the terminated string: its length goes through `int`. -/
theorem strUnpack_zstr (F : Ftypes) {s : List UInt8} (hs : 0 ∉ s)
    (hlen : s.length + 1 < LUA_MAXINTEGER) :
    strUnpack F ['z'] [.string (s ++ [0]), .integer 1] =
      .ok [.lstring 0 (intCast s.length),
        .integer (BitVec.ofNat 64 ((intCast s.length + 1) % SIZET + 1))] := by
  have hd : getdetails initheader 0 'z' [] = .ok ⟨.kzstr, 0, 0, 0, initheader, []⟩ := rfl
  have hl := strlen_append_zero [] hs
  have h1 : unpackStep F (s ++ [0]) ⟨initheader, 0, []⟩ 'z' [] =
      .ok (⟨initheader, (intCast s.length + 1) % SIZET, [.lstring 0 (intCast s.length)]⟩, []) := by
    simp [unpackStep, hd, bind, Except.bind, unpackOption, hl, SIZET, pure, Except.pure]
  rw [strUnpack_eq 0 ?_ ?_ ?_, show cFormat ['z'] = ['z'] from rfl, unpackLoop_step h1,
    unpackLoop_nil]
  · rfl
  · simp
  · simpa using hlen
  · rfl

/-- A `z` string of `2 ^ 32` bytes packs, but reads back through `(int)strlen` as the
empty string, and the next position is `2`, not `2 ^ 32 + 2`. -/
theorem zstr_int_cast (F : Ftypes) :
    strPack F ['z'] [.string (List.replicate (2 ^ 32) 97)] =
        .ok (List.replicate (2 ^ 32) 97 ++ [0]) ∧
      strUnpack F ['z'] [.string (List.replicate (2 ^ 32) 97 ++ [0]), .integer 1] =
        .ok [.lstring 0 0, .integer 2] := by
  have hz : 0 ∉ List.replicate (2 ^ 32) (97 : UInt8) := fun h =>
    absurd (List.mem_replicate.mp h).2 (by decide)
  refine ⟨strPack_zstr F hz, ?_⟩
  rw [strUnpack_zstr F hz (by rw [List.length_replicate]; decide), List.length_replicate]
  rfl

/-! ## The strings returned

A string `str_unpack` returns is the memory `lua_pushlstring` copies. The checks of the loop
keep it inside the data but for one way out: the check of an `s` item,
`pos + len + size <= ld`, is made in `size_t`, and a length that wraps it passes. -/

/-- A string an item returns lies inside the data or ends past `2 ^ 64`. -/
theorem unpackOption_inside {F : Ftypes} {data : List UInt8} {islittle : Bool}
    {opt : KOption} {size q pos off len : Nat} {v : Option Pushed}
    (hq : q + size ≤ data.length) (hlen : data.length < 2 ^ 31)
    (ho : unpackOption F data islittle opt size q = .ok (v, pos))
    (hv : v = some (.lstring off len)) : off + len ≤ data.length ∨ SIZET ≤ off + len := by
  subst hv
  cases opt
  case kint | kuint => obtain ⟨_, -, h⟩ := bind_eq_ok.mp ho; cases h
  case kstring =>
    obtain ⟨res, -, ho⟩ := bind_eq_ok.mp ho
    dsimp only at ho
    split at ho
    · cases ho
    rename_i hfit
    cases ho
    simp only [SIZET, gt_iff_lt, not_lt] at hfit ⊢
    omega
  case kzstr =>
    cases ho
    have hL := strlen_le (data.drop q)
    rw [List.length_drop] at hL
    rw [intCast_of_lt (by omega)]
    exact .inl (by omega)
  case kchar => cases ho; exact .inl hq
  all_goals cases ho

/-- The invariant of the loop: every string pushed so far lies inside the data or ends past
`2 ^ 64`. -/
theorem UnpackReach.inside {F : Ftypes} {data : List UInt8} {h : Header} {pos : Nat}
    {fmt rest : List Char} {U : UnpackState} (hlen : data.length < 2 ^ 31)
    (hr : UnpackReach F data ⟨h, pos, []⟩ fmt U rest) :
    ∀ off len, Pushed.lstring off len ∈ U.out → off + len ≤ data.length ∨ SIZET ≤ off + len := by
  induction hr with
  | init => simp
  | step _ hs ih =>
      obtain ⟨d, v, pos, -, -, hfit, ho, rfl, -⟩ := unpackStep_ok hs
      intro off len hm
      rcases List.mem_append.mp hm with hm | hm
      · exact ih off len hm
      · exact unpackOption_inside (by omega) hlen ho (Option.mem_toList.mp hm)

/-- Every string `str_unpack` returns over data shorter than `2 ^ 31` lies inside the data,
or ends past `2 ^ 64`: a wrapped check of an `s` item is the only way out. -/
theorem str_unpack_strings_inside (F : Ftypes) (fmt : List Char) (data : List UInt8)
    (rest : List Value) (ps : List Pushed) (hlen : data.length < 2 ^ 31)
    (h : strUnpack F fmt (.string data :: rest) = .ok ps) :
    ∀ off len, Pushed.lstring off len ∈ ps → off + len ≤ data.length ∨ SIZET ≤ off + len := by
  obtain ⟨data', pos, U, hd, hr, rfl⟩ := strUnpack_reach h
  simp only [List.getElem?_cons_zero, Option.some.injEq, Value.string.injEq] at hd
  subst hd
  intro off len hm
  rcases List.mem_append.mp hm with hm | hm
  · exact hr.inside hlen off len hm
  · simp at hm

/-- Eight bytes `0xFF` read with `s8`: the string returned ends past `2 ^ 64`. -/
theorem str_unpack_strings_inside_s8 :
    strUnpack ⟨fun _ => none, fun _ => 0, fun _ => 0, fun _ => 0⟩ ['s', '8']
        [.string (List.replicate 8 255)] = .ok [.lstring 8 (2 ^ 64 - 1), .integer 8] ∧
      (8 + (2 ^ 64 - 1) ≤ (List.replicate 8 (255 : UInt8)).length ∨ SIZET ≤ 8 + (2 ^ 64 - 1)) := by
  have h1 : unpackStep ⟨fun _ => none, fun _ => 0, fun _ => 0, fun _ => 0⟩
      (List.replicate 8 255) ⟨initheader, 0, []⟩ 's' ['8'] =
        .ok (⟨initheader, 7, [.lstring 8 (2 ^ 64 - 1)]⟩, []) := by
    set_option maxRecDepth 20000 in rfl
  have hu : strUnpack ⟨fun _ => none, fun _ => 0, fun _ => 0, fun _ => 0⟩ ['s', '8']
      [.string (List.replicate 8 255)] = .ok [.lstring 8 (2 ^ 64 - 1), .integer 8] := by
    rw [strUnpack_eq 0 ?_ ?_ ?_, show cFormat ['s', '8'] = ['s', '8'] from rfl,
      unpackLoop_step h1, unpackLoop_nil]
    all_goals first | rfl | simp [LUA_MAXINTEGER]
  exact ⟨hu, str_unpack_strings_inside _ _ _ [] _ (by simp) hu _ _ (by simp)⟩

end Hype.Lpack
