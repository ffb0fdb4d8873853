import Hype.Basic

set_option autoImplicit false

/-! # The data of the binary pack helper

`lpack.c` is the `pack`/`unpack` pair the script host registers for scripts. A format
string is read one option at a time (`Lpack/Format.lean`); `str_pack` turns Lua values
into bytes (`Lpack/Pack.lean`) and `str_unpack` reads them back (`Lpack/Unpack.lean`).

The model fixes the target the sizes in `getoption` come from: LP64 and little endian,
so `int` has 4 bytes, `short` 2, `long`, `size_t`, `lua_Integer`, `double` and
`lua_Number` 8, `float` 4, and `MAXALIGN` (the offset of the union in `struct cD`) is 8.

Lua values appear as `Value`. A `lua_Integer` is a `BitVec 64`; a `lua_Number` is the
64-bit pattern of its `double`. The conversions between the two, and the cast of a
`double` to a `float`, belong to the C compiler and the Lua core; the model takes them
as a parameter, `Ftypes`. The coercions of the Lua API between strings and numbers
are not part of the model: a string where a number is expected is an error, and so
is a number where a string is expected. An error raised through the `lua_State`
(`luaL_error`, `luaL_argerror`) is the `Except` result `LuaError`.
-/

namespace Hype.Lpack

/-! ## Constants of `lpack.c` -/

/-- `MAXINTSIZE`: the maximum size of the binary representation of an integer. -/
def MAXINTSIZE : Nat := 16

/-- `NB`: the number of bits in a character. -/
def NB : Nat := 8

/-- `MC`: the mask for one character, `(1 << NB) - 1`. -/
def MC : Nat := 2 ^ NB - 1

/-- `SZINT`: the size of a `lua_Integer`. -/
def SZINT : Nat := 8

/-- `MAXALIGN`: the default maximum alignment of option `!`. -/
def MAXALIGN : Nat := 8

/-- `MAXSIZE`: `INT_MAX`, since `size_t` is not smaller than `int`. -/
def MAXSIZE : Nat := 2 ^ 31 - 1

/-- `LUA_PACKPADBYTE`: the value used for padding. -/
def PACKPADBYTE : UInt8 := 0

/-- `nativeendian.little`. -/
def nativeLittle : Bool := true

/-- `LUA_MAXINTEGER`. The Lua core creates no string of this length or more. -/
def LUA_MAXINTEGER : Nat := 2 ^ 63 - 1

/-! ## Lua values and errors -/

/-- A `lua_Integer`: 64-bit two's complement. -/
abbrev LuaInteger := BitVec 64

/-- A Lua value as the pack functions read it. -/
inductive Value
  | integer (n : LuaInteger)
  /-- A float, by the bit pattern of its `double`. -/
  | number (x : UInt64)
  | string (s : List UInt8)
  deriving DecidableEq, Repr

/-- An error raised through the `lua_State`. -/
inductive LuaError
  /-- `luaL_error(L, msg)`. -/
  | error (msg : String)
  /-- `luaL_argerror(L, arg, extramsg)`, also raised by `luaL_argcheck`. -/
  | argerror (arg : Nat) (extramsg : String)
  deriving DecidableEq, Repr

/-- The numeric conversions lpack.c leaves to the C compiler and the Lua core. -/
structure Ftypes where
  /-- `lua_Number` to `lua_Integer`, when the float has an exact integer value. -/
  tointeger : UInt64 → Option LuaInteger
  /-- `(lua_Number)n` for a `lua_Integer` `n`. -/
  ofInteger : LuaInteger → UInt64
  /-- `(float)n`: the bit pattern of the `float` nearest to a `lua_Number`. -/
  tofloat : UInt64 → UInt32
  /-- `(lua_Number)u.f`: the `lua_Number` of a `float`. -/
  offloat : UInt32 → UInt64

/-- `luaL_checkinteger(L, arg)`. Stack slot `arg` holds `args[arg - 2]`: slot 1 is the
format. -/
def checkinteger (F : Ftypes) (args : List Value) (arg : Nat) : Except LuaError LuaInteger :=
  match args[arg - 2]? with
  | some (.integer n) => .ok n
  | some (.number x) =>
      match F.tointeger x with
      | some n => .ok n
      | none => .error (.argerror arg "number has no integer representation")
  | some (.string _) => .error (.argerror arg "number expected, got string")
  | none => .error (.argerror arg "number expected, got no value")

/-- `luaL_checknumber(L, arg)`. -/
def checknumber (F : Ftypes) (args : List Value) (arg : Nat) : Except LuaError UInt64 :=
  match args[arg - 2]? with
  | some (.integer n) => .ok (F.ofInteger n)
  | some (.number x) => .ok x
  | some (.string _) => .error (.argerror arg "number expected, got string")
  | none => .error (.argerror arg "number expected, got no value")

/-- `luaL_checklstring(L, arg, &len)`: the bytes of the string; `len` is their number. -/
def checklstring (args : List Value) (arg : Nat) : Except LuaError (List UInt8) :=
  match args[arg - 2]? with
  | some (.string s) => .ok s
  | some _ => .error (.argerror arg "string expected, got number")
  | none => .error (.argerror arg "string expected, got no value")

/-! ## Bytes -/

/-- `strlen` of a string whose terminator is past its end: the bytes before the first
zero, or all of them. -/
def strlen (s : List UInt8) : Nat := (s.takeWhile (· != 0)).length

@[simp] theorem toNat_ofNat_byte (n : Nat) : (UInt8.ofNat n).toNat = n % 256 :=
  BitVec.toNat_ofNat n 8

theorem byte_toNat_lt (b : UInt8) : b.toNat < 256 := b.toBitVec.isLt

theorem byte_ext {a b : UInt8} (h : a.toNat = b.toNat) : a = b := UInt8.toNat.inj h

theorem strlen_le (s : List UInt8) : strlen s ≤ s.length :=
  List.IsPrefix.length_le (List.takeWhile_prefix _)

/-- `strlen` runs to the end exactly when the string holds no zero. -/
theorem strlen_eq_length_iff (s : List UInt8) : strlen s = s.length ↔ 0 ∉ s := by
  simp only [strlen]
  induction s with
  | nil => simp
  | cons b s ih =>
      by_cases hb : b = 0
      · subst hb; simp
      · simp [List.takeWhile_cons, hb, ih, Ne.symm hb]

/-- `strlen` stops at the first zero. -/
theorem strlen_append_zero {s : List UInt8} (t : List UInt8) (hs : 0 ∉ s) :
    strlen (s ++ 0 :: t) = s.length := by
  simp only [strlen]
  induction s with
  | nil => simp
  | cons b s ih =>
      have hb : b ≠ 0 := fun h => hs (h ▸ List.mem_cons_self b s)
      simp [List.takeWhile_cons, hb, ih (fun h => hs (List.mem_cons_of_mem b h))]

/-- `strlen` of a string with a zero in it stops at its first zero. -/
theorem strlen_zero : ∀ (l : List UInt8), strlen l < l.length →
    l[strlen l]? = some 0 ∧ 0 ∉ l.take (strlen l)
  | [], h => absurd h (Nat.not_lt_zero _)
  | b :: l, h => by
      by_cases hb : b = 0
      · subst hb; simp [strlen]
      · have hs : strlen (b :: l) = strlen l + 1 := by simp [strlen, List.takeWhile_cons, hb]
        rw [hs] at h ⊢
        obtain ⟨hz, h0⟩ := strlen_zero l (by rw [List.length_cons] at h; omega)
        simp [hz, h0, Ne.symm hb]

end Hype.Lpack
