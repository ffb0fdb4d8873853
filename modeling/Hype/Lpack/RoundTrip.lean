import Mathlib.Data.List.Forall2
import Hype.Lpack.Unpack

set_option autoImplicit false

/-! # `str_unpack` reads back what `str_pack` wrote

Packing arguments with a format and unpacking the result with the same format gives the
arguments back: every value `str_unpack` pushes agrees with the argument `str_pack` read at
the same place of the format (`Agrees`), and the position it returns is the one after the
packed bytes. The packed bytes may sit inside a longer data string, at an offset that keeps
the alignment: a multiple of `16`, or any offset when the format has no `!`, so that
nothing is aligned.

The proof runs the two loops side by side. `Sim` relates a state of the loop of `str_pack`
to one of `str_unpack`; `unpackStep_sim` says that an iteration of each on the same format
keeps it, and `unpackLoop_sim` extends it to the whole run. The hypotheses are what the
round trip needs: no `f` item, since a `float` rounds its `lua_Number`; strings shorter
than `2 ^ 31`, since a `z` item reads its length back through an `int`; and data shorter
than the largest `lua_Integer`, so that no position wraps.
-/

namespace Hype.Lpack

/-- A value `str_unpack` pushed agrees with the argument `str_pack` read for it: the same
number after the conversions `luaL_checkinteger` and `luaL_checknumber` make, or a slice of
the data, inside it, that holds the bytes of the string. -/
def Agrees (F : Ftypes) (data : List UInt8) : Value → Pushed → Prop
  | .integer n, .integer m => m = n
  | .number x, .integer m => F.tointeger x = some m
  | .integer n, .number y => y = F.ofInteger n
  | .number x, .number y => y = x
  | .string str, .lstring off len => off + len ≤ data.length ∧ (data.drop off).take len = str
  | _, _ => False

/-! ## The argument checks -/

theorem checkinteger_agrees {F : Ftypes} {args : List Value} {arg : Nat} {n : LuaInteger}
    (data : List UInt8) (h : checkinteger F args arg = .ok n) :
    ∃ val, args[arg - 2]? = some val ∧ Agrees F data val (.integer n) := by
  unfold checkinteger at h
  split at h
  · cases h; exact ⟨.integer _, ‹_›, rfl⟩
  · split at h
    · cases h; exact ⟨.number _, ‹_›, ‹_›⟩
    · cases h
  all_goals cases h

theorem checknumber_agrees {F : Ftypes} {args : List Value} {arg : Nat} {x : UInt64}
    (data : List UInt8) (h : checknumber F args arg = .ok x) :
    ∃ val, args[arg - 2]? = some val ∧ Agrees F data val (.number x) := by
  unfold checknumber at h
  split at h
  · cases h; exact ⟨.integer _, ‹_›, rfl⟩
  · cases h; exact ⟨.number _, ‹_›, rfl⟩
  all_goals cases h

/-! ## Bytes and positions -/

theorem drop_take_eq_item_take {pre item data : List UInt8} (h : pre ++ item <+: data) {k : Nat}
    (hk : k ≤ item.length) : (data.drop pre.length).take k = item.take k := by
  obtain ⟨r, rfl⟩ := h
  rw [List.append_assoc, List.drop_left, List.take_append_of_le_length hk]

theorem copywithendian_copywithendian (l : List UInt8) (islittle : Bool) :
    copywithendian (copywithendian l islittle) islittle = l := by
  unfold copywithendian; split <;> simp

theorem length_append_lt_two_pow {pre item data : List UInt8} (h : pre ++ item <+: data)
    (hlen : data.length < LUA_MAXINTEGER) : pre.length + item.length < 2 ^ 63 := by
  have := h.length_le
  simp only [List.length_append, LUA_MAXINTEGER] at this hlen
  omega

theorem mod_SIZET_of_lt {n : Nat} (h : n < 2 ^ 63) : n % SIZET = n :=
  Nat.mod_eq_of_lt (by simp only [SIZET]; omega)

theorem ofNat_toNat_uint64 (x : UInt64) : UInt64.ofNat x.toNat = x :=
  UInt64.eq_of_toBitVec_eq (by simp [UInt64.ofNat, UInt64.toNat])

/-- The bytes of a string that lie in the data, as a pushed slice. -/
theorem agrees_slice (F : Ftypes) {pre str data : List UInt8} (h : pre ++ str <+: data) :
    Agrees F data (.string str) (.lstring pre.length str.length) :=
  ⟨by simpa using h.length_le, by rw [drop_take_eq_item_take h le_rfl, List.take_length]⟩

/-! ## One item

`ReadsBack` is what the `switch` of `str_unpack` does at the offset `pre.length` where the
`switch` of `str_pack` put an item: it finds the value that was packed, and it stops where
the item ends. There is one lemma for each kind of item. -/

/-- What reading an item back gives: nothing for padding and no-ops, which give back their
argument slot, and otherwise a value that agrees with the argument the item packed. -/
def ItemBack (F : Ftypes) (args : List Value) (data : List UInt8) (arg arg' : Nat)
    (v : Option Pushed) : Prop :=
  v = none ∧ arg' = arg - 1 ∨
    ∃ val w, args[arg - 2]? = some val ∧ v = some w ∧ Agrees F data val w ∧ arg' = arg

/-- `unpackOption` at offset `pre.length` reads back the item `item` that `packOption`
packed for slot `arg`, and ends where the item ends. -/
def ReadsBack (F : Ftypes) (args : List Value) (data : List UInt8) (islittle : Bool)
    (opt : KOption) (size arg arg' : Nat) (pre item : List UInt8) : Prop :=
  ∃ v pos, unpackOption F data islittle opt size pre.length = .ok (v, pos) ∧
    (pos + size) % SIZET = pre.length + item.length ∧ ItemBack F args data arg arg' v

section Item

variable {F : Ftypes} {args : List Value} {islittle : Bool} {size arg : Nat}
  {item pre data : List UInt8} {len arg' : Nat}

/-- An integer item: `unpackint` of its bytes is the integer `luaL_checkinteger` gave. -/
theorem readsBack_integer {opt : KOption} {n : LuaInteger} (hopt : opt = .kint ∨ opt = .kuint)
    (hn : checkinteger F args arg = .ok n) (hpre : pre ++ item <+: data)
    (hlen : data.length < LUA_MAXINTEGER) (hl : item.length = size)
    (hu : unpackint item islittle size (opt == .kint) = .ok n) :
    ReadsBack F args data islittle opt size arg arg pre item := by
  obtain ⟨val, hv, hag⟩ := checkinteger_agrees data hn
  have hit : (data.drop pre.length).take size = item := by
    rw [drop_take_eq_item_take hpre hl.ge, List.take_of_length_le hl.le]
  refine ⟨some (.integer n), pre.length, ?_, hl ▸ mod_SIZET_of_lt
    (length_append_lt_two_pow hpre hlen), .inr ⟨val, _, hv, rfl, hag, rfl⟩⟩
  rcases hopt with rfl | rfl <;> simp only [unpackOption, hit, hu] <;> rfl

theorem readsBack_kint (ho : packOption F args islittle .kint size arg = .ok (item, len, arg'))
    (hsz : SizeOf .kint size) (hpre : pre ++ item <+: data)
    (hlen : data.length < LUA_MAXINTEGER) :
    ReadsBack F args data islittle .kint size arg arg' pre item := by
  obtain ⟨n, hn, ho⟩ := bind_eq_ok.mp ho
  dsimp only at ho
  split at ho
  · cases ho
  rename_i hacc
  cases ho
  simp only [SZINT, NB, Nat.mul_comm size 8] at hacc
  exact readsBack_integer (.inl rfl) hn hpre hlen (length_packint ..)
    (unpackint_packint_signed n islittle hsz (by omega))

theorem readsBack_kuint (ho : packOption F args islittle .kuint size arg = .ok (item, len, arg'))
    (hsz : SizeOf .kuint size) (hpre : pre ++ item <+: data)
    (hlen : data.length < LUA_MAXINTEGER) :
    ReadsBack F args data islittle .kuint size arg arg' pre item := by
  obtain ⟨n, hn, ho⟩ := bind_eq_ok.mp ho
  split at ho
  · cases ho
  rename_i hacc
  cases ho
  have hm : n.toNat < 2 ^ (8 * size) := by
    by_cases h8 : 8 ≤ size
    · exact lt_of_lt_of_le n.isLt (Nat.pow_le_pow_right (by omega) (by omega))
    · simp only [SZINT, NB, Nat.mul_comm size 8] at hacc; omega
  have hu := unpackint_packint_unsigned n.toNat islittle hsz hm n.isLt
  rw [BitVec.ofNat_toNat, BitVec.setWidth_eq] at hu
  exact readsBack_integer (.inr rfl) hn hpre hlen (length_packint ..) hu

/-- A float item of a `lua_Number`: its eight bytes read back as the same `lua_Number`. -/
theorem readsBack_kfloat (ho : packOption F args islittle .kfloat 8 arg = .ok (item, len, arg'))
    (hpre : pre ++ item <+: data) (hlen : data.length < LUA_MAXINTEGER) :
    ReadsBack F args data islittle .kfloat 8 arg arg' pre item := by
  obtain ⟨x, hx, ho⟩ := bind_eq_ok.mp ho
  cases ho
  obtain ⟨val, hv, hag⟩ := checknumber_agrees data hx
  have hl : (copywithendian (floatBytes F 8 x) islittle).length = 8 := by
    simp [copywithendian, floatBytes, apply_ite List.length]
  have hit : (data.drop pre.length).take 8 = copywithendian (floatBytes F 8 x) islittle := by
    rw [drop_take_eq_item_take hpre hl.ge, List.take_of_length_le hl.le]
  have hx8 : x.toNat < 256 ^ 8 := x.toNat_lt_size
  have hS := length_append_lt_two_pow hpre hlen
  rw [hl] at hS
  refine ⟨some (.number x), pre.length, ?_, by rw [hl]; exact mod_SIZET_of_lt hS,
    .inr ⟨val, _, hv, rfl, hag, rfl⟩⟩
  simp only [unpackOption, hit, copywithendian_copywithendian, floatOf, floatBytes,
    if_neg (show (8 : Nat) ≠ 4 by decide), ofLE_leBytes, Nat.mod_eq_of_lt hx8,
    ofNat_toNat_uint64]
  rfl

theorem readsBack_kchar (ho : packOption F args islittle .kchar size arg = .ok (item, len, arg'))
    (hpre : pre ++ item <+: data) (hlen : data.length < LUA_MAXINTEGER) :
    ReadsBack F args data islittle .kchar size arg arg' pre item := by
  obtain ⟨sb, hs, ho⟩ := bind_eq_ok.mp ho
  split at ho
  · cases ho
  rename_i hsl
  simp only [pure, Except.pure, Except.ok.injEq, Prod.mk.injEq] at ho
  obtain ⟨rfl, rfl, rfl⟩ := ho
  obtain rfl : sb.length = size := not_not.mp hsl
  exact ⟨_, _, rfl, mod_SIZET_of_lt (length_append_lt_two_pow hpre hlen),
    .inr ⟨_, _, checklstring_ok hs, rfl, agrees_slice F hpre, rfl⟩⟩

/-- A string with its length in front: the length reads back through `unpackint`, and the
check against the data passes without wrapping. -/
theorem readsBack_kstring
    (ho : packOption F args islittle .kstring size arg = .ok (item, len, arg'))
    (hsz : SizeOf .kstring size) (hpre : pre ++ item <+: data)
    (hlen : data.length < LUA_MAXINTEGER) :
    ReadsBack F args data islittle .kstring size arg arg' pre item := by
  obtain ⟨sb, hs, ho⟩ := bind_eq_ok.mp ho
  split at ho
  · cases ho
  rename_i hfit
  cases ho
  rw [← List.append_assoc] at hpre
  have hag := agrees_slice F hpre
  have hend := hpre.length_le
  have hpfx : (data.drop pre.length).take size = packint sb.length islittle size false := by
    rw [drop_take_eq_item_take ((List.prefix_append _ sb).trans hpre) (by simp),
      List.take_of_length_le (by simp)]
  simp only [List.length_append, length_packint] at hag hend
  simp only [LUA_MAXINTEGER] at hlen
  have hm : sb.length < 2 ^ (8 * size) := by
    by_cases h8 : 8 ≤ size
    · exact lt_of_lt_of_le (show sb.length < 2 ^ 63 by omega)
        (Nat.pow_le_pow_right (by omega) (show 63 ≤ 8 * size by omega))
    · simp only [NB, Nat.mul_comm size 8] at hfit; omega
  refine ⟨_, (pre.length + sb.length) % SIZET, ?_,
    by simp only [SIZET, List.length_append, length_packint]; omega,
    .inr ⟨_, _, checklstring_ok hs, rfl, hag, rfl⟩⟩
  simp only [unpackOption, hpfx, unpackint_packint_unsigned _ islittle hsz hm (by omega),
    bind, Except.bind, BitVec.toNat_ofNat, Nat.mod_eq_of_lt (show sb.length < 2 ^ 64 by omega)]
  rw [if_neg (by simp only [SIZET]; omega)]
  rfl

/-- A zero-terminated string: `strlen` stops at the terminator `str_pack` wrote, and the
length survives the cast to `int`. -/
theorem readsBack_kzstr (ho : packOption F args islittle .kzstr 0 arg = .ok (item, len, arg'))
    (hpre : pre ++ item <+: data) (hlen : data.length < LUA_MAXINTEGER)
    (hstr : ∀ str, Value.string str ∈ args → str.length < 2 ^ 31) :
    ReadsBack F args data islittle .kzstr 0 arg arg' pre item := by
  obtain ⟨sb, hs, ho⟩ := bind_eq_ok.mp ho
  split at ho
  · cases ho
  rename_i hz
  cases ho
  have h0 : 0 ∉ sb := (strlen_eq_length_iff sb).mp (not_not.mp hz)
  have hpre' : pre ++ sb ++ [0] <+: data := by rwa [List.append_assoc]
  have hag := agrees_slice F ((List.prefix_append (pre ++ sb) [0]).trans hpre')
  have hS := length_append_lt_two_pow hpre hlen
  simp only [List.length_append, List.length_singleton] at hS
  obtain ⟨r, hr⟩ := hpre
  have hdrop : data.drop pre.length = sb ++ 0 :: r := by subst hr; simp
  refine ⟨_, (pre.length + sb.length + 1) % SIZET, ?_,
    by simp only [SIZET, List.length_append, List.length_singleton]; omega,
    .inr ⟨_, _, checklstring_ok hs, rfl, hag, rfl⟩⟩
  simp only [unpackOption, hdrop, strlen_append_zero r h0,
    intCast_of_lt (hstr sb (List.getElem?_mem (checklstring_ok hs)))]
  rfl

/-- The `switch` of `str_unpack` reads back every item of the `switch` of `str_pack` but a
`float`. -/
theorem unpackOption_packOption {opt : KOption}
    (ho : packOption F args islittle opt size arg = .ok (item, len, arg'))
    (hsz : SizeOf opt size) (hfl : opt = .kfloat → size = 8) (hpre : pre ++ item <+: data)
    (hlen : data.length < LUA_MAXINTEGER)
    (hstr : ∀ str, Value.string str ∈ args → str.length < 2 ^ 31) :
    ReadsBack F args data islittle opt size arg arg' pre item := by
  cases opt
  case kint => exact readsBack_kint ho hsz hpre hlen
  case kuint => exact readsBack_kuint ho hsz hpre hlen
  case kfloat => obtain rfl := hfl rfl; exact readsBack_kfloat ho hpre hlen
  case kchar => exact readsBack_kchar ho hpre hlen
  case kstring => exact readsBack_kstring ho hsz hpre hlen
  case kzstr => obtain rfl : size = 0 := hsz; exact readsBack_kzstr ho hpre hlen hstr
  case kpadding =>
    cases ho
    obtain rfl : size = 1 := hsz
    exact ⟨none, _, rfl, mod_SIZET_of_lt (length_append_lt_two_pow hpre hlen), .inl ⟨rfl, rfl⟩⟩
  case kpaddalign | knop =>
    cases ho
    obtain rfl : size = 0 := hsz
    exact ⟨none, _, rfl, mod_SIZET_of_lt (length_append_lt_two_pow hpre hlen), .inl ⟨rfl, rfl⟩⟩

end Item

/-! ## The two loops side by side -/

/-- A state of the loop of `str_pack` and one of the loop of `str_unpack` over the data
`s ++ out ++ t`, where `out` is what `str_pack` returns: the same header, the unpacking
position just after the bytes packed so far, and one pushed value for each argument read
so far, agreeing with it; every argument read so far is there. -/
structure Sim (F : Ftypes) (args : List Value) (s out t : List UInt8) (P : PackState)
    (U : UnpackState) : Prop where
  header : U.h = P.h
  pos : U.pos = s.length + P.b.length
  totalsize : P.totalsize = P.b.length
  arg : 1 ≤ P.arg
  read : P.arg - 1 ≤ args.length
  vals : List.Forall₂ (Agrees F (s ++ out ++ t)) (args.take (P.arg - 1)) U.out

/-- The offset `s` of the packed bytes keeps every alignment of the rest of the format: it
is a multiple of `16`, or nothing is aligned. -/
def Aligned (s : List UInt8) (h : Header) (rest : List Char) : Prop :=
  s.length % 16 = 0 ∨ h.maxalign = 1 ∧ '!' ∉ rest

theorem Sim.init (F : Ftypes) (args : List Value) (s out t : List UInt8) :
    Sim F args s out t PackState.init ⟨initheader, s.length, []⟩ :=
  ⟨rfl, rfl, rfl, le_rfl, Nat.zero_le _, .nil⟩

/-- Both loops compute the same details for the next item. -/
theorem Sim.getdetails_eq {F : Ftypes} {args : List Value} {s out t : List UInt8}
    {P : PackState} {U : UnpackState} (hsim : Sim F args s out t P U) {c : Char}
    {cs : List Char} (hal : Aligned s P.h (c :: cs)) :
    getdetails U.h U.pos c cs = getdetails P.h P.totalsize c cs := by
  rw [hsim.header, hsim.pos, hsim.totalsize]
  rcases hal with h16 | ⟨h1, -⟩
  · rw [getdetails_mod, getdetails_mod P.h P.b.length, Nat.add_mod, h16, zero_add, Nat.mod_mod]
  · exact getdetails_maxalign_one h1 _ _ c cs

theorem Aligned.step {s : List UInt8} {h : Header} {c : Char} {cs : List Char} {t : Nat}
    {d : Details} (hal : Aligned s h (c :: cs)) (hd : getdetails h t c cs = .ok d) :
    Aligned s d.h d.rest := by
  obtain ⟨hr, -, hm, -⟩ := getdetails_ok hd
  refine hal.imp_right fun ⟨h1, hc⟩ => ⟨?_, fun h => hc (.tail _ (hr.subset h))⟩
  rcases hm with hm | ⟨rfl, -⟩
  · exact hm.trans h1
  · exact absurd (.head _) hc

/-- The converse of `unpackStep_ok`. -/
theorem unpackStep_of_ok {F : Ftypes} {data : List UInt8} {s : UnpackState} {c : Char}
    {cs : List Char} {d : Details} {v : Option Pushed} {pos : Nat}
    (hd : getdetails s.h s.pos c cs = .ok d) (hfit : s.pos + d.ntoalign + d.size ≤ data.length)
    (hshort : data.length < LUA_MAXINTEGER)
    (ho : unpackOption F data d.h.islittle d.opt d.size (s.pos + d.ntoalign) = .ok (v, pos)) :
    unpackStep F data s c cs = .ok (⟨d.h, (pos + d.size) % SIZET, s.out ++ v.toList⟩, d.rest) := by
  simp only [LUA_MAXINTEGER] at hshort
  simp only [unpackStep, hd, bind, Except.bind,
    if_neg (show ¬(d.ntoalign + d.size > SIZET - 1 - s.pos ∨
      s.pos + d.ntoalign + d.size > data.length) by simp only [SIZET]; omega), ho]
  rfl

/-- One more item keeps the pushed values in step with the arguments read; an item that
reads an argument finds it in the list. -/
theorem ItemBack.forall₂ {F : Ftypes} {args : List Value} {data : List UInt8} {arg arg' : Nat}
    {v : Option Pushed} {out : List Pushed} (hv : ItemBack F args data (arg + 1) arg' v)
    (harg : 1 ≤ arg) (hread : arg - 1 ≤ args.length)
    (hvals : List.Forall₂ (Agrees F data) (args.take (arg - 1)) out) :
    1 ≤ arg' ∧ arg' - 1 ≤ args.length ∧
      List.Forall₂ (Agrees F data) (args.take (arg' - 1)) (out ++ v.toList) := by
  obtain ⟨a, rfl⟩ : ∃ a, arg = a + 1 := ⟨arg - 1, by omega⟩
  rw [Nat.add_sub_cancel] at hvals hread
  rcases hv with ⟨rfl, rfl⟩ | ⟨val, w, hval, rfl, hag, rfl⟩
  · exact ⟨by omega, hread, by simpa using hvals⟩
  · rw [show a + 1 + 1 - 2 = a by omega] at hval
    have ha : a < args.length := (List.getElem?_eq_some.mp hval).1
    rw [Nat.add_sub_cancel, List.take_succ, hval]
    exact ⟨by omega, ha, List.rel_append hvals (.cons hag .nil)⟩

/-- One iteration of each loop keeps `Sim`. -/
theorem unpackStep_sim {F : Ftypes} {args : List Value} {s out t : List UInt8}
    {P P' : PackState} {U : UnpackState} {c : Char} {cs r : List Char}
    (hsim : Sim F args s out t P U) (hal : Aligned s P.h (c :: cs)) (hf : c ≠ 'f')
    (hs : packStep F args P c cs = .ok (P', r)) (hpre : P'.b <+: out)
    (hlen : (s ++ out ++ t).length < LUA_MAXINTEGER)
    (hstr : ∀ str, Value.string str ∈ args → str.length < 2 ^ 31) :
    ∃ U', unpackStep F (s ++ out ++ t) U c cs = .ok (U', r) ∧ Sim F args s out t P' U' := by
  obtain ⟨d, item, len, hd, ho, hP', rfl⟩ := packStep_ok hs
  rw [hP'] at hpre ⊢
  obtain ⟨-, hsz, -, hfl, -⟩ := getdetails_ok hd
  have hitem : (s ++ P.b ++ List.replicate d.ntoalign PACKPADBYTE) ++ item <+: s ++ out ++ t := by
    simpa only [List.append_assoc, List.prefix_append_right_inj] using
      hpre.trans (List.prefix_append out t)
  obtain ⟨v, pos, hu, hpos, hv⟩ := unpackOption_packOption ho hsz
    (fun h => (hfl h).resolve_left hf) hitem hlen hstr
  have hoff : (s ++ P.b ++ List.replicate d.ntoalign PACKPADBYTE).length = U.pos + d.ntoalign := by
    simp [hsim.pos, Nat.add_assoc]
  obtain ⟨hil, -, -⟩ := packOption_ok hsz ho
  rw [hoff] at hu hpos
  refine ⟨_, unpackStep_of_ok (hsim.getdetails_eq hal ▸ hd) ?_ hlen hu, ?_⟩
  · have := hitem.length_le
    rw [List.length_append, hoff] at this
    omega
  · obtain ⟨harg, hread, hvals⟩ := hv.forall₂ hsim.arg hsim.read hsim.vals
    refine ⟨rfl, ?_, ?_, harg, hread, hvals⟩ <;> dsimp only
    · rw [hpos, hsim.pos]; simp; omega
    · rw [hsim.totalsize]; simp; omega

/-- The buffer of `str_pack` only grows. -/
theorem packLoop_buffer_grows {F : Ftypes} {args : List Value} :
    ∀ (rest : List Char) {P P' : PackState}, packLoop F args P rest = .ok P' → P.b <+: P'.b
  | [], P, P', hl => by rw [packLoop_nil] at hl; cases hl; exact List.prefix_refl _
  | c :: cs, P, P', hl => by
      rw [packLoop] at hl
      split at hl
      · cases hl
      rename_i P₁ r hs
      have := packStep_rest_length hs
      obtain ⟨d, item, len, _, _, hP₁, -⟩ := packStep_ok hs
      have h₁ : P.b <+: P₁.b := by
        rw [hP₁, List.append_assoc]; exact List.prefix_append _ _
      exact h₁.trans (packLoop_buffer_grows r hl)
termination_by rest => rest.length

/-- The whole run: from states in `Sim`, the loop of `str_unpack` over the rest of the
format ends in `Sim` with the state the loop of `str_pack` ends in. -/
theorem unpackLoop_sim {F : Ftypes} {args : List Value} {s out t : List UInt8}
    (hlen : (s ++ out ++ t).length < LUA_MAXINTEGER)
    (hstr : ∀ str, Value.string str ∈ args → str.length < 2 ^ 31) :
    ∀ (rest : List Char) {P P' : PackState} {U : UnpackState}, Sim F args s out t P U →
      Aligned s P.h rest → 'f' ∉ rest → packLoop F args P rest = .ok P' → P'.b <+: out →
      ∃ U', unpackLoop F (s ++ out ++ t) U rest = .ok U' ∧ Sim F args s out t P' U'
  | [], P, P', U, hsim, _, _, hl, _ => by
      rw [packLoop_nil] at hl; cases hl; exact ⟨U, unpackLoop_nil .., hsim⟩
  | c :: cs, P, P', U, hsim, hal, hf, hl, hpre => by
      rw [packLoop] at hl
      split at hl
      · cases hl
      rename_i P₁ r hs
      have := packStep_rest_length hs
      obtain ⟨U₁, hu, hsim₁⟩ := unpackStep_sim hsim hal (fun h => hf (h ▸ .head _)) hs
        ((packLoop_buffer_grows r hl).trans hpre) hlen hstr
      obtain ⟨d, _, _, hd, _, hP₁, rfl⟩ := packStep_ok hs
      have hal₁ : Aligned s P₁.h d.rest := by rw [hP₁]; exact hal.step hd
      obtain ⟨U', hu', hsim'⟩ := unpackLoop_sim hlen hstr d.rest hsim₁ hal₁
        (fun h => hf (.tail _ ((getdetails_ok hd).1.subset h))) hl hpre
      exact ⟨U', (unpackLoop_step hu).trans hu', hsim'⟩
termination_by rest => rest.length

/-- `str_unpack` reads back what `str_pack` wrote. When `str_pack` packs `args` with a
format that has no `f`, and the bytes it returns sit at offset `s` of a data string
`s ++ out ++ t`, `str_unpack` with the same format from position `s + 1` returns one value
for each argument `str_pack` read (`P.arg - 1` of them, where `P` is the state its loop ends
in: `arg` starts at the format's slot `1`), in order and agreeing with it, and then the
position just after the packed bytes. The offset is a multiple of `16` or the format has no
`!`; the strings are shorter than `2 ^ 31` and the data shorter than the largest
`lua_Integer`. -/
theorem str_unpack_str_pack (F : Ftypes) (fmt : List Char) (args : List Value)
    (s out t : List UInt8) (hpack : strPack F fmt args = .ok out) (hf : 'f' ∉ cFormat fmt)
    (halign : s.length % 16 = 0 ∨ '!' ∉ cFormat fmt)
    (hstr : ∀ str, Value.string str ∈ args → str.length < 2 ^ 31)
    (hlen : (s ++ out ++ t).length < LUA_MAXINTEGER) :
    ∃ P ps, packLoop F args PackState.init (cFormat fmt) = .ok P ∧ P.b = out ∧
      strUnpack F fmt [.string (s ++ out ++ t), .integer (BitVec.ofNat 64 (s.length + 1))] =
        .ok (ps ++ [.integer (BitVec.ofNat 64 (s.length + out.length + 1))]) ∧
      ps.length = P.arg - 1 ∧ List.Forall₂ (Agrees F (s ++ out ++ t)) (args.take (P.arg - 1)) ps := by
  obtain ⟨P, hl, rfl⟩ := map_eq_ok hpack
  obtain ⟨U, hu, hsim⟩ := unpackLoop_sim hlen hstr (cFormat fmt) (Sim.init F args s P.b t)
    (halign.imp_right fun h => ⟨rfl, h⟩) hf hl (List.prefix_refl _)
  refine ⟨P, U.out, hl, rfl, ?_, ?_, hsim.vals⟩
  · rw [strUnpack_eq s.length (by simp) hlen ?_, hu]
    · simp only [Except.map, hsim.pos, List.length_append, Nat.add_assoc]
    · rfl
  · rw [← hsim.vals.length_eq, List.length_take]
    exact Nat.min_eq_left hsim.read

/-- A two-byte integer and a `z` string, packed at the start of the data and read back:
two values, `300` and the slice `hi`, then position `6`. -/
theorem str_unpack_str_pack_i2z :
    strPack ⟨fun _ => none, fun _ => 0, fun _ => 0, fun _ => 0⟩ ['i', '2', 'z']
        [.integer 300, .string [104, 105]] = .ok [44, 1, 104, 105, 0] ∧
      ∃ P ps, packLoop ⟨fun _ => none, fun _ => 0, fun _ => 0, fun _ => 0⟩
          [.integer 300, .string [104, 105]] PackState.init ['i', '2', 'z'] = .ok P ∧
        P.b = [44, 1, 104, 105, 0] ∧
        strUnpack ⟨fun _ => none, fun _ => 0, fun _ => 0, fun _ => 0⟩ ['i', '2', 'z']
          [.string [44, 1, 104, 105, 0], .integer 1] = .ok (ps ++ [.integer 6]) ∧
        ps.length = P.arg - 1 ∧
        List.Forall₂ (Agrees ⟨fun _ => none, fun _ => 0, fun _ => 0, fun _ => 0⟩
          [44, 1, 104, 105, 0]) ([.integer 300, .string [104, 105]].take (P.arg - 1)) ps := by
  have h1 : packStep ⟨fun _ => none, fun _ => 0, fun _ => 0, fun _ => 0⟩
      [.integer 300, .string [104, 105]] PackState.init 'i' ['2', 'z'] =
        .ok (⟨initheader, 2, 2, [44, 1]⟩, ['z']) := by
    set_option maxRecDepth 20000 in rfl
  have h2 : packStep ⟨fun _ => none, fun _ => 0, fun _ => 0, fun _ => 0⟩
      [.integer 300, .string [104, 105]] ⟨initheader, 2, 2, [44, 1]⟩ 'z' [] =
        .ok (⟨initheader, 3, 5, [44, 1, 104, 105, 0]⟩, []) := by
    set_option maxRecDepth 20000 in rfl
  have hp : strPack ⟨fun _ => none, fun _ => 0, fun _ => 0, fun _ => 0⟩ ['i', '2', 'z']
      [.integer 300, .string [104, 105]] = .ok [44, 1, 104, 105, 0] := by
    rw [strPack, show cFormat ['i', '2', 'z'] = ['i', '2', 'z'] from rfl, packLoop_step h1,
      packLoop_step h2, packLoop_nil]
    rfl
  exact ⟨hp, str_unpack_str_pack _ _ _ [] _ [] hp (by decide) (.inl rfl)
    (by simp) (by simp [LUA_MAXINTEGER])⟩

end Hype.Lpack
