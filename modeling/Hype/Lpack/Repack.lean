import Hype.Lpack.RoundTrip

set_option autoImplicit false

/-! # `str_pack` writes back what `str_unpack` read

The converse of `RoundTrip`: unpacking a slice of a data string and packing the values it
returned with the same format gives the slice back (`str_pack_str_unpack`). A string value
is packed as the bytes `lua_pushlstring` copied from the data (`Pushed.toValue`).

The proof runs the two loops side by side again, now led by `str_unpack`. `PacksBack` says
what the `switch` of `str_pack` does with an item the `switch` of `str_unpack` read;
`Resim` relates the states of the two loops, `packStep_unpackStep` says one iteration of
each keeps it and `packLoop_unpackLoop` extends it to the run. The hypotheses are what the
converse needs beyond `RoundTrip`: the bytes `str_unpack` skips as alignment or as an `x`
are the ones `str_pack` writes there, and every string it returns lies inside the data.
The second is not implied: the check of an `s` item, `pos + len + size <= ld`, is made in
`size_t` and wraps for a length near `2 ^ 64`.
-/

namespace Hype.Lpack

/-! ## The values as arguments -/

/-- The argument `str_pack` reads for a value `str_unpack` returned: the integer or the
number itself, and for a pushed string the bytes `lua_pushlstring` copies from the data. -/
def Pushed.toValue (data : List UInt8) : Pushed → Value
  | .integer n => .integer n
  | .number x => .number x
  | .lstring off len => .string ((data.drop off).take len)

/-! ## One item

`PacksBack` is what the `switch` of `str_pack` does with the value the `switch` of
`str_unpack` read at offset `q` and up to `e`: it writes the bytes `data[q, e)` back, and
keeps the argument slot of a value, or gives it back for padding and no-ops. -/

/-- `packOption` for slot `arg` writes back the bytes `data[q, e)` read into `v`, with the
length of its string as the extra size. -/
def PacksBack (F : Ftypes) (vals : List Value) (data : List UInt8) (islittle : Bool)
    (opt : KOption) (size arg q e : Nat) (v : Option Pushed) : Prop :=
  ∃ len, packOption F vals islittle opt size arg =
      .ok ((data.drop q).take (e - q), len, if v.isSome then arg else arg - 1) ∧
    q + size + len = e

section Item

variable {F : Ftypes} {vals : List Value} {data : List UInt8} {islittle : Bool}
  {size arg q : Nat} {v : Option Pushed} {pos : Nat}

theorem length_take_drop {q size : Nat} (hq : q + size ≤ data.length) :
    ((data.drop q).take size).length = size := by
  simp only [List.length_take, List.length_drop]; omega

/-- An integer item: the bytes of the value `unpackint` read are the bytes `packint`
writes for it. -/
theorem packsBack_integer {opt : KOption} (hopt : opt = .kint ∨ opt = .kuint)
    (hsz : 1 ≤ size ∧ size ≤ MAXINTSIZE) (hq : q + size ≤ data.length)
    (hlen : data.length < 2 ^ 31)
    (ho : unpackOption F data islittle opt size q = .ok (v, pos))
    (hv : ∀ w, v = some w → vals[arg - 2]? = some (w.toValue data)) :
    PacksBack F vals data islittle opt size arg q ((pos + size) % SIZET) v := by
  have hstr := length_take_drop hq
  have he : (q + size) % SIZET - q = size := by simp only [SIZET]; omega
  rcases hopt with rfl | rfl
  all_goals
    obtain ⟨res, hres, hv'⟩ := bind_eq_ok.mp ho
    cases hv'
    have hn : checkinteger F vals arg = .ok res := by
      simp only [checkinteger, hv _ rfl, Pushed.toValue]
    refine ⟨0, ?_, by simp only [SIZET]; omega⟩
    rw [he]
    generalize (data.drop q).take size = str at hres hstr ⊢
    subst hstr
  · obtain ⟨hb, hp⟩ := packint_unpackint_signed (by omega) (by omega) hres
    rw [packOption_kint hn, if_neg (by simp only [NB, Nat.mul_comm _ 8]; omega), hp]
    rfl
  · obtain ⟨hb, hp⟩ := packint_unpackint_unsigned (by omega) (by omega) hres
    rw [packOption_kuint hn, if_neg (by simp only [NB, Nat.mul_comm _ 8]; omega), hp]
    rfl

/-- A float of a `double`: `copywithendian` and the bytes of the `lua_Number` undo each
other. -/
theorem packsBack_kfloat (hq : q + 8 ≤ data.length) (hlen : data.length < 2 ^ 31)
    (ho : unpackOption F data islittle .kfloat 8 q = .ok (v, pos))
    (hv : ∀ w, v = some w → vals[arg - 2]? = some (w.toValue data)) :
    PacksBack F vals data islittle .kfloat 8 arg q ((pos + 8) % SIZET) v := by
  simp only [unpackOption, pure, Except.pure, Except.ok.injEq, Prod.mk.injEq] at ho
  obtain ⟨rfl, rfl⟩ := ho
  have hx : checknumber F vals arg =
      .ok (floatOf F 8 (copywithendian ((data.drop q).take 8) islittle)) := by
    simp only [checknumber, hv _ rfl, Pushed.toValue]
  refine ⟨0, ?_, by simp only [SIZET]; omega⟩
  have hstr := length_take_drop hq
  rw [show (q + 8) % SIZET - q = 8 by simp only [SIZET]; omega]
  generalize (data.drop q).take 8 = str at hx hstr ⊢
  have hu : (copywithendian str islittle).length = 8 := by
    unfold copywithendian; split <;> simp [hstr]
  have hlt := ofLE_lt (copywithendian str islittle)
  rw [hu] at hlt
  have hn : (UInt64.ofNat (ofLE (copywithendian str islittle))).toNat =
      ofLE (copywithendian str islittle) := by
    simp only [UInt64.toNat, UInt64.ofNat, BitVec.toNat_ofNat]
    exact Nat.mod_eq_of_lt (by simpa using hlt)
  simp only [packOption, hx, bind, Except.bind, pure, Except.pure, floatBytes, floatOf,
    if_neg (show (8 : Nat) ≠ 4 by decide), hn]
  rw [← hu, leBytes_ofLE, copywithendian_copywithendian]
  rfl

/-- A fixed-size string: the slice itself. -/
theorem packsBack_kchar (hq : q + size ≤ data.length) (hlen : data.length < 2 ^ 31)
    (ho : unpackOption F data islittle .kchar size q = .ok (v, pos))
    (hv : ∀ w, v = some w → vals[arg - 2]? = some (w.toValue data)) :
    PacksBack F vals data islittle .kchar size arg q ((pos + size) % SIZET) v := by
  simp only [unpackOption, pure, Except.pure, Except.ok.injEq, Prod.mk.injEq] at ho
  obtain ⟨rfl, rfl⟩ := ho
  have hs : checklstring vals arg = .ok ((data.drop q).take size) := by
    simp only [checklstring, hv _ rfl, Pushed.toValue]
  refine ⟨0, ?_, by simp only [SIZET]; omega⟩
  rw [show (q + size) % SIZET - q = size by simp only [SIZET]; omega]
  simp only [packOption, hs, bind, Except.bind, length_take_drop hq, ne_eq, not_true_eq_false,
    ite_false]
  rfl

/-- A string with its length before it: the length prefix is the `packint` of the length,
and the slice follows. -/
theorem packsBack_kstring (hsz : 1 ≤ size ∧ size ≤ MAXINTSIZE) (hq : q + size ≤ data.length)
    (hlen : data.length < 2 ^ 31)
    (ho : unpackOption F data islittle .kstring size q = .ok (v, pos))
    (hv : ∀ w, v = some w → vals[arg - 2]? = some (w.toValue data))
    (hin : ∀ off len, v = some (.lstring off len) → off + len ≤ data.length) :
    PacksBack F vals data islittle .kstring size arg q ((pos + size) % SIZET) v := by
  obtain ⟨res, hres, ho⟩ := bind_eq_ok.mp ho
  dsimp only at ho
  split at ho
  · cases ho
  cases ho
  have hl := hin _ _ rfl
  have hs : checklstring vals arg = .ok ((data.drop (q + size)).take res.toNat) := by
    simp only [checklstring, hv _ rfl, Pushed.toValue]
  have hsl : ((data.drop (q + size)).take res.toNat).length = res.toNat := by
    simp only [List.length_take, List.length_drop]; omega
  refine ⟨res.toNat, ?_, by simp only [SIZET]; omega⟩
  rw [show ((q + res.toNat) % SIZET + size) % SIZET - q = size + res.toNat by
    simp only [SIZET]; omega, List.take_add, List.drop_drop]
  have hstr := length_take_drop hq
  generalize (data.drop q).take size = str at hres hstr ⊢
  subst hstr
  obtain ⟨hu, hp⟩ := packint_unpackint_unsigned (by omega) (by omega) hres
  simp only [packOption, hs, bind, Except.bind, hsl, NB, Nat.mul_comm _ 8, hp]
  rw [if_neg (not_not.mpr (.inr hu))]
  rfl

/-- A zero-terminated string whose zero lies in the data: the bytes before it and the zero. -/
theorem packsBack_kzstr (hq : q ≤ data.length) (hlen : data.length < 2 ^ 31)
    (ho : unpackOption F data islittle .kzstr 0 q = .ok (v, pos))
    (hv : ∀ w, v = some w → vals[arg - 2]? = some (w.toValue data))
    (he : (pos + 0) % SIZET ≤ data.length) :
    PacksBack F vals data islittle .kzstr 0 arg q ((pos + 0) % SIZET) v := by
  simp only [unpackOption, pure, Except.pure, Except.ok.injEq, Prod.mk.injEq] at ho
  obtain ⟨rfl, rfl⟩ := ho
  have hL := strlen_le (data.drop q)
  rw [List.length_drop] at hL
  rw [intCast_of_lt (by omega)] at hv he ⊢
  have hmod : (q + strlen (data.drop q) + 1) % SIZET = q + strlen (data.drop q) + 1 :=
    Nat.mod_eq_of_lt (by simp only [SIZET]; omega)
  simp only [Nat.add_zero, hmod] at he ⊢
  -- the zero `strlen` stopped at lies in the data
  obtain ⟨hz, h0⟩ := strlen_zero (data.drop q) (by rw [List.length_drop]; omega)
  have hsl : ((data.drop q).take (strlen (data.drop q))).length = strlen (data.drop q) := by
    simp only [List.length_take, List.length_drop]; omega
  have hs : checklstring vals arg = .ok ((data.drop q).take (strlen (data.drop q))) := by
    simp only [checklstring, hv _ rfl, Pushed.toValue]
  refine ⟨strlen (data.drop q) + 1, ?_, by omega⟩
  rw [show q + strlen (data.drop q) + 1 - q = strlen (data.drop q) + 1 by omega, List.take_succ,
    hz]
  simp only [packOption, hs, bind, Except.bind, (strlen_eq_length_iff _).mpr h0, hsl, ne_eq,
    not_true_eq_false, ite_false]
  rfl

/-- The `switch` of `str_pack` writes back every item the `switch` of `str_unpack` read but a
`float`, when the bytes of a padding item are `LUA_PACKPADBYTE`. -/
theorem packOption_unpackOption {opt : KOption} (hsz : SizeOf opt size)
    (hfl : opt = .kfloat → size = 8) (hq : q + size ≤ data.length)
    (hlen : data.length < 2 ^ 31)
    (ho : unpackOption F data islittle opt size q = .ok (v, pos))
    (hv : ∀ w, v = some w → vals[arg - 2]? = some (w.toValue data))
    (hin : ∀ off len, v = some (.lstring off len) → off + len ≤ data.length)
    (he : (pos + size) % SIZET ≤ data.length)
    (hpad : opt = .kpadding → data[q]? = some PACKPADBYTE) :
    PacksBack F vals data islittle opt size arg q ((pos + size) % SIZET) v := by
  cases opt
  case kint => exact packsBack_integer (.inl rfl) hsz hq hlen ho hv
  case kuint => exact packsBack_integer (.inr rfl) hsz hq hlen ho hv
  case kfloat => obtain rfl := hfl rfl; exact packsBack_kfloat hq hlen ho hv
  case kchar => exact packsBack_kchar hq hlen ho hv
  case kstring => exact packsBack_kstring hsz hq hlen ho hv hin
  case kzstr => obtain rfl : size = 0 := hsz; exact packsBack_kzstr (by omega) hlen ho hv he
  case kpadding =>
    obtain rfl : size = 1 := hsz
    simp only [unpackOption, pure, Except.pure, Except.ok.injEq, Prod.mk.injEq] at ho
    obtain ⟨rfl, rfl⟩ := ho
    refine ⟨0, ?_, by simp only [SIZET]; omega⟩
    rw [show (q + 1) % SIZET - q = 1 by simp only [SIZET]; omega, List.take_one,
      List.head?_drop, hpad rfl]
    rfl
  case kpaddalign | knop =>
    obtain rfl : size = 0 := hsz
    simp only [unpackOption, pure, Except.pure, Except.ok.injEq, Prod.mk.injEq] at ho
    obtain ⟨rfl, rfl⟩ := ho
    refine ⟨0, ?_, by simp only [SIZET]; omega⟩
    rw [show (q + 0) % SIZET - q = 0 by simp only [SIZET]; omega]
    rfl

end Item

/-! ## The two loops side by side -/

/-- The bytes an iteration of `str_unpack` at `U` skips are `LUA_PACKPADBYTE`: the
alignment before its item, and the byte of an `x`. -/
def PadZero (data : List UInt8) (U : UnpackState) (d : Details) : Prop :=
  ∀ i, U.pos ≤ i → i < U.pos + d.ntoalign + (if d.opt = .kpadding then 1 else 0) →
    data[i]? = some PACKPADBYTE

/-- A state of the loop of `str_unpack` from `p0` over `data` and one of the loop of
`str_pack` over the values `ps` it returns: the same header, the packing position the bytes
read so far, those bytes in the buffer, and one argument read for each value pushed. -/
structure Resim (data : List UInt8) (p0 : Nat) (ps : List Pushed) (U : UnpackState)
    (P : PackState) : Prop where
  header : P.h = U.h
  pos : U.pos = p0 + P.totalsize
  totalsize : P.totalsize = P.b.length
  buf : P.b = (data.drop p0).take P.totalsize
  arg : P.arg = U.out.length + 1
  out : U.out <+: ps

theorem Resim.init (data : List UInt8) (p0 : Nat) (ps : List Pushed) :
    Resim data p0 ps ⟨initheader, p0, []⟩ PackState.init :=
  ⟨rfl, rfl, rfl, by simp [PackState.init], rfl, List.nil_prefix⟩

theorem take_drop_eq_replicate {data : List UInt8} {a n : Nat} {x : UInt8}
    (h : ∀ i, a ≤ i → i < a + n → data[i]? = some x) :
    (data.drop a).take n = List.replicate n x := by
  apply List.ext_getElem?
  intro j
  rw [List.getElem?_take, List.getElem?_replicate]
  split
  · rw [List.getElem?_drop, h (a + j) (by omega) (by omega)]
  · rfl

/-- Both loops compute the same details for the next item. -/
theorem Resim.getdetails_eq {data : List UInt8} {p0 : Nat} {ps : List Pushed}
    {U : UnpackState} {P : PackState} (hsim : Resim data p0 ps U P) (hp0 : p0 ≤ data.length)
    {c : Char} {cs : List Char} (hal : Aligned (data.take p0) U.h (c :: cs)) :
    getdetails P.h P.totalsize c cs = getdetails U.h U.pos c cs := by
  rw [hsim.header, hsim.pos]
  rcases hal with h16 | ⟨h1, -⟩
  · rw [List.length_take, Nat.min_eq_left hp0] at h16
    rw [getdetails_mod, getdetails_mod U.h (p0 + P.totalsize), Nat.add_mod, h16, zero_add,
      Nat.mod_mod]
  · exact getdetails_maxalign_one h1 _ _ c cs

/-- The argument `str_pack` reads next is the value `str_unpack` pushes next. -/
theorem Resim.next_arg {data : List UInt8} {p0 : Nat} {ps : List Pushed} {U : UnpackState}
    {P : PackState} {w : Pushed} (hsim : Resim data p0 ps U P) (hout : U.out ++ [w] <+: ps) :
    (ps.map (Pushed.toValue data))[P.arg + 1 - 2]? = some (w.toValue data) := by
  obtain ⟨t, rfl⟩ := hout
  rw [hsim.arg, show U.out.length + 1 + 1 - 2 = U.out.length by omega, List.map_append,
    List.getElem?_append_left (by simp), List.map_append, List.getElem?_append_right (by simp)]
  simp

/-- The converse of `packStep_ok`. -/
theorem packStep_of_ok {F : Ftypes} {args : List Value} {P : PackState} {c : Char}
    {cs : List Char} {d : Details} {item : List UInt8} {len arg' : Nat}
    (hd : getdetails P.h P.totalsize c cs = .ok d)
    (ho : packOption F args d.h.islittle d.opt d.size (P.arg + 1) = .ok (item, len, arg')) :
    packStep F args P c cs = .ok (⟨d.h, arg', P.totalsize + d.ntoalign + d.size + len,
      P.b ++ List.replicate d.ntoalign PACKPADBYTE ++ item⟩, d.rest) := by
  simp only [packStep, hd, bind, Except.bind, ho]
  rfl

/-- One iteration of each loop keeps `Resim`. -/
theorem packStep_unpackStep {F : Ftypes} {data : List UInt8} {p0 : Nat} {ps : List Pushed}
    {U U' : UnpackState} {P : PackState} {c : Char} {cs r : List Char}
    (hsim : Resim data p0 ps U P) (hp0 : p0 ≤ data.length)
    (hal : Aligned (data.take p0) U.h (c :: cs)) (hf : c ≠ 'f')
    (hs : unpackStep F data U c cs = .ok (U', r)) (hout : U'.out <+: ps)
    (hpos : U'.pos ≤ data.length) (hlen : data.length < 2 ^ 31)
    (hin : ∀ off len, Pushed.lstring off len ∈ ps → off + len ≤ data.length)
    (hpad : ∀ d, getdetails U.h U.pos c cs = .ok d → PadZero data U d) :
    ∃ P', packStep F (ps.map (Pushed.toValue data)) P c cs = .ok (P', r) ∧
      Resim data p0 ps U' P' := by
  obtain ⟨d, v, pos, hd, -, hfit, ho, rfl, rfl⟩ := unpackStep_ok hs
  obtain ⟨-, hsz, -, hfl, -⟩ := getdetails_ok hd
  dsimp only at hpos hout ⊢
  have hv : ∀ w, v = some w →
      (ps.map (Pushed.toValue data))[P.arg + 1 - 2]? = some (w.toValue data) := by
    rintro w rfl
    exact hsim.next_arg hout
  have hin' : ∀ off len, v = some (.lstring off len) → off + len ≤ data.length := by
    rintro off len rfl
    exact hin off len (hout.subset (by simp))
  have hpd := hpad d hd
  obtain ⟨len, hpo, hlen'⟩ := packOption_unpackOption hsz
    (fun h => (hfl h).resolve_left hf) (by omega) hlen ho hv hin' hpos
    (fun hk => hpd _ (Nat.le_add_right _ _) (by simp [hk]))
  have hrep := take_drop_eq_replicate (a := U.pos) (n := d.ntoalign)
    (fun i h1 h2 => hpd i h1 (by omega))
  refine ⟨_, packStep_of_ok (hsim.getdetails_eq hp0 hal ▸ hd) hpo, ?_⟩
  have hT := hsim.pos
  refine ⟨rfl, by dsimp only; omega, ?_, ?_, ?_, hout⟩
  · simp only [List.length_append, List.length_replicate, List.length_take, List.length_drop,
      ← hsim.totalsize]
    omega
  · rw [hsim.buf, show P.totalsize + d.ntoalign + d.size + len =
        P.totalsize + (d.ntoalign + ((pos + d.size) % SIZET - (U.pos + d.ntoalign))) by omega,
      List.take_add, List.take_add, List.drop_drop, List.drop_drop, ← hT, hrep, List.append_assoc]
  · cases v <;> simp [hsim.arg]

/-- Every position the loop of `str_unpack` reaches is a `size_t`. -/
theorem UnpackReach.pos_lt {F : Ftypes} {data : List UInt8} {U₀ U : UnpackState}
    {fmt rest : List Char} (hr : UnpackReach F data U₀ fmt U rest) (h : U₀.pos < SIZET) :
    U.pos < SIZET := by
  induction hr with
  | init => exact h
  | step _ hs _ =>
      obtain ⟨-, -, -, -, -, -, -, rfl, -⟩ := unpackStep_ok hs
      exact Nat.mod_lt _ (by simp [SIZET])

/-- An iteration of `str_unpack` starts inside the data. -/
theorem unpackLoop_cons_pos {F : Ftypes} {data : List UInt8} {U U' : UnpackState} {c : Char}
    {cs : List Char} (hl : unpackLoop F data U (c :: cs) = .ok U') : U.pos ≤ data.length := by
  rw [unpackLoop] at hl
  split at hl
  · cases hl
  rename_i U₁ r hs
  obtain ⟨d, -, -, -, -, hfit, -⟩ := unpackStep_ok hs
  omega

/-- The loop of `str_pack` over the values a run of `str_unpack` returned writes back the
bytes that run read. -/
theorem packLoop_unpackLoop {F : Ftypes} {data : List UInt8} {p0 : Nat} {ps : List Pushed}
    {U₀ : UnpackState} {fmt : List Char} (hp0 : p0 ≤ data.length)
    (hlen : data.length < 2 ^ 31)
    (hin : ∀ off len, Pushed.lstring off len ∈ ps → off + len ≤ data.length)
    (hpad : ∀ U c cs U' r d, UnpackReach F data U₀ fmt U (c :: cs) →
      unpackStep F data U c cs = .ok (U', r) → getdetails U.h U.pos c cs = .ok d →
      PadZero data U d) :
    ∀ (rest : List Char) {U U' : UnpackState} {P : PackState}, Resim data p0 ps U P →
      UnpackReach F data U₀ fmt U rest → Aligned (data.take p0) U.h rest → 'f' ∉ rest →
      unpackLoop F data U rest = .ok U' → U'.out = ps → U'.pos ≤ data.length →
      ∃ P', packLoop F (ps.map (Pushed.toValue data)) P rest = .ok P' ∧
        Resim data p0 ps U' P'
  | [], U, U', P, hsim, _, _, _, hl, _, _ => by
      rw [unpackLoop_nil] at hl; cases hl; exact ⟨P, packLoop_nil .., hsim⟩
  | c :: cs, U, U', P, hsim, hr, hal, hf, hl, hout, hpos => by
      rw [unpackLoop] at hl
      split at hl
      · cases hl
      rename_i U₁ r hs
      have := unpackStep_rest_length hs
      have hpos₁ : U₁.pos ≤ data.length := by
        cases r with
        | nil => rw [unpackLoop_nil] at hl; cases hl; exact hpos
        | cons => exact unpackLoop_cons_pos hl
      obtain ⟨P₁, hp, hsim₁⟩ := packStep_unpackStep hsim hp0 hal (fun h => hf (h ▸ .head _)) hs
        (hout ▸ (unpackLoop_reach r .init hl).out_grows) hpos₁ hlen hin (hpad _ _ _ _ _ · hr hs)
      obtain ⟨d, v, pos, hd, -, -, -, rfl, rfl⟩ := unpackStep_ok hs
      obtain ⟨P', hp', hsim'⟩ := packLoop_unpackLoop hp0 hlen hin hpad d.rest hsim₁ (.step hr hs)
        (hal.step hd) (fun h => hf (.tail _ ((getdetails_ok hd).1.subset h))) hl hout hpos
      exact ⟨P', (packLoop_step hp).trans hp', hsim'⟩
termination_by rest => rest.length

/-- `str_pack` writes back what `str_unpack` read. When `str_unpack` with a format that has
no `f` reads the data from byte `p0` to byte `e` and returns the values `ps`, `str_pack`
with the same format and those values (each string the bytes it names) returns the bytes
from `p0` to `e`. The bytes `str_unpack` skipped are `LUA_PACKPADBYTE`, as `str_pack`
writes them; the strings it returned lie inside the data; the start is a multiple of `16`
or the format has no `!`; the data is shorter than `2 ^ 31`. -/
theorem str_pack_str_unpack (F : Ftypes) (fmt : List Char) (data : List UInt8) (p0 e : Nat)
    (ps : List Pushed) (hf : 'f' ∉ cFormat fmt) (halign : p0 % 16 = 0 ∨ '!' ∉ cFormat fmt)
    (hlen : data.length < 2 ^ 31) (hp0 : p0 ≤ data.length) (he : e ≤ data.length)
    (hu : strUnpack F fmt [.string data, .integer (BitVec.ofNat 64 (p0 + 1))] =
      .ok (ps ++ [.integer (BitVec.ofNat 64 (e + 1))]))
    (hin : ∀ off len, Pushed.lstring off len ∈ ps → off + len ≤ data.length)
    (hpad : ∀ U c cs U' r d,
      UnpackReach F data ⟨initheader, p0, []⟩ (cFormat fmt) U (c :: cs) →
      unpackStep F data U c cs = .ok (U', r) → getdetails U.h U.pos c cs = .ok d →
      PadZero data U d) :
    strPack F fmt (ps.map (Pushed.toValue data)) = .ok ((data.drop p0).take (e - p0)) := by
  have hmax : data.length < LUA_MAXINTEGER := by simp only [LUA_MAXINTEGER]; omega
  have hinit : optinteger F [.string data, .integer (BitVec.ofNat 64 (p0 + 1))] 3 1 =
      .ok (BitVec.ofNat 64 (p0 + 1)) := rfl
  rw [strUnpack_eq p0 hp0 hmax hinit] at hu
  obtain ⟨U, hl, hU⟩ := map_eq_ok hu
  obtain ⟨hout, hpe⟩ := List.append_inj' hU rfl
  have hpos : U.pos = e := by
    have hlt := (unpackLoop_reach _ .init hl).pos_lt (by simp only [SIZET]; omega)
    have := congrArg BitVec.toNat (Pushed.integer.inj (List.cons.inj hpe).1)
    simp only [SIZET, BitVec.toNat_ofNat] at hlt this
    omega
  obtain ⟨P, hp, hsim⟩ := packLoop_unpackLoop hp0 hlen hin hpad (cFormat fmt)
    (Resim.init data p0 ps) .init
    (by simpa [Aligned, Nat.min_eq_left hp0, initheader] using halign) hf hl hout (hpos ▸ he)
  rw [strPack, hp, Except.map, hsim.buf, ← hpos, hsim.pos, Nat.add_sub_cancel_left]

/-- Three zero bytes read as a two-byte integer and a `z` string, `0` and the empty slice at
byte `2`, are packed back. -/
theorem str_pack_str_unpack_i2z :
    strPack ⟨fun _ => none, fun _ => 0, fun _ => 0, fun _ => 0⟩ ['i', '2', 'z']
      ([Pushed.integer 0, .lstring 2 0].map (Pushed.toValue [0, 0, 0])) = .ok [0, 0, 0] := by
  have h1 : unpackStep ⟨fun _ => none, fun _ => 0, fun _ => 0, fun _ => 0⟩ [0, 0, 0]
      ⟨initheader, 0, []⟩ 'i' ['2', 'z'] = .ok (⟨initheader, 2, [.integer 0]⟩, ['z']) := by
    set_option maxRecDepth 20000 in rfl
  have h2 : unpackStep ⟨fun _ => none, fun _ => 0, fun _ => 0, fun _ => 0⟩ [0, 0, 0]
      ⟨initheader, 2, [.integer 0]⟩ 'z' [] =
        .ok (⟨initheader, 3, [.integer 0, .lstring 2 0]⟩, []) := by
    set_option maxRecDepth 20000 in rfl
  have hu : strUnpack ⟨fun _ => none, fun _ => 0, fun _ => 0, fun _ => 0⟩ ['i', '2', 'z']
      [.string [0, 0, 0], .integer (BitVec.ofNat 64 (0 + 1))] =
        .ok ([.integer 0, .lstring 2 0] ++ [.integer (BitVec.ofNat 64 (3 + 1))]) := by
    refine (strUnpack_eq 0 (by decide) (by simp [LUA_MAXINTEGER]) ?_).trans ?_
    · rfl
    · rw [show cFormat ['i', '2', 'z'] = ['i', '2', 'z'] from rfl, unpackLoop_step h1,
        unpackLoop_step h2, unpackLoop_nil]
      rfl
  refine str_pack_str_unpack _ _ [0, 0, 0] 0 3 _ (by decide) (.inl rfl) (by decide) (by decide)
    (by decide) hu (by simp) fun U c cs U' r d _ hs hd i h1 h2 => ?_
  obtain ⟨d', -, -, hd', -, hfit, -⟩ := unpackStep_ok hs
  obtain rfl : d = d' := Except.ok.inj (hd.symm.trans hd')
  replace hfit : U.pos + d.ntoalign + d.size ≤ 3 := hfit
  have hsz := (getdetails_ok hd).2.1
  have hi : i < 3 := by
    split at h2
    · rename_i hk; rw [hk] at hsz; simp only [SizeOf] at hsz; omega
    · omega
  show (List.replicate 3 (0 : UInt8))[i]? = some PACKPADBYTE
  rw [List.getElem?_replicate, if_pos hi]
  rfl

end Hype.Lpack
