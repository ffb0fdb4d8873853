import Hype.Lpack.Basic

set_option autoImplicit false

/-! # Reading a format

`getnum`, `getnumlimit`, `getoption` and `getdetails` of `lpack.c`. A format is the list
of its characters; `str_pack` and `str_unpack` stop at the first `'\0'`, so the functions
here never see one. Where C advances `*fmt`, the model returns the rest of the list.

`getdetails` is split at the point where it starts to use `totalsize`: `optionAlign`
reads the option (for `X`, the option after it as well) and the alignment it asks for,
and `ntoalign` computes the padding. Pack and unpack read a format identically; only the
padding depends on the position, and only through the position modulo `16`
(`ntoalign_mod`).
-/

namespace Hype.Lpack

/-- `KOption`: the options for pack/unpack. -/
inductive KOption
  /-- signed integers -/
  | kint
  /-- unsigned integers -/
  | kuint
  /-- floating-point numbers -/
  | kfloat
  /-- fixed-length strings -/
  | kchar
  /-- strings with prefixed length -/
  | kstring
  /-- zero-terminated strings -/
  | kzstr
  /-- padding -/
  | kpadding
  /-- padding for alignment -/
  | kpaddalign
  /-- no-op (configuration or spaces) -/
  | knop
  deriving DecidableEq, Repr

/-- `Header`: the byte order and the maximum alignment in force. Option `!` only ever
stores a value of `getnumlimit`, so `maxalign` lies in `[1, MAXINTSIZE]`. -/
structure Header where
  islittle : Bool
  maxalign : Nat
  maxalign_pos : 1 ≤ maxalign
  maxalign_le : maxalign ≤ MAXINTSIZE
  deriving DecidableEq

/-- `initheader`. -/
def initheader : Header := ⟨nativeLittle, 1, le_refl 1, by decide⟩

/-! ## Numerals -/

/-- `digit`. -/
def digit (c : Char) : Bool := '0' ≤ c && c ≤ '9'

/-- The `do ... while` loop of `getnum`, entered with the numeral `a` read so far. -/
def getnumLoop (a : Nat) : List Char → Nat × List Char
  | c :: cs =>
      if digit c && a ≤ (MAXSIZE - 9) / 10 then getnumLoop (a * 10 + (c.toNat - '0'.toNat)) cs
      else (a, c :: cs)
  | [] => (a, [])

/-- `getnum`: the numeral at the head of `fmt`, or `df` if there is none. -/
def getnum (fmt : List Char) (df : Int) : Int × List Char :=
  match fmt with
  | c :: cs =>
      if digit c then
        let r := getnumLoop (c.toNat - '0'.toNat) cs
        ((r.1 : Int), r.2)
      else (df, c :: cs)
  | [] => (df, [])

/-- A size `getnumlimit` accepts. -/
abbrev IntSize := {sz : Nat // 1 ≤ sz ∧ sz ≤ MAXINTSIZE}

/-- `getnumlimit`: a numeral that must lie in `[1, MAXINTSIZE]`. -/
def getnumlimit (fmt : List Char) (df : Int) : Except LuaError (IntSize × List Char) :=
  match getnum fmt df with
  | (sz, fmt) =>
      if h : sz > MAXINTSIZE ∨ sz ≤ 0 then
        .error (.error s!"integral size ({sz}) out of limits [1,{MAXINTSIZE}]")
      else .ok (⟨sz.toNat, by omega⟩, fmt)

/-! ## Options -/

/-- `getoption`: classify the option `opt` read from the format, with its size; the
options `<`, `>`, `=` and `!` change the header. -/
def getoption (h : Header) (opt : Char) (fmt : List Char) :
    Except LuaError (KOption × Nat × Header × List Char) :=
  match opt with
  | 'b' => .ok (.kint, 1, h, fmt)
  | 'B' => .ok (.kuint, 1, h, fmt)
  | 'h' => .ok (.kint, 2, h, fmt)
  | 'H' => .ok (.kuint, 2, h, fmt)
  | 'l' => .ok (.kint, 8, h, fmt)
  | 'L' => .ok (.kuint, 8, h, fmt)
  | 'j' => .ok (.kint, 8, h, fmt)
  | 'J' => .ok (.kuint, 8, h, fmt)
  | 'T' => .ok (.kuint, 8, h, fmt)
  | 'f' => .ok (.kfloat, 4, h, fmt)
  | 'd' => .ok (.kfloat, 8, h, fmt)
  | 'n' => .ok (.kfloat, 8, h, fmt)
  | 'i' => (getnumlimit fmt 4).map fun (sz, fmt) => (.kint, sz.1, h, fmt)
  | 'I' => (getnumlimit fmt 4).map fun (sz, fmt) => (.kuint, sz.1, h, fmt)
  | 's' => (getnumlimit fmt 8).map fun (sz, fmt) => (.kstring, sz.1, h, fmt)
  | 'c' =>
      match getnum fmt (-1) with
      | (sz, fmt) =>
          if sz = -1 then .error (.error "missing size for format option 'c'")
          else .ok (.kchar, sz.toNat, h, fmt)
  | 'z' => .ok (.kzstr, 0, h, fmt)
  | 'x' => .ok (.kpadding, 1, h, fmt)
  | 'X' => .ok (.kpaddalign, 0, h, fmt)
  | ' ' => .ok (.knop, 0, h, fmt)
  | '<' => .ok (.knop, 0, { h with islittle := true }, fmt)
  | '>' => .ok (.knop, 0, { h with islittle := false }, fmt)
  | '=' => .ok (.knop, 0, { h with islittle := nativeLittle }, fmt)
  | '!' =>
      (getnumlimit fmt MAXALIGN).map fun (sz, fmt) =>
        (.knop, 0, { h with maxalign := sz.1, maxalign_pos := sz.2.1, maxalign_le := sz.2.2 },
          fmt)
  | _ => .error (.error s!"invalid format option '{opt}'")

/-- The first half of `getdetails`: the option, its size and the alignment it asks for.
`X` takes its alignment from the option after it, which it consumes. -/
def optionAlign (h : Header) (c : Char) (cs : List Char) :
    Except LuaError (KOption × Nat × Nat × Header × List Char) :=
  match getoption h c cs with
  | .error e => .error e
  | .ok (opt, size, h, fmt) =>
      if opt = .kpaddalign then
        match fmt with
        | [] => .error (.argerror 1 "invalid next option for option 'X'")
        | c :: cs =>
            match getoption h c cs with
            | .error e => .error e
            | .ok (next, align, h, fmt) =>
                if next = .kchar ∨ align = 0 then
                  .error (.argerror 1 "invalid next option for option 'X'")
                else .ok (opt, size, align, h, fmt)
      else .ok (opt, size, size, h, fmt)

/-- The second half of `getdetails`: the number of padding bytes that align `totalsize`
to `align`, capped by `maxalign`. -/
def ntoalign (h : Header) (opt : KOption) (align totalsize : Nat) : Except LuaError Nat :=
  if align ≤ 1 ∨ opt = .kchar then .ok 0
  else
    let align := min align h.maxalign
    if align &&& (align - 1) ≠ 0 then
      .error (.argerror 1 "format asks for alignment not power of 2")
    else .ok ((align - (totalsize &&& (align - 1))) &&& (align - 1))

/-- What `getdetails` returns: the option, its size and padding, and the header and
format after it. `align` is its alignment before the cap by `maxalign`. -/
structure Details where
  opt : KOption
  size : Nat
  align : Nat
  ntoalign : Nat
  h : Header
  rest : List Char

/-- `getdetails`. -/
def getdetails (h : Header) (totalsize : Nat) (c : Char) (cs : List Char) :
    Except LuaError Details :=
  match optionAlign h c cs with
  | .error e => .error e
  | .ok (opt, size, align, h, fmt) =>
      (ntoalign h opt align totalsize).map fun n => ⟨opt, size, align, n, h, fmt⟩

/-- The alignment an item gets: none for `c` and for alignments up to `1`, otherwise its
alignment capped by `maxalign`. -/
def itemAlign (h : Header) (opt : KOption) (align : Nat) : Nat :=
  if align ≤ 1 ∨ opt = .kchar then 1 else min align h.maxalign

/-- The alignment of the item `getdetails` read. -/
def Details.toalign (d : Details) : Nat := itemAlign d.h d.opt d.align

/-! ## What an option can be

`SizeOf opt size` is what `getoption` guarantees about the size of each kind of option. -/

/-- The sizes `getoption` gives each kind of option. -/
def SizeOf : KOption → Nat → Prop
  | .kint, n | .kuint, n | .kstring, n => 1 ≤ n ∧ n ≤ MAXINTSIZE
  | .kfloat, n => n = 4 ∨ n = 8
  | .kchar, _ => True
  | .kzstr, n | .kpaddalign, n | .knop, n => n = 0
  | .kpadding, n => n = 1

theorem getnumLoop_suffix (a : Nat) (cs : List Char) : (getnumLoop a cs).2 <:+ cs := by
  induction cs generalizing a with
  | nil => exact List.suffix_refl _
  | cons c cs ih =>
      unfold getnumLoop
      split
      · exact (ih _).trans (List.suffix_cons c cs)
      · exact List.suffix_refl _

theorem getnum_suffix (fmt : List Char) (df : Int) : (getnum fmt df).2 <:+ fmt := by
  unfold getnum
  split
  · split
    · exact (getnumLoop_suffix _ _).trans (List.suffix_cons _ _)
    · exact List.suffix_refl _
  · exact List.suffix_refl _

theorem getnumlimit_suffix {fmt r : List Char} {df : Int} {sz : IntSize}
    (h : getnumlimit fmt df = .ok (sz, r)) : r <:+ fmt := by
  unfold getnumlimit at h
  split at h
  split at h
  · cases h
  · cases h; rename_i heq; simpa [heq] using getnum_suffix fmt df

theorem digit_sub_le {c : Char} (h : digit c = true) : c.toNat - '0'.toNat ≤ 9 := by
  simp only [digit, Bool.and_eq_true, decide_eq_true_eq] at h
  obtain ⟨h1, h2⟩ := h
  have : c.toNat ≤ '9'.toNat := h2
  have : '9'.toNat = 57 := rfl
  have : '0'.toNat = 48 := rfl
  omega

/-- One multiply-add of `getnum`'s loop: `a*10 + (c - '0')`. -/
def numStep (a : Nat) (c : Char) : Nat := a * 10 + (c.toNat - '0'.toNat)

/-- The value of a numeral: its digits read from the left, as `getnum` accumulates them. -/
def numeral (l : List Char) : Nat := l.foldl numStep 0

/-- The value after one more digit is one more multiply-add. -/
theorem numeral_take_succ {l : List Char} {j : Nat} {c : Char} (h : l[j]? = some c) :
    numeral (l.take (j + 1)) = numeral (l.take j) * 10 + (c.toNat - '0'.toNat) := by
  rw [List.take_succ, h, numeral, List.foldl_append]
  rfl

/-- The loop of `getnum`, entered with `a ≤ MAXSIZE`, reads a run of `k` digits. The test
`a <= (MAXSIZE - 9) / 10` held before each of its multiply-adds, every value of `a` stays
within `MAXSIZE`, and it stops at the end, at a character that is not a digit, or once the
test fails. -/
theorem getnumLoop_spec (cs : List Char) :
    ∀ a, a ≤ MAXSIZE → ∃ k, k ≤ cs.length ∧ (cs.take k).all digit = true ∧
      getnumLoop a cs = ((cs.take k).foldl numStep a, cs.drop k) ∧
      (∀ j < k, (cs.take j).foldl numStep a ≤ (MAXSIZE - 9) / 10) ∧
      (∀ j ≤ k, (cs.take j).foldl numStep a ≤ MAXSIZE) ∧
      ∀ c ∈ (cs.drop k).head?,
        ¬(digit c = true ∧ (cs.take k).foldl numStep a ≤ (MAXSIZE - 9) / 10) := by
  induction cs with
  | nil =>
      intro a ha
      refine ⟨0, le_refl _, rfl, rfl, fun j hj => absurd hj (Nat.not_lt_zero j), ?_, nofun⟩
      intro j hj
      rw [Nat.le_zero.mp hj]
      exact ha
  | cons c cs ih =>
      intro a ha
      by_cases hc : digit c && a ≤ (MAXSIZE - 9) / 10
      · simp only [Bool.and_eq_true, decide_eq_true_eq] at hc
        have hd := digit_sub_le hc.1
        obtain ⟨k, hk, hall, heq, hguard, hval, hstop⟩ := ih (numStep a c)
          (by simp only [numStep, MAXSIZE] at hc ⊢; omega)
        refine ⟨k + 1, by simp; omega, by simp [hc.1, hall], ?_, ?_, ?_, by simpa using hstop⟩
        · rw [getnumLoop, if_pos (by simp [hc.1, hc.2])]
          simpa using heq
        · intro j hj
          cases j with
          | zero => exact hc.2
          | succ j => simpa using hguard j (by omega)
        · intro j hj
          cases j with
          | zero => exact ha
          | succ j => simpa using hval j (by omega)
      · refine ⟨0, Nat.zero_le _, rfl, ?_, fun j hj => absurd hj (Nat.not_lt_zero j), ?_, ?_⟩
        · rw [getnumLoop, if_neg hc]
          rfl
        · intro j hj
          rw [Nat.le_zero.mp hj]
          exact ha
        · intro c' hc' hd'
          obtain rfl : c = c' := Option.some.inj hc'
          have ha' : a ≤ (MAXSIZE - 9) / 10 := by simpa using hd'.2
          exact hc (by simp [hd'.1, ha'])

/-- The numerals of a format. Where no digit starts the format, `getnum` reads nothing
and returns the default. Otherwise its loop reads a non-empty run of `k` digits and
returns their value, and the format after it is what follows them. Before each
multiply-add `a <= (MAXSIZE - 9) / 10` holds (`a = 0` before the first, and the loop's
test before the others), so every `a * 10 + digit` it computes is at most `MAXSIZE`
(`INT_MAX`), and so is the value it returns; it stops at the first character that is not
a digit, or once the test fails. `getnumlimit` returns that value when it lies in
`[1, MAXINTSIZE]`, and raises otherwise. -/
theorem getnum_bounded (fmt : List Char) (df : Int) :
    ((∀ c ∈ fmt.head?, digit c = false) → getnum fmt df = (df, fmt)) ∧
      (∀ c ∈ fmt.head?, digit c = true →
        ∃ k, 1 ≤ k ∧ k ≤ fmt.length ∧ (fmt.take k).all digit = true ∧
          getnum fmt df = ((numeral (fmt.take k) : Int), fmt.drop k) ∧
          (∀ j < k, numeral (fmt.take j) ≤ (MAXSIZE - 9) / 10) ∧
          (∀ j < k, ∀ d, fmt[j]? = some d →
            numeral (fmt.take j) * 10 + (d.toNat - '0'.toNat) ≤ MAXSIZE) ∧
          numeral (fmt.take k) ≤ MAXSIZE ∧
          ∀ d ∈ (fmt.drop k).head?,
            ¬(digit d = true ∧ numeral (fmt.take k) ≤ (MAXSIZE - 9) / 10)) ∧
      ((∃ sz r, getnumlimit fmt df = .ok (sz, r) ∧ (sz.1 : Int) = (getnum fmt df).1 ∧
          1 ≤ sz.1 ∧ sz.1 ≤ MAXINTSIZE) ∨
        getnumlimit fmt df =
          .error (.error s!"integral size ({(getnum fmt df).1}) out of limits [1,{MAXINTSIZE}]")) := by
  refine ⟨fun h => ?_, fun c hc hd => ?_, ?_⟩
  · cases fmt with
    | nil => rfl
    | cons c cs =>
        have : digit c = false := h c rfl
        simp [getnum, this]
  · cases fmt with
    | nil => cases hc
    | cons c' cs =>
        obtain rfl : c' = c := Option.some.inj hc
        obtain ⟨k, hk, hall, heq, hguard, hval, hstop⟩ := getnumLoop_spec cs (c'.toNat - '0'.toNat)
          (by have := digit_sub_le hd; simp only [MAXSIZE]; omega)
        -- the value after `j + 1` digits is the loop's after `j`
        have hnum : ∀ j, numeral ((c' :: cs).take (j + 1)) =
            (cs.take j).foldl numStep (c'.toNat - '0'.toNat) := fun j => by
          simp only [numeral, List.take_succ_cons, List.foldl_cons, numStep, Nat.zero_mul,
            Nat.zero_add]
        refine ⟨k + 1, by omega, by simp; omega, by simp [hd, hall], ?_, ?_, ?_, ?_, ?_⟩
        · simp only [getnum, hd, ite_true, heq, hnum, List.drop_succ_cons]
        · intro j hj
          cases j with
          | zero => simp [numeral, MAXSIZE]
          | succ j =>
              rw [hnum]
              exact hguard j (by omega)
        · intro j hj d hjd
          rw [← numeral_take_succ hjd, hnum]
          exact hval j (by omega)
        · rw [hnum]
          exact hval k (le_refl k)
        · rw [hnum]
          simpa using hstop
  · unfold getnumlimit
    split
    rename_i sz r heq
    rw [heq]
    split
    · exact .inr rfl
    · rename_i hsz
      simp only [MAXINTSIZE] at hsz ⊢
      exact .inl ⟨_, _, rfl, by show ((sz.toNat : Nat) : Int) = sz; omega,
        by show 1 ≤ sz.toNat; omega, by show sz.toNat ≤ 16; omega⟩

/-- Near `INT_MAX` the test stops the loop a digit early: of `2147483647` it reads
`214748364`, which is above `(MAXSIZE - 9) / 10`, and leaves the `7`. -/
example : getnum "2147483647".toList 0 = (214748364, ['7']) := by rfl

/-- The inversion lemma of `getoption`: it consumes part of the format, gives the option
its size, changes `maxalign` only for `!`, and reads a float of `8` bytes unless the option
is `f`. -/
theorem getoption_ok {h h' : Header} {c : Char} {cs r : List Char} {o : KOption} {s : Nat}
    (hg : getoption h c cs = .ok (o, s, h', r)) :
    r <:+ cs ∧ SizeOf o s ∧ (h'.maxalign = h.maxalign ∨ c = '!' ∧ o = .knop) ∧
      (o = .kfloat → c = 'f' ∨ s = 8) := by
  unfold getoption at hg
  split at hg
  case h_16 =>
    split at hg
    rename_i heq
    split at hg
    · cases hg
    · simp only [Except.ok.injEq, Prod.mk.injEq] at hg
      obtain ⟨rfl, rfl, rfl, rfl⟩ := hg
      simpa [SizeOf, heq] using getnum_suffix cs (-1)
  all_goals first
    | (simp only [Except.ok.injEq, Prod.mk.injEq] at hg
       obtain ⟨rfl, rfl, rfl, rfl⟩ := hg
       simp [SizeOf, MAXINTSIZE])
    | (obtain ⟨⟨sz, r'⟩, hl, he⟩ := map_eq_ok hg
       simp only [Prod.mk.injEq] at he
       obtain ⟨rfl, rfl, rfl, rfl⟩ := he
       simp [SizeOf, getnumlimit_suffix hl, sz.2.1, sz.2.2])
    | cases hg

/-- The inversion lemma of `optionAlign`. An `X` takes the alignment of the option after
it; that option cannot be a `!`, whose size is `0`. -/
theorem optionAlign_ok {h h' : Header} {c : Char} {cs r : List Char} {o : KOption}
    {s a : Nat} (hg : optionAlign h c cs = .ok (o, s, a, h', r)) :
    r <:+ cs ∧ SizeOf o s ∧ (h'.maxalign = h.maxalign ∨ c = '!' ∧ o = .knop) ∧
      (o = .kfloat → c = 'f' ∨ s = 8) ∧ (o ≠ .kpaddalign → a = s) := by
  unfold optionAlign at hg
  split at hg
  · cases hg
  rename_i o₁ s₁ h₁ r₁ h1
  obtain ⟨hr₁, hs₁, hm₁, hf₁⟩ := getoption_ok h1
  split at hg
  · subst o₁
    split at hg
    · cases hg
    rename_i c₂ cs₂
    split at hg
    · cases hg
    rename_i o₂ a₂ h₂ r₂ h2
    obtain ⟨hr₂, hs₂, hm₂, -⟩ := getoption_ok h2
    split at hg
    · cases hg
    simp only [Except.ok.injEq, Prod.mk.injEq] at hg
    obtain ⟨rfl, rfl, rfl, rfl, rfl⟩ := hg
    refine ⟨hr₂.trans ((List.suffix_cons c₂ cs₂).trans hr₁), hs₁, ?_, by simp, by simp⟩
    rcases hm₂ with hm₂ | ⟨-, rfl⟩
    · rcases hm₁ with hm₁ | ⟨-, hk⟩
      · exact .inl (hm₂.trans hm₁)
      · cases hk
    · simp only [SizeOf] at hs₂; omega
  · simp only [Except.ok.injEq, Prod.mk.injEq] at hg
    obtain ⟨rfl, rfl, rfl, rfl, rfl⟩ := hg
    exact ⟨hr₁, hs₁, hm₁, hf₁, fun _ => rfl⟩

/-! ## Padding -/

theorem pow_two_of_land_sub_one {a : Nat} (h1 : 1 ≤ a) (h16 : a ≤ 16)
    (h : a &&& (a - 1) = 0) : ∃ k, a = 2 ^ k := by
  have key : ∀ x < 17, 1 ≤ x → x &&& (x - 1) = 0 → ∃ k < 5, x = 2 ^ k := by decide
  obtain ⟨k, -, hk⟩ := key a (by omega) h1 h
  exact ⟨k, hk⟩

/-- The bit trick of `getdetails` for a power of two: fewer than `2 ^ k` padding bytes, and
they bring `t` to a multiple of `2 ^ k`. -/
theorem padding_spec (t k : Nat) :
    (2 ^ k - (t &&& (2 ^ k - 1))) &&& (2 ^ k - 1) < 2 ^ k ∧
      (t + ((2 ^ k - (t &&& (2 ^ k - 1))) &&& (2 ^ k - 1))) % 2 ^ k = 0 := by
  rw [Nat.and_pow_two_sub_one_eq_mod, Nat.and_pow_two_sub_one_eq_mod]
  have hp : 0 < 2 ^ k := Nat.two_pow_pos k
  refine ⟨Nat.mod_lt _ hp, ?_⟩
  rw [Nat.add_mod, Nat.mod_mod]
  have ht := Nat.mod_lt t hp
  rcases Nat.eq_zero_or_pos (t % 2 ^ k) with h0 | hpos
  · simp [h0]
  · rw [Nat.mod_eq_of_lt (by omega : 2 ^ k - t % 2 ^ k < 2 ^ k),
      show t % 2 ^ k + (2 ^ k - t % 2 ^ k) = 2 ^ k by omega, Nat.mod_self]

/-- The padding `getdetails` computes is shorter than the item's alignment and aligns
`totalsize` to it. -/
theorem ntoalign_spec {h : Header} {opt : KOption} {align t n : Nat}
    (hn : ntoalign h opt align t = .ok n) :
    n < itemAlign h opt align ∧ (t + n) % itemAlign h opt align = 0 := by
  unfold ntoalign at hn
  unfold itemAlign
  by_cases hno : align ≤ 1 ∨ opt = .kchar
  · simp only [hno, ite_true, Except.ok.injEq] at hn ⊢
    subst hn
    omega
  simp only [hno, ite_false] at hn ⊢
  by_cases hpow : min align h.maxalign &&& (min align h.maxalign - 1) = 0
  · simp only [hpow, ne_eq, not_true_eq_false, ite_false, Except.ok.injEq] at hn
    subst hn
    obtain ⟨k, hk⟩ := pow_two_of_land_sub_one (le_min (by omega) h.maxalign_pos)
      ((min_le_right _ _).trans h.maxalign_le) hpow
    rw [hk]
    exact padding_spec t k
  · simp [hpow] at hn

theorem land_mod_sixteen (t m : Nat) (hm : m < 16) : t &&& m = (t % 16) &&& m := by
  apply Nat.eq_of_testBit_eq
  intro i
  have h16 : (16 : Nat) = 2 ^ 4 := rfl
  rw [Nat.testBit_and, Nat.testBit_and, h16, Nat.testBit_mod_two_pow]
  by_cases hi : i < 4
  · simp [hi]
  · have : m.testBit i = false :=
      Nat.testBit_lt_two_pow (lt_of_lt_of_le hm (h16 ▸ Nat.pow_le_pow_right (by omega) (by omega)))
    simp [this]

/-- The padding depends on the position only modulo `16`. -/
theorem ntoalign_mod (h : Header) (opt : KOption) (align t : Nat) :
    ntoalign h opt align t = ntoalign h opt align (t % 16) := by
  have hle : min align h.maxalign - 1 < 16 := by
    have := h.maxalign_le; simp only [MAXINTSIZE] at this; omega
  simp only [ntoalign, land_mod_sixteen t _ hle]

/-- With `maxalign` at `1` nothing is padded, wherever the item starts. -/
theorem ntoalign_maxalign_one {h : Header} (hm : h.maxalign = 1) (opt : KOption)
    (align t t' : Nat) : ntoalign h opt align t = ntoalign h opt align t' := by
  have h1 : min align h.maxalign - 1 = 0 := by omega
  simp only [ntoalign, h1, Nat.and_zero]

/-! ## `getdetails` -/

/-- The inversion lemma of `getdetails`. -/
theorem getdetails_ok {h : Header} {t : Nat} {c : Char} {cs : List Char} {d : Details}
    (hd : getdetails h t c cs = .ok d) :
    d.rest <:+ cs ∧ SizeOf d.opt d.size ∧
      (d.h.maxalign = h.maxalign ∨ c = '!' ∧ d.opt = .knop) ∧
      (d.opt = .kfloat → c = 'f' ∨ d.size = 8) ∧
      d.ntoalign < d.toalign ∧ (t + d.ntoalign) % d.toalign = 0 := by
  unfold getdetails at hd
  split at hd
  · cases hd
  rename_i o s a h' r ho
  obtain ⟨n, hn, rfl⟩ := map_eq_ok hd
  obtain ⟨hr, hs, hm, hf, -⟩ := optionAlign_ok ho
  exact ⟨hr, hs, hm, hf, ntoalign_spec hn⟩

theorem getdetails_rest_length {h : Header} {t : Nat} {c : Char} {cs : List Char}
    {d : Details} (hd : getdetails h t c cs = .ok d) : d.rest.length < (c :: cs).length :=
  Nat.lt_succ_of_le (getdetails_ok hd).1.length_le

theorem getdetails_mod (h : Header) (t : Nat) (c : Char) (cs : List Char) :
    getdetails h t c cs = getdetails h (t % 16) c cs := by
  unfold getdetails
  split
  · rfl
  · rw [ntoalign_mod]

/-- Under `maxalign = 1` the position plays no part in `getdetails`. -/
theorem getdetails_maxalign_one {h : Header} (hm : h.maxalign = 1) (t t' : Nat) (c : Char)
    (cs : List Char) : getdetails h t c cs = getdetails h t' c cs := by
  unfold getdetails
  split
  · rfl
  rename_i o s a h' r ho
  obtain ⟨-, hs, hm', -, ha⟩ := optionAlign_ok ho
  rcases hm' with hm' | ⟨-, rfl⟩
  · rw [ntoalign_maxalign_one (hm'.trans hm)]
  · have : a = 0 := by simp only [SizeOf] at hs; simp [ha, hs]
    simp [ntoalign, this]

end Hype.Lpack
