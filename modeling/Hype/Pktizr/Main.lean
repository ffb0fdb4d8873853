import Hype.Basic

set_option autoImplicit false

/-! # Options and addresses in `main`

`main` reads the options `getopt_long` returns, then sets up the addresses the scan uses:
the gateway's, from `--gateway-addr` or the default route, and the local one, from
`--local-addr` or the interface. The libc and system calls it makes (`strtoull`,
`inet_addr`, the routing table, the interface lookups) are a `MainEnv`.

`struct pktizr_args` comes from `malloc`: a field `main` never writes holds no value,
which the model says with `Option`.

`optSet` says what each option writes when its argument is accepted; a run of the option
loop that gets through is the fold of it (`optLoop_ok`), so every field ends with the value
of the last option that sets it (`mainSetup_fields`). The numeric options share
`parseNum`, each with its own message, except that `-c` reuses the message of `-w`
(`count_fails_as_wait`).
-/

namespace Hype.Pktizr

/-- The libc and system calls `main` depends on. -/
structure MainEnv where
  /-- `strtoull(s, &end, 10)`, and whether `*end == '\0'` -/
  strtoull : String → UInt64 × Bool
  /-- `ntohl(inet_addr(s))` -/
  inetAddr : String → UInt32
  /-- whether `validate_optlist` accepts a list -/
  validOptlist : String → Bool
  /-- `routes_get_default`: the gateway (after `ntohl`) and the interface, or failure -/
  route : Option (UInt32 × String)
  /-- whether `resolve_ifname_to_mac` succeeds -/
  ifMac : Bool
  /-- `resolve_ifname_to_ip` -/
  ifIp : Option UInt32

/-- The fields of `struct pktizr_args` that `main` sets before the threads start. -/
structure MainArgs where
  script : Option String
  /-- the text of the port list `range_parse_ports` reads -/
  ports : String
  rate : UInt64
  seed : UInt64
  wait : UInt64
  count : UInt64
  quiet : Bool
  localAddr : Option UInt32
  gatewayAddr : Option UInt32

/-- The fields as `main` sets them before the option loop; `seed` is `get_entropy()`. -/
def MainArgs.init (seed : UInt64) : MainArgs :=
  ⟨none, "1", 100, seed, 5, 1, false, none, none⟩

/-- How `main` stops before the scan. -/
inductive MainExit
  /-- `help(); return 0;` -/
  | help
  /-- `fail_printf(msg)` -/
  | fail (msg : String)
  /-- `validate_optlist(name, arg)` rejected the list -/
  | optlist (name arg : String)
  deriving DecidableEq

/-- The option loop's state: the fields, and the locals `local_addr` and `gateway_addr`. -/
structure OptState where
  args : MainArgs
  localAddr : Option String
  gatewayAddr : Option String

/-- A numeric option: `strtoull` and the check of its end. -/
def parseNum (E : MainEnv) (a msg : String) : Except MainExit UInt64 :=
  if (E.strtoull a).2 then .ok (E.strtoull a).1 else .error (.fail msg)

/-- One iteration of the option loop: the `switch (rc)` on the option `getopt_long`
returned, with its argument. -/
def optStep (E : MainEnv) (st : OptState) (o : Char × String) : Except MainExit OptState :=
  let (c, a) := o
  if c = 'S' then .ok { st with args := { st.args with script := some a } }
  else if c = 'p' then
    if E.validOptlist a then .ok { st with args := { st.args with ports := a } }
    else .error (.optlist "--ports" a)
  else if c = 'r' then
    (parseNum E a "Invalid rate value").map fun v => { st with args := { st.args with rate := v } }
  else if c = 's' then
    (parseNum E a "Invalid seed value").map fun v => { st with args := { st.args with seed := v } }
  else if c = 'w' then
    (parseNum E a "Invalid wait value").map fun v => { st with args := { st.args with wait := v } }
  else if c = 'c' then
    (parseNum E a "Invalid wait value").map fun v => { st with args := { st.args with count := v } }
  else if c = 'l' then .ok { st with localAddr := some a }
  else if c = 'g' then .ok { st with gatewayAddr := some a }
  else if c = 'q' then .ok { st with args := { st.args with quiet := true } }
  else if c = '?' ∨ c = 'h' then .error .help
  else .ok st

/-- What an option sets when `main` accepts its argument: each option writes its own
field, `-q` sets `quiet`, and the other options leave the state as it is. -/
def optSet (E : MainEnv) (st : OptState) (o : Char × String) : OptState :=
  ⟨{ script := if o.1 = 'S' then some o.2 else st.args.script
     ports := if o.1 = 'p' then o.2 else st.args.ports
     rate := if o.1 = 'r' then (E.strtoull o.2).1 else st.args.rate
     seed := if o.1 = 's' then (E.strtoull o.2).1 else st.args.seed
     wait := if o.1 = 'w' then (E.strtoull o.2).1 else st.args.wait
     count := if o.1 = 'c' then (E.strtoull o.2).1 else st.args.count
     quiet := o.1 = 'q' || st.args.quiet
     localAddr := st.args.localAddr
     gatewayAddr := st.args.gatewayAddr },
    if o.1 = 'l' then some o.2 else st.localAddr,
    if o.1 = 'g' then some o.2 else st.gatewayAddr⟩

/-- The address setup after the option loop, from `struct route` to the lookup of the
local address. `gate` is the default route's gateway. -/
def setupAddrs (E : MainEnv) (gate : UInt32) (st : OptState) : Except MainExit MainArgs :=
  let args := match st.gatewayAddr with
    | some g => { st.args with localAddr := some (E.inetAddr g) }
    | none => { st.args with gatewayAddr := some gate }
  if !E.ifMac then .error (.fail "Error resolving local MAC")
  else
    match st.localAddr with
    | some l => .ok { args with localAddr := some (E.inetAddr l) }
    | none =>
        match E.ifIp with
        | some ip => .ok { args with localAddr := some ip }
        | none => .error (.fail "Error resolving local IP")

/-- `main` up to `netdev_open`: the option loop, then the address setup. -/
def mainSetup (E : MainEnv) (seed : UInt64) (opts : List (Char × String)) :
    Except MainExit MainArgs := do
  let st ← opts.foldlM (optStep E) ⟨MainArgs.init seed, none, none⟩
  if st.args.script.isNone then throw (.fail "No script provided")
  let some (gate, _) := E.route | throw (.fail "Error getting routes")
  setupAddrs E gate st

/-! ## The addresses -/

/-- The argument of the last option `c` of a command line. -/
def lastArg (c : Char) (opts : List (Char × String)) : Option String :=
  (opts.filter fun o => o.1 = c).getLast?.map (·.2)

theorem lastArg_append_single (c : Char) (opts : List (Char × String)) (o : Char × String) :
    lastArg c (opts ++ [o]) = if o.1 = c then some o.2 else lastArg c opts := by
  unfold lastArg
  by_cases h : o.1 = c <;> simp [h, List.filter_append]

/-- A case split on an `if` whose branches can fail. -/
theorem ite_ok {ε α : Type} {p : Prop} [Decidable p] {a b : Except ε α} {Q : α → Prop}
    (ha : p → ∀ x, a = .ok x → Q x) (hb : ¬p → ∀ x, b = .ok x → Q x) :
    ∀ x, (if p then a else b) = .ok x → Q x := by
  split
  · exact ha ‹_›
  · exact hb ‹_›

theorem parseNum_ok {E : MainEnv} {a msg : String} {v : UInt64} (h : parseNum E a msg = .ok v) :
    v = (E.strtoull a).1 := by
  unfold parseNum at h
  split at h
  · cases h; rfl
  · cases h

/-- A step of the option loop that goes through sets what `optSet` says. -/
theorem optStep_ok {E : MainEnv} {st st' : OptState} {o : Char × String}
    (h : optStep E st o = .ok st') : st' = optSet E st o := by
  obtain ⟨c, a⟩ := o
  unfold optStep at h
  dsimp only at h
  revert h
  revert st'
  repeat' (apply ite_ok <;> intro hc)
  all_goals
    intro x hx
    first
    | (cases hx; subst_vars; rfl)
    | (obtain ⟨v, hv, rfl⟩ := map_eq_ok hx; rw [parseNum_ok hv]; subst_vars; rfl)
    | (cases hx; simp [optSet, *])
    | cases hx

/-- The option loop, when it gets through, is the fold of what each option sets. -/
theorem optLoop_ok {E : MainEnv} :
    ∀ (opts : List (Char × String)) (st st' : OptState),
      opts.foldlM (optStep E) st = .ok st' → st' = opts.foldl (optSet E) st
  | [], _, _, h => by cases h; rfl
  | o :: opts, st, st', h => by
      cases ho : optStep E st o with
      | error e => rw [List.foldlM_cons, ho] at h; cases h
      | ok st₁ =>
          rw [List.foldlM_cons, ho] at h
          rw [List.foldl_cons, ← optStep_ok ho]
          exact optLoop_ok opts st₁ st' h

/-- What the options leave in the fields: the value of the last option that sets each, or
the default `main` set before the loop; the address fields are not written. -/
theorem foldl_optSet (E : MainEnv) (seed : UInt64) (opts : List (Char × String)) :
    let st := opts.foldl (optSet E) ⟨MainArgs.init seed, none, none⟩
    st.args.script = lastArg 'S' opts ∧ st.args.ports = (lastArg 'p' opts).getD "1" ∧
      st.args.rate = ((lastArg 'r' opts).map fun a => (E.strtoull a).1).getD 100 ∧
      st.args.seed = ((lastArg 's' opts).map fun a => (E.strtoull a).1).getD seed ∧
      st.args.wait = ((lastArg 'w' opts).map fun a => (E.strtoull a).1).getD 5 ∧
      st.args.count = ((lastArg 'c' opts).map fun a => (E.strtoull a).1).getD 1 ∧
      st.args.quiet = opts.any (fun o => o.1 = 'q') ∧
      st.localAddr = lastArg 'l' opts ∧ st.gatewayAddr = lastArg 'g' opts ∧
      st.args.localAddr = none ∧ st.args.gatewayAddr = none := by
  induction opts using List.reverseRecOn with
  | nil => exact ⟨rfl, rfl, rfl, rfl, rfl, rfl, rfl, rfl, rfl, rfl, rfl⟩
  | append_singleton opts o ih =>
      simp only [List.foldl_append, List.foldl_cons, List.foldl_nil, lastArg_append_single,
        List.any_append, List.any_cons, List.any_nil, Bool.or_false]
      generalize List.foldl (optSet E) _ opts = st at ih ⊢
      obtain ⟨h1, h2, h3, h4, h5, h6, h7, h8, h9, h10, h11⟩ := ih
      refine ⟨?_, ?_, ?_, ?_, ?_, ?_, ?_, ?_, ?_, h10, h11⟩ <;> simp only [optSet]
      all_goals (try split_ifs) <;> simp [*, Bool.or_comm]

/-- The inversion lemma of `mainSetup`. -/
theorem mainSetup_ok {E : MainEnv} {seed : UInt64} {opts : List (Char × String)}
    {a : MainArgs} (h : mainSetup E seed opts = .ok a) :
    ∃ st gate ifname, opts.foldlM (optStep E) ⟨MainArgs.init seed, none, none⟩ = .ok st ∧
      st.args.script.isSome ∧ E.route = some (gate, ifname) ∧ setupAddrs E gate st = .ok a := by
  unfold mainSetup at h
  cases hf : opts.foldlM (optStep E) ⟨MainArgs.init seed, none, none⟩ with
  | error e => simp [hf, bind, Except.bind] at h
  | ok st =>
      simp only [hf, bind, Except.bind, pure, Except.pure] at h
      split at h
      · cases h
      rename_i hs
      rcases hr : E.route with _ | ⟨gate, ifname⟩
      · simp [hr] at h
      · simp only [hr] at h
        exact ⟨st, gate, ifname, rfl, Option.isSome_iff_ne_none.mpr (by simpa using hs), rfl, h⟩

/-- What `setupAddrs` writes in the address fields; it writes no other field. -/
theorem setupAddrs_ok {E : MainEnv} {gate : UInt32} {st : OptState} {a : MainArgs}
    (h : setupAddrs E gate st = .ok a) :
    a.gatewayAddr = (if st.gatewayAddr.isSome then st.args.gatewayAddr else some gate) ∧
      a.localAddr = (match st.localAddr with
        | some l => some (E.inetAddr l)
        | none => E.ifIp) ∧
      a = { st.args with localAddr := a.localAddr, gatewayAddr := a.gatewayAddr } := by
  unfold setupAddrs at h
  rcases hl : st.localAddr with _ | l <;> rcases hg : st.gatewayAddr with _ | g <;>
    rcases hi : E.ifIp with _ | ip <;> cases hm : E.ifMac <;>
    simp only [hl, hg, hi, hm, Bool.not_false, Bool.not_true, ite_true, ite_false,
      Except.ok.injEq, reduceCtorEq] at h <;> subst h <;> simp [hg]

/-- The addresses after the setup, when `main` gets through it: the gateway's is the
default route's when there is no `-g`, and is never written when there is one; the local
address is that of the last `-l`, or the interface's. -/
theorem mainSetup_addrs {E : MainEnv} {seed : UInt64} {opts : List (Char × String)}
    {a : MainArgs} (h : mainSetup E seed opts = .ok a) :
    (∃ gate ifname, E.route = some (gate, ifname) ∧
      a.gatewayAddr = if (lastArg 'g' opts).isSome then none else some gate) ∧
      a.localAddr = match lastArg 'l' opts with
        | some l => some (E.inetAddr l)
        | none => E.ifIp := by
  obtain ⟨st, gate, ifname, hf, -, hr, hs⟩ := mainSetup_ok h
  obtain ⟨hga, hla, -⟩ := setupAddrs_ok hs
  rw [optLoop_ok opts _ st hf] at hga hla
  obtain ⟨-, -, -, -, -, -, -, hl, hg, -, hag⟩ := foldl_optSet E seed opts
  rw [hl] at hla
  rw [hg, hag] at hga
  exact ⟨⟨gate, ifname, hr, hga⟩, hla⟩

/-- `--local-addr` on a command line `main` accepts: the local address is that option's. -/
theorem mainSetup_addrs_local :
    mainSetup ⟨fun _ => (0, true), fun _ => 7, fun _ => true, some (1, "eth0"), true, some 9⟩ 0
        [('S', "scan.lua"), ('l', "10.0.0.2")] =
        .ok ⟨some "scan.lua", "1", 100, 0, 5, 1, false, some 7, some 1⟩ ∧
      (⟨some "scan.lua", "1", 100, 0, 5, 1, false, some 7, some 1⟩ : MainArgs).localAddr =
        some 7 := by
  have h : mainSetup ⟨fun _ => (0, true), fun _ => 7, fun _ => true, some (1, "eth0"), true,
      some 9⟩ 0 [('S', "scan.lua"), ('l', "10.0.0.2")] =
      .ok ⟨some "scan.lua", "1", 100, 0, 5, 1, false, some 7, some 1⟩ := rfl
  exact ⟨h, (mainSetup_addrs h).2⟩

/-- The fields `main` hands to the threads, when it gets through the setup: a script was
given, and each field holds the value of the last option that sets it, or the default
`main` set before the option loop. -/
theorem mainSetup_fields {E : MainEnv} {seed : UInt64} {opts : List (Char × String)}
    {a : MainArgs} (h : mainSetup E seed opts = .ok a) :
    a.script.isSome ∧ a.script = lastArg 'S' opts ∧ a.ports = (lastArg 'p' opts).getD "1" ∧
      a.rate = ((lastArg 'r' opts).map fun v => (E.strtoull v).1).getD 100 ∧
      a.seed = ((lastArg 's' opts).map fun v => (E.strtoull v).1).getD seed ∧
      a.wait = ((lastArg 'w' opts).map fun v => (E.strtoull v).1).getD 5 ∧
      a.count = ((lastArg 'c' opts).map fun v => (E.strtoull v).1).getD 1 ∧
      a.quiet = opts.any (fun o => o.1 = 'q') := by
  obtain ⟨st, gate, ifname, hf, hsc, -, hs⟩ := mainSetup_ok h
  obtain ⟨-, -, ha⟩ := setupAddrs_ok hs
  have hst := optLoop_ok opts _ st hf
  obtain ⟨h1, h2, h3, h4, h5, h6, h7, -⟩ := foldl_optSet E seed opts
  rw [← hst] at h1 h2 h3 h4 h5 h6 h7
  rw [ha]
  exact ⟨hsc, h1, h2, h3, h4, h5, h6, h7⟩

/-- A script and a count: the fields as the options set them. -/
theorem mainSetup_fields_count :
    mainSetup ⟨fun _ => (3, true), fun _ => 7, fun _ => true, some (1, "eth0"), true, some 9⟩ 0
        [('S', "scan.lua"), ('c', "3")] =
        .ok ⟨some "scan.lua", "1", 100, 0, 5, 3, false, some 9, some 1⟩ ∧
      (⟨some "scan.lua", "1", 100, 0, 5, 3, false, some 9, some 1⟩ : MainArgs).count = 3 := by
  have h : mainSetup ⟨fun _ => (3, true), fun _ => 7, fun _ => true, some (1, "eth0"), true,
      some 9⟩ 0 [('S', "scan.lua"), ('c', "3")] =
      .ok ⟨some "scan.lua", "1", 100, 0, 5, 3, false, some 9, some 1⟩ := rfl
  exact ⟨h, (mainSetup_fields h).2.2.2.2.2.2.1⟩

/-- `-c` reports a number it cannot read with the message of `-w`: a command line with a
bad `--count` fails exactly as the one with `--wait` in its place. -/
theorem count_fails_as_wait (E : MainEnv) (seed : UInt64) (pre post : List (Char × String))
    (a : String) (hbad : (E.strtoull a).2 = false) :
    mainSetup E seed (pre ++ ('c', a) :: post) = mainSetup E seed (pre ++ ('w', a) :: post) := by
  have hcw : ∀ st, optStep E st ('c', a) = optStep E st ('w', a) := fun st => by
    simp [optStep, parseNum, hbad, Except.map]
  unfold mainSetup
  simp only [List.foldlM_append, List.foldlM_cons, hcw]

/-- `--gateway-addr` without `--local-addr`: `main` accepts the command line, but the
address it reads lands in `local_addr`, where the interface's address then replaces it,
and `gateway_addr` is never written. -/
theorem gateway_addr_unset (strtoull : String → UInt64 × Bool) (inetAddr : String → UInt32)
    (validOptlist : String → Bool) (gate ip : UInt32) (ifname : String) (seed : UInt64) :
    (mainSetup ⟨strtoull, inetAddr, validOptlist, some (gate, ifname), true, some ip⟩ seed
        [('S', "scan.lua"), ('g', "10.0.0.1")]).map (fun a => (a.localAddr, a.gatewayAddr)) =
      .ok (some ip, none) := rfl

end Hype.Pktizr
