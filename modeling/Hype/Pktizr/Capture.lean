import Mathlib.Data.List.Basic

set_option autoImplicit false

/-! # The capture clients: `recv_cb` and `resolv_addr_to_mac`

Two loops read frames from the raw device: the receiver thread `recv_cb`, and the ARP
resolver `resolv_addr_to_mac` that `main` runs before the threads start. Both are modelled
as functions from the sequence of what the environment returns at each iteration (the
frame `capture` gives, the result of `pkt_unpack`, the script's status, the clock) to the
trace of calls they make.

The device's contract is a small state machine over that trace (`devStep`): a frame
`capture` returns is held until `release`, and the client may neither capture again nor
return while it holds one. The receiver's upcalls follow a second one (`chainStep`): the
chain handed to `script_recv` is freed right after the upcall.

The resolver's result has an abstract statement too (`resolvResult`): the first iteration
that is past the timeout or holds the ARP reply it waits for decides it.
-/

namespace Hype.Pktizr

section Events

variable {Frame Chain : Type}

/-- What a capture client does, in order. -/
inductive Ev (Frame Chain : Type)
  /-- `netdev->capture` returned a frame, or `NULL` -/
  | capture (r : Option Frame)
  /-- `netdev->release` -/
  | release
  /-- `pkt_unpack` of a frame returned `n` and the chain `c` -/
  | unpack (f : Frame) (n : Int) (c : Chain)
  /-- `script_recv` on a chain, with its status -/
  | recv (c : Chain) (rc : Int)
  /-- `pkt_free` of a chain -/
  | free (c : Chain)
  /-- the client returns -/
  | ret
  deriving DecidableEq

/-- The raw device's contract, one call at a time; `held` says whether the client holds a
frame. A capture while holding one, a release of none, or a return while holding one
breaks it (`none`). -/
def devStep (held : Bool) : Ev Frame Chain → Option Bool
  | .capture (some _) => if held then none else some true
  | .capture none => if held then none else some false
  | .release => if held then some false else none
  | .ret => if held then none else some false
  | _ => some held

/-- The device's contract over a trace. -/
def devRun (held : Bool) (es : List (Ev Frame Chain)) : Option Bool := es.foldlM devStep held

theorem devRun_append (held : Bool) (a b : List (Ev Frame Chain)) :
    devRun held (a ++ b) = (devRun held a).bind fun h => devRun h b :=
  List.foldlM_append _ _ _ _

/-- The upcall's contract, one call at a time; `owned` is the chain the script was handed
and that is not yet freed. The call after an upcall frees its chain, and a chain is freed
only there. -/
def chainStep [DecidableEq Chain] : Option Chain → Ev Frame Chain → Option (Option Chain)
  | none, .recv c _ => some (some c)
  | none, .free _ => none
  | none, _ => some none
  | some c, .free c' => if c' = c then some none else none
  | some _, _ => none

/-- The upcall's contract over a trace. -/
def chainRun [DecidableEq Chain] (owned : Option Chain) (es : List (Ev Frame Chain)) :
    Option (Option Chain) :=
  es.foldlM chainStep owned

theorem chainRun_append [DecidableEq Chain] (owned : Option Chain) (a b : List (Ev Frame Chain)) :
    chainRun owned (a ++ b) = (chainRun owned a).bind fun o => chainRun o b :=
  List.foldlM_append _ _ _ _

/-- The upcall a call is, if it is one. -/
def Ev.upcall : Ev Frame Chain → Option (Chain × Int)
  | .recv c rc => some (c, rc)
  | _ => none

/-- The upcalls of a trace, with their status. -/
def upcalls (es : List (Ev Frame Chain)) : List (Chain × Int) := es.filterMap Ev.upcall

theorem upcalls_append (a b : List (Ev Frame Chain)) :
    upcalls (a ++ b) = upcalls a ++ upcalls b :=
  List.filterMap_append _ _ _

end Events

/-! ## The receiver -/

section Recv

variable {Frame Chain : Type}

/-- What the environment gives one iteration of the loop of `recv_cb`. -/
structure RecvIn (Frame Chain : Type) where
  /-- `args->done`, read by the loop test -/
  done : Bool
  /-- `netdev->capture` -/
  frame : Option Frame
  /-- `pkt_unpack`'s result and chain, for the captured frame -/
  unpacked : Int × Chain
  /-- `script_recv`'s status -/
  status : Int

/-- The body of the loop of `recv_cb`: the calls it makes, and `args->pkt_recv` after it.
`pkt_unpack` returning `0` skips to `release`. -/
def recvIter (x : RecvIn Frame Chain) (pktRecv : Nat) : List (Ev Frame Chain) × Nat :=
  match x.frame with
  | none => ([.capture none], pktRecv)
  | some f =>
      if x.unpacked.1 = 0 then ([.capture (some f), .unpack f 0 x.unpacked.2, .release], pktRecv)
      else
        ([.capture (some f), .unpack f x.unpacked.1 x.unpacked.2, .recv x.unpacked.2 x.status,
          .free x.unpacked.2, .release], if x.status < 0 then pktRecv else pktRecv + 1)

/-- `while (!args->done)` in `recv_cb`, over the iterations the environment gives. -/
def recvLoop : List (RecvIn Frame Chain) → Nat → List (Ev Frame Chain) × Nat
  | [], n => ([], n)
  | x :: xs, n =>
      if x.done then ([.ret], n)
      else
        let r := recvIter x n
        let r' := recvLoop xs r.2
        (r.1 ++ r'.1, r'.2)

/-- `recv_cb`: its calls, and `args->pkt_recv`, which it starts at `0`. -/
def recvCb (xs : List (RecvIn Frame Chain)) : List (Ev Frame Chain) × Nat := recvLoop xs 0

/-- Every iteration of `recv_cb` releases the frame it captured. -/
theorem recvIter_devRun (x : RecvIn Frame Chain) (n : Nat) :
    devRun false (recvIter x n).1 = some false := by
  unfold recvIter
  split
  · rfl
  · split <;> rfl

/-- What one iteration of `recv_cb` does with its upcall: there is one exactly when the
frame is not `NULL` and `pkt_unpack` did not return `0`; the chain is freed right after
it, and `pkt_recv` counts it when its status is not negative. -/
theorem recvIter_upcall [DecidableEq Chain] (x : RecvIn Frame Chain) (n : Nat) :
    upcalls (recvIter x n).1 =
        (if x.frame.isSome ∧ x.unpacked.1 ≠ 0 then [(x.unpacked.2, x.status)] else []) ∧
      chainRun none (recvIter x n).1 = some none ∧
      (recvIter x n).2 = n + ((upcalls (recvIter x n).1).filter fun u => 0 ≤ u.2).length := by
  unfold recvIter
  split
  · rename_i hf
    exact ⟨by simp [hf]; rfl, rfl, rfl⟩
  · rename_i f hf
    split
    · rename_i h0
      exact ⟨by simp [hf, h0]; rfl, rfl, rfl⟩
    · rename_i h0
      refine ⟨by simp [hf, h0]; rfl, ?_, ?_⟩
      · show (chainStep (some x.unpacked.2) (.free x.unpacked.2)).bind _ = _
        rw [chainStep, if_pos rfl]
        rfl
      · show _ = n + (List.filter _ [(x.unpacked.2, x.status)]).length
        by_cases hs : x.status < 0
        · simp [hs, List.filter_cons, Int.not_le.mpr hs]
        · simp [hs, List.filter_cons, Int.not_lt.mp hs]

/-- The receiver keeps the device's contract in every run: each frame `capture` returns is
released before the next capture and before `recv_cb` returns. -/
theorem recv_cb_releases (xs : List (RecvIn Frame Chain)) :
    devRun false (recvCb xs).1 = some false := by
  suffices h : ∀ n, devRun false (recvLoop xs n).1 = some false from h 0
  induction xs with
  | nil => intro n; rfl
  | cons x xs ih =>
      intro n
      rw [recvLoop]
      split
      · rfl
      · rw [devRun_append, recvIter_devRun]; exact ih _

/-- The upcalls of `recv_cb`. In every run, `script_recv` is called once for each captured
frame that is not `NULL` and that `pkt_unpack` did not reject with `0`, in order, on the
chain `pkt_unpack` produced; that chain is freed right after the upcall, and only there;
and `pkt_recv` is the number of upcalls whose status is not negative. -/
theorem recv_cb_upcalls [DecidableEq Chain] (xs : List (RecvIn Frame Chain)) :
    upcalls (recvCb xs).1 = (xs.takeWhile fun x => !x.done).filterMap (fun x =>
        if x.frame.isSome ∧ x.unpacked.1 ≠ 0 then some (x.unpacked.2, x.status) else none) ∧
      chainRun none (recvCb xs).1 = some none ∧
      (recvCb xs).2 = ((upcalls (recvCb xs).1).filter fun u => 0 ≤ u.2).length := by
  suffices h : ∀ n, upcalls (recvLoop xs n).1 = (xs.takeWhile fun x => !x.done).filterMap (fun x =>
        if x.frame.isSome ∧ x.unpacked.1 ≠ 0 then some (x.unpacked.2, x.status) else none) ∧
      chainRun none (recvLoop xs n).1 = some none ∧
      (recvLoop xs n).2 = n + ((upcalls (recvLoop xs n).1).filter fun u => 0 ≤ u.2).length by
    simpa using h 0
  induction xs with
  | nil => intro n; simp [recvLoop, upcalls, chainRun]
  | cons x xs ih =>
      intro n
      rw [recvLoop]
      split
      · rename_i hd
        simp [hd, upcalls, chainRun, Ev.upcall, List.foldlM, chainStep]
      · rename_i hd
        obtain ⟨hu, hc, hn⟩ := recvIter_upcall x n
        obtain ⟨hu', hc', hn'⟩ := ih (recvIter x n).2
        dsimp only
        refine ⟨?_, by rw [chainRun_append, hc]; exact hc', ?_⟩
        · rw [upcalls_append, hu, hu']
          simp only [hd, List.takeWhile_cons, Bool.not_false, ite_true, List.filterMap_cons]
          by_cases hc : x.frame.isSome = true ∧ x.unpacked.1 ≠ 0 <;> simp [hc]
        · rw [hn', hn, upcalls_append, List.filter_append, List.length_append]
          omega

/-- A frame that `pkt_unpack` parses only as far as its Ethernet header (one layer) still
reaches the script. -/
theorem recv_cb_upcall_one_layer :
    upcalls (recvCb [(⟨false, some (), (1, ()), 0⟩ : RecvIn Unit Unit)]).1 = [((), 0)] := rfl

end Recv

/-! ## The ARP resolver -/

section Resolv

variable {Frame : Type}

/-- The ARP layer of a reply, as `resolv_addr_to_mac` reads it; the addresses are in
network order, as `saddr` and `daddr` are after `htonl`. -/
structure ArpReply where
  psrc : UInt32
  pdst : UInt32
  hwsrc : List UInt8
  deriving DecidableEq

/-- What the environment gives one iteration of the capture loop of
`resolv_addr_to_mac`. -/
structure ResolvIn (Frame : Type) where
  /-- `netif->capture` -/
  frame : Option Frame
  /-- `time_now()` after the capture -/
  now : UInt64
  /-- `pkt_unpack`'s result for the captured frame -/
  layers : Int
  /-- `rsp_pkt->next`, when it is an ARP layer -/
  arp : Option ArpReply

/-- `uint64_t timeout = 5000000`: five seconds in microseconds. -/
def RESOLV_TIMEOUT : UInt64 := 5000000

/-- The capture loop of `resolv_addr_to_mac`, started at `start`: its calls (the chain
`pkt_unpack` produces is the ARP layer the loop reads of it), and, once it returns, its
result and the hardware address it copied to `dhost`. -/
def resolvLoop (start : UInt64) (saddr daddr : UInt32) :
    List (ResolvIn Frame) → List (Ev Frame (Option ArpReply)) × Option (Int × Option (List UInt8))
  | [] => ([], none)
  | x :: xs =>
      if x.now - start > RESOLV_TIMEOUT then ([.capture x.frame, .ret], some (-1, none))
      else
        match x.frame with
        | none =>
            let r := resolvLoop start saddr daddr xs
            (.capture none :: r.1, r.2)
        | some f =>
            let evs : List (Ev Frame (Option ArpReply)) := [.capture (some f), .unpack f x.layers x.arp]
            let r := resolvLoop start saddr daddr xs
            if x.layers < 2 then (evs ++ r.1, r.2)
            else
              match x.arp with
              | some a =>
                  if a.psrc = daddr ∧ a.pdst = saddr then (evs ++ [.ret], some (0, some a.hwsrc))
                  else (evs ++ r.1, r.2)
              | none => (evs ++ r.1, r.2)

/-- Whether an iteration ends the capture loop of `resolv_addr_to_mac`: the clock has
passed the timeout, or the frame is an ARP reply from `daddr` to `saddr`. -/
def resolvEnds (start : UInt64) (saddr daddr : UInt32) (x : ResolvIn Frame) : Bool :=
  decide (x.now - start > RESOLV_TIMEOUT) ||
    (x.frame.isSome && decide (2 ≤ x.layers) &&
      x.arp.any fun a => decide (a.psrc = daddr ∧ a.pdst = saddr))

/-- The calls of one iteration of the capture loop before its test of the reply. -/
def resolvCalls (x : ResolvIn Frame) : List (Ev Frame (Option ArpReply)) :=
  .capture x.frame :: match x.frame with
    | some f => [.unpack f x.layers x.arp]
    | none => []

/-- One iteration of the capture loop, by what ends it. -/
theorem resolvLoop_cons (start : UInt64) (saddr daddr : UInt32) (x : ResolvIn Frame)
    (xs : List (ResolvIn Frame)) :
    resolvLoop start saddr daddr (x :: xs) =
      if x.now - start > RESOLV_TIMEOUT then ([.capture x.frame, .ret], some (-1, none))
      else if resolvEnds start saddr daddr x then
        (resolvCalls x ++ [.ret], some (0, x.arp.map ArpReply.hwsrc))
      else (resolvCalls x ++ (resolvLoop start saddr daddr xs).1,
        (resolvLoop start saddr daddr xs).2) := by
  rw [resolvLoop]
  by_cases ht : x.now - start > RESOLV_TIMEOUT
  · rw [if_pos ht, if_pos ht]
  · rw [if_neg ht, if_neg ht]
    rcases x with ⟨_ | f, now, layers, _ | a⟩ <;> by_cases hl : layers < 2 <;>
      simp [resolvEnds, resolvCalls, ht, hl, Int.not_le.mpr, Int.not_lt.mp]

/-- A reply that matches at once: the resolver returns `0` with the sender's hardware
address, still holding the frame it captured, which it never releases. -/
theorem resolv_returns_holding_frame (mac : List UInt8) :
    (resolvLoop 0 1 2 [(⟨some (), 0, 2, some ⟨2, 1, mac⟩⟩ : ResolvIn Unit)]).1 =
        [.capture (some ()), .unpack () 2 (some ⟨2, 1, mac⟩), .ret] ∧
      (resolvLoop 0 1 2 [(⟨some (), 0, 2, some ⟨2, 1, mac⟩⟩ : ResolvIn Unit)]).2 =
        some (0, some mac) ∧
      devRun false (resolvLoop 0 1 2 [(⟨some (), 0, 2, some ⟨2, 1, mac⟩⟩ : ResolvIn Unit)]).1 =
        none := by
  rw [resolvLoop, if_neg (show ¬((0 : UInt64) - 0 > RESOLV_TIMEOUT) by decide)]
  dsimp only
  rw [if_neg (by decide), if_pos (by decide)]
  exact ⟨rfl, rfl, rfl⟩

/-- What the resolver is for: the first iteration that ends the loop decides its result,
`-1` past the timeout and otherwise `0` with the reply's hardware address. Before such an
iteration it is still capturing. -/
def resolvResult (start : UInt64) (saddr daddr : UInt32) (xs : List (ResolvIn Frame)) :
    Option (Int × Option (List UInt8)) :=
  (xs.find? (resolvEnds start saddr daddr)).map fun x =>
    if x.now - start > RESOLV_TIMEOUT then (-1, none) else (0, x.arp.map ArpReply.hwsrc)

/-- The capture loop of `resolv_addr_to_mac` refines its purpose: it returns exactly when an
iteration past the timeout or with an ARP reply from `daddr` to `saddr` comes, and then
with `-1`, or with `0` and the hardware address of that reply. -/
theorem resolvLoop_first_decides (start : UInt64) (saddr daddr : UInt32)
    (xs : List (ResolvIn Frame)) :
    (resolvLoop start saddr daddr xs).2 = resolvResult start saddr daddr xs := by
  induction xs with
  | nil => rfl
  | cons x xs ih =>
      rw [resolvLoop_cons, resolvResult, List.find?_cons]
      by_cases ht : x.now - start > RESOLV_TIMEOUT
      · have hx : resolvEnds start saddr daddr x = true := by simp [resolvEnds, ht]
        simp [ht, hx]
      · cases hx : resolvEnds start saddr daddr x
        · simp [ht, ih, resolvResult]
        · simp [ht]

/-- A capture while holding a frame breaks the device's contract. -/
theorem devRun_true_capture (r : Option Frame) (es : List (Ev Frame (Option ArpReply))) :
    devRun true (.capture r :: es) = none := by
  cases r <;> rfl

/-- The calls of an iteration leave the client holding the frame it captured. -/
theorem devRun_resolvCalls_append (x : ResolvIn Frame) (es : List (Ev Frame (Option ArpReply))) :
    devRun false (resolvCalls x ++ es) = devRun x.frame.isSome es := by
  unfold resolvCalls
  split <;> rename_i hf <;> simp only [hf] <;> rfl

/-- Every iteration starts with a capture, so a resolver still holding a frame breaks the
contract at its next iteration. -/
theorem devRun_true_resolvLoop (start : UInt64) (saddr daddr : UInt32) (y : ResolvIn Frame)
    (ys : List (ResolvIn Frame)) : devRun true (resolvLoop start saddr daddr (y :: ys)).1 = none := by
  rw [resolvLoop_cons]
  split_ifs <;> exact devRun_true_capture _ _

/-- The resolver never releases what it captures: a run that captures a frame and returns
breaks the raw device's contract, by capturing again while it holds the frame or by
returning with it. -/
theorem resolv_holds_captured (start : UInt64) (saddr daddr : UInt32)
    (xs : List (ResolvIn Frame)) {f : Frame}
    (hcap : Ev.capture (some f) ∈ (resolvLoop start saddr daddr xs).1)
    (hret : (resolvLoop start saddr daddr xs).2.isSome) :
    devRun false (resolvLoop start saddr daddr xs).1 = none := by
  induction xs with
  | nil => simp [resolvLoop] at hret
  | cons x xs ih =>
      rw [resolvLoop_cons] at hcap hret ⊢
      split_ifs at hcap hret ⊢
      · cases hf : x.frame <;> simp [hf] at hcap ⊢
        rfl
      · rw [devRun_resolvCalls_append]
        cases hf : x.frame <;> simp [resolvCalls, hf] at hcap ⊢
        rfl
      · rw [devRun_resolvCalls_append]
        cases hf : x.frame with
        | none =>
            simp only [resolvCalls, hf, List.singleton_append, List.mem_cons,
              Ev.capture.injEq, reduceCtorEq, false_or] at hcap
            exact ih hcap hret
        | some g =>
            cases xs with
            | nil => simp [resolvLoop] at hret
            | cons y ys => exact devRun_true_resolvLoop start saddr daddr y ys

/-- The matching reply of `resolv_returns_holding_frame`, as a run of the general theorem. -/
theorem resolv_holds_captured_reply :
    Ev.capture (some ()) ∈
        (resolvLoop 0 1 2 [(⟨some (), 0, 2, some ⟨2, 1, [170, 187]⟩⟩ : ResolvIn Unit)]).1 ∧
      (resolvLoop 0 1 2 [(⟨some (), 0, 2, some ⟨2, 1, [170, 187]⟩⟩ : ResolvIn Unit)]).2.isSome ∧
      devRun false
        (resolvLoop 0 1 2 [(⟨some (), 0, 2, some ⟨2, 1, [170, 187]⟩⟩ : ResolvIn Unit)]).1 = none :=
  ⟨by decide, by decide, resolv_holds_captured 0 1 2 _ (f := ()) (by decide) (by decide)⟩

end Resolv

end Hype.Pktizr
