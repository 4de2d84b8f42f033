import AstraSync.Library.Results
import Mathlib.Algebra.Group.Nat.Defs
import Mathlib.Data.List.Dedup
import Mathlib.Data.List.Sort

namespace AstraSync.EgressGuard

open Results

inductive Addr
  | invalid
  | v4 (bits : BitVec 32)
  | v6 (bits : BitVec 128) (zone : String)
  deriving DecidableEq

namespace Addr

def unmap : Addr → Addr
  | .v6 bits zone => if bits.toNat / 2 ^ 32 = 0xffff then .v4 (bits.setWidth 32) else .v6 bits zone
  | a => a

def zoned : Addr → Bool
  | .v6 _ zone => zone ≠ ""
  | _ => false

def agree (length : ℕ) : Addr → Addr → Bool
  | .v4 x, .v4 y => x.toNat / 2 ^ (32 - length) = y.toNat / 2 ^ (32 - length)
  | .v6 x _, .v6 y _ => x.toNat / 2 ^ (128 - length) = y.toNat / 2 ^ (128 - length)
  | _, _ => false

def le : Addr → Addr → Bool
  | .invalid, _ => true
  | .v4 x, .v4 y => x ≤ y
  | .v4 _, .v6 _ _ => true
  | .v6 x zone, .v6 y zone' => x < y || x = y && zone ≤ zone'
  | _, _ => false

end Addr

structure Prefix where
  addr : Addr
  length : ℕ
  deriving DecidableEq

def Prefix.contains (p : Prefix) (a : Addr) : Bool := !a.zoned && p.addr.agree p.length a

def Prefix.denotes (p : Prefix) (a : Addr) : Bool :=
  if p.addr.unmap ≠ p.addr ∧ 96 ≤ p.length then p.addr.unmap.agree (p.length - 96) a else p.addr.agree p.length a

def net4 (a b c d length : ℕ) : Prefix := ⟨.v4 (BitVec.ofNat 32 (((a * 256 + b) * 256 + c) * 256 + d)), length⟩

def net6 (bits length : ℕ) : Prefix := ⟨.v6 (BitVec.ofNat 128 bits) "", length⟩

def prefixesContain (prefixes : List Prefix) (a : Addr) : Bool := prefixes.any (·.contains a)

def hardDeniedPrefixes : List Prefix :=
  [net4 0 0 0 0 8, net4 127 0 0 0 8, net4 169 254 0 0 16, net4 224 0 0 0 4, net4 240 0 0 0 4, net6 0 128, net6 1 128,
    net6 (0xfe80 * 2 ^ 112) 10, net6 (0xff00 * 2 ^ 112) 8, net4 100 100 100 200 32,
    net6 (0xfd00 * 2 ^ 112 + 0xec2 * 2 ^ 96 + 0x254) 128]

def restrictedPrefixes : List Prefix :=
  [net4 100 64 0 0 10, net4 192 0 0 0 24, net4 198 18 0 0 15, net6 (0xfc00 * 2 ^ 112) 7]

def inNet (p : Prefix) (a : Addr) : Bool := p.addr.agree p.length a

def special (a : Addr) : Bool :=
  a = .v4 0 || a = .v6 0 "" || inNet (net4 127 0 0 0 8) a || inNet (net6 1 128) a || inNet (net4 224 0 0 0 4) a ||
    inNet (net6 (0xff00 * 2 ^ 112) 8) a || inNet (net4 169 254 0 0 16) a || inNet (net6 (0xfe80 * 2 ^ 112) 10) a

def isPrivate (a : Addr) : Bool :=
  inNet (net4 10 0 0 0 8) a || inNet (net4 172 16 0 0 12) a || inNet (net4 192 168 0 0 16) a ||
    inNet (net6 (0xfc00 * 2 ^ 112) 7) a

def hardDenied (a : Addr) : Bool :=
  let a := a.unmap
  a = .invalid || special a || prefixesContain hardDeniedPrefixes a

def requiresExplicitAllow (a : Addr) (protectedCIDRs : List Prefix) : Bool :=
  let a := a.unmap
  isPrivate a || prefixesContain restrictedPrefixes a || prefixesContain protectedCIDRs a

def canonicalAddresses (values : List Addr) : List Addr :=
  ((values.map Addr.unmap).filter (· ≠ .invalid)).dedup.insertionSort fun a b => a.le b = true

inductive Refusal
  | policyDenied
  | dnsFailed
  | dialFailed
  | canceled
  deriving DecidableEq

structure Guard where
  lookup : String → Option (List Addr)
  protectedCIDRs : List Prefix
  maximumDNSAddresses : ℕ
  validHost : String → Bool
  parseAddr : String → Option Addr
  parsePrefix : String → Option Prefix

structure PinnedEndpoint where
  port : ℕ
  addresses : List Addr
  maxAttempts : ℕ
  deriving DecidableEq

def parsePrefixes (g : Guard) (values : List String) : Except Refusal (List Prefix) :=
  values.mapM fun value => match g.parsePrefix value with
    | some p => .ok p
    | none => .error .policyDenied

def findAddresses (g : Guard) (host : String) : Except Refusal (List Addr) :=
  match g.parseAddr host, g.lookup host with
  | some literal, _ => .ok [literal.unmap]
  | none, some resolved =>
    if resolved ≠ [] ∧ resolved.length ≤ g.maximumDNSAddresses then .ok resolved else .error .dnsFailed
  | none, none => .error .dnsFailed

def resolve (g : Guard) (host : String) (port : ℕ) (validPolicy : Bool) (allowedCIDRs : List String) :
    Except Refusal PinnedEndpoint := do
  check (port ≠ 0 && validPolicy && g.validHost host) .policyDenied
  let addresses := canonicalAddresses (← findAddresses g host)
  check (addresses ≠ [] && addresses.length ≤ g.maximumDNSAddresses) .dnsFailed
  let allowed ← parsePrefixes g allowedCIDRs
  check (addresses.all fun a => !hardDenied a && (!requiresExplicitAllow a g.protectedCIDRs || prefixesContain allowed a))
    .policyDenied
  return ⟨port, addresses, 2⟩

inductive Network
  | tcp
  | tcp4
  | tcp6
  | other
  deriving DecidableEq

def Network.admits : Network → Addr → Bool
  | .tcp, _ | .tcp4, .v4 _ | .tcp6, .v6 _ _ => true
  | _, _ => false

inductive Dialed
  | connected
  | failed
  | canceled

def dialLoop (network : Network) (dial : Addr → Dialed) : List Addr → List Addr × Except Refusal Addr
  | [] => ([], .error .dialFailed)
  | a :: rest =>
    if network.admits a then
      match dial a with
      | .connected => ([a], .ok a)
      | .canceled => ([a], .error .canceled)
      | .failed => let (dialed, result) := dialLoop network dial rest; (a :: dialed, result)
    else dialLoop network dial rest

def dialContext (e : PinnedEndpoint) (network : Network) (requestedPort : Option String) (dial : Addr → Dialed) :
    List (Addr × String) × Except Refusal Addr :=
  match requestedPort with
  | none => ([], .error .policyDenied)
  | some port =>
    if network = .other ∨ port ≠ toString e.port ∨ e.addresses = [] then ([], .error .policyDenied)
    else
      let (dialed, result) := dialLoop network dial (e.addresses.take e.maxAttempts)
      (dialed.map fun a => (a, port), result)

/-- What the policy has to keep from an endpoint: hard-denied addresses, and private, restricted and protected
ones that no allowed prefix denotes. -/
def Admitted (protectedCIDRs allowed : List Prefix) (a : Addr) : Prop :=
  a ≠ .invalid ∧ special a = false ∧ (∀ p ∈ hardDeniedPrefixes, p.denotes a = false) ∧
    (isPrivate a = true ∨ (∃ p ∈ restrictedPrefixes ++ protectedCIDRs, p.denotes a = true) →
      ∃ p ∈ allowed, p.denotes a = true)

variable {g : Guard} {host : String} {port : ℕ} {validPolicy : Bool} {allowedCIDRs : List String} {e : PinnedEndpoint}
  {a : Addr} {p : Prefix}

theorem unmap_unmap (a : Addr) : a.unmap.unmap = a.unmap := by
  cases a with
  | v6 bits =>
    by_cases h : bits.toNat / 2 ^ 32 = 0xffff
    · rw [Addr.unmap, if_pos h]
      rfl
    · rw [Addr.unmap, if_neg h, Addr.unmap, if_neg h]
  | _ => rfl

theorem denotes_of_plain (hp : p.addr.unmap = p.addr) (ha : a.zoned = false) : p.denotes a = p.contains a := by
  simp [Prefix.denotes, Prefix.contains, hp, ha]

theorem zoned_of_contains (h : p.contains a = true) : a.zoned = false := by
  simpa [Prefix.contains] using (Bool.and_eq_true_iff.mp h).1

theorem denotes_of_contains (ha : a.unmap = a) (h : p.contains a = true) : p.denotes a = true := by
  simp only [Prefix.contains, Bool.and_eq_true] at h
  unfold Prefix.denotes
  split_ifs with hmapped
  · obtain ⟨hmapped, hlength⟩ := hmapped
    cases haddr : p.addr with
    | invalid | v4 => rw [haddr] at hmapped; exact absurd rfl hmapped
    | v6 x zone =>
      cases a with
      | invalid | v4 => rw [haddr] at h; cases h.2
      | v6 y =>
        have hx : x.toNat / 2 ^ 32 = 0xffff := by
          by_contra hne
          rw [haddr, Addr.unmap, if_neg hne] at hmapped
          exact hmapped rfl
        have hagree : x.toNat / 2 ^ (128 - p.length) = y.toNat / 2 ^ (128 - p.length) := by
          simpa [haddr, Addr.agree] using h.2
        have hshift : 2 ^ 32 = 2 ^ (128 - p.length) * 2 ^ (32 - (128 - p.length)) := by
          rw [← Nat.pow_add]
          congr 1
          omega
        have hy : y.toNat / 2 ^ 32 = 0xffff := by
          rw [hshift, ← Nat.div_div_eq_div_mul] at hx ⊢
          rw [← hagree, hx]
        rw [Addr.unmap, if_pos hy] at ha
        cases ha
  · exact h.2

theorem mem_canonicalAddresses {values : List Addr} (h : a ∈ canonicalAddresses values) : a.unmap = a ∧ a ≠ .invalid := by
  simp only [canonicalAddresses, List.mem_insertionSort, List.mem_dedup, List.mem_filter, List.mem_map, decide_eq_true_eq] at h
  obtain ⟨⟨b, -, rfl⟩, hvalid⟩ := h
  exact ⟨unmap_unmap b, hvalid⟩

theorem mem_dialLoop {network : Network} {dial : Addr → Dialed} {addresses : List Addr}
    (h : a ∈ (dialLoop network dial addresses).1) : a ∈ addresses := by
  induction addresses with
  | nil => cases h
  | cons b rest ih =>
    unfold dialLoop at h
    split_ifs at h
    · cases hdial : dial b <;> rw [hdial] at h
      · exact List.mem_singleton.mp h ▸ List.mem_cons_self
      · rcases List.mem_cons.mp h with rfl | h
        · exact List.mem_cons_self
        · exact List.mem_cons_of_mem _ (ih h)
      · exact List.mem_singleton.mp h ▸ List.mem_cons_self
    · exact List.mem_cons_of_mem _ (ih h)

theorem mem_dialContext {network : Network} {requestedPort : Option String} {dial : Addr → Dialed} {d : Addr × String}
    (h : d ∈ (dialContext e network requestedPort dial).1) : d.1 ∈ e.addresses ∧ d.2 = toString e.port := by
  unfold dialContext at h
  split at h
  · cases h
  · split_ifs at h with hrefused
    · cases h
    · obtain ⟨a, ha, rfl⟩ := List.mem_map.mp h
      exact ⟨List.mem_of_mem_take (mem_dialLoop ha), by simp_all⟩

/-- Every prefix that denotes the address contains it, or it is refused or needs an allowed prefix anyway, or an
allowed prefix denotes it. -/
def Kept (protectedCIDRs allowed : List Prefix) (a : Addr) : Prop :=
  (∀ p ∈ hardDeniedPrefixes ++ (restrictedPrefixes ++ protectedCIDRs), p.denotes a = true → p.contains a = true) ∨
    hardDenied a = true ∨ requiresExplicitAllow a protectedCIDRs = true ∨
    (∀ p ∈ hardDeniedPrefixes, p.denotes a = false) ∧ ∃ p ∈ allowed, p.denotes a = true

def passes (protectedCIDRs allowed : List Prefix) (a : Addr) : Bool :=
  !hardDenied a && (!requiresExplicitAllow a protectedCIDRs || prefixesContain allowed a)

variable {protectedCIDRs allowed : List Prefix}

theorem requiresExplicitAllow_iff (ha : a.unmap = a) : requiresExplicitAllow a protectedCIDRs = true ↔
    isPrivate a = true ∨ ∃ p ∈ restrictedPrefixes ++ protectedCIDRs, p.contains a = true := by
  simp only [requiresExplicitAllow, ha, prefixesContain, Bool.or_eq_true, List.any_eq_true, List.mem_append, or_and_right,
    exists_or, or_assoc]

theorem hardDenied_iff (ha : a.unmap = a) : hardDenied a = true ↔
    a = .invalid ∨ special a = true ∨ ∃ p ∈ hardDeniedPrefixes, p.contains a = true := by
  simp only [hardDenied, ha, prefixesContain, Bool.or_eq_true, List.any_eq_true, decide_eq_true_eq, or_assoc]

theorem admitted_of_passes (ha : a.unmap = a) (hkept : Kept protectedCIDRs allowed a)
    (h : passes protectedCIDRs allowed a = true) : Admitted protectedCIDRs allowed a := by
  simp only [passes, Bool.and_eq_true, Bool.not_eq_true', Bool.or_eq_true] at h
  obtain ⟨hhard, hallow⟩ := h
  have hnot := mt (hardDenied_iff ha).mpr (by simpa using hhard)
  simp only [not_or, not_exists, not_and] at hnot
  obtain ⟨hvalid, hspecial, hdenied⟩ := hnot
  -- with the explicit allowance the address has no zone, and the denied prefixes are written plainly
  have hexplicit (hrequires : requiresExplicitAllow a protectedCIDRs = true) :
      (∀ p ∈ hardDeniedPrefixes, p.denotes a = false) ∧ ∃ p ∈ allowed, p.denotes a = true := by
    obtain ⟨p, hp, hcontains⟩ := List.any_eq_true.mp (hallow.resolve_left (by simp [hrequires]))
    have htable : ∀ p ∈ hardDeniedPrefixes, p.addr.unmap = p.addr := by decide
    refine ⟨fun q hq => ?_, p, hp, denotes_of_contains ha hcontains⟩
    rw [denotes_of_plain (htable q hq) (zoned_of_contains hcontains)]
    simpa using hdenied q hq
  refine ⟨hvalid, by simpa using hspecial, ?_⟩
  rcases hkept with hkept | hrefused | hrequires | ⟨hdenotes, hallowed⟩
  · refine ⟨fun p hp => ?_, fun hneeds => (hexplicit ((requiresExplicitAllow_iff ha).mpr ?_)).2⟩
    · have hcontains := hkept p (List.mem_append_left _ hp)
      exact Bool.eq_false_iff.mpr fun hdenotes => hdenied p hp (hcontains hdenotes)
    · exact hneeds.imp_right fun ⟨p, hp, hdenotes⟩ => ⟨p, hp, hkept p (List.mem_append_right _ hp) hdenotes⟩
  · rw [hhard] at hrefused
    cases hrefused
  · exact ⟨(hexplicit hrequires).1, fun _ => (hexplicit hrequires).2⟩
  · exact ⟨hdenotes, fun _ => hallowed⟩

theorem kept_of_admitted (h : passes protectedCIDRs allowed a = true → Admitted protectedCIDRs allowed a) :
    Kept protectedCIDRs allowed a := by
  by_cases hhard : hardDenied a = true
  · exact .inr (.inl hhard)
  by_cases hrequires : requiresExplicitAllow a protectedCIDRs = true
  · exact .inr (.inr (.inl hrequires))
  obtain ⟨-, -, hdenotes, hallowed⟩ := h (by simp [passes, hhard, hrequires])
  by_cases hneeds : ∃ p ∈ restrictedPrefixes ++ protectedCIDRs, p.denotes a = true
  · exact .inr (.inr (.inr ⟨hdenotes, hallowed (.inr hneeds)⟩))
  · refine .inl fun p hp hdenoted => ?_
    rcases List.mem_append.mp hp with hp | hp
    · rw [hdenotes p hp] at hdenoted
      cases hdenoted
    · exact absurd ⟨p, hp, hdenoted⟩ hneeds

theorem resolve_ok (h : resolve g host port validPolicy allowedCIDRs = .ok e) (hallowed : parsePrefixes g allowedCIDRs = .ok allowed) :
    e.port = port ∧ ∀ a ∈ e.addresses, a.unmap = a ∧ passes g.protectedCIDRs allowed a = true := by
  unfold resolve at h
  replace h := bind_rest h
  obtain ⟨found, -, h⟩ := bind_eq_ok.mp h
  replace h := bind_rest h
  obtain ⟨_, heq, h⟩ := bind_eq_ok.mp h
  obtain rfl := Except.ok.inj (heq.symm.trans hallowed)
  obtain ⟨⟨⟩, hall, h⟩ := bind_eq_ok.mp h
  cases h
  rw [check_ok, List.all_eq_true] at hall
  exact ⟨rfl, fun a ha => ⟨(mem_canonicalAddresses ha).1, hall a ha⟩⟩

theorem resolve_single (hallowed : parsePrefixes g allowedCIDRs = .ok allowed) (hport : port ≠ 0)
    (hhost : g.validHost host = true) (hlimit : 0 < g.maximumDNSAddresses) (ha : a.unmap = a) (hvalid : a ≠ .invalid)
    (h : passes g.protectedCIDRs allowed a = true) :
    resolve { g with lookup := fun _ => some [a], parseAddr := fun _ => none } host port true allowedCIDRs = .ok ⟨port, [a], 2⟩ := by
  have hcanonical : canonicalAddresses [a] = [a] := by simp [canonicalAddresses, ha, hvalid]
  refine bind_eq_ok.mpr ⟨(), check_ok.mpr (by simp [hport, hhost]), bind_eq_ok.mpr ⟨[a], ?_, ?_⟩⟩
  · simp [findAddresses, hlimit.ne']
  rw [hcanonical]
  refine bind_eq_ok.mpr ⟨(), check_ok.mpr (by simpa using Nat.succ_le_of_lt hlimit), bind_eq_ok.mpr ⟨allowed, hallowed, ?_⟩⟩
  exact bind_eq_ok.mpr ⟨(), check_ok.mpr (by simpa [passes] using h), rfl⟩

/-- An address that an endpoint can be pinned to is admitted, whatever the resolver answers, if and only if it is kept;
and only the addresses of the endpoint are dialed, on the approved port. -/
theorem resolve_admits (hallowed : parsePrefixes g allowedCIDRs = .ok allowed) (hport : port ≠ 0)
    (hhost : g.validHost host = true) (hlimit : 0 < g.maximumDNSAddresses) :
    (∀ a, a.unmap = a → a ≠ .invalid → ((∀ lookup parseAddr e,
        resolve { g with lookup := lookup, parseAddr := parseAddr } host port true allowedCIDRs = .ok e → a ∈ e.addresses →
          Admitted g.protectedCIDRs allowed a) ↔ Kept g.protectedCIDRs allowed a)) ∧
    ∀ e, resolve g host port true allowedCIDRs = .ok e → ∀ network requestedPort dial,
      ∀ d ∈ (dialContext e network requestedPort dial).1, d.1 ∈ e.addresses ∧ d.2 = toString port := by
  refine ⟨fun a ha hvalid => ⟨fun hall => kept_of_admitted fun hpasses => ?_, fun hkept lookup parseAddr e h hmem => ?_⟩, ?_⟩
  · exact hall _ _ _ (resolve_single hallowed hport hhost hlimit ha hvalid hpasses) (List.mem_singleton.mpr rfl)
  · exact admitted_of_passes ha hkept ((resolve_ok h hallowed).2 a hmem).2
  · intro e h network requestedPort dial d hd
    rw [← (resolve_ok h hallowed).1]
    exact mem_dialContext hd

def sampleGuard (network : Prefix) : Guard :=
  ⟨fun _ => some [(net4 203 0 113 5 32).addr], [network], 8, fun _ => true, fun _ => none, fun _ => some (net4 203 0 113 0 24)⟩

theorem resolve_admits_allowed : Admitted [net4 203 0 113 0 24] [net4 203 0 113 0 24] (net4 203 0 113 5 32).addr :=
  have hallowed : parsePrefixes (sampleGuard (net4 203 0 113 0 24)) ["203.0.113.0/24"] = .ok [net4 203 0 113 0 24] := rfl
  have hresolve : resolve (sampleGuard (net4 203 0 113 0 24)) "db" 5432 true ["203.0.113.0/24"] =
      .ok ⟨5432, [(net4 203 0 113 5 32).addr], 2⟩ := by decide +kernel
  have hport : 5432 ≠ 0 := by decide
  have hhost : (sampleGuard (net4 203 0 113 0 24)).validHost "db" = true := rfl
  ((resolve_admits hallowed hport hhost (by decide)).1 _ (by decide) (by decide)).mpr
    (.inl (by decide +kernel)) _ _ _ hresolve (by decide)

/-- The same network protected as ::ffff:203.0.113.0/120 is not kept from the endpoint. -/
theorem mapped_prefix_unprotected : resolve (sampleGuard (net6 (0xffff * 2 ^ 32 + 0xcb007100) 120)) "db" 5432 true [] =
        .ok ⟨5432, [(net4 203 0 113 5 32).addr], 2⟩ ∧
      (net6 (0xffff * 2 ^ 32 + 0xcb007100) 120).denotes (net4 203 0 113 5 32).addr = true :=
  ⟨by decide +kernel, by decide +kernel⟩

end AstraSync.EgressGuard
