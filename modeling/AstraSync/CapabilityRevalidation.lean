import Mathlib.Data.Int.Notation
import Mathlib.Data.List.Basic

namespace AstraSync.CapabilityRevalidation

/-- Smaller is stronger. -/
abbrev Capability := ℤ

def text (c : Capability) : String :=
  if c = 0 then "exactly-once" else if c = 1 then "at-least-once" else if c = 2 then "at-most-once" else "unknown"

inductive Counter
  | total
  | success
  | failure
  deriving DecidableEq

inductive Refusal
  | negotiationFailed
  | getConnection (text : String)
  | sinkUnreachable (cause : Option String)
  | cancelled (text : String)
  | exhausted (retries : ℤ) (last : Option String)

structure ConnectionInfo where
  sinkEndpoint : String
  requiredCapability : Option Capability

structure Config where
  /-- The catalog and the negotiator are there; the negotiator probes. -/
  (complete probes : Bool)
  maxRetries : ℤ

structure Environment where
  connection : Except String (Option ConnectionInfo)
  probe : Except String Unit
  cancelled : ℕ → Option String
  negotiate : ℕ → Except String Capability

structure Outcome where
  counted : List Counter
  negotiated : List (Except String Capability)
  result : Except Refusal Unit

def Outcome.after (answer : Except String Capability) (o : Outcome) : Outcome :=
  { o with negotiated := answer :: o.negotiated }

def insufficient (capability required : Capability) : String :=
  "capability: negotiation failed: negotiated=" ++ text capability ++ " required=" ++ text required

def negotiations (env : Environment) (required : Option Capability) (maxRetries : ℤ) : ℕ → ℕ → Option String → Outcome
  | 0, _, lastErr => ⟨[.failure], [], .error (.exhausted maxRetries lastErr)⟩
  | remaining + 1, attempt, _ =>
    match if 0 < attempt then env.cancelled attempt else none with
    | some err => ⟨[], [], .error (.cancelled err)⟩
    | none =>
      match env.negotiate attempt with
      | .error err => (negotiations env required maxRetries remaining (attempt + 1) (some err)).after (.error err)
      | .ok capability =>
        match required.filter (· < capability) with
        | some least => (negotiations env required maxRetries remaining (attempt + 1)
            (some (insufficient capability least))).after (.ok capability)
        | none => ⟨[.success], [.ok capability], .ok ()⟩

def revalidate (cfg : Config) (env : Environment) (explicit : Option Capability) : Outcome :=
  if !cfg.complete then ⟨[.failure], [], .error .negotiationFailed⟩
  else match env.connection with
    | .error err => ⟨[], [], .error (.getConnection err)⟩
    | .ok none => ⟨[.failure], [], .error (.sinkUnreachable none)⟩
    | .ok (some info) =>
      if info.sinkEndpoint = "" then ⟨[.failure], [], .error (.sinkUnreachable none)⟩
      else match if cfg.probes then env.probe else .ok () with
        | .error err => ⟨[.failure], [], .error (.sinkUnreachable (some err))⟩
        | .ok () =>
          negotiations env (explicit.or info.requiredCapability) cfg.maxRetries (cfg.maxRetries + 1).toNat 0 none

def revalidateWithRequirement (cfg : Config) (env : Environment) (explicit : Option Capability) : Outcome :=
  let o := revalidate cfg env explicit
  { o with counted := .total :: o.counted }

def required (env : Environment) (explicit : Option Capability) : Option Capability :=
  explicit.or (env.connection.toOption.join.bind (·.requiredCapability))

def Insufficient (env : Environment) (required : Option Capability) (attempt : ℕ) : Prop :=
  ∀ capability, env.negotiate attempt = .ok capability → ∃ least ∈ required, least < capability

/-- The context is done in the wait before an attempt, from `attempt` on, that is still needed. -/
def Interrupted (env : Environment) (required : Option Capability) (attempt last : ℕ) : Prop :=
  ∃ n, 0 < n ∧ attempt ≤ n ∧ n < last ∧ (env.cancelled n).isSome = true ∧
    ∀ m, attempt ≤ m → m < n → Insufficient env required m

/-- What the metrics do not know of: a failed lookup of the connection, and a context that is done while a reachable
sink is still to be asked again. -/
def Uncounted (cfg : Config) (env : Environment) (explicit : Option Capability) : Prop :=
  cfg.complete = true ∧ ((∃ err, env.connection = .error err) ∨
    ∃ info, env.connection = .ok (some info) ∧ info.sinkEndpoint ≠ "" ∧ (cfg.probes = true → env.probe = .ok ()) ∧
      Interrupted env (required env explicit) 0 (cfg.maxRetries + 1).toNat)

def balanced (log : List Counter) : Bool := log.count .total = log.count .success + log.count .failure

structure Sound (required : Option Capability) (attempts : ℕ) (uncounted : Prop) (o : Outcome) : Prop where
  bounded : o.negotiated.length ≤ attempts
  meets : o.result = .ok () → ∃ capability, .ok capability ∈ o.negotiated ∧ ∀ least ∈ required, capability ≤ least
  once : uncounted ∧ o.counted = [] ∨ ¬ uncounted ∧ (o.counted = [.success] ∨ o.counted = [.failure])

variable {env : Environment} {needed : Option Capability} {attempts attempt last : ℕ} {uncounted : Prop} {o : Outcome}

theorem sound_refused {refusal : Refusal} (h : ¬ uncounted) : Sound needed attempts uncounted ⟨[.failure], [], .error refusal⟩ :=
  ⟨Nat.zero_le _, nofun, .inr ⟨h, .inr rfl⟩⟩

theorem interrupted_next (hwait : 0 < attempt → env.cancelled attempt = none) :
    Interrupted env needed attempt last ↔ Insufficient env needed attempt ∧ Interrupted env needed (attempt + 1) last := by
  constructor
  · rintro ⟨n, hpos, hle, hlast, hdone, hbefore⟩
    have hne : attempt ≠ n := by
      rintro rfl
      rw [hwait hpos] at hdone
      cases hdone
    exact ⟨hbefore attempt (Nat.le_refl _) (by omega), n, hpos, by omega, hlast, hdone, fun m hm => hbefore m (by omega)⟩
  · rintro ⟨hfirst, n, hpos, hle, hlast, hdone, hbefore⟩
    refine ⟨n, hpos, by omega, hlast, hdone, fun m hm hlt => ?_⟩
    rcases Nat.eq_or_lt_of_le hm with rfl | hm
    · exact hfirst
    · exact hbefore m hm hlt

theorem Sound.after (hwait : 0 < attempt → env.cancelled attempt = none) (hfirst : Insufficient env needed attempt)
    (h : Sound needed attempts (Interrupted env needed (attempt + 1) last) o) (answer : Except String Capability) :
    Sound needed (attempts + 1) (Interrupted env needed attempt last) (o.after answer) where
  bounded := Nat.succ_le_succ h.bounded
  meets hok :=
    have ⟨capability, hmem, hleast⟩ := h.meets hok
    ⟨capability, List.mem_cons_of_mem _ hmem, hleast⟩
  once := by
    rw [interrupted_next hwait, and_iff_right hfirst]
    exact h.once

theorem negotiations_sound (maxRetries : ℤ) (remaining attempt : ℕ) (lastErr : Option String) :
    Sound needed remaining (Interrupted env needed attempt (attempt + remaining))
      (negotiations env needed maxRetries remaining attempt lastErr) := by
  induction remaining generalizing attempt lastErr with
  | zero =>
    refine sound_refused ?_
    rintro ⟨n, -, hle, hlt, -⟩
    omega
  | succ remaining ih =>
    have hnext := ih (attempt + 1)
    rw [Nat.add_right_comm, Nat.add_assoc] at hnext
    unfold negotiations
    split
    · next err hdone =>
      split_ifs at hdone with hpos
      exact ⟨Nat.zero_le _, nofun, .inl ⟨⟨attempt, hpos, Nat.le_refl _, by omega, by rw [hdone]; rfl, fun m hm hlt => by omega⟩, rfl⟩⟩
    · next hwait =>
      have hwait : 0 < attempt → env.cancelled attempt = none := fun hpos => by rwa [if_pos hpos] at hwait
      split
      · next err herr =>
        exact (hnext _).after hwait (fun capability hok => by rw [herr] at hok; cases hok) _
      · next capability hcapability =>
        split
        · next least hleast =>
          obtain ⟨hmem, hlt⟩ := Option.mem_filter_iff.mp hleast
          refine (hnext _).after hwait (fun other hok => ⟨least, hmem, ?_⟩) _
          rw [hcapability] at hok
          cases hok
          simpa using hlt
        · next hleast =>
          have hsufficient : ∀ least ∈ needed, capability ≤ least := by
            intro least hmem
            rw [Option.mem_def.mp hmem] at hleast
            simpa using hleast
          refine ⟨Nat.le_add_left _ _, fun _ => ⟨capability, List.mem_singleton_self _, hsufficient⟩, .inr ⟨?_, .inl rfl⟩⟩
          rw [interrupted_next hwait]
          rintro ⟨hfirst, -⟩
          obtain ⟨least, hmem, hlt⟩ := hfirst capability hcapability
          exact absurd (hsufficient least hmem) (Int.not_le.mpr hlt)

theorem revalidate_sound (cfg : Config) (env : Environment) (explicit : Option Capability) :
    Sound (required env explicit) (cfg.maxRetries + 1).toNat (Uncounted cfg env explicit) (revalidate cfg env explicit) := by
  unfold revalidate Uncounted
  split
  · next hcomplete => exact sound_refused fun h => by simp [h.1] at hcomplete
  · next hcomplete =>
    rw [show cfg.complete = true by simpa using hcomplete, and_iff_right rfl]
    split
    · next err herr => exact ⟨Nat.zero_le _, nofun, .inl ⟨.inl ⟨err, herr⟩, rfl⟩⟩
    · next hnone =>
      refine sound_refused ?_
      rintro (⟨err, herr⟩ | ⟨info, hinfo, -⟩)
      · rw [hnone] at herr
        cases herr
      · rw [hnone] at hinfo
        cases hinfo
    · next info hinfo =>
      have hlookup : ((∃ err, env.connection = .error err) ∨ ∃ info, env.connection = .ok (some info) ∧
          info.sinkEndpoint ≠ "" ∧ (cfg.probes = true → env.probe = .ok ()) ∧
          Interrupted env (required env explicit) 0 (cfg.maxRetries + 1).toNat) ↔ info.sinkEndpoint ≠ "" ∧
          (cfg.probes = true → env.probe = .ok ()) ∧ Interrupted env (required env explicit) 0 (cfg.maxRetries + 1).toNat := by
        simp [hinfo]
      rw [hlookup]
      split
      · next hempty => exact sound_refused fun h => h.1 hempty
      · next hendpoint =>
        split
        · next err herr =>
          refine sound_refused fun h => ?_
          split_ifs at herr with hprobes
          rw [h.2.1 hprobes] at herr
          cases herr
        · next hprobe =>
          have hreached : cfg.probes = true → env.probe = .ok () := fun hprobes => by rwa [if_pos hprobes] at hprobe
          have hrequired : required env explicit = explicit.or info.requiredCapability := by
            rw [required, hinfo]
            rfl
          rw [and_iff_right hendpoint, and_iff_right hreached, hrequired]
          have hsound : Sound (explicit.or info.requiredCapability) (cfg.maxRetries + 1).toNat (Interrupted env _ 0 _) _ :=
            negotiations_sound cfg.maxRetries _ 0 none
          rwa [Nat.zero_add] at hsound

def counters (cfg : Config) (calls : List (Environment × Option Capability)) : List Counter :=
  calls.flatMap fun call => (revalidateWithRequirement cfg call.1 call.2).counted

/-- No call adds more than one end, so none makes up for another. -/
theorem counters_balance (cfg : Config) (calls : List (Environment × Option Capability)) :
    (counters cfg calls).count .success + (counters cfg calls).count .failure ≤ (counters cfg calls).count .total ∧
      ((counters cfg calls).count .total = (counters cfg calls).count .success + (counters cfg calls).count .failure ↔
        ∀ call ∈ calls, ¬ Uncounted cfg call.1 call.2) := by
  induction calls with
  | nil => simp [counters]
  | cons call calls ih =>
    have hsplit : counters cfg (call :: calls) = (.total :: (revalidate cfg call.1 call.2).counted) ++ counters cfg calls := rfl
    rw [hsplit, List.forall_mem_cons, ← ih.2]
    replace ih := ih.1
    rcases (revalidate_sound cfg call.1 call.2).once with ⟨huncounted, heq⟩ | ⟨hcounted, heq | heq⟩
    all_goals simp only [heq, List.count_append, List.count_cons, List.count_nil]
    · simp only [huncounted, not_true_eq_false, false_and, iff_false]
      simp
      omega
    · simp [hcounted]
      omega
    · simp [hcounted]
      omega

/-- A call that succeeds was given a capability that suffices. The counters balance, in whatever order the calls running
side by side add to them, if and only if no call is uncounted. -/
theorem revalidations_balance (cfg : Config) (calls : List (Environment × Option Capability)) (log : List Counter)
    (hlog : log.Perm (counters cfg calls)) :
    (∀ call ∈ calls, (revalidateWithRequirement cfg call.1 call.2).result = .ok () →
      ((revalidateWithRequirement cfg call.1 call.2).negotiated.length : ℤ) ≤ cfg.maxRetries + 1 ∧
        ∃ capability, .ok capability ∈ (revalidateWithRequirement cfg call.1 call.2).negotiated ∧
          ∀ least ∈ required call.1 call.2, capability ≤ least) ∧
    (balanced log = true ↔ ∀ call ∈ calls, ¬ Uncounted cfg call.1 call.2) := by
  constructor
  · intro call _ hok
    have hsound := revalidate_sound cfg call.1 call.2
    obtain ⟨capability, hmem, hleast⟩ := hsound.meets hok
    have hpos := List.length_pos_of_mem hmem
    have hbounded := hsound.bounded
    refine ⟨?_, capability, hmem, hleast⟩
    change ((revalidate cfg call.1 call.2).negotiated.length : ℤ) ≤ _
    omega
  · simpa only [balanced, hlog.count_eq, decide_eq_true_eq] using (counters_balance cfg calls).2

def sink : Environment := ⟨.ok (some ⟨"sink", some 1⟩), .ok (), fun _ => none, fun n => .ok (1 - n)⟩

def sampleConfig : Config := ⟨true, true, 3⟩

theorem revalidations_balance_retried :
    (∃ capability, .ok capability ∈ (revalidateWithRequirement sampleConfig sink (some 0)).negotiated ∧
      ∀ least ∈ required sink (some 0), capability ≤ least) ∧ ¬ Uncounted sampleConfig sink (some 0) :=
  have h := revalidations_balance sampleConfig [(sink, some 0), ({ sink with probe := .error "refused" }, none)]
    [.total, .total, .failure, .success] (by decide)
  ⟨(h.1 _ List.mem_cons_self rfl).2, h.2.mp (by decide) _ List.mem_cons_self⟩

theorem uncounted_ends :
    balanced (revalidateWithRequirement sampleConfig { sink with connection := .error "down" } none).counted = false ∧
    balanced (revalidateWithRequirement sampleConfig { sink with cancelled := fun _ => some "done" } (some 0)).counted =
      false := by
  decide

end AstraSync.CapabilityRevalidation
