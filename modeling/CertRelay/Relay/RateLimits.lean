import CertRelay.Lib.Cidr
import CertRelay.Lib.Runs
import CertRelay.Lib.Text
import CertRelay.Lib.TokenBucket
import CertRelay.Relay.PeerTable

/-!
# Rate limits of the HTTP endpoints

Every endpoint but `/health` charges its requests to a client address, in one of six keyed
limiters.  The address is that of the socket, or the last one in a header that a proxy adds;
with trusted proxies configured the header counts only if one of them has the socket.

The limiters are those of `governor`, and networks those of `ipnet`; neither is part of the
repository, so both are left open.  What is used of `governor` is that it runs the generic cell
rate algorithm, for each key by itself.

**Results.**
* `resolveClientIp_of_untrusted`: a socket that is no proxy cannot choose its address;
* `resolveClientIp_of_appended`: of a list of addresses the last one counts;
* `uses_of_run`: a run of requests is a run of each limiter;
* `untrusted_socket_bounded`: in a stretch of time a socket gets its burst and its rate;
* `limits_isolated`: what others ask, and cleanups, are not noticed.
-/

namespace CertRelay
namespace RateLimits

section Clients

/-- The types and functions of other crates that the limits use. -/
structure LimitCrates where
  /-- `IpNet::contains`. -/
  IpNet : Type
  contains : IpNet → IpAddr → Bool
  /-- `str::parse::<IpAddr>`. -/
  parse : String → Option IpAddr
  /-- `Quota`, with `per_minute`, `burst_size` and `replenish_interval` in nanoseconds. -/
  Quota : Type
  perMinute : ℕ+ → Quota
  burstSize : Quota → ℕ
  replenishInterval : Quota → ℕ
  /-- A `RateLimiter` by address, with `dashmap`, and with `check_key` and `retain_recent` at a
  time of its clock and with the quota that it was made with. -/
  RateLimiter : Type
  dashmap : Quota → RateLimiter
  keyed : Quota → Keyed IpAddr RateLimiter

variable (K : LimitCrates)

/-- `governor` runs the generic cell rate algorithm, with one cell for each key; `full` reads
from a limiter when the key of each cell is full again. -/
def LimitCrates.Governs (full : K.RateLimiter → Buckets IpAddr) : Prop :=
  ∀ q, Gcra (K.replenishInterval q) (K.burstSize q) (K.keyed q) full

/-- A header map, down to the text of the first value of a name; a value that is not visible
ASCII has no text. -/
abbrev HeaderMap := String → Option String

/-- The settings behind a client address. -/
structure ProxyConfig where
  remoteIpHeader : Option String
  trustedProxies : List K.IpNet

variable {K}

/-- The last entry of a header value. -/
def lastEntry (value : String) : String :=
  Text.trim ((Text.split ',' value).getLastD "")

/-- The socket is one whose header counts. -/
def ProxyConfig.trusts (config : ProxyConfig K) (addr : IpAddr) : Bool :=
  config.trustedProxies.isEmpty || config.trustedProxies.any (fun net => K.contains net addr)

/-- `resolve_client_ip`, from the address of the socket. -/
def resolveClientIp (addr : IpAddr) (headers : HeaderMap) (config : ProxyConfig K) : IpAddr :=
  match config.remoteIpHeader with
  | none => addr
  | some name =>
      if config.trusts addr then
        match headers name with
        | some value => (K.parse (lastEntry value)).getD addr
        | none => addr
      else addr

/-- No header of this socket counts. -/
def ProxyConfig.Untrusted (config : ProxyConfig K) (addr : IpAddr) : Prop :=
  config.remoteIpHeader = none ∨ config.trusts addr = false

/-- **A socket that is no proxy cannot choose its address.** -/
theorem resolveClientIp_of_untrusted
    {config : ProxyConfig K}
    {addr : IpAddr}
    (h : config.Untrusted addr)
    (headers : HeaderMap) :
    resolveClientIp addr headers config = addr := by
  unfold resolveClientIp
  rcases h with hnone | huntrusted
  · rw [hnone]
  · cases config.remoteIpHeader with
    | none =>
        rfl
    | some name =>
        dsimp only
        rw [huntrusted, if_neg Bool.false_ne_true]

/-- **Of a list of addresses the last one counts**, whatever a client has put before it. -/
theorem resolveClientIp_of_appended
    {config : ProxyConfig K}
    {name : String}
    (hname : config.remoteIpHeader = some name)
    {addr : IpAddr}
    (htrusted : config.trusts addr = true)
    {headers : HeaderMap}
    {entries : List String}
    (hentries : ∀ entry ∈ entries, ',' ∉ entry.toList)
    {last : String}
    (hlast : ',' ∉ last.toList)
    (hvalue : headers name = some (Text.join ',' (entries ++ [last])))
    {ip : IpAddr}
    (hip : K.parse (Text.trim last) = some ip) :
    resolveClientIp addr headers config = ip := by
  have hsplit : Text.split ',' (Text.join ',' (entries ++ [last])) = entries ++ [last] := by
    refine Text.split_join (fun part hpart => ?_) (by simp)
    rcases List.mem_append.1 hpart with hentry | hmem
    · exact hentries part hentry
    · rw [List.mem_singleton.1 hmem]
      exact hlast
  unfold resolveClientIp
  rw [hname]
  dsimp only
  rw [if_pos htrusted, hvalue]
  dsimp only
  unfold lastEntry
  rw [hsplit, List.getLastD_eq_getLast?, List.getLast?_append_of_ne_nil _ (by simp),
    List.getLast?_singleton, Option.getD_some, hip, Option.getD_some]

end Clients

section Limiters

/-- The fields of `RateLimiters`. -/
inductive Limiter
  | message
  | proof
  | read
  | announce
  | sync
  | poke
deriving DecidableEq

variable (K : LimitCrates)

/-- `RateLimitConfig`. -/
abbrev RateLimitConfig := Limiter → K.Quota

/-- `RateLimitConfig::default`. -/
def RateLimitConfig.default : RateLimitConfig K
  | .message => K.perMinute 60
  | .proof => K.perMinute 30
  | .read => K.perMinute 120
  | .announce => K.perMinute 5
  | .sync => K.perMinute 60
  | .poke => K.perMinute 30

/-- `RateLimiters`. -/
abbrev RateLimiters := Limiter → K.RateLimiter

/-- `RateLimiters::new`. -/
def RateLimiters.new (config : RateLimitConfig K) : RateLimiters K :=
  fun limiter => K.dashmap (config limiter)

/-- The checks that handlers make; `/query` makes a second one when it has to prove. -/
inductive Check
  | message
  | announce
  | peers
  | query
  | queryProof
  | anchors
  | hints
  | peek
  | chainProof
  | reverse
  | addrs
  | sync
  | syncSummary
  | poke
  | stats
deriving DecidableEq

/-- The limiter that a check charges. -/
def Check.limiter : Check → Limiter
  | .message => .message
  | .announce => .announce
  | .queryProof => .proof
  | .chainProof => .proof
  | .sync => .sync
  | .syncSummary => .sync
  | .poke => .poke
  | .peers => .read
  | .query => .read
  | .anchors => .read
  | .hints => .read
  | .peek => .read
  | .reverse => .read
  | .addrs => .read
  | .stats => .read

/-- The check goes by the allow-list; that of `/peek` does not. -/
def Check.heedsAllowlist : Check → Bool
  | .peek => false
  | _ => true

/-- The settings that the checks read. -/
structure Config extends ProxyConfig K where
  rateLimits : RateLimitConfig K
  rateLimitAllowlist : List IpAddr

/-- A request at a check: when, from which socket, with which headers. -/
structure Ask where
  time : ℕ
  addr : IpAddr
  headers : HeaderMap
  check : Check

/-- A check, or the periodic `cleanup`. -/
inductive Event
  | ask (ask : Ask)
  | cleanup (time : ℕ)

def Event.time : Event → ℕ
  | .ask a => a.time
  | .cleanup time => time

variable {K}

variable (config : Config K)

/-- `client_ip`. -/
def clientIp (a : Ask) : IpAddr :=
  resolveClientIp a.addr a.headers config.toProxyConfig

/-- `is_rate_limited`, or `check_key` where the allow-list is not heeded. -/
def overLimit (a : Ask) (limits : RateLimiters K) : Bool × RateLimiters K :=
  let ip := clientIp config a
  let limiter := a.check.limiter
  if a.check.heedsAllowlist && config.rateLimitAllowlist.contains ip then (false, limits)
  else
    let (ok, charged) :=
      (K.keyed (config.rateLimits limiter)).check a.time ip (limits limiter)
    (!ok, Function.update limits limiter charged)

/-- `RateLimiters::cleanup`. -/
def cleanup (time : ℕ) (limits : RateLimiters K) : RateLimiters K :=
  fun limiter => (K.keyed (config.rateLimits limiter)).retain time (limits limiter)

/-- The limiters after an event. -/
def step (limits : RateLimiters K) : Event → RateLimiters K
  | .ask a => (overLimit config a limits).2
  | .cleanup time => cleanup config time limits

/-- The request of an event is let through. -/
def admits (limits : RateLimiters K) : Event → Bool
  | .ask a => !(overLimit config a limits).1
  | .cleanup _ => false

/-- How many requests of a run are let through, of those that `of` is about. -/
def admitted (of : Ask → Bool) : RateLimiters K → List Event → ℕ
  | _, [] => 0
  | limits, event :: events =>
      (match event with
        | .ask a => if of a && admits config limits event then 1 else 0
        | .cleanup _ => 0) + admitted of (step config limits event) events

end Limiters

section Windows

variable {K : LimitCrates} (config : Config K) (limiter : Limiter)

/-- The request passes by the limiters. -/
def exempt (a : Ask) : Bool :=
  a.check.heedsAllowlist && config.rateLimitAllowlist.contains (clientIp config a)

/-- What an event is for one limiter. -/
def useOf : Event → Option (Use IpAddr)
  | .ask a =>
      if a.check.limiter = limiter ∧ exempt config a = false then
        some ⟨a.time, some (clientIp config a)⟩
      else none
  | .cleanup time => some ⟨time, none⟩

variable {config limiter}

theorem step_ask
    (limits : RateLimiters K)
    (a : Ask) :
    step config limits (.ask a) =
      if exempt config a then limits
      else Function.update limits a.check.limiter
        ((K.keyed (config.rateLimits a.check.limiter)).check a.time (clientIp config a)
          (limits a.check.limiter)).2 := by
  unfold step overLimit exempt
  dsimp only
  split_ifs <;> rfl

theorem admits_ask
    (limits : RateLimiters K)
    (a : Ask) :
    admits config limits (.ask a) =
      (exempt config a || ((K.keyed (config.rateLimits a.check.limiter)).check a.time
        (clientIp config a) (limits a.check.limiter)).1) := by
  unfold admits overLimit exempt
  dsimp only
  split_ifs with hexempt
  · rw [hexempt]
    rfl
  · rw [Bool.eq_false_iff.2 hexempt, Bool.not_not, Bool.false_or]

theorem useOf_exempt
    {a : Ask}
    (h : exempt config a = true) :
    useOf config limiter (.ask a) = none :=
  if_neg (fun hand => Bool.false_ne_true (hand.2.symm.trans h))

theorem useOf_other
    {a : Ask}
    (h : a.check.limiter ≠ limiter) :
    useOf config limiter (.ask a) = none :=
  if_neg (fun hand => h hand.1)

theorem useOf_charged
    {a : Ask}
    (h : a.check.limiter = limiter)
    (hexempt : exempt config a = false) :
    useOf config limiter (.ask a) = some ⟨a.time, some (clientIp config a)⟩ :=
  if_pos ⟨h, hexempt⟩

/-- One event is one use of a limiter, or none. -/
theorem step_limiter
    (limits : RateLimiters K)
    (event : Event) :
    step config limits event limiter =
      match useOf config limiter event with
      | some u => ((K.keyed (config.rateLimits limiter)).serve (limits limiter) u).2
      | none => limits limiter := by
  cases event with
  | cleanup time =>
      rfl
  | ask a =>
      rw [step_ask]
      cases hexempt : exempt config a with
      | true =>
          rw [useOf_exempt hexempt, if_pos rfl]
      | false =>
          rw [if_neg Bool.false_ne_true]
          by_cases hlimiter : a.check.limiter = limiter
          · rw [useOf_charged hlimiter hexempt, ← hlimiter, Function.update_self]
            rfl
          · rw [useOf_other hlimiter, Function.update_of_ne (Ne.symm hlimiter)]

/-- **A run of requests is a run of each limiter**: the requests that are charged to an
address, and let through, are the grants of that address. -/
theorem uses_of_run
    {ip : IpAddr}
    (hip : ip ∉ config.rateLimitAllowlist)
    (limits : RateLimiters K)
    (events : List Event) :
    admitted config
        (fun a => decide (a.check.limiter = limiter ∧ clientIp config a = ip))
        limits events =
      (K.keyed (config.rateLimits limiter)).grants ip (limits limiter)
        (events.filterMap (useOf config limiter)) := by
  induction events generalizing limits with
  | nil =>
      rfl
  | cons event events ih =>
      have hnext := ih (step config limits event)
      rw [step_limiter] at hnext
      unfold admitted
      rw [hnext]
      cases event with
      | cleanup time =>
          rfl
      | ask a =>
          dsimp only
          cases hexempt : exempt config a with
          | true =>
              -- the address of the request is on the list, so it is another one
              have hother : clientIp config a ≠ ip := by
                rintro rfl
                unfold exempt at hexempt
                rw [Bool.and_eq_true, List.contains_iff_mem] at hexempt
                exact hip hexempt.2
              rw [useOf_exempt hexempt, List.filterMap_cons_none (useOf_exempt hexempt),
                if_neg (by simp [hother]), Nat.zero_add]
          | false =>
              by_cases hlimiter : a.check.limiter = limiter
              · rw [useOf_charged hlimiter hexempt,
                  List.filterMap_cons_some (useOf_charged hlimiter hexempt), admits_ask, hexempt,
                  Bool.false_or, hlimiter]
                rw [Keyed.grants_cons]
                unfold Keyed.serve
                simp only [Bool.and_eq_true, decide_eq_true_eq, true_and, Option.some.injEq]
              · rw [useOf_other hlimiter, List.filterMap_cons_none (useOf_other hlimiter),
                  if_neg (by simp [hlimiter]), Nat.zero_add]

theorem useOf_time
    {event : Event}
    {u : Use IpAddr}
    (h : useOf config limiter event = some u) :
    u.time = event.time := by
  cases event with
  | cleanup time =>
      cases h
      rfl
  | ask a =>
      unfold useOf at h
      dsimp only at h
      split_ifs at h
      cases h
      rfl

theorem admitted_mono
    {of of' : Ask → Bool}
    (h : ∀ a, of a = true → of' a = true)
    (limits : RateLimiters K)
    (events : List Event) :
    admitted config of limits events ≤ admitted config of' limits events := by
  induction events generalizing limits with
  | nil =>
      exact le_rfl
  | cons event events ih =>
      unfold admitted
      refine Nat.add_le_add ?_ (ih (step config limits event))
      cases event with
      | cleanup time =>
          exact le_rfl
      | ask a =>
          dsimp only
          by_cases hcounts : (of a && admits config limits (.ask a)) = true
          · obtain ⟨hof, hadmits⟩ := Bool.and_eq_true_iff.1 hcounts
            rw [if_pos hcounts, if_pos (by rw [h a hof, hadmits]; rfl)]
          · rw [if_neg hcounts]
            exact Nat.zero_le _

/-- **In a stretch of time an address gets its burst, and one request for each period**, at
the checks of one limiter, whatever others ask meanwhile. -/
theorem admitted_le
    {full : K.RateLimiter → Buckets IpAddr}
    (hgoverns : K.Governs full)
    {ip : IpAddr}
    (hip : ip ∉ config.rateLimitAllowlist)
    (limits : RateLimiters K)
    {events : List Event}
    (hsorted : events.Pairwise (fun e f => e.time ≤ f.time))
    {start stop : ℕ}
    (hwithin : ∀ event ∈ events, start ≤ event.time ∧ event.time ≤ stop) :
    admitted config
        (fun a => decide (a.check.limiter = limiter ∧ clientIp config a = ip))
        limits events ≤
      K.burstSize (config.rateLimits limiter) +
        (stop - start) / K.replenishInterval (config.rateLimits limiter) := by
  have hevent : ∀ u ∈ events.filterMap (useOf config limiter),
      start ≤ u.time ∧ u.time ≤ stop := by
    intro u hu
    obtain ⟨event, hmem, huse⟩ := List.mem_filterMap.1 hu
    rw [useOf_time huse]
    exact hwithin event hmem
  rw [uses_of_run hip]
  refine (hgoverns (config.rateLimits limiter)).grants_le ip (limits limiter) ?_
    (fun u hu => (hevent u hu).1) (fun u hu => (hevent u hu).2)
  refine hsorted.filterMap _ ?_
  intro e f hle u hu v hv
  rw [useOf_time hu, useOf_time hv]
  exact hle

/-- **A socket that is no proxy cannot get more than its burst and its rate**: headers do not
help it, nor what others ask, nor cleanups. -/
theorem untrusted_socket_bounded
    (K : LimitCrates)
    (full : K.RateLimiter → Buckets IpAddr)
    (hgoverns : K.Governs full)
    (config : Config K)
    (limiter : Limiter)
    (addr : IpAddr)
    (huntrusted : config.Untrusted addr)
    (hlisted : addr ∉ config.rateLimitAllowlist)
    (limits : RateLimiters K)
    (events : List Event)
    (hsorted : events.Pairwise (fun e f => e.time ≤ f.time))
    (start stop : ℕ)
    (hwithin : ∀ event ∈ events, start ≤ event.time ∧ event.time ≤ stop) :
    admitted config (fun a => decide (a.check.limiter = limiter ∧ a.addr = addr))
        limits events ≤
      K.burstSize (config.rateLimits limiter) +
        (stop - start) / K.replenishInterval (config.rateLimits limiter) := by
  refine (admitted_mono ?_ limits events).trans
    (admitted_le hgoverns hlisted limits hsorted hwithin)
  intro a ha
  rw [decide_eq_true_iff] at ha ⊢
  refine ⟨ha.1, ?_⟩
  unfold clientIp
  rw [ha.2]
  exact resolveClientIp_of_untrusted huntrusted a.headers

/-- Token buckets, networks of version 4, and a parser that reads every text as `0.0.0.1`. -/
def sampleCrates : LimitCrates where
  IpNet := Cidr 32
  contains net addr :=
    match addr with
    | .v4 bits => decide (net.Contains bits)
    | .v6 _ => false
  parse _ := some (.v4 1)
  Quota := Quota
  perMinute n := ⟨max 1 (60 * 10 ^ 9 / n), n, Nat.le_max_left _ _⟩
  burstSize := Quota.burst
  replenishInterval := Quota.period
  RateLimiter := Buckets IpAddr
  dashmap _ := Buckets.fresh
  keyed q := ⟨Buckets.take q, Buckets.forget⟩

theorem governs_sampleCrates :
    sampleCrates.Governs id :=
  fun q => Buckets.gcra q

/-- A socket that sends another address with each request, behind no proxy that is trusted:
of three announcements within a nanosecond, and a cleanup, no more than five pass. -/
theorem untrusted_socket_bounded_sample :
    let quotas : RateLimitConfig sampleCrates := .default sampleCrates
    let config : Config sampleCrates :=
      ⟨⟨some "x-forwarded-for", [⟨0x0A000000, 8⟩]⟩, quotas, []⟩
    let asking (time : ℕ) (claimed : String) : Event :=
      .ask ⟨time, .v4 0xCB007107, fun _ => some claimed, .announce⟩
    admitted config (fun a => decide (a.check.limiter = .announce ∧ a.addr = .v4 0xCB007107))
        (.new sampleCrates quotas)
        [asking 7 "1.1.1.1", .cleanup 7, asking 7 "2.2.2.2", asking 8 "3.3.3.3"] ≤ 5 := by
  intro quotas config asking
  have hbound := untrusted_socket_bounded sampleCrates id governs_sampleCrates config .announce
    (.v4 0xCB007107) (.inr (by decide)) List.not_mem_nil (.new sampleCrates quotas)
    [asking 7 "1.1.1.1", .cleanup 7, asking 7 "2.2.2.2", asking 8 "3.3.3.3"]
    (by simp [asking, Event.time]) 7 8 (by simp [asking, Event.time])
  exact hbound.trans (by decide)

end Windows

section Isolation

variable {K : LimitCrates} (full : K.RateLimiter → Buckets IpAddr) (config : Config K)
  (ip : IpAddr)

/-- An event that is no request of the address. -/
def elsewhere : Event → Bool
  | .ask a => decide (clientIp config a ≠ ip)
  | .cleanup _ => true

/-- The limiters with the instant of the last event. -/
def tick (s : ℕ × RateLimiters K) (event : Event) : ℕ × RateLimiters K :=
  (event.time, step config s.2 event)

/-- Events come one after another. -/
def inOrder (s : ℕ × RateLimiters K) (event : Event) : Prop :=
  s.1 ≤ event.time

/-- The cell of the address is full again at the same instant in both, in each limiter. -/
def AlikeFor (s s' : ℕ × RateLimiters K) : Prop :=
  s'.1 ≤ s.1 ∧
    ∀ limiter, (full (s.2 limiter)).due s.1 ip = (full (s'.2 limiter)).due s.1 ip

variable {full config ip}

theorem due_later
    {b b' : Buckets IpAddr}
    {now later : ℕ}
    (h : b.due now ip = b'.due now ip)
    (hlater : now ≤ later) :
    b.due later ip = b'.due later ip := by
  unfold Buckets.due at h ⊢
  omega

/-- What others ask, and cleanups, leave the cells of an address as they are. -/
theorem due_step_elsewhere
    (hgoverns : K.Governs full)
    {event : Event}
    (h : elsewhere config ip event = true)
    (limits : RateLimiters K)
    (limiter : Limiter) :
    (full (step config limits event limiter)).due event.time ip =
      (full (limits limiter)).due event.time ip := by
  cases event with
  | cleanup time =>
      exact (hgoverns (config.rateLimits limiter)).retained time (limits limiter) ip
  | ask a =>
      have hother : clientIp config a ≠ ip := of_decide_eq_true h
      rw [step_ask]
      split_ifs with hexempt
      · rfl
      · by_cases hlimiter : limiter = a.check.limiter
        · subst hlimiter
          rw [Function.update_self]
          exact (hgoverns (config.rateLimits a.check.limiter)).other a.time (clientIp config a)
            (limits a.check.limiter) ip hother.symm
        · rw [Function.update_of_ne hlimiter]

/-- A request is answered by the cells of its address. -/
theorem step_alike
    (hgoverns : K.Governs full)
    {a : Ask}
    {limits limits' : RateLimiters K}
    (h : ∀ limiter, (full (limits limiter)).due a.time (clientIp config a) =
      (full (limits' limiter)).due a.time (clientIp config a)) :
    admits config limits (.ask a) = admits config limits' (.ask a) ∧
      ∀ limiter, (full (step config limits (.ask a) limiter)).due a.time (clientIp config a) =
        (full (step config limits' (.ask a) limiter)).due a.time (clientIp config a) := by
  obtain ⟨hanswer, htaken⟩ :=
    (hgoverns (config.rateLimits a.check.limiter)).check_of_due (h a.check.limiter)
  rw [admits_ask, admits_ask, hanswer]
  refine ⟨rfl, fun limiter => ?_⟩
  rw [step_ask, step_ask]
  split_ifs with hexempt
  · exact h limiter
  · by_cases hlimiter : limiter = a.check.limiter
    · subst hlimiter
      rw [Function.update_self, Function.update_self]
      exact htaken
    · rw [Function.update_of_ne hlimiter, Function.update_of_ne hlimiter]
      exact h limiter

/-- **What others ask is not noticed**: at every check, the requests of an address are
answered as they would be if nobody else had asked, and nothing had been cleaned up. -/
theorem limits_isolated
    (K : LimitCrates)
    (full : K.RateLimiter → Buckets IpAddr)
    (hgoverns : K.Governs full)
    (config : Config K)
    (ip : IpAddr)
    (limits : RateLimiters K)
    (start : ℕ)
    (events : List Event)
    (horder : Runs.StepsMeet (tick config) inOrder (start, limits) events) :
    Runs.heard (tick config) (fun s => admits config s.2) (elsewhere config ip)
        (start, limits) events =
      Runs.heard (tick config) (fun s => admits config s.2) (elsewhere config ip)
        (start, limits) (Runs.purge (elsewhere config ip) events) := by
  refine (Runs.heard_purge (R := AlikeFor full ip) ?_ ?_ horder ⟨le_rfl, fun _ => rfl⟩).1
  · intro s s' event ⟨hclock, halike⟩ hlater helse
    refine ⟨hclock.trans hlater, fun limiter => ?_⟩
    exact (due_step_elsewhere hgoverns helse s.2 limiter).trans
      (due_later (halike limiter) hlater)
  · intro s s' event ⟨hclock, halike⟩ hlater hloud
    cases event with
    | cleanup time =>
        cases hloud
    | ask a =>
        have hip : clientIp config a = ip := not_not.1 (of_decide_eq_false hloud)
        subst hip
        obtain ⟨hanswer, hnext⟩ :=
          step_alike hgoverns (fun limiter => due_later (halike limiter) hlater)
        exact ⟨hanswer, le_rfl, hnext⟩

/-- An address that asks twice, between the requests of another one and a cleanup. -/
theorem limits_isolated_sample :
    let quotas : RateLimitConfig sampleCrates := .default sampleCrates
    let config : Config sampleCrates := ⟨⟨none, []⟩, quotas, []⟩
    let asking (time : ℕ) (addr : BitVec 32) : Event :=
      .ask ⟨time, .v4 addr, fun _ => none, .announce⟩
    let out (events : List Event) : List Bool :=
      Runs.heard (tick config) (fun s => admits config s.2) (elsewhere config (.v4 1))
        (0, .new sampleCrates quotas) events
    out [asking 1 1, asking 2 7, .cleanup 3, asking 3 7, asking 3 1] =
      out [asking 1 1, asking 3 1] := by
  intro quotas config asking out
  exact limits_isolated sampleCrates id governs_sampleCrates config (.v4 1)
    (.new sampleCrates quotas) 0 [asking 1 1, asking 2 7, .cleanup 3, asking 3 7, asking 3 1]
    ⟨Nat.zero_le _, Nat.le_succ _, Nat.le_succ _, Nat.le_refl _, Nat.le_refl _, trivial⟩

end Isolation

end RateLimits
end CertRelay
