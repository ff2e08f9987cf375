import Scaffold.RateLimit.Redis

namespace Scaffold.RateLimit

open Machine Decimal Redis

section Windows

variable {ms limit t o : Nat} {times rest : List Nat} {windows before : List (List Nat)}

theorem Windows.begin (h : Windows ms limit times windows) (hlimit : 1 ≤ limit)
    (hover : ∀ w ∈ windows, ∀ o ∈ w.head?, o + ms < t) :
    Windows ms limit (times ++ [t]) (windows ++ [[t]]) := by
  refine ⟨?_, ?_, ?_, ?_⟩
  · rw [List.flatten_append, h.flat]
    rfl
  · intro w hw
    rcases List.mem_append.mp hw with hw | hw
    · exact h.opened w hw
    · obtain rfl := List.mem_singleton.mp hw
      exact ⟨t, [], rfl, by simp⟩
  · intro w hw
    rcases List.mem_append.mp hw with hw | hw
    · exact h.quota w hw
    · obtain rfl := List.mem_singleton.mp hw
      exact hlimit
  · refine List.pairwise_append.mpr ⟨h.apart, List.pairwise_singleton _ _, ?_⟩
    intro v hv w hw o ho t' ht'
    obtain rfl := List.mem_singleton.mp hw
    obtain rfl := List.mem_singleton.mp ht'
    exact hover v hv o ho

theorem Windows.join (h : Windows ms limit times (before ++ [o :: rest])) (hquota : rest.length + 1 < limit)
    (hopen : o ≤ t) (hend : t ≤ o + ms) :
    Windows ms limit (times ++ [t]) (before ++ [o :: (rest ++ [t])]) := by
  have hlast : o :: rest ∈ before ++ [o :: rest] := by simp
  have hin := h.opened _ hlast
  obtain ⟨-, -, hbefore⟩ := List.pairwise_append.mp h.apart
  refine ⟨?_, ?_, ?_, ?_⟩
  · rw [← h.flat]
    simp
  · intro w hw
    rcases List.mem_append.mp hw with hw | hw
    · exact h.opened w (List.mem_append_left _ hw)
    · obtain rfl := List.mem_singleton.mp hw
      refine ⟨o, rest ++ [t], rfl, fun x hx => ?_⟩
      obtain ⟨o', rest', heq, hall⟩ := hin
      obtain ⟨rfl, rfl⟩ := List.cons.inj heq
      rw [← List.cons_append, List.mem_append, List.mem_singleton] at hx
      rcases hx with hx | rfl
      · exact hall x hx
      · exact ⟨hopen, hend⟩
  · intro w hw
    rcases List.mem_append.mp hw with hw | hw
    · exact h.quota w (List.mem_append_left _ hw)
    · obtain rfl := List.mem_singleton.mp hw
      have hlength : (o :: (rest ++ [t])).length = rest.length + 1 + 1 := by simp
      omega
  · refine List.pairwise_append.mpr ⟨(List.pairwise_append.mp h.apart).1, List.pairwise_singleton _ _, ?_⟩
    intro v hv w hw o' ho' x hx
    obtain rfl := List.mem_singleton.mp hw
    rw [← List.cons_append, List.mem_append, List.mem_singleton] at hx
    rcases hx with hx | rfl
    · exact hbefore v hv _ (by simp) o' ho' x hx
    · have := hbefore v hv _ (List.mem_singleton_self _) o' ho' o (by simp)
      omega

-- When the last window is over, all of them are.
theorem Windows.over (h : Windows ms limit times (before ++ [o :: rest])) (hend : o + ms < t) :
    ∀ w ∈ before ++ [o :: rest], ∀ o' ∈ w.head?, o' + ms < t := by
  obtain ⟨-, -, hbefore⟩ := List.pairwise_append.mp h.apart
  intro w hw o' ho'
  rcases List.mem_append.mp hw with hw | hw
  · have := hbefore w hw _ (List.mem_singleton_self _) o' ho' o (by simp)
    omega
  · obtain rfl := List.mem_singleton.mp hw
    obtain rfl := Option.some.inj ho'
    exact hend

end Windows

section Script

variable {now limit ms n deadline : Nat} {limiter : FixedWindowLimiter}

theorem tonumber_decimal (n : Nat) : tonumber (decimal n) = some n := by
  have hne : decimal n ≠ [] := Nat.toDigits_ne_nil
  have hall : (decimal n).all Char.isDigit = true := by
    rw [List.all_eq_true]
    exact fun c => isDigit_of_mem_decimal
  simp [tonumber, hne, hall]

theorem get_counter (hnow : now ≤ deadline) :
    Redis.get now (some (counter n deadline)) = some (decimal n) := by
  rw [Redis.get, live_counter, if_pos hnow]
  rfl

theorem acquireWindow_absent {key : Option StringKey} (h : live now key = none) :
    acquireWindow now limit ms key = (some (counter 1 (now + ms)), .ok (1, 0)) := by
  simp only [acquireWindow, Redis.get, h]
  rfl

theorem acquireWindow_full (hn : 0 < n) (hlimit : limit ≤ n) (hnow : now ≤ deadline) :
    acquireWindow now limit ms (some (counter n deadline)) =
      (some (counter n deadline), .ok (0, (deadline - now : Nat))) := by
  have hvalid : ¬ (n < 1 ∨ ((deadline : Int) - now) < 0) := by omega
  unfold acquireWindow
  simp only [get_counter hnow, tonumber_decimal, pttl_counter hnow, if_neg hvalid, if_pos hlimit]
  rw [Int.ofNat_sub hnow]

theorem acquireWindow_open (hn : 0 < n) (hlimit : n < limit) (hmax : limit ≤ maxInteger)
    (hnow : now ≤ deadline) :
    acquireWindow now limit ms (some (counter n deadline)) =
      (some (counter (n + 1) deadline), .ok (1, 0)) := by
  have hvalid : ¬ (n < 1 ∨ ((deadline : Int) - now) < 0) := by omega
  have hnot : ¬ limit ≤ n := by omega
  unfold acquireWindow
  simp only [get_counter hnow, tonumber_decimal, pttl_counter hnow, if_neg hvalid, if_neg hnot,
    incr_counter hn (Nat.lt_of_lt_of_le hlimit hmax) hnow]

theorem acquireResult_allowed : acquireResult limiter (.ok (1, 0)) = .ok { allowed := true } := by
  simp [acquireResult, parseResult, decision]

theorem acquireResult_reject {ttl : Nat} (h : ttl ≤ limiter.windowSeconds * 1000) :
    acquireResult limiter (.ok (0, ttl)) =
      .ok { allowed := false, retryAfterSeconds := max 1 (((ttl : Int) + 999) / 1000) } := by
  have hvalid : (0 : Int) ≤ ttl ∧ (ttl : Int) ≤ limiter.windowSeconds * 1000 := by omega
  simp [acquireResult, parseResult, decision, hvalid]

end Script

section Keys

variable {sha256 : String → String}

theorem limiter_ext {a b : FixedWindowLimiter} (hmax : a.maxRequests = b.maxRequests)
    (hwindow : a.windowSeconds = b.windowSeconds) : a = b := by
  cases a
  cases b
  subst hmax hwindow
  rfl

-- The numbers in a key are digits, so its colons divide it.
theorem windowKey_injective (hsha : Function.Injective sha256) {a b : FixedWindowLimiter} {i j : String}
    (h : windowKey sha256 a i = windowKey sha256 b j) : a = b ∧ i = j := by
  unfold windowKey at h
  rw [List.append_assoc, List.append_assoc] at h
  have hnumbers := List.append_cancel_left h
  obtain ⟨hmax, hrest⟩ := decimal_append_injective (by decide) hnumbers
  obtain ⟨hwindow, hdigest⟩ := decimal_append_injective (by decide) hrest
  exact ⟨limiter_ext hmax hwindow, hsha (String.toList_injective hdigest)⟩

-- A request under another policy or by another identity uses another key.
theorem windowKey_ne (hsha : Function.Injective sha256) {limiter : FixedWindowLimiter} {identity : String}
    {r : Request} (hother : r.under limiter identity = false) :
    windowKey sha256 limiter identity ≠ windowKey sha256 r.limiter r.identity := by
  intro heq
  obtain ⟨rfl, rfl⟩ := windowKey_injective hsha heq
  simp [Request.under] at hother

end Keys

section Steps

variable {sha256 : String → String} {limiter : FixedWindowLimiter} {identity : String} {s s' : RateState}
  {r : Request} {windows : List (List Nat)}

def windowMs (limiter : FixedWindowLimiter) : Nat := limiter.windowSeconds * 1000

-- A request has a decision, and a rejection names a time after the end of its window.
def Judged (ms : Nat) (windows : List (List Nat)) (e : LogEntry) : Prop :=
  ∃ d, e.outcome = .ok d ∧ (d.allowed = false → 1 ≤ d.retryAfterSeconds ∧
    ∃ w ∈ windows, ∃ o ∈ w.head?, o ≤ e.request.time ∧ e.request.time ≤ o + ms ∧
      ((o + ms : Nat) : Int) ≤ e.request.time + 1000 * d.retryAfterSeconds)

-- The key of a policy and an identity counts the admissions of the last window.
structure PolicyInv (sha256 : String → String) (s : RateState) (limiter : FixedWindowLimiter)
    (identity : String) (windows : List (List Nat)) : Prop where
  division : Windows (windowMs limiter) limiter.maxRequests (admitted s.log limiter identity) windows
  past : ∀ t ∈ admitted s.log limiter identity, t ≤ s.now
  key : (windows = [] ∧ s.keys (windowKey sha256 limiter identity) = none) ∨
    ∃ before o rest, windows = before ++ [o :: rest] ∧
      s.keys (windowKey sha256 limiter identity) = some (counter (rest.length + 1) (o + windowMs limiter))
  judged : ∀ e ∈ s.log, e.request.under limiter identity = true → Judged (windowMs limiter) windows e

theorem admitted_append (log : List LogEntry) (e : LogEntry) :
    admitted (log ++ [e]) limiter identity =
      admitted log limiter identity ++
        if e.request.under limiter identity && e.allowed then [e.request.time] else [] := by
  unfold admitted
  rw [List.filter_append, List.map_append]
  congr 1
  by_cases h : (e.request.under limiter identity && e.allowed) = true <;> simp [h]

theorem rateStep_eq (h : rateStep sha256 s r = some s') :
    s.now ≤ r.time ∧ ∃ next reply,
      acquireWindow r.time r.limiter.maxRequests (windowMs r.limiter)
        (s.keys (windowKey sha256 r.limiter r.identity)) = (next, reply) ∧
      s' = {
        now := r.time
        keys := Function.update s.keys (windowKey sha256 r.limiter r.identity) next
        log := s.log ++ [⟨r, acquireResult r.limiter reply⟩] } := by
  obtain ⟨hnow, heq⟩ := guarded h
  exact ⟨hnow, _, _, rfl, heq.symm⟩

theorem policyInv_init : PolicyInv sha256 {} limiter identity [] := by
  refine ⟨⟨rfl, ?_, ?_, List.Pairwise.nil⟩, ?_, .inl ⟨rfl, rfl⟩, ?_⟩
  · intro w hw
    cases hw
  · intro w hw
    cases hw
  · intro t ht
    cases ht
  · intro e he
    cases he

theorem PolicyInv.other (hsha : Function.Injective sha256)
    (hi : PolicyInv sha256 s limiter identity windows)
    (hother : r.under limiter identity = false) (h : rateStep sha256 s r = some s') :
    PolicyInv sha256 s' limiter identity windows := by
  obtain ⟨hnow, next, reply, -, rfl⟩ := rateStep_eq h
  have hkey := windowKey_ne hsha hother
  have hadmitted : admitted (s.log ++ [⟨r, acquireResult r.limiter reply⟩]) limiter identity =
      admitted s.log limiter identity := by
    simp [admitted_append, hother]
  refine ⟨?_, ?_, ?_, ?_⟩
  · rw [hadmitted]
    exact hi.division
  · rw [hadmitted]
    intro t ht
    exact Nat.le_trans (hi.past t ht) hnow
  · simp only [Function.update_of_ne hkey]
    exact hi.key
  · intro e he hunder
    rcases List.mem_append.mp he with he | he
    · exact hi.judged e he hunder
    · obtain rfl := List.mem_singleton.mp he
      rw [hother] at hunder
      cases hunder

theorem Judged.mono {ms : Nat} {windows' : List (List Nat)} {e : LogEntry} (h : Judged ms windows e)
    (hsub : ∀ w ∈ windows, ∃ w' ∈ windows', w'.head? = w.head?) : Judged ms windows' e := by
  obtain ⟨d, hd, hreject⟩ := h
  refine ⟨d, hd, fun hnot => ?_⟩
  obtain ⟨hpos, w, hw, o, ho, hin⟩ := hreject hnot
  obtain ⟨w', hw', hhead⟩ := hsub w hw
  exact ⟨hpos, w', hw', o, hhead ▸ ho, hin⟩

-- An admission extends the windows.
theorem PolicyInv.grow {next : Option StringKey} {windows' : List (List Nat)}
    (hi : PolicyInv sha256 s r.limiter r.identity windows) (hnow : s.now ≤ r.time)
    (hwindows : Windows (windowMs r.limiter) r.limiter.maxRequests
      (admitted s.log r.limiter r.identity ++ [r.time]) windows')
    (hkey : ∃ before o rest, windows' = before ++ [o :: rest] ∧
      next = some (counter (rest.length + 1) (o + windowMs r.limiter)))
    (hsub : ∀ w ∈ windows, ∃ w' ∈ windows', w'.head? = w.head?) :
    PolicyInv sha256 {
      now := r.time
      keys := Function.update s.keys (windowKey sha256 r.limiter r.identity) next
      log := s.log ++ [⟨r, .ok { allowed := true }⟩] } r.limiter r.identity windows' := by
  have hadmitted : admitted (s.log ++ [⟨r, .ok { allowed := true }⟩]) r.limiter r.identity =
      admitted s.log r.limiter r.identity ++ [r.time] := by
    simp [admitted_append, Request.under, LogEntry.allowed]
  refine ⟨?_, ?_, .inr ?_, ?_⟩
  · rw [hadmitted]
    exact hwindows
  · rw [hadmitted]
    intro t ht
    rcases List.mem_append.mp ht with ht | ht
    · exact Nat.le_trans (hi.past t ht) hnow
    · exact Nat.le_of_eq (List.mem_singleton.mp ht)
  · simp only [Function.update_self]
    exact hkey
  · intro e he hunder
    rcases List.mem_append.mp he with he | he
    · exact (hi.judged e he hunder).mono hsub
    · obtain rfl := List.mem_singleton.mp he
      exact ⟨_, rfl, fun h => nomatch h⟩

def rejection (end_ time : Nat) : RateLimitDecision where
  allowed := false
  retryAfterSeconds := max 1 (((end_ - time : Nat) + 999 : Int) / 1000)

-- A request opens a window, joins the last one, or finds it full and changes nothing.
theorem acquire_cases (hi : PolicyInv sha256 s r.limiter r.identity windows)
    (h : rateStep sha256 s r = some s') :
    (s'.log = s.log ++ [⟨r, .ok { allowed := true }⟩] ∧
      ∃ windows', PolicyInv sha256 s' r.limiter r.identity windows') ∨
    (∃ before o rest, windows = before ++ [o :: rest] ∧ o ≤ r.time ∧ r.time ≤ o + windowMs r.limiter ∧
      rest.length + 1 = r.limiter.maxRequests ∧ s'.keys = s.keys ∧
      s'.log = s.log ++ [⟨r, .ok (rejection (o + windowMs r.limiter) r.time)⟩] ∧
      PolicyInv sha256 s' r.limiter r.identity windows) := by
  obtain ⟨hnow, next, reply, hscript, rfl⟩ := rateStep_eq h
  have hlimit := r.limiter.requests
  have hbegin : live r.time (s.keys (windowKey sha256 r.limiter r.identity)) = none →
      (∀ w ∈ windows, ∀ o ∈ w.head?, o + windowMs r.limiter < r.time) →
      next = some (counter 1 (r.time + windowMs r.limiter)) ∧
        acquireResult r.limiter reply = .ok { allowed := true } ∧
      PolicyInv sha256 {
        now := r.time
        keys := Function.update s.keys (windowKey sha256 r.limiter r.identity) next
        log := s.log ++ [⟨r, .ok { allowed := true }⟩] } r.limiter r.identity (windows ++ [[r.time]]) := by
    intro habsent hover
    rw [acquireWindow_absent habsent] at hscript
    obtain ⟨rfl, rfl⟩ := Prod.mk.inj hscript
    refine ⟨rfl, acquireResult_allowed, hi.grow hnow (hi.division.begin hlimit.1 hover)
      ⟨windows, r.time, [], rfl, rfl⟩ ?_⟩
    exact fun w hw => ⟨w, List.mem_append_left _ hw, rfl⟩
  rcases hi.key with ⟨rfl, hkey⟩ | ⟨before, o, rest, rfl, hkey⟩
  · obtain ⟨-, hresult, hinv⟩ := hbegin (by rw [hkey]; rfl) (by simp)
    rw [hresult]
    exact .inl ⟨rfl, _, hinv⟩
  · have hmem : o ∈ admitted s.log r.limiter r.identity := by
      rw [← hi.division.flat]
      simp
    have hopen := Nat.le_trans (hi.past o hmem) hnow
    by_cases hend : r.time ≤ o + windowMs r.limiter
    · rw [hkey] at hscript
      by_cases hfull : r.limiter.maxRequests ≤ rest.length + 1
      · right
        have hquota := hi.division.quota (o :: rest) (by simp)
        rw [List.length_cons] at hquota
        rw [acquireWindow_full (Nat.succ_pos _) hfull hend] at hscript
        obtain ⟨rfl, rfl⟩ := Prod.mk.inj hscript
        have hsame : Function.update s.keys (windowKey sha256 r.limiter r.identity)
            (some (counter (rest.length + 1) (o + windowMs r.limiter))) = s.keys := by
          rw [← hkey, Function.update_eq_self]
        have hms : o + windowMs r.limiter - r.time ≤ r.limiter.windowSeconds * 1000 := by
          unfold windowMs
          omega
        have hadmitted :
          admitted (s.log ++ [⟨r, .ok (rejection (o + windowMs r.limiter) r.time)⟩]) r.limiter
            r.identity = admitted s.log r.limiter r.identity := by
          simp [admitted_append, LogEntry.allowed, rejection]
        rw [hsame, acquireResult_reject hms]
        refine ⟨before, o, rest, rfl, hopen, hend, by omega, rfl, rfl, ?_, ?_,
          .inr ⟨before, o, rest, rfl, hkey⟩, ?_⟩
        · exact hadmitted ▸ hi.division
        · intro t ht
          exact Nat.le_trans (hi.past t (hadmitted ▸ ht)) hnow
        · intro e he hunder
          rcases List.mem_append.mp he with he | he
          · exact hi.judged e he hunder
          · obtain rfl := List.mem_singleton.mp he
            refine ⟨_, rfl, fun _ => ⟨Int.le_max_left _ _, o :: rest, by simp, o, rfl, hopen, hend, ?_⟩⟩
            dsimp only
            omega
      · left
        have hless : rest.length + 1 < r.limiter.maxRequests := by omega
        have hmax : r.limiter.maxRequests ≤ maxInteger := Nat.le_trans hlimit.2 (by decide)
        rw [acquireWindow_open (Nat.succ_pos _) hless hmax hend] at hscript
        obtain ⟨rfl, rfl⟩ := Prod.mk.inj hscript
        rw [acquireResult_allowed]
        refine ⟨rfl, before ++ [o :: (rest ++ [r.time])], ?_⟩
        refine hi.grow hnow (hi.division.join hless hopen hend)
          ⟨before, o, rest ++ [r.time], rfl, by simp⟩ ?_
        intro w hw
        rcases List.mem_append.mp hw with hw | hw
        · exact ⟨w, List.mem_append_left _ hw, rfl⟩
        · obtain rfl := List.mem_singleton.mp hw
          exact ⟨o :: (rest ++ [r.time]), by simp, rfl⟩
    · have hover : o + windowMs r.limiter < r.time := by omega
      obtain ⟨-, hresult, hinv⟩ := hbegin (by rw [hkey, live_counter, if_neg hend]) (hi.division.over hover)
      rw [hresult]
      exact .inl ⟨rfl, _, hinv⟩

theorem policyInv_step (hsha : Function.Injective sha256)
    (hi : ∀ limiter identity, ∃ windows, PolicyInv sha256 s limiter identity windows)
    (h : rateStep sha256 s r = some s') :
    ∀ limiter identity, ∃ windows, PolicyInv sha256 s' limiter identity windows := by
  intro limiter identity
  obtain ⟨windows, hinv⟩ := hi limiter identity
  by_cases hunder : r.under limiter identity = true
  · simp only [Request.under, decide_eq_true_eq] at hunder
    obtain ⟨rfl, rfl⟩ := hunder
    rcases acquire_cases hinv h with ⟨-, hnext⟩ | ⟨_, _, _, -, -, -, -, -, -, hnext⟩
    · exact hnext
    · exact ⟨windows, hnext⟩
  · exact ⟨windows, hinv.other hsha (by simpa using hunder) h⟩

-- `u` is what `s` is for one policy and one identity.
structure Agree (sha256 : String → String) (limiter : FixedWindowLimiter) (identity : String)
    (s u : RateState) : Prop where
  now : u.now ≤ s.now
  key : u.keys (windowKey sha256 limiter identity) = s.keys (windowKey sha256 limiter identity)
  log : u.log = s.log.filter (·.request.under limiter identity)

theorem Agree.step {u : RateState} (ha : Agree sha256 limiter identity s u)
    (h : rateStep sha256 s r = some s')
    (hunder : r.under limiter identity = true) :
    ∃ u', rateStep sha256 u r = some u' ∧ Agree sha256 limiter identity s' u' := by
  have hpair := hunder
  simp only [Request.under, decide_eq_true_eq] at hpair
  obtain ⟨rfl, rfl⟩ := hpair
  obtain ⟨hnow, next, reply, hscript, rfl⟩ := rateStep_eq h
  refine ⟨{
      now := r.time
      keys := Function.update u.keys (windowKey sha256 r.limiter r.identity) next
      log := u.log ++ [⟨r, acquireResult r.limiter reply⟩] }, ?_, Nat.le_refl _, ?_, ?_⟩
  · unfold windowMs at hscript
    simp only [rateStep, if_pos (Nat.le_trans ha.now hnow), ha.key, hscript]
  · simp
  · simp [ha.log, hunder]

theorem Agree.skip {u : RateState} (hsha : Function.Injective sha256)
    (ha : Agree sha256 limiter identity s u)
    (h : rateStep sha256 s r = some s') (hother : r.under limiter identity = false) :
    Agree sha256 limiter identity s' u := by
  obtain ⟨hnow, next, reply, -, rfl⟩ := rateStep_eq h
  have hkey := windowKey_ne hsha hother
  refine ⟨Nat.le_trans ha.now hnow, ?_, ?_⟩
  · simp only [Function.update_of_ne hkey, ha.key]
  · simp [ha.log, hother]

theorem agree_run (hsha : Function.Injective sha256) {requests : List Request} {u : RateState}
    (ha : Agree sha256 limiter identity s u) (h : run (rateStep sha256) s requests = some s') :
    ∃ u', run (rateStep sha256) u (requests.filter (·.under limiter identity)) = some u' ∧
      Agree sha256 limiter identity s' u' := by
  induction requests generalizing s u with
  | nil =>
      obtain rfl := Option.some.inj h
      exact ⟨u, rfl, ha⟩
  | cons r rest ih =>
      obtain ⟨next, hnext, hrest⟩ := (run_cons r rest).mp h
      by_cases hunder : r.under limiter identity = true
      · obtain ⟨u', hu', ha'⟩ := ha.step hnext hunder
        obtain ⟨final, hfinal, hagree⟩ := ih ha' hrest
        rw [List.filter_cons_of_pos hunder]
        exact ⟨final, (run_cons r _).mpr ⟨u', hu', hfinal⟩, hagree⟩
      · rw [List.filter_cons_of_neg hunder]
        exact ih (ha.skip hsha hnext (by simpa using hunder)) hrest

theorem fixed_window_quota (hsha : Function.Injective sha256) {requests : List Request}
    (hrun : run (rateStep sha256) {} requests = some s) :
    -- the admissions fall into disjoint windows within the quota
    (∀ limiter identity, ∃ windows,
      Windows (limiter.windowSeconds * 1000) limiter.maxRequests (admitted s.log limiter identity) windows) ∧
    -- the script's own results are accepted
    (∀ e ∈ s.log, ∃ d, e.outcome = .ok d) ∧
    -- a rejection finds the live window full and changes no key
    (∀ r d s', rateStep sha256 s r = some s' → s'.log = s.log ++ [⟨r, .ok d⟩] → d.allowed = false →
      s'.keys = s.keys ∧ 1 ≤ d.retryAfterSeconds ∧
      ∃ before o rest,
        Windows (r.limiter.windowSeconds * 1000) r.limiter.maxRequests (admitted s.log r.limiter r.identity)
          (before ++ [o :: rest]) ∧
        (o :: rest).length = r.limiter.maxRequests ∧ o ≤ r.time ∧
          r.time ≤ o + r.limiter.windowSeconds * 1000 ∧
        -- and its window is over when the announced time has passed
        ((o + r.limiter.windowSeconds * 1000 : Nat) : Int) ≤ r.time + 1000 * d.retryAfterSeconds) ∧
    -- a rejection after the time that an earlier rejection has announced is of a later window
    (∀ e d r d' s', e ∈ s.log → e.outcome = .ok d → d.allowed = false →
      r.under e.request.limiter e.request.identity = true →
      (e.request.time : Int) + 1000 * d.retryAfterSeconds < r.time →
      rateStep sha256 s r = some s' → s'.log = s.log ++ [⟨r, .ok d'⟩] → d'.allowed = false →
      ∃ o ∈ admitted s.log r.limiter r.identity, e.request.time < o) ∧
    -- the decisions of one identity under one policy are those without all other requests
    (∀ limiter identity, ∃ u,
      run (rateStep sha256) {} (requests.filter (·.under limiter identity)) = some u ∧
        u.log = s.log.filter (·.request.under limiter identity)) := by
  have hinv : ∀ limiter identity, ∃ windows, PolicyInv sha256 s limiter identity windows := by
    have hreach : Reaches (rateStep sha256) {} s := ⟨requests, hrun⟩
    exact hreach.invariant (fun _ _ _ hi hstep => policyInv_step hsha hi hstep) fun _ _ =>
      ⟨[], policyInv_init⟩
  -- a rejection, as its step and its decision show it
  have hreject : ∀ r d s' windows, PolicyInv sha256 s r.limiter r.identity windows →
      rateStep sha256 s r = some s' → s'.log = s.log ++ [⟨r, .ok d⟩] → d.allowed = false →
      ∃ before o rest, windows = before ++ [o :: rest] ∧ o ≤ r.time ∧ r.time ≤ o + windowMs r.limiter ∧
        rest.length + 1 = r.limiter.maxRequests ∧ s'.keys = s.keys ∧
        d = rejection (o + windowMs r.limiter) r.time := by
    intro r d s' windows hi hstep hlog hnot
    rcases acquire_cases hi hstep with ⟨hallowed, -⟩ | ⟨before, o, rest, hw, hopen, hend, hfull,
      hkeys, hlog', -⟩
    · rw [hlog] at hallowed
      have hentry := List.head_eq_of_cons_eq (List.append_cancel_left hallowed)
      simp only [LogEntry.mk.injEq, Except.ok.injEq, true_and] at hentry
      rw [hentry] at hnot
      cases hnot
    · rw [hlog] at hlog'
      have hentry := List.head_eq_of_cons_eq (List.append_cancel_left hlog')
      simp only [LogEntry.mk.injEq, Except.ok.injEq, true_and] at hentry
      exact ⟨before, o, rest, hw, hopen, hend, hfull, hkeys, hentry⟩
  refine ⟨?_, ?_, ?_, ?_, ?_⟩
  · intro limiter identity
    obtain ⟨windows, hi⟩ := hinv limiter identity
    exact ⟨windows, hi.division⟩
  · intro e he
    obtain ⟨windows, hi⟩ := hinv e.request.limiter e.request.identity
    obtain ⟨d, hd, -⟩ := hi.judged e he (by simp [Request.under])
    exact ⟨d, hd⟩
  · intro r d s' hstep hlog hnot
    obtain ⟨windows, hi⟩ := hinv r.limiter r.identity
    obtain ⟨before, o, rest, rfl, hopen, hend, hfull, hkeys, rfl⟩ :=
      hreject r d s' windows hi hstep hlog hnot
    refine ⟨hkeys, Int.le_max_left _ _, before, o, rest, hi.division, hfull, hopen, hend, ?_⟩
    simp only [rejection, windowMs] at hend ⊢
    omega
  · intro e d r d' s' he hd hnot hunder hlate hstep hlog hnot'
    have hpair := hunder
    simp only [Request.under, decide_eq_true_eq] at hpair
    obtain ⟨windows, hi⟩ := hinv r.limiter r.identity
    obtain ⟨before, o, rest, rfl, -, hend, -, -, -⟩ := hreject r d' s' windows hi hstep hlog hnot'
    obtain ⟨d'', hd'', hjudged⟩ := hi.judged e he (by simp [Request.under, hpair])
    rw [hd] at hd''
    obtain rfl := Except.ok.inj hd''
    obtain ⟨-, w, hw, o', ho', -, hin, hover⟩ := hjudged hnot
    refine ⟨o, ?_, ?_⟩
    · rw [← hi.division.flat]
      simp
    · -- the window of the earlier rejection is over, so it is not the last one
      rcases List.mem_append.mp hw with hw | hw
      · obtain ⟨-, -, hapart⟩ := List.pairwise_append.mp hi.division.apart
        have := hapart w hw _ (List.mem_singleton_self _) o' ho' o (by simp)
        omega
      · obtain rfl := List.mem_singleton.mp hw
        obtain rfl := Option.some.inj ho'
        omega
  · intro limiter identity
    have hstart : Agree sha256 limiter identity {} {} := ⟨Nat.le_refl _, rfl, rfl⟩
    obtain ⟨u, hu, hagree⟩ := agree_run hsha hstart hrun
    exact ⟨u, hu, hagree.log⟩

end Steps

-- SHA-256 at one address, and a function without collisions elsewhere.
def addressDigest (identity : String) : String :=
  if identity = "ip:192.0.2.1" then "4fa79423ef2fc7de17ee7d26e3373b1d0dfe93b99c8f26d2334d1c74c13eaf8b"
  else "ip:" ++ identity

theorem addressDigest_injective : Function.Injective addressDigest := by
  intro a b h
  unfold addressDigest at h
  split_ifs at h with ha hb hb
  · rw [ha, hb]
  · simpa using congrArg (·.toList.head?) h
  · simpa using congrArg (·.toList.head?) h
  · simpa using h

def onePerSecond : FixedWindowLimiter where
  maxRequests := 1
  windowSeconds := 1

-- At the last millisecond of its window the key has a time to live of 0, and the second request
-- is told to wait for a second.
theorem fixed_window_last_millisecond : ∃ s s',
    run (rateStep addressDigest) {} [⟨0, onePerSecond, "ip:192.0.2.1"⟩] = some s ∧
      rateStep addressDigest s ⟨1000, onePerSecond, "ip:192.0.2.1"⟩ = some s' ∧
      s'.log = s.log ++ [⟨⟨1000, onePerSecond, "ip:192.0.2.1"⟩, .ok ⟨false, 1⟩⟩] ∧ s'.keys = s.keys := by
  have hrun : run (rateStep addressDigest) {} [⟨0, onePerSecond, "ip:192.0.2.1"⟩] = some _ := rfl
  have hquota := fixed_window_quota addressDigest_injective hrun
  exact ⟨_, _, hrun, rfl, rfl, (hquota.2.2.1 _ _ _ rfl rfl rfl).1⟩

end Scaffold.RateLimit
