/-
# Throttles for repeated failed attempts

The two backends of `api/rate_limit.py`: `RateLimiter`, which keeps the times of the failures of
each key in a deque of the process, and `RedisWindow`, which keeps them in a sorted set of Redis.

A Redis server is a map from keys to sorted sets; a key that is absent is an empty set without an
expiry, and a key is gone once its expiry has passed.  The clock of the server is the clock of
the caller.

* `Tracked`, `tracked_check`, `tracked_record` : the deque of a key is what its log has in the
  window;
* `Mirrored`, `mirrored_check`, `mirrored_record` : the sorted set is, with each time once.
-/
import ProcureSignal.Library.Collections

namespace ProcureSignal.RateLimit

/-! ## Limits -/

/-- `LOGIN_MAX_ATTEMPTS`. -/
def loginMaxAttempts : ℕ := 5

/-- `LOGIN_WINDOW_SECONDS`. -/
def loginWindowSeconds : ℕ := 15 * 60

/-- `DEFAULT_MAX_KEYS`. -/
def defaultMaxKeys : ℕ := 10000

/-- The limits a throttle is built with; only the process-local one counts its keys. -/
structure Limits where
  maxAttempts : ℕ
  window : ℕ
  maxKeys : ℕ := defaultMaxKeys
  deriving DecidableEq, Repr

/-- The limits of `login_limiter` and `login_window`. -/
def loginLimits : Limits where
  maxAttempts := loginMaxAttempts
  window := loginWindowSeconds

/-- `int(·)` truncates. -/
def int (q : ℚ) : ℤ := if 0 ≤ q then ⌊q⌋ else ⌈q⌉

variable (L : Limits)

/-- Times up to the cutoff have left the window. -/
def cutoff (now : ℚ) : ℚ := now - L.window

/-- The seconds to wait after the earliest failure in the window. -/
def retryAfter (earliest now : ℚ) : ℤ := max 1 (int (earliest + L.window - now))

/-! ## `RateLimiter` -/

/-- `self._attempts`: the times of the failures of each key. -/
abbrev Attempts := Dict String (List ℚ)

/-- `_prune`: times behind the window leave the deque, and an empty deque the dictionary. -/
def prune (attempts : Attempts) (key : String) (now : ℚ) : Attempts × Option (List ℚ) :=
  match attempts.get? key with
  | none => (attempts, none)
  | some times =>
      let window := times.dropWhile (· ≤ cutoff L now)
      if window = [] then (attempts.erase key, none)
      else (attempts.set key window, some window)

/-- `RateLimiter.check`. -/
def check (attempts : Attempts) (key : String) (now : ℚ) : Attempts × Option ℤ :=
  match prune L attempts key now with
  | (attempts, some (earliest :: later)) =>
      if (earliest :: later).length < L.maxAttempts then (attempts, none)
      else (attempts, some (retryAfter L earliest now))
  -- `_prune` hands out no empty deque
  | (attempts, _) => (attempts, none)

/-- `_evict_expired`: keys whose last failure is behind the window. -/
def evictExpired (attempts : Attempts) (now : ℚ) : Attempts :=
  attempts.filter fun _ times => !(times.getLast?.any (· ≤ cutoff L now))

/-- The least recently active key, the first of several. -/
def oldest (attempts : Attempts) : Option String :=
  (attempts.entries.argmin fun e => e.2.getLastD 0).map (·.1)

/-- `RateLimiter.record`. -/
def record (attempts : Attempts) (key : String) (now : ℚ) : Attempts :=
  let evicted := evictExpired L attempts now
  let appended := evicted.set key ((evicted.get? key).getD [] ++ [now])
  let pruned := (prune L appended key now).1
  if L.maxKeys < pruned.length then
    match oldest pruned with
    | some k => pruned.erase k
    | none => pruned
  else pruned

/-! ## Redis -/

/-- A key of the server. -/
structure RedisKey where
  members : SortedSet String ℚ
  expiresAt : Option ℚ

/-- A key that is not there. -/
def RedisKey.absent : RedisKey := ⟨SortedSet.empty, none⟩

/-- What the server stores. -/
abbrev Server := String → RedisKey

/-- The server before any command. -/
def Server.empty : Server := fun _ => RedisKey.absent

/-- A key at a time: one whose expiry has passed is gone. -/
def Server.read (server : Server) (key : String) (now : ℚ) : RedisKey :=
  if (server key).expiresAt.any (· < now) then RedisKey.absent else server key

/-- `ZREMRANGEBYSCORE`; a set without members is no key. -/
def zremrangebyscore (server : Server) (key : String) (lo hi now : ℚ) : Server :=
  let kept := (server.read key now).members.zremrangebyscore lo hi
  Function.update server key
    (if kept.zcard = 0 then RedisKey.absent else ⟨kept, (server.read key now).expiresAt⟩)

/-- `ZADD`. -/
def zadd (server : Server) (key member : String) (score now : ℚ) : Server :=
  Function.update server key
    ⟨(server.read key now).members.zadd member score, (server.read key now).expiresAt⟩

/-- `EXPIRE` of a key that is there. -/
def expire (server : Server) (key : String) (seconds : ℕ) (now : ℚ) : Server :=
  if (server.read key now).members.zcard = 0 then server
  else Function.update server key ⟨(server.read key now).members, some (now + seconds)⟩

/-! ## `RedisWindow` -/

/-- `_key`. -/
def redisKey (key : String) : String := "ratelimit:" ++ key

/-- `RedisWindow.check`, whose commands are one transaction. -/
def redisCheck (server : Server) (key : String) (now : ℚ) : Server × Option ℤ :=
  let pruned := zremrangebyscore server (redisKey key) 0 (cutoff L now) now
  let members := (pruned.read (redisKey key) now).members
  if members.zcard < L.maxAttempts then (pruned, none)
  else
    let earliest := match members.zfirst with
      | some e => e.2
      | none => now
    (pruned, some (retryAfter L earliest now))

/-- `RedisWindow.record`; `name` is the text of a time, `f"\x7bnow\x7d"`. -/
def redisRecord (name : ℚ → String) (server : Server) (key : String) (now : ℚ) : Server :=
  let pruned := zremrangebyscore server (redisKey key) 0 (cutoff L now) now
  let added := zadd pruned (redisKey key) (name now) now now
  expire added (redisKey key) (L.window + 60) now

/-! ## The failures in the window -/

/-- The failures of a log that lie in the window. -/
def live (log : List ℚ) (now : ℚ) : List ℚ := log.filter (cutoff L now < ·)

theorem cutoff_mono {s t : ℚ} (h : s ≤ t) : cutoff L s ≤ cutoff L t :=
  sub_le_sub_right h _

theorem mem_live {log : List ℚ} {now s : ℚ} : s ∈ live L log now ↔ s ∈ log ∧ cutoff L now < s := by
  rw [live, List.mem_filter, decide_eq_true_eq]

/-- The window only loses failures. -/
theorem live_live {log : List ℚ} {s t : ℚ} (h : s ≤ t) :
    live L (live L log s) t = live L log t :=
  filter_lt_filter_lt (cutoff_mono L h) log

/-- The deque of a key, empty when it has none. -/
def deque (attempts : Attempts) (key : String) : List ℚ := (attempts.get? key).getD []

/-- The dictionary holds, of the failures of each key, those in the window. -/
structure Tracked (log : String → List ℚ) (t : ℚ) (attempts : Attempts) : Prop where
  recent : ∀ k now, t ≤ now → live L (deque attempts k) now = live L (log k) now
  sorted : ∀ k, (deque attempts k).Pairwise (· ≤ ·)
  past : ∀ k, ∀ s ∈ deque attempts k, s ≤ t
  keys : ∀ k times, attempts.get? k = some times → times ≠ [] ∧ log k ≠ []

variable {L} {log : String → List ℚ} {t now : ℚ} {attempts : Attempts}

/-- Without failures nothing is held. -/
theorem tracked_empty (t : ℚ) : Tracked L (fun _ => []) t Dict.empty where
  recent := fun _ _ _ => rfl
  sorted := fun _ => List.Pairwise.nil
  past := fun _ _ h => absurd h List.not_mem_nil
  keys := fun _ _ h => nomatch h

/-- The deque of the key that is pruned. -/
theorem prune_eq (h : Tracked L log t attempts) (ht : t ≤ now) (key : String) :
    ((prune L attempts key now).2.getD [] = live L (log key) now ∧
      (prune L attempts key now).2 ≠ some []) ∧
    ∀ k, deque (prune L attempts key now).1 k =
      if k = key then live L (log key) now else deque attempts k := by
  have hrecent := h.recent key now ht
  have hsorted := h.sorted key
  unfold prune
  cases hget : attempts.get? key with
  | none =>
      have hdeque : deque attempts key = [] := by rw [deque, hget]; rfl
      rw [hdeque] at hrecent
      refine ⟨⟨hrecent, nofun⟩, fun k => ?_⟩
      split_ifs with hk
      · rw [hk, hdeque]
        exact hrecent
      · rfl
  | some times =>
      have hdeque : deque attempts key = times := by rw [deque, hget]; rfl
      rw [hdeque] at hrecent hsorted
      simp only [dropWhile_le_eq_filter hsorted]
      have hwindow : times.filter (cutoff L now < ·) = live L (log key) now := hrecent
      rw [hwindow]
      split_ifs with hnil
      · refine ⟨⟨hnil.symm, nofun⟩, fun k => ?_⟩
        rw [deque, Dict.get?_erase]
        split_ifs
        · exact hnil.symm
        · rfl
      · refine ⟨⟨rfl, fun hsome => hnil (Option.some.inj hsome)⟩, fun k => ?_⟩
        rw [deque, Dict.get?_set]
        split_ifs <;> rfl

/-- The answer of a check, from the failures in the window. -/
def answer (L : Limits) (now : ℚ) : List ℚ → Option ℤ
  | [] => none
  | earliest :: later =>
      if (earliest :: later).length < L.maxAttempts then none
      else some (retryAfter L earliest now)

/-- A check answers from the failures in the window. -/
theorem check_eq (h : Tracked L log t attempts) (ht : t ≤ now) (key : String) :
    (check L attempts key now).1 = (prune L attempts key now).1 ∧
      (check L attempts key now).2 = answer L now (live L (log key) now) := by
  obtain ⟨⟨hlive, hne⟩, -⟩ := prune_eq h ht key
  rw [← hlive]
  unfold check
  match hprune : prune L attempts key now with
  | (attempts', none) => exact ⟨rfl, rfl⟩
  | (attempts', some []) =>
      rw [hprune] at hne
      exact absurd rfl hne
  | (attempts', some (earliest :: later)) =>
      simp only [Option.getD_some, answer]
      split_ifs <;> exact ⟨rfl, rfl⟩

/-- A prune keeps track. -/
theorem Tracked.prune (h : Tracked L log t attempts) (ht : t ≤ now) (key : String) :
    Tracked L log now (prune L attempts key now).1 := by
  obtain ⟨-, hdeque⟩ := prune_eq h ht key
  have hlive : live L (log key) now = live L (deque attempts key) now :=
    (h.recent key now ht).symm
  refine ⟨fun k now' hnow => ?_, fun k => ?_, fun k s hs => ?_, fun k times hget => ?_⟩
  · rw [hdeque]
    split_ifs with hk
    · rw [hk, live_live L hnow]
    · exact h.recent k now' (ht.trans hnow)
  · rw [hdeque]
    split_ifs
    · rw [hlive]
      exact (h.sorted key).filter _
    · exact h.sorted k
  · rw [hdeque] at hs
    split_ifs at hs
    · rw [hlive, mem_live] at hs
      exact (h.past key s hs.1).trans ht
    · exact (h.past k s hs).trans ht
  · unfold RateLimit.prune at hget
    cases hold : attempts.get? key with
    | none =>
        rw [hold] at hget
        exact h.keys k times hget
    | some old =>
        simp only [hold] at hget
        split_ifs at hget with hnil
        · rw [Dict.get?_erase] at hget
          split_ifs at hget
          exact h.keys k times hget
        · rw [Dict.get?_set] at hget
          split_ifs at hget with hk
          · rw [hk, ← Option.some.inj hget]
            exact ⟨hnil, (h.keys key old hold).2⟩
          · exact h.keys k times hget

/-- A key is evicted when all its failures are behind the window. -/
theorem deque_evictExpired (h : Tracked L log t attempts) (k : String) :
    deque (evictExpired L attempts now) k = deque attempts k ∨
      deque (evictExpired L attempts now) k = [] ∧
        ∀ s ∈ deque attempts k, s ≤ cutoff L now := by
  have hsorted := h.sorted k
  unfold evictExpired deque at *
  rw [Dict.get?_filter]
  cases hget : attempts.get? k with
  | none => exact Or.inl rfl
  | some times =>
      rw [hget, Option.getD_some] at hsorted
      rw [Option.filter_some]
      split_ifs with hlast
      · exact Or.inl rfl
      · refine Or.inr ⟨rfl, fun s hs => ?_⟩
        rw [Option.getD_some] at hs
        rw [Bool.not_eq_true', Bool.not_eq_false, Option.any_eq_true] at hlast
        obtain ⟨last, hmem, hle⟩ := hlast
        rw [decide_eq_true_eq] at hle
        obtain ⟨init, rfl⟩ := List.getLast?_eq_some_iff.mp hmem
        -- the last of a sorted deque is the latest
        rcases List.mem_append.mp hs with hs | hs
        · exact ((List.pairwise_append.mp hsorted).2.2 s hs last (by simp)).trans hle
        · rw [List.mem_singleton.mp hs]
          exact hle

/-- An eviction keeps track. -/
theorem Tracked.evictExpired (h : Tracked L log t attempts) (ht : t ≤ now) :
    Tracked L log now (evictExpired L attempts now) := by
  refine ⟨fun k now' hnow => ?_, fun k => ?_, fun k s hs => ?_, fun k times hget => ?_⟩
  · rw [← h.recent k now' (ht.trans hnow)]
    rcases deque_evictExpired h k with heq | ⟨heq, hgone⟩
    · rw [heq]
    · have hnil : live L (deque attempts k) now' = [] := by
        rw [live, List.filter_eq_nil_iff]
        intro s hs
        rw [decide_eq_true_eq, not_lt]
        exact (hgone s hs).trans (cutoff_mono L hnow)
      rw [heq, hnil]
      rfl
  · rcases deque_evictExpired h k with heq | ⟨heq, -⟩
    · rw [heq]
      exact h.sorted k
    · rw [heq]
      exact List.Pairwise.nil
  · rcases deque_evictExpired h k with heq | ⟨heq, -⟩
    · rw [heq] at hs
      exact (h.past k s hs).trans ht
    · rw [heq] at hs
      exact absurd hs List.not_mem_nil
  · rw [RateLimit.evictExpired, Dict.get?_filter, Option.filter_eq_some_iff] at hget
    exact h.keys k times hget.1

/-- The log of a key after a failure. -/
def logged (log : String → List ℚ) (key : String) (now : ℚ) : String → List ℚ :=
  Function.update log key (log key ++ [now])

/-- An appended failure keeps track. -/
theorem Tracked.append (h : Tracked L log now attempts) (key : String) :
    Tracked L (logged log key now) now (attempts.set key (deque attempts key ++ [now])) := by
  have hdeque : ∀ k, deque (attempts.set key (deque attempts key ++ [now])) k =
      if k = key then deque attempts key ++ [now] else deque attempts k := by
    intro k
    rw [deque, Dict.get?_set]
    split_ifs <;> rfl
  refine ⟨fun k now' hnow => ?_, fun k => ?_, fun k s hs => ?_, fun k times hget => ?_⟩
  · rw [hdeque, logged, Function.update_apply]
    split_ifs with hk
    · rw [live, live, List.filter_append, List.filter_append]
      congr 1
      exact h.recent key now' hnow
    · exact h.recent k now' hnow
  · rw [hdeque]
    split_ifs
    · rw [List.pairwise_append]
      refine ⟨h.sorted key, List.pairwise_singleton _ _, fun s hs s' hs' => ?_⟩
      rw [List.mem_singleton.mp hs']
      exact h.past key s hs
    · exact h.sorted k
  · rw [hdeque] at hs
    split_ifs at hs
    · rcases List.mem_append.mp hs with hs | hs
      · exact h.past key s hs
      · exact le_of_eq (List.mem_singleton.mp hs)
    · exact h.past k s hs
  · rw [Dict.get?_set] at hget
    rw [logged, Function.update_apply]
    split_ifs at hget ⊢
    · rw [← Option.some.inj hget]
      exact ⟨List.append_ne_nil_of_right_ne_nil _ (List.cons_ne_nil _ _),
        List.append_ne_nil_of_right_ne_nil _ (List.cons_ne_nil _ _)⟩
    · exact h.keys k times hget

/-- **A recorded failure keeps track**, as long as there is room for the keys in use. -/
theorem Tracked.record (h : Tracked L log t attempts) (ht : t ≤ now) {key : String}
    {keys : List String} (hkeys : ∀ k, logged log key now k ≠ [] → k ∈ keys)
    (hroom : keys.dedup.length ≤ L.maxKeys) :
    Tracked L (logged log key now) now (record L attempts key now) := by
  have hpruned := ((h.evictExpired ht).append key).prune le_rfl key
  have hlength := (Dict.length_le fun k times hget =>
    hkeys k (hpruned.keys k times hget).2).trans hroom
  unfold deque at hpruned hlength
  unfold RateLimit.record
  simp only
  rw [if_neg (not_lt.mpr hlength)]
  exact hpruned

/-! ## The sorted set of a key -/

variable {name : ℚ → String} {server : Server}

variable (L name) in
/-- The server holds, of the failures of each key, those in the window, each time once. -/
structure Mirrored (log : String → List ℚ) (t : ℚ) (server : Server) : Prop where
  members : ∀ k now, t ≤ now → ∀ e,
    e ∈ (server.read (redisKey k) now).members.entries ∧ cutoff L now < e.2 ↔
      ∃ s ∈ log k, cutoff L now < s ∧ e = (name s, s)
  positive : ∀ k, ∀ e ∈ (server (redisKey k)).members.entries, 0 ≤ e.2

/-- Keys of the throttle are different keys of the server. -/
theorem redisKey_inj {k k' : String} : redisKey k = redisKey k' ↔ k = k' := by
  refine ⟨fun h => ?_, fun h => by rw [h]⟩
  have hlist := congrArg String.toList h
  rw [redisKey, redisKey, String.toList_append, String.toList_append] at hlist
  exact String.toList_inj.mp (List.append_cancel_left hlist)

/-- Without failures the server holds nothing. -/
theorem mirrored_empty (t : ℚ) : Mirrored L name (fun _ => []) t Server.empty where
  members := fun k now _ e => by
    simp [Server.read, Server.empty, RedisKey.absent, SortedSet.empty]
  positive := fun k e h => absurd h List.not_mem_nil

/-- What a key that is read holds, it holds in the store. -/
theorem mem_of_mem_read {key : String} {e : String × ℚ}
    (h : e ∈ (server.read key now).members.entries) : e ∈ (server key).members.entries := by
  unfold Server.read at h
  split_ifs at h
  · exact absurd h List.not_mem_nil
  · exact h

/-- A key read twice: what is there later is there earlier. -/
theorem read_of_read {key : String} {s : ℚ} (h : s ≤ now) {e : String × ℚ}
    (he : e ∈ (server.read key now).members.entries) :
    server.read key now = server key ∧ server.read key s = server key := by
  unfold Server.read at he ⊢
  split_ifs at he with hgone
  · exact absurd he List.not_mem_nil
  · rw [if_neg hgone, if_neg]
    · exact ⟨rfl, rfl⟩
    · intro hs
      refine hgone ?_
      rw [Option.any_eq_true] at hs ⊢
      obtain ⟨x, hx, hlt⟩ := hs
      exact ⟨x, hx, by simpa using (of_decide_eq_true hlt).trans_le h⟩

/-- A key that is read has not expired. -/
theorem expiresAt_read (server : Server) (key : String) (now : ℚ) :
    (server.read key now).expiresAt.any (· < now) = false := by
  unfold Server.read
  split_ifs with hgone
  · rfl
  · exact Bool.eq_false_iff.mpr hgone

variable (L) in
/-- The set of a key after a removal. -/
theorem members_zremrangebyscore (server : Server) (key : String) (now : ℚ) :
    ((zremrangebyscore server key 0 (cutoff L now) now).read key now).members.entries =
      ((server.read key now).members.zremrangebyscore 0 (cutoff L now)).entries := by
  rw [Server.read, zremrangebyscore, Function.update_self]
  split_ifs with hnone hgone hgone
  · exact (List.eq_nil_of_length_eq_zero hnone).symm
  · exact (List.eq_nil_of_length_eq_zero hnone).symm
  · rw [expiresAt_read] at hgone
    cases hgone
  · rfl

/-- **The set right after a removal** has each failure in the window once. -/
theorem mem_pruned (h : Mirrored L name log t server) (ht : t ≤ now) (key : String)
    {e : String × ℚ} :
    e ∈ ((zremrangebyscore server (redisKey key) 0 (cutoff L now) now).read
        (redisKey key) now).members.entries ↔
      ∃ s ∈ log key, cutoff L now < s ∧ e = (name s, s) := by
  rw [members_zremrangebyscore, SortedSet.mem_zremrangebyscore, ← h.members key now ht]
  refine and_congr_right fun he => ?_
  have hpos := h.positive key e (mem_of_mem_read he)
  rw [and_iff_right hpos, not_le]

/-- A removal leaves the other keys. -/
theorem read_zremrangebyscore_of_ne {k key : String} (hk : k ≠ key) (lo hi s now : ℚ) :
    (zremrangebyscore server (redisKey key) lo hi s).read (redisKey k) now =
      server.read (redisKey k) now := by
  rw [Server.read, Server.read, zremrangebyscore,
    Function.update_of_ne (fun heq => hk (redisKey_inj.mp heq))]

/-- A removal mirrors the log. -/
theorem Mirrored.prune (h : Mirrored L name log t server) (ht : t ≤ now) (key : String) :
    Mirrored L name log now
      (zremrangebyscore server (redisKey key) 0 (cutoff L now) now) := by
  refine ⟨fun k now' hnow e => ?_, fun k e he => ?_⟩
  · by_cases hk : k = key
    · subst hk
      constructor
      · rintro ⟨he, hlt⟩
        obtain ⟨hthen, hnow⟩ := read_of_read hnow he
        rw [hthen, ← hnow, mem_pruned h ht] at he
        obtain ⟨s, hs, -, rfl⟩ := he
        exact ⟨s, hs, hlt, rfl⟩
      · rintro ⟨s, hs, hlt, rfl⟩
        have hlt' : cutoff L now < s := (cutoff_mono L hnow).trans_lt hlt
        refine ⟨?_, hlt⟩
        have hold := ((h.members k now' (ht.trans hnow) (name s, s)).mpr ⟨s, hs, hlt, rfl⟩).1
        obtain ⟨hthen, hthere⟩ := read_of_read hnow hold
        have hkept : (name s, s) ∈
            ((server.read (redisKey k) now).members.zremrangebyscore 0 (cutoff L now)).entries := by
          rw [← members_zremrangebyscore, mem_pruned h ht]
          exact ⟨s, hs, hlt', rfl⟩
        -- the key is still there, with the expiry it had
        have hcard : ¬((server.read (redisKey k) now).members.zremrangebyscore 0
            (cutoff L now)).zcard = 0 := by
          intro hzero
          rw [List.eq_nil_of_length_eq_zero hzero] at hkept
          exact absurd hkept List.not_mem_nil
        have hexpiry : (server.read (redisKey k) now).expiresAt.any (· < now') = false := by
          rw [hthere, ← hthen]
          exact expiresAt_read server _ now'
        rw [Server.read, RateLimit.zremrangebyscore, Function.update_self, if_neg hcard, hexpiry]
        exact hkept
    · rw [read_zremrangebyscore_of_ne hk]
      exact h.members k now' (ht.trans hnow) e
  · rw [RateLimit.zremrangebyscore, Function.update_apply] at he
    split_ifs at he
    · exact absurd he List.not_mem_nil
    · rename_i hk _
      rw [redisKey_inj] at hk
      rw [SortedSet.mem_zremrangebyscore, hk.symm] at he
      exact h.positive k e (mem_of_mem_read he.1)
    · exact h.positive k e he

variable (L) in
/-- The answer of `RedisWindow.check`, from the failures in the window. -/
def redisAnswer (now : ℚ) (live : List ℚ) : Option ℤ :=
  if live.dedup.length < L.maxAttempts then none
  else some (retryAfter L (live.headD now) now)

/-- The set counts each time once, and its first score is the earliest time. -/
theorem pruned_eq {members : SortedSet String ℚ} (live : List ℚ) (now : ℚ)
    (hsorted : live.Pairwise (· ≤ ·)) (hname : ∀ s ∈ live, ∀ s' ∈ live, name s = name s' → s = s')
    (hmem : ∀ e, e ∈ members.entries ↔ ∃ s ∈ live, e = (name s, s)) :
    members.zcard = live.dedup.length ∧
      (match members.zfirst with | some e => e.2 | none => now) = live.headD now := by
  constructor
  · have hnodup : (live.dedup.map fun s => (name s, s)).Nodup :=
      (List.nodup_dedup live).map fun s s' heq => (Prod.mk.inj heq).2
    have hperm : members.entries.Perm (live.dedup.map fun s => (name s, s)) := by
      rw [List.perm_ext_iff_of_nodup (members.nodup.of_map _) hnodup]
      intro e
      rw [hmem, List.mem_map]
      simp only [List.mem_dedup, eq_comm]
    rw [SortedSet.zcard, hperm.length_eq, List.length_map]
  · cases live with
    | nil =>
        have hnil : members.entries = [] := by
          refine List.eq_nil_iff_forall_not_mem.mpr fun e he => ?_
          obtain ⟨s, hs, -⟩ := (hmem e).mp he
          exact absurd hs List.not_mem_nil
        rw [SortedSet.zfirst, hnil]
        rfl
    | cons a rest =>
        have ha : (name a, a) ∈ members.entries := (hmem _).mpr ⟨a, List.mem_cons_self, rfl⟩
        cases hfirst : members.zfirst with
        | none =>
            rw [SortedSet.zfirst, List.head?_eq_none_iff] at hfirst
            rw [hfirst] at ha
            exact absurd ha List.not_mem_nil
        | some e =>
            have hle := SortedSet.zfirst_le hfirst ha
            obtain ⟨s, hs, rfl⟩ := (hmem e).mp (List.mem_of_mem_head? hfirst)
            refine le_antisymm hle ?_
            rcases List.mem_cons.mp hs with rfl | hs
            · exact le_rfl
            · exact List.rel_of_pairwise_cons hsorted hs

/-- `RedisWindow.check` answers from the failures in the window. -/
theorem redisCheck_eq (h : Mirrored L name log t server) (ht : t ≤ now) (key : String)
    (hsorted : (log key).Pairwise (· ≤ ·))
    (hname : ∀ s ∈ log key, ∀ s' ∈ log key, name s = name s' → s = s') :
    (redisCheck L server key now).1 =
        zremrangebyscore server (redisKey key) 0 (cutoff L now) now ∧
      (redisCheck L server key now).2 = redisAnswer L now (live L (log key) now) := by
  obtain ⟨hcard, hfirst⟩ := pruned_eq (live L (log key) now) now
    (hsorted.filter _)
    (fun s hs s' hs' => hname s (List.mem_of_mem_filter hs) s' (List.mem_of_mem_filter hs'))
    (fun e => (mem_pruned h ht key (e := e)).trans (by simp only [mem_live, and_assoc]))
  unfold redisCheck redisAnswer
  simp only [hcard]
  split_ifs with hfew
  · exact ⟨rfl, rfl⟩
  · refine ⟨rfl, ?_⟩
    rw [← hfirst]

/-- The set of a key after a failure. -/
theorem redisRecord_self (name : ℚ → String) (server : Server) (key : String) (now : ℚ) :
    redisRecord L name server key now (redisKey key) =
      ⟨((zremrangebyscore server (redisKey key) 0 (cutoff L now) now).read (redisKey key)
        now).members.zadd (name now) now, some (now + (L.window + 60 : ℕ))⟩ := by
  let pruned := (zremrangebyscore server (redisKey key) 0 (cutoff L now) now).read (redisKey key)
    now
  have hadded : (zadd (zremrangebyscore server (redisKey key) 0 (cutoff L now) now) (redisKey key)
      (name now) now now).read (redisKey key) now =
        ⟨pruned.members.zadd (name now) now, pruned.expiresAt⟩ := by
    rw [Server.read, zadd, Function.update_self, if_neg]
    rw [expiresAt_read]
    exact Bool.false_ne_true
  have hcard : ¬(pruned.members.zadd (name now) now).zcard = 0 := by
    intro hzero
    have hmem : (name now, now) ∈ (pruned.members.zadd (name now) now).entries :=
      SortedSet.mem_zadd.mpr (Or.inl rfl)
    rw [List.eq_nil_of_length_eq_zero hzero] at hmem
    exact absurd hmem List.not_mem_nil
  rw [redisRecord, expire, hadded, if_neg hcard, Function.update_self]

/-- A failure leaves the other keys. -/
theorem redisRecord_of_ne (name : ℚ → String) (server : Server) {k key : String} (hk : k ≠ key)
    (now : ℚ) : redisRecord L name server key now (redisKey k) = server (redisKey k) := by
  have hne : redisKey k ≠ redisKey key := fun heq => hk (redisKey_inj.mp heq)
  simp only [redisRecord, expire]
  split_ifs
  · rw [zadd, Function.update_of_ne hne, zremrangebyscore, Function.update_of_ne hne]
  · rw [Function.update_of_ne hne, zadd, Function.update_of_ne hne, zremrangebyscore,
      Function.update_of_ne hne]

/-- **A recorded failure is mirrored.** -/
theorem Mirrored.record (h : Mirrored L name log t server) (ht : t ≤ now) (hpos : 0 ≤ now)
    {key : String} (hpast : ∀ s ∈ log key, s ≤ now)
    (hname : ∀ s ∈ log key, name s = name now → s = now) :
    Mirrored L name (logged log key now) now (redisRecord L name server key now) := by
  refine ⟨fun k now' hnow e => ?_, fun k e he => ?_⟩
  · by_cases hk : k = key
    · subst hk
      rw [Server.read, redisRecord_self, logged, Function.update_self]
      simp only [Option.any_some, decide_eq_true_eq]
      split_ifs with hgone
      · -- the key expires after the window of every failure
        refine iff_of_false (fun he => absurd he.1 List.not_mem_nil) ?_
        rintro ⟨s, hs, hlt, -⟩
        have hle : s ≤ now := by
          rcases List.mem_append.mp hs with hs | hs
          · exact hpast s hs
          · exact le_of_eq (List.mem_singleton.mp hs)
        rw [cutoff] at hlt
        push_cast at hgone
        linarith
      · simp only [SortedSet.mem_zadd, mem_pruned h ht, List.mem_append, List.mem_singleton]
        constructor
        · rintro ⟨rfl | ⟨⟨s, hs, -, rfl⟩, -⟩, hlt⟩
          · exact ⟨now, Or.inr rfl, hlt, rfl⟩
          · exact ⟨s, Or.inl hs, hlt, rfl⟩
        · rintro ⟨s, hs | rfl, hlt, rfl⟩
          · by_cases hsame : s = now
            · exact ⟨Or.inl (by rw [hsame]), hlt⟩
            · exact ⟨Or.inr ⟨⟨s, hs, (cutoff_mono L hnow).trans_lt hlt, rfl⟩,
                fun heq => hsame (hname s hs heq)⟩, hlt⟩
          · exact ⟨Or.inl rfl, hlt⟩
    · rw [Server.read, redisRecord_of_ne name server hk, ← Server.read, logged,
        Function.update_of_ne hk]
      exact h.members k now' (ht.trans hnow) e
  · by_cases hk : k = key
    · subst hk
      rw [redisRecord_self, SortedSet.mem_zadd] at he
      rcases he with rfl | ⟨he, -⟩
      · exact hpos
      · exact (h.prune ht k).positive k e (mem_of_mem_read he)
    · rw [redisRecord_of_ne name server hk] at he
      exact h.positive k e he

end ProcureSignal.RateLimit
