import Mathlib.Algebra.GroupWithZero.Nat
import Reckoner.Proofs.Attempt
import Reckoner.Proofs.Recency

/-!
# Accounting for the cache

The counters of a session account for what became of its evaluations. Since the session was last
cleared, every evaluation made while the cache was on is a hit or a miss, and every miss has failed,
or has left an entry that is still there or was forgotten. The texts that a request makes the session
forget are told by the cache before and after it and by the text that it has answered; how they are
picked plays no part here.
-/

namespace Reckoner

section Lists

variable {α : Type} [DecidableEq α]

/-- Of a list without repetitions, the members that are kept and those that are not make up all. -/
theorem length_filter_notMem_add {held kept : List α} (hheld : held.Nodup) (hkept : kept.Nodup)
    (hsub : kept ⊆ held) :
    (held.filter fun a => a ∉ kept).length + kept.length = held.length := by
  have hperm : (held.filter fun a => a ∈ kept).Perm kept := by
    refine (List.perm_ext_iff_of_nodup (hheld.filter _) hkept).mpr fun a => ?_
    rw [List.mem_filter, decide_eq_true_iff]
    exact and_iff_right_of_imp fun ha => hsub ha
  have hsplit := List.length_eq_countP_add_countP (fun a => decide (a ∈ kept)) (l := held)
  rw [List.countP_eq_length_filter, List.countP_eq_length_filter, hperm.length_eq] at hsplit
  simp only [decide_eq_true_eq] at hsplit
  omega

end Lists

/-- Trimming to some room at all keeps the latest entry. -/
theorem Cache.getLast?_trim (cache : Cache) {capacity : Nat} (h : 0 < capacity) :
    (cache.trim capacity).entries.getLast? = cache.entries.getLast? := by
  rw [Cache.trim, List.getLast?_drop]
  split
  · next hall =>
    have hsize : cache.size = cache.entries.length := rfl
    have hempty : cache.entries = [] := List.length_eq_zero_iff.mp (by omega)
    rw [hempty]
    rfl
  · rfl

namespace Passage

/-- Whether the request was an evaluation while the cache was on. -/
def isLookup (p : Passage) : Bool :=
  match p.step with
  | .evaluate _ => 0 < p.before.capacity
  | _ => false

/-- Whether the request was an evaluation that failed. -/
def failed (p : Passage) : Bool :=
  match p.reply.result with
  | some (.error _) => true
  | _ => false

/-- The texts that the request could have left remembered: those that were remembered before it, and
the one that it answered with a value while the cache was on. -/
def candidates (p : Passage) : List String :=
  match p.step with
  | .evaluate text =>
    if 0 < p.before.capacity ∧ p.succeeded = true then
      p.before.cache.keys.insert text
    else
      p.before.cache.keys
  | _ => p.before.cache.keys

/-- The texts that the request has made the session forget. -/
def forgotten (p : Passage) : List String :=
  p.candidates.filter fun text => text ∉ p.next.cache.keys

/-- The passages since the session was last cleared. -/
def sinceClear (past : List Passage) : List Passage :=
  past.rtakeWhile fun p => p.step ≠ .clear

/-- An answer to an evaluation made while the cache was on is a candidate. -/
theorem candidates_of_answer {p : Passage} {text : String} (hstep : p.step = .evaluate text)
    (hcapacity : 0 < p.before.capacity) (hsucceeded : p.succeeded = true) :
    p.candidates = p.before.cache.keys.insert text := by
  simp only [candidates, hstep]
  exact if_pos ⟨hcapacity, hsucceeded⟩

/-- Without such an answer the candidates are what was remembered before. -/
theorem candidates_of_no_answer {p : Passage} (h : p.isLookup = true → p.succeeded = false) :
    p.candidates = p.before.cache.keys := by
  unfold isLookup at h
  unfold candidates
  split
  · next text hstep =>
    refine if_neg fun hanswer => ?_
    rw [hstep] at h
    have hfailed := h (decide_eq_true hanswer.1)
    rw [hanswer.2] at hfailed
    cases hfailed
  · rfl

/-- No text is a candidate twice. -/
theorem nodup_candidates (p : Passage) : p.candidates.Nodup := by
  have hkeys : p.before.cache.keys.Nodup := p.before.cache.distinct
  unfold candidates
  split
  · split
    · exact hkeys.insert
    · exact hkeys
  · exact hkeys

/-- The candidates are remembered or forgotten. -/
theorem length_forgotten_add {p : Passage} (h : p.next.cache.keys ⊆ p.candidates) :
    p.forgotten.length + p.next.cache.size = p.candidates.length := by
  rw [Cache.size_eq_length_keys]
  exact length_filter_notMem_add p.nodup_candidates p.next.cache.distinct h

/-- Whether a request leaves the counters in balance: one of them counts an evaluation made while the
cache was on, and what the misses have grown by is a failure, a new entry, or makes up for an entry
that was forgotten. -/
structure Balanced (p : Passage) : Prop where
  lookups : p.next.hits + p.next.misses =
    p.before.hits + p.before.misses + if p.isLookup then 1 else 0
  misses : p.next.misses + p.before.cache.size =
    p.before.misses + p.next.cache.size + (if p.isLookup && p.failed then 1 else 0) +
      p.forgotten.length

section Requests

variable {p : Passage} {text : String} {value : Binary64}

/-- Nothing is forgotten by a request that leaves the cache as it is and stores no answer. -/
theorem length_forgotten_of_cache_eq (hcache : p.next.cache = p.before.cache)
    (hanswer : p.isLookup = true → p.succeeded = false) : p.forgotten.length = 0 := by
  have hcandidates := candidates_of_no_answer hanswer
  have hsplit : p.forgotten.length + p.next.cache.size = p.candidates.length :=
    length_forgotten_add (by rw [hcandidates, hcache]; exact List.Subset.refl _)
  rw [hcandidates, hcache, Cache.size_eq_length_keys] at hsplit
  omega

/-- A request that leaves the cache and the counters as they are is balanced if it is no evaluation
made while the cache was on. -/
theorem balanced_of_idle (hlookup : p.isLookup = false) (hcache : p.next.cache = p.before.cache)
    (hhits : p.next.hits = p.before.hits) (hmisses : p.next.misses = p.before.misses) :
    p.Balanced := by
  have hforgotten : p.forgotten.length = 0 :=
    length_forgotten_of_cache_eq hcache fun h => by rw [hlookup] at h; cases h
  constructor
  · simp [hlookup, hhits, hmisses]
  · simp [hlookup, hcache, hmisses, hforgotten]

/-- A miss that fails is balanced by the failure. -/
theorem balanced_of_failure {r : Rejection} (hlookup : p.isLookup = true)
    (hresult : p.reply.result = some (.error r)) (hcache : p.next.cache = p.before.cache)
    (hhits : p.next.hits = p.before.hits) (hmisses : p.next.misses = p.before.misses + 1) :
    p.Balanced := by
  have hforgotten : p.forgotten.length = 0 :=
    length_forgotten_of_cache_eq hcache fun _ => by simp [succeeded, hresult]
  constructor
  · simp [hlookup, hhits, hmisses]
    omega
  · simp [hlookup, failed, hresult, hcache, hmisses, hforgotten]
    omega

/-- Every text remembered after an answer was used is that of the answer or was remembered before. -/
theorem keys_touch_subset (cache : Cache) (text : String) (value : Binary64) :
    (cache.touch text value).keys ⊆ cache.keys.insert text := by
  intro other hother
  rw [Cache.keys_touch, List.mem_append, List.mem_filter, List.mem_singleton] at hother
  exact List.mem_insert_iff.mpr (hother.symm.imp_right And.left)

/-- A hit is balanced, for it uses a text that was remembered, and nothing is forgotten. -/
theorem balanced_of_hit (hstep : p.step = .evaluate text) (hcapacity : 0 < p.before.capacity)
    (hresult : p.reply.result = some (.ok value)) (hmem : text ∈ p.before.cache.keys)
    (hcache : p.next.cache = p.before.cache.touch text value)
    (hhits : p.next.hits = p.before.hits + 1) (hmisses : p.next.misses = p.before.misses) :
    p.Balanced := by
  have hcandidates : p.candidates = p.before.cache.keys.insert text :=
    candidates_of_answer hstep hcapacity (by simp [succeeded, hresult])
  have hsplit : p.forgotten.length + p.next.cache.size = p.candidates.length :=
    length_forgotten_add (by rw [hcandidates, hcache]; exact keys_touch_subset _ _ _)
  rw [hcandidates, List.insert_of_mem hmem, ← Cache.size_eq_length_keys, hcache,
    History.size_touch_of_mem hmem] at hsplit
  constructor
  · simp [isLookup, hstep, hcapacity, hhits, hmisses]
    omega
  · have hforgotten : p.forgotten.length = 0 := by omega
    simp [failed, hresult, hmisses, hcache, History.size_touch_of_mem hmem, hforgotten]

/-- A miss that is stored is balanced by the new entry, and by one that was forgotten for every one
that found no room. -/
theorem balanced_of_success (hstep : p.step = .evaluate text) (hcapacity : 0 < p.before.capacity)
    (hresult : p.reply.result = some (.ok value)) (hmiss : text ∉ p.before.cache.keys)
    (hcache : p.next.cache = (p.before.cache.touch text value).trim p.before.capacity.toNat)
    (hhits : p.next.hits = p.before.hits) (hmisses : p.next.misses = p.before.misses + 1) :
    p.Balanced := by
  have hcandidates : p.candidates = p.before.cache.keys.insert text :=
    candidates_of_answer hstep hcapacity (by simp [succeeded, hresult])
  have hsub : p.next.cache.keys ⊆ p.candidates := by
    rw [hcandidates, hcache, Cache.keys_trim]
    exact List.Subset.trans (List.drop_subset _ _) (keys_touch_subset _ _ _)
  have hsplit := length_forgotten_add hsub
  rw [hcandidates, List.length_insert_of_not_mem hmiss, ← Cache.size_eq_length_keys] at hsplit
  constructor
  · simp [isLookup, hstep, hcapacity, hhits, hmisses]
    omega
  · simp [failed, hresult, hmisses]
    omega

end Requests

end Passage

namespace Session

/-- Every request except for clearing leaves the counters in balance. -/
theorem Move.balanced {settings : Settings} {session next : Session} {step : Step} {reply : Reply}
    (hmove : Move settings session step next reply) (hstep : step ≠ .clear) :
    (Passage.mk session step next reply).Balanced := by
  cases hmove with
  | disabled hcapacity =>
    exact Passage.balanced_of_idle (decide_eq_false (Int.not_lt.mpr hcapacity)) rfl rfl rfl
  | hit hcapacity hfound =>
    have hmem := Cache.mem_keys_of_find? hfound
    exact Passage.balanced_of_hit rfl hcapacity rfl hmem rfl rfl rfl
  | failure hcapacity hfound hresult =>
    exact Passage.balanced_of_failure (decide_eq_true hcapacity) rfl rfl rfl rfl
  | success hcapacity hfound hresult =>
    have hmiss := (Cache.find?_eq_none_iff _ _).mp hfound
    exact Passage.balanced_of_success rfl hcapacity rfl hmiss rfl rfl rfl
  | clear => exact absurd rfl hstep
  | info => exact Passage.balanced_of_idle rfl rfl rfl rfl
  | setCapacity _ => exact Passage.balanced_of_idle rfl rfl rfl rfl
  | setAllowPartial _ => exact Passage.balanced_of_idle rfl rfl rfl rfl
  | setStrictNesting _ => exact Passage.balanced_of_idle rfl rfl rfl rfl

/-- The entry of an answer given while the cache was on is the latest one after it. -/
theorem Move.getLast?_entries {settings : Settings} {session next : Session} {text : String}
    {value : Binary64} {reply : Reply} (hmove : Move settings session (.evaluate text) next reply)
    (hcapacity : 0 < session.capacity) (hresult : reply.result = some (.ok value)) :
    next.cache.entries.getLast? = some (text, value) := by
  cases hmove with
  | disabled hoff => omega
  | hit _ hfound =>
    cases hresult
    exact List.getLast?_concat
  | failure _ _ hfailed => cases hresult
  | success _ _ hvalue =>
    cases hresult
    have hroom : 0 < session.capacity.toNat := by omega
    exact (Cache.getLast?_trim _ hroom).trans List.getLast?_concat

/-- A request that fails leaves the cache and the hits as they are. -/
theorem Move.eq_of_failed {settings : Settings} {session next : Session} {step : Step}
    {reply : Reply} (hmove : Move settings session step next reply) {r : Rejection}
    (hresult : reply.result = some (.error r)) :
    next.cache = session.cache ∧ next.hits = session.hits := by
  cases hmove with
  | hit _ _ => cases hresult
  | success _ _ _ => cases hresult
  | clear => cases hresult
  | disabled _ | failure _ _ _ | info | setCapacity _ | setAllowPartial _ | setStrictNesting _ =>
    exact ⟨rfl, rfl⟩

/-- A request other than clearing leaves the cache and the counters as they are if it is no evaluation
made while the cache was on. -/
theorem Move.eq_of_idle {settings : Settings} {session next : Session} {step : Step}
    {reply : Reply} (hmove : Move settings session step next reply)
    (hlookup : (Passage.mk session step next reply).isLookup = false) (hstep : step ≠ .clear) :
    next.cache = session.cache ∧ next.hits = session.hits ∧ next.misses = session.misses := by
  cases hmove with
  | hit hcapacity _ | failure hcapacity _ _ | success hcapacity _ _ =>
    exact absurd hcapacity (of_decide_eq_false hlookup)
  | clear => exact absurd rfl hstep
  | disabled _ | info | setCapacity _ | setAllowPartial _ | setStrictNesting _ =>
    exact ⟨rfl, rfl, rfl⟩

end Session

/-- Whether the counters of a session and the size of its cache account for the requests since it was
last cleared. -/
structure Session.Accounts (recent : List Passage) (session : Session) : Prop where
  lookups : session.hits + session.misses = recent.countP Passage.isLookup
  misses : session.misses =
    (recent.countP fun p => p.isLookup && p.failed) + session.cache.size +
      (recent.map fun p => p.forgotten.length).sum

namespace Passage

/-- After clearing no request is left to account for. -/
theorem sinceClear_concat_of_clear (past : List Passage) {p : Passage} (h : p.step = .clear) :
    sinceClear (past ++ [p]) = [] :=
  List.rtakeWhile_concat_neg _ _ _ (by simp [h])

/-- Any other request is one more to account for. -/
theorem sinceClear_concat_of_ne (past : List Passage) {p : Passage} (h : p.step ≠ .clear) :
    sinceClear (past ++ [p]) = sinceClear past ++ [p] :=
  List.rtakeWhile_concat_pos _ _ _ (by simp [h])

/-- One more balanced request is accounted for. -/
theorem Balanced.accounts {p : Passage} (hbalanced : p.Balanced) {recent : List Passage}
    (h : p.before.Accounts recent) : p.next.Accounts (recent ++ [p]) := by
  have hlookups := hbalanced.lookups
  have hmisses := hbalanced.misses
  have hbefore := h.lookups
  have hbefore' := h.misses
  constructor
  · rw [List.countP_append, List.countP_singleton]
    omega
  · rw [List.countP_append, List.countP_singleton, List.map_append, List.sum_append,
      List.map_singleton, List.sum_singleton]
    omega

end Passage

namespace Session

/-- After every run from a new session its counters account for the requests. -/
theorem accounts_after {settings : Settings} {start : Session} (hcache : start.cache = .empty)
    (hhits : start.hits = 0) (hmisses : start.misses = 0) (steps : List Step) :
    (start.after settings steps).Accounts (Passage.sinceClear (start.passages settings steps)) := by
  refine invariant_after (fun past session => session.Accounts (Passage.sinceClear past)) ?_ ?_ steps
  · constructor
    · rw [hhits, hmisses]
      rfl
    · rw [hmisses, hcache]
      rfl
  · intro past session step next reply hpast hmove
    by_cases hclear : step = .clear
    · subst hclear
      rw [Passage.sinceClear_concat_of_clear past rfl]
      cases hmove
      exact ⟨rfl, rfl⟩
    · rw [Passage.sinceClear_concat_of_ne past hclear]
      exact (hmove.balanced hclear).accounts hpast

end Session

/-- Since the last time that a session was cleared, its hits and misses are the evaluations made while
the cache was on, and its misses are those that failed, the entries that it has and the entries that
were forgotten. An evaluation that fails leaves the cache and the hits as they are; one made while the
cache is off and every change of a setting leave the cache and both counters as they are; and the
entry of an answer given while the cache is on is the latest one, and not forgotten at once. -/
theorem counters_account (settings : Settings) (capacity : Option Int)
    (allowPartial strictNesting : Option Bool) (steps : List Step) :
    let start := Session.new settings capacity allowPartial strictNesting
    let session := start.after settings steps
    let past := start.passages settings steps
    let recent := Passage.sinceClear past
    session.hits + session.misses = recent.countP Passage.isLookup ∧
      session.misses = (recent.countP fun p => p.isLookup && p.failed) + session.cache.size +
        (recent.map fun p => p.forgotten.length).sum ∧
      ∀ p ∈ past,
        (p.failed = true → p.next.cache = p.before.cache ∧ p.next.hits = p.before.hits) ∧
        (p.isLookup = false → p.step ≠ .clear → p.next.cache = p.before.cache ∧
          p.next.hits = p.before.hits ∧ p.next.misses = p.before.misses) ∧
        ∀ text value, p.step = .evaluate text → 0 < p.before.capacity →
          p.reply.result = some (.ok value) →
          p.next.cache.entries.getLast? = some (text, value) ∧ text ∉ p.forgotten := by
  intro start session past recent
  have haccounts : session.Accounts recent := Session.accounts_after rfl rfl rfl steps
  refine ⟨haccounts.lookups, haccounts.misses, fun p hp => ?_⟩
  obtain ⟨before, step, next, reply⟩ := p
  have hmove := Session.move_of_mem_passages hp
  refine ⟨fun hfailed => ?_, hmove.eq_of_idle, ?_⟩
  · unfold Passage.failed at hfailed
    split at hfailed
    · next hresult => exact hmove.eq_of_failed hresult
    · cases hfailed
  · rintro text value rfl hcapacity hresult
    have hlast := hmove.getLast?_entries hcapacity hresult
    refine ⟨hlast, fun hforgotten => ?_⟩
    have hkept : text ∈ next.cache.keys :=
      List.mem_map.mpr ⟨_, List.mem_of_getLast? hlast, rfl⟩
    simpa [hkept] using (List.mem_filter.mp hforgotten).2

/-- With room for one value, `1+` fails, `2` takes the place of `1` and is a hit then, and `3` is
evaluated while the cache is off: four evaluations count, and of three misses one has failed, one has
left an entry and one was forgotten. -/
theorem counters_account_forgotten :
    let start := Session.new {} (some 1) none none
    let steps := [.evaluate "1", .evaluate "1+", .evaluate "2", .evaluate "2", .setCapacity 0,
      .evaluate "3"]
    let session := start.after {} steps
    let past := start.passages {} steps
    session.hits + session.misses = 4 ∧ session.misses = 1 + session.cache.size + 1 ∧
      (∃ p ∈ past, p.step = .evaluate "1+" ∧ p.next.cache = p.before.cache ∧
        p.next.hits = p.before.hits) ∧
      (∃ p ∈ past, p.step = .evaluate "3" ∧ p.next.misses = p.before.misses) ∧
      ∃ p ∈ past, p.forgotten = ["1"] ∧
        p.next.cache.entries.getLast? = some ("2", .ofDecimal false 2 0) := by
  intro start steps session past
  obtain ⟨hlookups, hmisses, hall⟩ := counters_account {} (some 1) none none steps
  have hfailed : ∃ p ∈ past, p.step = .evaluate "1+" ∧ p.failed = true := by decide +kernel
  have hidle : ∃ p ∈ past, p.step = .evaluate "3" ∧ p.isLookup = false := by decide +kernel
  have hstored : ∃ p ∈ past, p.step = .evaluate "2" ∧ 0 < p.before.capacity ∧
      p.reply.result.bind Except.toOption = some (.ofDecimal false 2 0) ∧ p.forgotten = ["1"] := by
    decide +kernel
  refine ⟨hlookups.trans (by decide +kernel), hmisses.trans (by decide +kernel), ?_, ?_, ?_⟩
  · obtain ⟨p, hp, hstep, hraised⟩ := hfailed
    exact ⟨p, hp, hstep, (hall p hp).1 hraised⟩
  · obtain ⟨p, hp, hstep, hoff⟩ := hidle
    have hclear : p.step ≠ .clear := by
      rw [hstep]
      decide
    exact ⟨p, hp, hstep, ((hall p hp).2.1 hoff hclear).2.2⟩
  · obtain ⟨p, hp, hstep, hcapacity, hanswer, hforgotten⟩ := hstored
    obtain ⟨result, hresult, hvalue⟩ := Option.bind_eq_some_iff.mp hanswer
    rw [eq_ok_of_toOption hvalue] at hresult
    exact ⟨p, hp, hforgotten, ((hall p hp).2.2 _ _ hstep hcapacity hresult).1⟩

end Reckoner
