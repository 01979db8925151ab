import Mathlib.Data.List.Dedup
import Mathlib.Data.List.DropRight
import Reckoner.Proofs.SessionMoves

/-!
# Recency

Which texts a session remembers is told by its history alone. The history lists the uses of the
cache: the texts that an evaluation answered with a value while the cache was on, since it was last
cleared. Its recency holds each of these texts once, at its latest use. The session remembers the
last few of them, and the history also tells how many: one more after every miss that was stored, up
to the capacity at that time. A capacity that is lowered in between is not felt before the next such
miss, and a capacity of zero or less is not felt at all.

Values are forgotten one at a time from the front; the loop that does so never finds the cache
empty, because it runs only while the capacity is positive.
-/

namespace Reckoner

section Lists

variable {α : Type} [DecidableEq α]

/-- A further use moves a text behind all others. -/
theorem dedup_concat (uses : List α) (a : α) :
    (uses ++ [a]).dedup = (uses.dedup.filter fun b => b ≠ a) ++ [a] := by
  induction uses with
  | nil => rfl
  | cons b rest ih =>
    by_cases hmem : b ∈ rest
    · rw [List.dedup_cons_of_mem hmem, List.cons_append,
        List.dedup_cons_of_mem (List.mem_append_left [a] hmem), ih]
    · by_cases heq : b = a
      · rw [heq] at hmem ⊢
        rw [List.dedup_cons_of_notMem hmem, List.filter_cons_of_neg (by simp), List.cons_append,
          List.dedup_cons_of_mem (by simp), ih]
      · rw [List.dedup_cons_of_notMem hmem, List.filter_cons_of_pos (by simpa using heq),
          List.cons_append, List.dedup_cons_of_notMem (by simp [hmem, heq]), ih, List.cons_append]

/-- Without one of its members a list without repetitions is shorter by one. -/
theorem length_filter_ne_of_mem {l : List α} {a : α} (hnodup : l.Nodup) (ha : a ∈ l) :
    (l.filter fun b => b ≠ a).length + 1 = l.length := by
  have hone : l.countP (fun b => b == a) = 1 := List.count_eq_one_of_mem hnodup ha
  rw [List.length_eq_countP_add_countP (fun b => b == a) (l := l), hone,
    ← List.countP_eq_length_filter, Nat.add_comm]
  simp only [beq_iff_eq, ne_eq]

/-- Without something that is no member a list is what it was. -/
theorem filter_ne_of_notMem {l : List α} {a : α} (ha : a ∉ l) :
    (l.filter fun b => b ≠ a) = l := by
  refine List.filter_eq_self.mpr fun b hb => decide_eq_true fun heq => ?_
  rw [heq] at hb
  exact ha hb

end Lists

/-- Forget the first entries one at a time while there are more than the capacity. There is no
result if an entry has to be forgotten where none is left. -/
def evict? (capacity : Int) : List (String × Binary64) → Option (List (String × Binary64))
  | [] => if capacity < 0 then none else some []
  | entry :: rest =>
    if capacity < (entry :: rest).length then evict? capacity rest else some (entry :: rest)

/-- To a capacity that is not negative the entries can always be brought down, and the last ones
remain. -/
theorem evict?_eq_some {capacity : Int} (h : 0 ≤ capacity) (entries : List (String × Binary64)) :
    evict? capacity entries = some (entries.drop (entries.length - capacity.toNat)) := by
  induction entries with
  | nil => simp [evict?, h]
  | cons entry rest ih =>
    rw [evict?]
    by_cases hmore : capacity < (entry :: rest).length
    · rw [if_pos hmore, ih]
      rw [List.length_cons] at hmore ⊢
      rw [show rest.length + 1 - capacity.toNat = rest.length - capacity.toNat + 1 by omega,
        List.drop_succ_cons]
    · rw [if_neg hmore, show (entry :: rest).length - capacity.toNat = 0 by omega, List.drop_zero]

/-- What is remembered of a run: the texts in the order of their uses of the cache, and how many
values are kept. -/
structure History where
  uses : List String
  kept : Nat

namespace History

/-- Nothing was used and nothing is kept. -/
def blank : History :=
  ⟨[], 0⟩

/-- Take note of a request that was carried out. -/
def note (history : History) (p : Passage) : History :=
  match p.step with
  | .evaluate text =>
    if 0 < p.before.capacity ∧ p.succeeded = true then
      { uses := history.uses ++ [text]
        kept :=
          if p.isMiss then min (history.kept + 1) p.before.capacity.toNat else history.kept }
    else
      history
  | .clear => .blank
  | _ => history

/-- The history of a run. -/
def of (passages : List Passage) : History :=
  passages.foldl note .blank

/-- The texts that were used, each once, the one with the latest use last. -/
def recency (history : History) : List String :=
  history.uses.dedup

/-- A further use makes its text the latest one. -/
theorem recency_use (uses : List String) (text : String) (kept kept' : Nat) :
    (History.mk (uses ++ [text]) kept).recency =
      ((History.mk uses kept').recency.filter fun other => other ≠ text) ++ [text] :=
  dedup_concat uses text

/-- What a move does to the cache and to the history. Most leave both alone. A hit uses a text that
is remembered and keeps as much as before, a miss that is stored uses one that is not and keeps one
more if the capacity allows it, and clearing starts anew. -/
theorem note_cases {settings : Settings} {session next : Session} {step : Step} {reply : Reply}
    (hmove : Session.Move settings session step next reply) (history : History) :
    (next.cache = session.cache ∧ history.note ⟨session, step, next, reply⟩ = history) ∨
      (∃ text value, text ∈ session.cache.keys ∧ next.cache = session.cache.touch text value ∧
        history.note ⟨session, step, next, reply⟩ = ⟨history.uses ++ [text], history.kept⟩) ∨
      (∃ text value, text ∉ session.cache.keys ∧
        next.cache = (session.cache.touch text value).trim session.capacity.toNat ∧
        history.note ⟨session, step, next, reply⟩ =
          ⟨history.uses ++ [text], min (history.kept + 1) session.capacity.toNat⟩) ∨
      (next.cache = .empty ∧ history.note ⟨session, step, next, reply⟩ = .blank) := by
  cases hmove with
  | disabled hcapacity => exact .inl ⟨rfl, if_neg fun h => Int.not_lt.mpr hcapacity h.1⟩
  | @hit text value hcapacity hfound =>
    refine .inr (.inl ⟨text, value, Cache.mem_keys_of_find? hfound, rfl, ?_⟩)
    simp [note, hcapacity, Passage.succeeded, Passage.isMiss]
  | failure hcapacity hfound hresult => exact .inl ⟨rfl, if_neg fun h => by cases h.2⟩
  | @success text value hcapacity hfound hresult =>
    refine .inr (.inr (.inl ⟨text, value, (Cache.find?_eq_none_iff _ _).mp hfound, rfl, ?_⟩))
    simp [note, hcapacity, Passage.succeeded, Passage.isMiss]
  | clear => exact .inr (.inr (.inr ⟨rfl, rfl⟩))
  | info => exact .inl ⟨rfl, rfl⟩
  | setCapacity _ => exact .inl ⟨rfl, rfl⟩
  | setAllowPartial _ => exact .inl ⟨rfl, rfl⟩
  | setStrictNesting _ => exact .inl ⟨rfl, rfl⟩

/-- Whether a session remembers what its history says: the last texts of the recency, as many as
are kept. -/
structure Tracks (history : History) (session : Session) : Prop where
  suffix : session.cache.keys <:+ history.recency
  size : session.cache.size = history.kept

/-- A use moves the text to the end of what is remembered and of the recency. -/
theorem suffix_use {keys recency : List String} (h : keys <:+ recency) (text : String) :
    (keys.filter fun other => other ≠ text) ++ [text] <:+
      (recency.filter fun other => other ≠ text) ++ [text] := by
  obtain ⟨front, hfront⟩ := h.filter fun other => decide (other ≠ text)
  exact ⟨front, by rw [← List.append_assoc, hfront]⟩

/-- Using a remembered text leaves as many as before. -/
theorem size_touch_of_mem {cache : Cache} {text : String} (h : text ∈ cache.keys)
    (value : Binary64) : (cache.touch text value).size = cache.size := by
  rw [Cache.size_eq_length_keys, Cache.keys_touch, List.length_append, List.length_singleton,
    length_filter_ne_of_mem (l := cache.keys) cache.distinct h,
    Cache.size_eq_length_keys]

/-- Using another text leaves one more. -/
theorem size_touch_of_notMem {cache : Cache} {text : String} (h : text ∉ cache.keys)
    (value : Binary64) : (cache.touch text value).size = cache.size + 1 := by
  rw [Cache.size_eq_length_keys, Cache.keys_touch, List.length_append, List.length_singleton,
    filter_ne_of_notMem h, Cache.size_eq_length_keys]

/-- Every move keeps the session on the track of its history. -/
theorem Tracks.note {settings : Settings} {session next : Session} {step : Step} {reply : Reply}
    {history : History} (h : history.Tracks session)
    (hmove : Session.Move settings session step next reply) :
    (history.note ⟨session, step, next, reply⟩).Tracks next := by
  rcases note_cases hmove history with ⟨hcache, hnote⟩ | ⟨text, value, hmem, hcache, hnote⟩ |
      ⟨text, value, hmem, hcache, hnote⟩ | ⟨hcache, hnote⟩
  · rw [hnote]
    exact ⟨hcache ▸ h.suffix, hcache ▸ h.size⟩
  · rw [hnote]
    constructor
    · rw [hcache, Cache.keys_touch, recency_use _ _ _ history.kept]
      exact suffix_use h.suffix text
    · rw [hcache, size_touch_of_mem hmem]
      exact h.size
  · rw [hnote]
    constructor
    · rw [hcache, Cache.keys_trim, Cache.keys_touch, recency_use _ _ _ history.kept]
      exact (List.drop_suffix _ _).trans (suffix_use h.suffix text)
    · rw [hcache, Cache.size_trim, size_touch_of_notMem hmem, h.size]
  · rw [hnote]
    exact ⟨hcache ▸ List.nil_suffix, hcache ▸ rfl⟩

/-- What a session on the track of its history remembers are the last texts of the recency. -/
theorem Tracks.keys_eq {history : History} {session : Session} (h : history.Tracks session) :
    session.cache.keys = history.recency.rtake history.kept := by
  obtain ⟨front, hfront⟩ := h.suffix
  rw [← h.size, Cache.size_eq_length_keys, List.rtake, ← hfront, List.length_append,
    Nat.add_sub_cancel, List.drop_left]

/-- While the capacity stays the same, as much is kept as it allows. -/
theorem Tracks.kept_note {settings : Settings} {session next : Session} {step : Step}
    {reply : Reply} {history : History} (h : history.Tracks session)
    (hmove : Session.Move settings session step next reply)
    (hkept : history.kept = min session.capacity.toNat history.recency.length) :
    (history.note ⟨session, step, next, reply⟩).kept =
      min session.capacity.toNat (history.note ⟨session, step, next, reply⟩).recency.length := by
  have hnodup : history.recency.Nodup := List.nodup_dedup history.uses
  rcases note_cases hmove history with ⟨_, hnote⟩ | ⟨text, value, hmem, _, hnote⟩ |
      ⟨text, value, hmem, _, hnote⟩ | ⟨_, hnote⟩
  · rw [hnote, hkept]
  · rw [hnote, recency_use _ _ _ history.kept, List.length_append, List.length_singleton,
      length_filter_ne_of_mem hnodup (h.suffix.subset hmem), hkept]
  · rw [hnote, recency_use _ _ _ history.kept, List.length_append, List.length_singleton]
    by_cases hold : text ∈ history.recency
    · -- a text that was used and is forgotten: there were more uses than the capacity allows
      rw [length_filter_ne_of_mem hnodup hold]
      have hlt : history.kept < history.recency.length := by
        rw [← h.size, Cache.size_eq_length_keys]
        refine Nat.lt_of_le_of_ne h.suffix.length_le fun heq => hmem ?_
        rwa [h.suffix.eq_of_length heq]
      dsimp only
      omega
    · rw [filter_ne_of_notMem hold]
      dsimp only
      omega
  · rw [hnote]
    exact (Nat.min_zero _).symm

/-- One more passage is taken note of last. -/
theorem of_concat (past : List Passage) (p : Passage) : of (past ++ [p]) = (of past).note p :=
  List.foldl_concat note .blank p past

/-- A run from a new session stays on the track of its history. -/
theorem tracks_after {settings : Settings} {start : Session} (hempty : start.cache = .empty)
    (steps : List Step) :
    (of (start.passages settings steps)).Tracks (start.after settings steps) := by
  refine Session.invariant_after (fun past session => (of past).Tracks session) ?_ ?_ steps
  · exact ⟨hempty ▸ List.nil_suffix, hempty ▸ rfl⟩
  · intro past session step next reply htracks hmove
    rw [of_concat]
    exact htracks.note hmove

/-- A run from a new session with the same capacity all the time keeps as much as it allows. -/
theorem kept_after {settings : Settings} {start : Session} (hempty : start.cache = .empty)
    {capacity : Int} (steps : List Step)
    (hcapacity : ∀ p ∈ start.passages settings steps, p.before.capacity = capacity) :
    (of (start.passages settings steps)).kept =
      min capacity.toNat (of (start.passages settings steps)).recency.length := by
  refine (Session.invariant_after (fun past session => (of past).Tracks session ∧
    ((∀ p ∈ past, p.before.capacity = capacity) →
      (of past).kept = min capacity.toNat (of past).recency.length)) ?_ ?_ steps).2 hcapacity
  · exact ⟨⟨hempty ▸ List.nil_suffix, hempty ▸ rfl⟩, fun _ => (Nat.min_zero _).symm⟩
  · intro past session step next reply ⟨htracks, hkept⟩ hmove
    rw [of_concat]
    refine ⟨htracks.note hmove, fun hall => ?_⟩
    obtain ⟨hpast, hlast⟩ := List.forall_mem_append.mp hall
    have hsession : session.capacity = capacity := hlast _ (List.mem_singleton_self _)
    rw [← hsession] at hkept ⊢
    exact htracks.kept_note hmove (hkept fun p hp => (hpast p hp).trans hsession.symm)

end History

/-- A miss that is stored forgets one value after the other until the capacity is met, and never
has to forget one where none is left. -/
theorem evict?_touch {settings : Settings} {session next : Session} {text : String}
    {value : Binary64} {reply : Reply}
    (hmove : Session.Move settings session (.evaluate text) next reply)
    (hcapacity : 0 < session.capacity) (hmiss : text ∉ session.cache.keys)
    (hresult : (evaluate (session.options settings) text).result = .ok value) :
    evict? session.capacity (session.cache.touch text value).entries = some next.cache.entries := by
  rw [evict?_eq_some (Int.le_of_lt hcapacity)]
  cases hmove with
  | disabled hoff => omega
  | hit _ hfound => exact absurd (Cache.mem_keys_of_find? hfound) hmiss
  | failure _ _ hfailed =>
    rw [hfailed] at hresult
    cases hresult
  | success _ _ hvalue =>
    rw [hvalue] at hresult
    cases hresult
    rfl

/-- After every run the texts remembered, from the least to the most recently used, are the last ones
of the recency, as many as the history keeps; while the cache is on, exactly these are hits, and a
miss that is stored never has to forget a value where none is left. If the capacity has been the
same all the time, as many of the most recent texts are remembered as it allows. -/
theorem keys_after_eq_rtake (settings : Settings) (capacity : Option Int)
    (allowPartial strictNesting : Option Bool) (steps : List Step) :
    let start := Session.new settings capacity allowPartial strictNesting
    let session := start.after settings steps
    let history := History.of (start.passages settings steps)
    history.recency.Nodup ∧ history.kept ≤ history.recency.length ∧
      session.cache.keys = history.recency.rtake history.kept ∧ session.cache.keys.Nodup ∧
      (0 < session.capacity → ∀ text,
        ((session.perform settings (.evaluate text)).1.hits = session.hits + 1 ↔
          text ∈ history.recency.rtake history.kept) ∧
        ∀ value, text ∉ history.recency.rtake history.kept →
          (evaluate (session.options settings) text).result = .ok value →
          evict? session.capacity (session.cache.touch text value).entries =
            some (session.perform settings (.evaluate text)).1.cache.entries) ∧
      ∀ fixed : Int, (∀ p ∈ start.passages settings steps, p.before.capacity = fixed) →
        session.cache.keys = history.recency.rtake (min fixed.toNat history.recency.length) := by
  intro start session history
  have htracks : history.Tracks session := History.tracks_after rfl steps
  refine ⟨List.nodup_dedup _, ?_, htracks.keys_eq, session.cache.distinct, ?_, ?_⟩
  · rw [← htracks.size, Cache.size_eq_length_keys]
    exact htracks.suffix.length_le
  · intro hcapacity text
    have hmove := Session.move_perform settings session (.evaluate text)
    rw [← htracks.keys_eq]
    exact ⟨hmove.hits_eq_iff hcapacity, fun value hmiss hresult =>
      evict?_touch hmove hcapacity hmiss hresult⟩
  · intro fixed hfixed
    rw [htracks.keys_eq, History.kept_after rfl steps hfixed]

/-- With room for two, `2+2` is forgotten when `3` is evaluated, because `1+1` was used after it. -/
theorem keys_after_eq_rtake_two :
    ((Session.new {} (some 2) none none).after {}
      [.evaluate "1+1", .evaluate "2+2", .evaluate "1+1", .evaluate "3"]).cache.keys =
        ["1+1", "3"] := by
  rw [(keys_after_eq_rtake {} (some 2) none none
    [.evaluate "1+1", .evaluate "2+2", .evaluate "1+1", .evaluate "3"]).2.2.2.2.2 2
      (by decide +kernel)]
  decide +kernel

end Reckoner
