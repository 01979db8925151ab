import Mathlib.Data.List.Forall2
import Reckoner.Proofs.Accounting
import Reckoner.Proofs.Transparency

/-!
# Inclusion of caches

Two sessions that carry out the same requests under the same options, one with more room than the
other. As long as no setting changes, what a session remembers are the present values of the texts,
so that an answer does not depend on the cache, and neither does the order in which texts are used.
An answer brings its text behind those that were remembered, and of all these the last ones stay, as
many as the capacity allows; for this it makes no difference whether the text was found. Therefore
the smaller session always remembers the end of what the larger one remembers.
-/

namespace Reckoner

/-- The last members of the end of a list are at the end of at least as many last members of it. -/
theorem rtake_suffix_rtake {α : Type} {shorter longer : List α} (h : shorter <:+ longer) {m n : Nat}
    (hmn : m ≤ n) : shorter.rtake m <:+ longer.rtake n := by
  have hlength := h.length_le
  refine List.suffix_of_suffix_length_le ((List.drop_suffix _ _).trans h) (List.drop_suffix _ _) ?_
  simp only [List.rtake, List.length_drop]
  omega

/-- Whether the request changes a setting of the session. -/
def Step.isSetting : Step → Bool
  | .evaluate _ | .clear | .info => false
  | .setCapacity _ | .setAllowPartial _ | .setStrictNesting _ => true

namespace Session

/-- Other requests leave the capacity and the options as they are. -/
theorem Move.settings_eq {settings : Settings} {session next : Session} {step : Step} {reply : Reply}
    (hmove : Move settings session step next reply) (hstep : step.isSetting = false) :
    next.capacity = session.capacity ∧ next.options settings = session.options settings := by
  cases hmove with
  | setCapacity _ | setAllowPartial _ | setStrictNesting _ => cases hstep
  | disabled _ | hit _ _ | failure _ _ _ | success _ _ _ | clear | info => exact ⟨rfl, rfl⟩

/-- Whether what a session remembers goes with its settings: the values are those of their texts under
the present options, and no more than the capacity allows. -/
structure UpToDate (settings : Settings) (session : Session) : Prop where
  values : ∀ text value, session.cache.find? text = some value →
    (Reckoner.evaluate (session.options settings) text).result = .ok value
  size : session.cache.size ≤ session.capacity.toNat

namespace UpToDate

variable {settings : Settings} {session next : Session} {text : String} {reply : Reply}

/-- A session that remembers nothing is up to date. -/
theorem of_empty (h : session.cache = .empty) : session.UpToDate settings := by
  constructor
  · intro text value hfound
    rw [h] at hfound
    cases hfound
  · rw [h]
    exact Nat.zero_le _

/-- If anything is remembered, the cache is on. -/
theorem capacity_pos (h : session.UpToDate settings) (hmem : text ∈ session.cache.keys) :
    0 < session.capacity := by
  have hpos : 0 < session.cache.keys.length := List.length_pos_of_mem hmem
  have hsize := h.size
  rw [Cache.size_eq_length_keys] at hsize
  omega

/-- As long as no setting changes, a session stays up to date. -/
theorem move {step : Step} (h : session.UpToDate settings)
    (hmove : Move settings session step next reply) (hstep : step.isSetting = false) :
    next.UpToDate settings := by
  obtain ⟨hcapacity, hoptions⟩ := hmove.settings_eq hstep
  constructor
  · intro text value hfound
    rw [hoptions]
    rcases hmove.find?_eq_some hfound with hbefore | hstores
    · exact h.values text value hbefore
    · exact hstores.result
  · rw [hcapacity]
    cases hmove with
    | disabled _ | failure _ _ _ | info => exact h.size
    | hit _ hfound =>
      rw [History.size_touch_of_mem (Cache.mem_keys_of_find? hfound)]
      exact h.size
    | success _ _ _ =>
      rw [Cache.size_trim]
      exact Nat.min_le_right _ _
    | clear => exact Nat.zero_le _
    | setCapacity _ | setAllowPartial _ | setStrictNesting _ => cases hstep

/-- An evaluation answers as one without a cache. -/
theorem result_eq (h : session.UpToDate settings)
    (hmove : Move settings session (.evaluate text) next reply) :
    reply.result = some (Reckoner.evaluate (session.options settings) text).result := by
  rcases hmove.result_cases with hresult | ⟨value, hresult, hfound, _⟩
  · exact hresult
  · rw [hresult, h.values text value hfound]

/-- An evaluation counts a hit exactly if its text is remembered. -/
theorem hits_eq (h : session.UpToDate settings)
    (hmove : Move settings session (.evaluate text) next reply) :
    next.hits = session.hits + if text ∈ session.cache.keys then 1 else 0 := by
  cases hmove with
  | disabled hcapacity =>
    rw [if_neg fun hmem => Int.not_lt.mpr hcapacity (h.capacity_pos hmem), Nat.add_zero]
  | hit _ hfound => rw [if_pos (Cache.mem_keys_of_find? hfound)]
  | failure _ hfound _ | success _ hfound _ =>
    rw [if_neg ((Cache.find?_eq_none_iff _ _).mp hfound)]
    rfl

/-- A text with a value comes behind all others, and of these the last ones stay, as many as the
capacity allows, be the text remembered or not and the cache on or off. -/
theorem keys_of_ok (h : session.UpToDate settings)
    (hmove : Move settings session (.evaluate text) next reply) {value : Binary64}
    (hvalue : (Reckoner.evaluate (session.options settings) text).result = .ok value) :
    next.cache.keys = ((session.cache.keys.filter fun other => other ≠ text) ++ [text]).rtake
      session.capacity.toNat := by
  cases hmove with
  | disabled hcapacity =>
    have hsize := h.size
    rw [Int.toNat_of_nonpos hcapacity, Cache.size_eq_length_keys] at hsize
    rw [Int.toNat_of_nonpos hcapacity, List.rtake_zero]
    exact List.length_eq_zero_iff.mp (Nat.le_zero.mp hsize)
  | hit _ hfound =>
    -- a text that is remembered takes no more room
    have hsize := History.size_touch_of_mem (Cache.mem_keys_of_find? hfound) value
    rw [← Cache.keys_touch session.cache text value, List.rtake, ← Cache.size_eq_length_keys, hsize,
      Nat.sub_eq_zero_of_le h.size, List.drop_zero, Cache.keys_touch, Cache.keys_touch]
  | failure _ _ hfailed =>
    rw [hfailed] at hvalue
    cases hvalue
  | @success _ computed _ _ _ =>
    rw [← Cache.keys_touch session.cache text computed, List.rtake, ← Cache.size_eq_length_keys]
    exact Cache.keys_trim _ _

/-- A text without a value changes nothing about what is remembered. -/
theorem keys_of_error (h : session.UpToDate settings)
    (hmove : Move settings session (.evaluate text) next reply) {r : Rejection}
    (hfailed : (Reckoner.evaluate (session.options settings) text).result = .error r) :
    next.cache.keys = session.cache.keys := by
  have hresult := h.result_eq hmove
  rw [hfailed] at hresult
  rw [(hmove.eq_of_failed hresult).1]

end UpToDate

/-- Whether a session lies within a larger one: both are up to date under the same options, the one
has no more room than the other, remembers the end of what the other remembers, and has counted no
more hits. -/
structure Within (settings : Settings) (small large : Session) : Prop where
  smallUpToDate : small.UpToDate settings
  largeUpToDate : large.UpToDate settings
  options : small.options settings = large.options settings
  capacity : small.capacity ≤ large.capacity
  keys : small.cache.keys <:+ large.cache.keys
  hits : small.hits ≤ large.hits

namespace Within

variable {settings : Settings} {small large smallNext largeNext : Session} {text : String}
  {step : Step} {smallReply largeReply : Reply}

/-- What the smaller session remembers has the same value in the larger one. -/
theorem find?_eq_some (h : Within settings small large) {value : Binary64}
    (hfound : small.cache.find? text = some value) : large.cache.find? text = some value := by
  have hmem : text ∈ large.cache.keys := h.keys.subset (Cache.mem_keys_of_find? hfound)
  obtain ⟨other, hother⟩ := (Cache.mem_keys_iff _ _).mp hmem
  have hvalue := h.smallUpToDate.values text value hfound
  rw [h.options, h.largeUpToDate.values text other hother] at hvalue
  rw [hother, Except.ok.inj hvalue]

/-- After an evaluation the smaller session still remembers the end of what the larger one does. -/
theorem keys_evaluate (h : Within settings small large)
    (hsmall : Move settings small (.evaluate text) smallNext smallReply)
    (hlarge : Move settings large (.evaluate text) largeNext largeReply) :
    smallNext.cache.keys <:+ largeNext.cache.keys := by
  have hoptions := h.options
  cases hresult : (Reckoner.evaluate (large.options settings) text).result with
  | error r =>
    rw [h.smallUpToDate.keys_of_error hsmall (hoptions ▸ hresult),
      h.largeUpToDate.keys_of_error hlarge hresult]
    exact h.keys
  | ok value =>
    rw [h.smallUpToDate.keys_of_ok hsmall (hoptions ▸ hresult),
      h.largeUpToDate.keys_of_ok hlarge hresult]
    exact rtake_suffix_rtake (History.suffix_use h.keys text) (Int.toNat_le_toNat h.capacity)

/-- After an evaluation the smaller session has still counted no more hits. -/
theorem hits_evaluate (h : Within settings small large)
    (hsmall : Move settings small (.evaluate text) smallNext smallReply)
    (hlarge : Move settings large (.evaluate text) largeNext largeReply) :
    smallNext.hits ≤ largeNext.hits := by
  have hhits := h.hits
  have hsubset : text ∈ small.cache.keys → text ∈ large.cache.keys := fun hmem =>
    h.keys.subset hmem
  rw [h.smallUpToDate.hits_eq hsmall, h.largeUpToDate.hits_eq hlarge]
  split <;> split
  · omega
  · next hmem hmiss => exact absurd (hsubset hmem) hmiss
  · omega
  · omega

/-- A request that changes no setting leaves the smaller session within the larger one. -/
theorem move (h : Within settings small large)
    (hsmall : Move settings small step smallNext smallReply)
    (hlarge : Move settings large step largeNext largeReply) (hstep : step.isSetting = false) :
    Within settings smallNext largeNext := by
  obtain ⟨hcapacity, hoptions⟩ := hsmall.settings_eq hstep
  obtain ⟨hcapacity', hoptions'⟩ := hlarge.settings_eq hstep
  have hbelow : smallNext.cache.keys <:+ largeNext.cache.keys ∧ smallNext.hits ≤ largeNext.hits := by
    cases step with
    | evaluate text => exact ⟨h.keys_evaluate hsmall hlarge, h.hits_evaluate hsmall hlarge⟩
    | clear =>
      cases hsmall
      exact ⟨List.nil_suffix, Nat.zero_le _⟩
    | info =>
      cases hsmall
      cases hlarge
      exact ⟨h.keys, h.hits⟩
    | setCapacity _ | setAllowPartial _ | setStrictNesting _ => cases hstep
  exact
    { smallUpToDate := h.smallUpToDate.move hsmall hstep
      largeUpToDate := h.largeUpToDate.move hlarge hstep
      options := by rw [hoptions, hoptions', h.options]
      capacity := by rw [hcapacity, hcapacity']; exact h.capacity
      keys := hbelow.1
      hits := hbelow.2 }

/-- A hit of the smaller session is one of the larger. -/
theorem hit_of_hit (h : Within settings small large)
    (hsmall : Move settings small step smallNext smallReply)
    (hlarge : Move settings large step largeNext largeReply)
    (hhit : smallNext.hits = small.hits + 1) : largeNext.hits = large.hits + 1 := by
  cases hsmall with
  | hit _ hfound =>
    rw [h.largeUpToDate.hits_eq hlarge, if_pos (h.keys.subset (Cache.mem_keys_of_find? hfound))]
  | disabled _ | failure _ _ _ | success _ _ _ | info | setCapacity _ | setAllowPartial _
  | setStrictNesting _ => exact absurd hhit (Nat.ne_of_lt (Nat.lt_succ_self _))
  | clear => exact absurd hhit (Nat.ne_of_lt (Nat.zero_lt_succ _))

/-- Both sessions give the same answer. -/
theorem result_eq (h : Within settings small large)
    (hsmall : Move settings small step smallNext smallReply)
    (hlarge : Move settings large step largeNext largeReply) :
    smallReply.result = largeReply.result := by
  cases step with
  | evaluate text =>
    rw [h.smallUpToDate.result_eq hsmall, h.largeUpToDate.result_eq hlarge, h.options]
  | clear | info | setCapacity _ | setAllowPartial _ | setStrictNesting _ =>
    cases hsmall
    cases hlarge
    rfl

/-- Along a run without changes of settings the smaller session stays within the larger one, all its
hits are hits of the larger one, and both give the same answers. -/
theorem forall₂_passages (h : Within settings small large) {steps : List Step}
    (hsteps : ∀ step ∈ steps, step.isSetting = false) :
    List.Forall₂ (fun p q => Within settings p.next q.next ∧ (p.isHit = true → q.isHit = true) ∧
      p.reply.result = q.reply.result) (small.passages settings steps)
      (large.passages settings steps) := by
  induction steps generalizing small large with
  | nil => exact .nil
  | cons step rest ih =>
    obtain ⟨hstep, hrest⟩ := List.forall_mem_cons.mp hsteps
    have hsmall := move_perform settings small step
    have hlarge := move_perform settings large step
    have hnext := h.move hsmall hlarge hstep
    refine .cons ⟨hnext, fun hhit => ?_, h.result_eq hsmall hlarge⟩ (ih hnext hrest)
    exact decide_eq_true (h.hit_of_hit hsmall hlarge (of_decide_eq_true hhit))

end Within

/-- Of two new sessions with the same options, the one with no more room lies within the other. -/
theorem within_new (settings : Settings) {smaller larger : Int} (h : smaller ≤ larger)
    (allowPartial strictNesting : Option Bool) :
    Within settings (new settings (some smaller) allowPartial strictNesting)
      (new settings (some larger) allowPartial strictNesting) where
  smallUpToDate := .of_empty rfl
  largeUpToDate := .of_empty rfl
  options := rfl
  capacity := h
  keys := List.suffix_rfl
  hits := Nat.le_refl _

end Session

/-- Of two new sessions with the same options that carry out the same requests, among them no change
of a setting, the one with no more room than the other always remembers the end of what the other
remembers, with the same values. All its hits are hits of the other, which has never counted fewer,
and both give the same answers. -/
theorem passages_included (settings : Settings) {smaller larger : Int} (h : smaller ≤ larger)
    (allowPartial strictNesting : Option Bool) {steps : List Step}
    (hsteps : ∀ step ∈ steps, step.isSetting = false) :
    let small := Session.new settings (some smaller) allowPartial strictNesting
    let large := Session.new settings (some larger) allowPartial strictNesting
    List.Forall₂ (fun p q =>
      p.next.cache.keys <:+ q.next.cache.keys ∧
        (∀ text value, p.next.cache.find? text = some value →
          q.next.cache.find? text = some value) ∧
        (p.isHit = true → q.isHit = true) ∧ p.next.hits ≤ q.next.hits ∧
        p.reply.result = q.reply.result)
      (small.passages settings steps) (large.passages settings steps) := by
  intro small large
  have hwithin := Session.within_new settings h allowPartial strictNesting
  refine (hwithin.forall₂_passages hsteps).imp fun p q hpq => ?_
  obtain ⟨hnext, hhit, hresult⟩ := hpq
  exact ⟨hnext.keys, fun text value => hnext.find?_eq_some, hhit, hnext.hits, hresult⟩

/-- With room for one and for two, the second evaluation of `1` is a hit of the larger session only,
and the one that fails is none of either. -/
theorem passages_included_two :
    let steps := [.evaluate "1", .evaluate "2", .evaluate "1+", .evaluate "1", .info]
    let small := (Session.new {} (some 1) none none).passages {} steps
    let large := (Session.new {} (some 2) none none).passages {} steps
    (small.map fun p => (p.next.cache.keys, p.isHit)) =
        [(["1"], false), (["2"], false), (["2"], false), (["1"], false), (["1"], false)] ∧
      (large.map fun p => (p.next.cache.keys, p.isHit)) =
        [(["1"], false), (["1", "2"], false), (["1", "2"], false), (["2", "1"], true),
          (["2", "1"], false)] ∧
      List.Forall₂ (fun p q => p.next.cache.keys <:+ q.next.cache.keys ∧
        p.next.hits ≤ q.next.hits ∧ p.reply.result = q.reply.result) small large := by
  intro steps small large
  refine ⟨by decide +kernel, by decide +kernel, ?_⟩
  have hincluded := passages_included {} (show (1 : Int) ≤ 2 by decide) none none
    (show ∀ step ∈ steps, step.isSetting = false by decide)
  exact hincluded.imp fun p q h => ⟨h.1, h.2.2.2.1, h.2.2.2.2⟩

end Reckoner
