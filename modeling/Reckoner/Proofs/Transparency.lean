import Reckoner.Proofs.Options
import Reckoner.Proofs.SessionMoves

/-!
# Transparency of the cache

A session remembers a value under its text alone, while its options may change. What it remembers was
the value of the text under the options in force when it was stored. Since the options never change a
value, only whether there is one, a remembered value is that of the text with leftovers allowed, and
an answer of the session differs from an evaluation without a cache in one case only: the value was
stored while leftovers were allowed, and they no longer are.
-/

namespace Reckoner

namespace Passage

/-- Whether the request stored a value under a text: the cache was on, the text was not in it, and
its evaluation under the options in force had the value. -/
structure Stores (settings : Settings) (p : Passage) (text : String) (value : Binary64) : Prop where
  step : p.step = .evaluate text
  capacity : 0 < p.before.capacity
  missing : text ∉ p.before.cache.keys
  result : (evaluate (p.before.options settings) text).result = .ok value

/-- Whether past requests stored the value that is remembered under a text: one of them stored it,
and the text has been remembered since. -/
def Stored (settings : Settings) (past : List Passage) (text : String) (value : Binary64)
    (p : Passage) : Prop :=
  ∃ earlier later, past = earlier ++ p :: later ∧ p.Stores settings text value ∧
    ∀ q ∈ p :: later, text ∈ q.next.cache.keys

/-- A stored value is that of its text under all options that allow leftovers if they were allowed
when it was stored. -/
theorem Stores.evaluate_eq {settings : Settings} {p : Passage} {text : String} {value : Binary64}
    (h : p.Stores settings text value) {options : Options}
    (hallow : (p.before.options settings).allowPartial = true → options.allowPartial = true) :
    (evaluate options text).result = .ok value :=
  evaluate_eq_ok_of_imp h.result hallow

/-- A request that stored a value is one of the past ones. -/
theorem Stored.mem {settings : Settings} {past : List Passage} {text : String} {value : Binary64}
    {p : Passage} (h : Stored settings past text value p) : p ∈ past := by
  obtain ⟨earlier, later, rfl, _, _⟩ := h
  exact List.mem_append_right earlier List.mem_cons_self

/-- A request that stored a value did store it. -/
theorem Stored.stores {settings : Settings} {past : List Passage} {text : String} {value : Binary64}
    {p : Passage} (h : Stored settings past text value p) : p.Stores settings text value := by
  obtain ⟨_, _, _, hstores, _⟩ := h
  exact hstores

end Passage

namespace Session

/-- A value remembered after a move was remembered before it or has just been stored. -/
theorem Move.find?_eq_some {settings : Settings} {session next : Session} {step : Step}
    {reply : Reply} (hmove : Move settings session step next reply) {text : String}
    {value : Binary64} (h : next.cache.find? text = some value) :
    session.cache.find? text = some value ∨
      (Passage.mk session step next reply).Stores settings text value := by
  cases hmove with
  | disabled hcapacity => exact .inl h
  | @hit found known hcapacity hfound =>
    rw [Cache.find?_touch] at h
    split at h
    · next heq =>
      cases h
      rw [heq]
      exact .inl hfound
    · exact .inl h
  | failure hcapacity hfound hresult => exact .inl h
  | @success new computed hcapacity hfound hresult =>
    have htouch := Cache.find?_of_find?_trim h
    rw [Cache.find?_touch] at htouch
    split at htouch
    · next heq =>
      cases htouch
      rw [heq]
      exact .inr ⟨rfl, hcapacity, (Cache.find?_eq_none_iff _ _).mp hfound, hresult⟩
    · exact .inl htouch
  | clear => cases h
  | info => exact .inl h
  | setCapacity _ => exact .inl h
  | setAllowPartial _ => exact .inl h
  | setStrictNesting _ => exact .inl h

/-- An evaluation answers as one without a cache does, or it is a hit and serves the remembered
value. -/
theorem Move.result_cases {settings : Settings} {session next : Session} {text : String}
    {reply : Reply} (hmove : Move settings session (.evaluate text) next reply) :
    reply.result = some (Reckoner.evaluate (session.options settings) text).result ∨
      ∃ value, reply.result = some (.ok value) ∧ session.cache.find? text = some value ∧
        next.hits = session.hits + 1 := by
  cases hmove with
  | disabled _ => exact .inl rfl
  | hit _ hfound => exact .inr ⟨_, rfl, hfound, rfl⟩
  | failure _ _ hresult => exact .inl (congrArg some hresult.symm)
  | success _ _ hresult => exact .inl (congrArg some hresult.symm)

/-- Whatever a run remembers was stored by one of its requests. -/
theorem exists_stored {settings : Settings} {start : Session} (hempty : start.cache = .empty)
    (steps : List Step) {text : String} {value : Binary64}
    (h : (start.after settings steps).cache.find? text = some value) :
    ∃ p, Passage.Stored settings (start.passages settings steps) text value p := by
  refine invariant_after (fun past session => ∀ value,
    session.cache.find? text = some value → ∃ p, Passage.Stored settings past text value p)
    ?_ ?_ steps value h
  · intro value hvalue
    rw [hempty] at hvalue
    cases hvalue
  · intro past session step next reply hpast hmove value hvalue
    have hkept : text ∈ next.cache.keys := Cache.mem_keys_of_find? hvalue
    rcases hmove.find?_eq_some hvalue with hbefore | hstores
    · obtain ⟨p, earlier, later, rfl, hstores, hlater⟩ := hpast value hbefore
      refine ⟨p, earlier, later ++ [⟨session, step, next, reply⟩], by simp, hstores, ?_⟩
      rw [← List.cons_append]
      exact List.forall_mem_append.mpr ⟨hlater, List.forall_mem_singleton.mpr hkept⟩
    · exact ⟨_, past, [], rfl, hstores, List.forall_mem_singleton.mpr hkept⟩

end Session

/-- After every run an evaluation fails only as one without a cache does under the options in force,
and a value that it answers is that of the text with leftovers allowed. It answers something else
than without a cache only if leftovers are not allowed and it serves a value that was stored while
they were; if they have been allowed all the time or never, it always answers the same. -/
theorem perform_evaluate_transparent (settings : Settings) (capacity : Option Int)
    (allowPartial strictNesting : Option Bool) (steps : List Step) (text : String) :
    let start := Session.new settings capacity allowPartial strictNesting
    let session := start.after settings steps
    let past := start.passages settings steps
    let stateless := (evaluate (session.options settings) text).result
    ∃ answer, (session.perform settings (.evaluate text)).2.result = some answer ∧
      (∀ r, answer = .error r → stateless = .error r) ∧
      (∀ value, answer = .ok value → ∀ strict, (evaluate ⟨true, strict⟩ text).result = .ok value) ∧
      (answer ≠ stateless → (session.options settings).allowPartial = false ∧
        (session.perform settings (.evaluate text)).1.hits = session.hits + 1 ∧
        ∃ value p, answer = .ok value ∧ Passage.Stored settings past text value p ∧
          (p.before.options settings).allowPartial = true) ∧
      ((∀ p ∈ past, (p.before.options settings).allowPartial =
        (session.options settings).allowPartial) → answer = stateless) := by
  intro start session past stateless
  rcases (Session.move_perform settings session (.evaluate text)).result_cases with
    hresult | ⟨value, hresult, hfound, hhit⟩
  · exact ⟨stateless, hresult, fun r h => h,
      fun value h strict => evaluate_eq_ok_of_imp h fun _ => rfl,
      fun hdiffers => absurd rfl hdiffers, fun _ => rfl⟩
  · obtain ⟨p, hstored⟩ := Session.exists_stored rfl steps hfound
    refine ⟨.ok value, hresult, fun r h => (nomatch h), ?_, ?_, ?_⟩
    · intro served h strict
      cases h
      exact hstored.stores.evaluate_eq fun _ => rfl
    · intro hdiffers
      -- the value would be the present one if leftovers were still allowed, or had not been
      have hstale : ¬ ((p.before.options settings).allowPartial = true →
          (session.options settings).allowPartial = true) :=
        fun hallow => hdiffers (hstored.stores.evaluate_eq hallow).symm
      obtain ⟨hthen, hnow⟩ := Classical.not_imp.mp hstale
      exact ⟨Bool.eq_false_iff.mpr hnow, hhit, value, p, rfl, hstored, hthen⟩
    · intro hsame
      have hallow : (p.before.options settings).allowPartial = true →
          (session.options settings).allowPartial = true :=
        fun hthen => (hsame p hstored.mem).symm.trans hthen
      exact (hstored.stores.evaluate_eq hallow).symm

/-- The value of `2(3)`, stored while leftovers are allowed, is served when they no longer are,
though the text is refused then. -/
theorem perform_evaluate_transparent_stale :
    let start := Session.new {} (some 2) (some true) none
    let steps := [.evaluate "2(3)", .setAllowPartial (some false)]
    let session := start.after {} steps
    (session.perform {} (.evaluate "2(3)")).2.result = some (.ok (.ofDecimal false 6 0)) ∧
      (evaluate (session.options {}) "2(3)").result.toOption = none ∧
      ∃ p, Passage.Stored {} (start.passages {} steps) "2(3)" (.ofDecimal false 6 0) p ∧
        (p.before.options {}).allowPartial = true := by
  intro start steps session
  obtain ⟨answer, hanswer, _, _, hstale, _⟩ :=
    perform_evaluate_transparent {} (some 2) (some true) none steps "2(3)"
  have hserved : (session.perform {} (.evaluate "2(3)")).2.result.bind Except.toOption =
      some (.ofDecimal false 6 0) := by decide +kernel
  have hrefused : (evaluate (session.options {}) "2(3)").result.toOption = none := by
    decide +kernel
  change (session.perform {} (.evaluate "2(3)")).2.result = some answer at hanswer
  rw [hanswer] at hserved ⊢
  have hsix : answer = .ok (.ofDecimal false 6 0) := eq_ok_of_toOption hserved
  have hdiffers : (evaluate (session.options {}) "2(3)").result ≠ .ok (.ofDecimal false 6 0) := by
    intro hsame
    rw [hsame] at hrefused
    cases hrefused
  rw [hsix] at hstale ⊢
  obtain ⟨_, _, value, p, hvalue, hstored, hthen⟩ := hstale hdiffers.symm
  obtain rfl := Except.ok.inj hvalue
  exact ⟨rfl, hrefused, p, hstored, hthen⟩

end Reckoner
