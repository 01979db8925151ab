import Mathlib.Data.List.Induction
import Reckoner.Session

/-!
# Moves of a session

What a request can do to a session is told once, as a relation with one rule for each kind of
request and four for an evaluation: the cache may be off, the text may be found in it, and if it is
not found the evaluation fails or stores its value. A run is a list of passages, one for each
request, and what every move keeps holds after every run.
-/

namespace Reckoner

namespace Session

/-- What carrying out a request makes of a session, and what it answers. -/
inductive Move (settings : Settings) (session : Session) : Step → Session → Reply → Prop
  | disabled {text : String} (hcapacity : session.capacity ≤ 0) :
      Move settings session (.evaluate text) session
        ⟨some (Reckoner.evaluate (session.options settings) text).result,
          (Reckoner.evaluate (session.options settings) text).events⟩
  | hit {text : String} {value : Binary64} (hcapacity : 0 < session.capacity)
      (hfound : session.cache.find? text = some value) :
      Move settings session (.evaluate text)
        { session with cache := session.cache.touch text value, hits := session.hits + 1 }
        ⟨some (.ok value), [.cacheHit text]⟩
  | failure {text : String} {r : Rejection} (hcapacity : 0 < session.capacity)
      (hfound : session.cache.find? text = none)
      (hresult : (Reckoner.evaluate (session.options settings) text).result = .error r) :
      Move settings session (.evaluate text) { session with misses := session.misses + 1 }
        ⟨some (.error r), (Reckoner.evaluate (session.options settings) text).events⟩
  | success {text : String} {value : Binary64} (hcapacity : 0 < session.capacity)
      (hfound : session.cache.find? text = none)
      (hresult : (Reckoner.evaluate (session.options settings) text).result = .ok value) :
      Move settings session (.evaluate text)
        { session with
          cache := (session.cache.touch text value).trim session.capacity.toNat
          misses := session.misses + 1 }
        ⟨some (.ok value), (Reckoner.evaluate (session.options settings) text).events⟩
  | clear :
      Move settings session .clear session.clear
        ⟨none, [.cacheCleared session.hits session.misses]⟩
  | info : Move settings session .info session ⟨none, []⟩
  | setCapacity (capacity : Int) :
      Move settings session (.setCapacity capacity) { session with capacity := capacity } ⟨none, []⟩
  | setAllowPartial (value : Option Bool) :
      Move settings session (.setAllowPartial value) { session with allowPartial := value }
        ⟨none, []⟩
  | setStrictNesting (value : Option Bool) :
      Move settings session (.setStrictNesting value) { session with strictNesting := value }
        ⟨none, []⟩

/-- Carrying out a request is a move. -/
theorem move_perform (settings : Settings) (session : Session) (step : Step) :
    Move settings session step (session.perform settings step).1
      (session.perform settings step).2 := by
  cases step with
  | evaluate text =>
    simp only [perform, evaluate]
    split
    · next hcapacity => exact .disabled hcapacity
    · next hcapacity =>
      split
      · next value hfound => exact .hit (Int.not_le.mp hcapacity) hfound
      · next hfound =>
        cases hresult : (Reckoner.evaluate (session.options settings) text).result with
        | error r => exact .failure (Int.not_le.mp hcapacity) hfound hresult
        | ok value => exact .success (Int.not_le.mp hcapacity) hfound hresult
  | clear => exact .clear
  | info => exact .info
  | setCapacity capacity => exact .setCapacity capacity
  | setAllowPartial value => exact .setAllowPartial value
  | setStrictNesting value => exact .setStrictNesting value

/-- While the cache is on, an evaluation is a hit exactly if its text is remembered. -/
theorem Move.hits_eq_iff {settings : Settings} {session next : Session} {text : String}
    {reply : Reply} (h : Move settings session (.evaluate text) next reply)
    (hcapacity : 0 < session.capacity) :
    next.hits = session.hits + 1 ↔ text ∈ session.cache.keys := by
  rw [Cache.mem_keys_iff]
  cases h with
  | disabled hoff => omega
  | hit _ hfound => exact ⟨fun _ => ⟨_, hfound⟩, fun _ => rfl⟩
  | failure _ hfound _ => simp [hfound]
  | success _ hfound _ => simp [hfound]

/-- The session after requests are carried out in turn. -/
def after (settings : Settings) (session : Session) (steps : List Step) : Session :=
  steps.foldl (fun session step => (session.perform settings step).1) session

/-- Requests carried out in two parts lead to the same session. -/
theorem after_append (settings : Settings) (session : Session) (first second : List Step) :
    session.after settings (first ++ second) =
      (session.after settings first).after settings second :=
  List.foldl_append

end Session

/-- A request that was carried out: the session before it, the request, the session after it and
the reply. -/
structure Passage where
  before : Session
  step : Step
  next : Session
  reply : Reply

namespace Passage

/-- Whether the request was an evaluation that answered a value. -/
def succeeded (p : Passage) : Bool :=
  match p.reply.result with
  | some (.ok _) => true
  | _ => false

/-- Whether the session counted a hit. -/
def isHit (p : Passage) : Bool :=
  p.next.hits = p.before.hits + 1

/-- Whether the session counted a miss. -/
def isMiss (p : Passage) : Bool :=
  p.next.misses = p.before.misses + 1

end Passage

namespace Session

/-- The passages of a run. -/
def passages (settings : Settings) (session : Session) : List Step → List Passage
  | [] => []
  | step :: rest =>
    let (next, reply) := session.perform settings step
    ⟨session, step, next, reply⟩ :: next.passages settings rest

/-- A run lists the sessions and replies of its passages. -/
theorem run_eq_map_passages (settings : Settings) (session : Session) (steps : List Step) :
    session.run settings steps =
      (session.passages settings steps).map fun p => (p.next, p.reply) := by
  induction steps generalizing session with
  | nil => rfl
  | cons step rest ih => exact congrArg (List.cons _) (ih _)

/-- A run goes on where its first part has led. -/
theorem passages_append (settings : Settings) (session : Session) (first second : List Step) :
    session.passages settings (first ++ second) =
      session.passages settings first ++
        (session.after settings first).passages settings second := by
  induction first generalizing session with
  | nil => rfl
  | cons step rest ih => exact congrArg (List.cons _) (ih _)

/-- Every passage of a run is a move. -/
theorem move_of_mem_passages {settings : Settings} {start : Session} {steps : List Step}
    {p : Passage} (h : p ∈ start.passages settings steps) :
    Move settings p.before p.step p.next p.reply := by
  induction steps generalizing start with
  | nil => cases h
  | cons step rest ih =>
    rcases List.mem_cons.mp h with rfl | hrest
    · exact move_perform settings start step
    · exact ih hrest

/-- What holds of a new run and is kept by every move holds of a run as far as it has come. -/
theorem invariant_after {settings : Settings} {start : Session}
    (Inv : List Passage → Session → Prop) (hstart : Inv [] start)
    (hmove : ∀ past session step next reply, Inv past session →
      Move settings session step next reply → Inv (past ++ [⟨session, step, next, reply⟩]) next)
    (steps : List Step) : Inv (start.passages settings steps) (start.after settings steps) := by
  induction steps using List.reverseRecOn with
  | nil => exact hstart
  | append_singleton steps step ih =>
    rw [passages_append, after_append]
    exact hmove _ _ _ _ _ ih (move_perform settings _ step)

end Session

end Reckoner
