import Reckoner.Cache
import Reckoner.Evaluation
import Reckoner.Settings

/-!
# Sessions

A session evaluates one expression after the other and remembers the values of the most recently
used ones under their text alone. Its options may change between evaluations; what is remembered
stays and is still served. While the capacity is zero or negative, the cache and the counters
are left alone. An option that is not set follows the settings.
-/

namespace Reckoner

/-- A series of evaluations with a cache. -/
structure Session where
  cache : Cache
  hits : Nat
  misses : Nat
  capacity : Int
  allowPartial : Option Bool
  strictNesting : Option Bool
deriving DecidableEq

/-- A request to a session. -/
inductive Step where
  | evaluate (text : String)
  | clear
  | info
  | setCapacity (capacity : Int)
  | setAllowPartial (value : Option Bool)
  | setStrictNesting (value : Option Bool)
deriving DecidableEq

/-- What a session answers: the result of an evaluation, if one was asked for, and the events. -/
structure Reply where
  result : Option (Except Rejection Binary64)
  events : List Event

namespace Session

/-- A new session; a capacity that is not given follows the settings. -/
def new (settings : Settings) (capacity : Option Int) (allowPartial strictNesting : Option Bool) :
    Session :=
  ⟨.empty, 0, 0, capacity.getD settings.cacheSize, allowPartial, strictNesting⟩

/-- The options in force. -/
def options (settings : Settings) (session : Session) : Options where
  allowPartial := session.allowPartial.getD settings.allowPartial.isOn
  strictNesting := session.strictNesting.getD settings.strictNesting.isOn

/-- Evaluate a text, or serve its remembered value. A miss counts even if the evaluation fails,
but a failure is not remembered. -/
def evaluate (settings : Settings) (session : Session) (text : String) : Session × Report :=
  if session.capacity ≤ 0 then
    (session, Reckoner.evaluate (session.options settings) text)
  else
    match session.cache.find? text with
    | some value =>
      ({ session with cache := session.cache.touch text value, hits := session.hits + 1 },
        ⟨.ok value, [.cacheHit text]⟩)
    | none =>
      let report := Reckoner.evaluate (session.options settings) text
      let cache := match report.result with
        | .ok value => (session.cache.touch text value).trim session.capacity.toNat
        | .error _ => session.cache
      ({ session with cache := cache, misses := session.misses + 1 }, report)

/-- Forget everything and start counting anew. -/
def clear (session : Session) : Session :=
  { session with cache := .empty, hits := 0, misses := 0 }

/-- Carry out a request. -/
def perform (settings : Settings) (session : Session) : Step → Session × Reply
  | .evaluate text =>
    let (next, report) := session.evaluate settings text
    (next, ⟨some report.result, report.events⟩)
  | .clear => (session.clear, ⟨none, [.cacheCleared session.hits session.misses]⟩)
  | .info => (session, ⟨none, []⟩)
  | .setCapacity capacity => ({ session with capacity := capacity }, ⟨none, []⟩)
  | .setAllowPartial value => ({ session with allowPartial := value }, ⟨none, []⟩)
  | .setStrictNesting value => ({ session with strictNesting := value }, ⟨none, []⟩)

/-- Carry out requests in turn; each reply comes with the session after it. -/
def run (settings : Settings) (session : Session) : List Step → List (Session × Reply)
  | [] => []
  | step :: rest =>
    let next := session.perform settings step
    next :: next.1.run settings rest

end Session

end Reckoner
