/-!
# Settings

The defaults that evaluations and sessions fall back on. A flag may be given by something that
is not a truth value; it still counts as on or off, but the settings are then not sound.
-/

namespace Reckoner

/-- A flag as given: a truth value, or something else that counts as on or off. -/
inductive Flag where
  | truth (value : Bool)
  | other (countsAsOn : Bool)
deriving DecidableEq

namespace Flag

/-- Whether the flag counts as on. -/
def isOn : Flag → Bool
  | .truth value => value
  | .other countsAsOn => countsAsOn

/-- Whether the flag is given by a truth value. -/
def isTruth : Flag → Bool
  | .truth _ => true
  | .other _ => false

end Flag

/-- The defaults: whether leftover values are multiplied, whether parentheses must nest, and how
many results a session remembers, none at zero. -/
structure Settings where
  allowPartial : Flag := .truth true
  strictNesting : Flag := .truth true
  cacheSize : Int := 1000
deriving DecidableEq

/-- Why settings are not sound. -/
inductive SettingsFault where
  | allowPartialNotTruth
  | strictNestingNotTruth
  | negativeCacheSize
deriving DecidableEq

/-- The message of a settings fault. -/
def SettingsFault.message : SettingsFault → String
  | .allowPartialNotTruth => "allow_partial 必须是布尔值"
  | .strictNestingNotTruth => "strict_nesting 必须是布尔值"
  | .negativeCacheSize => "cache_size 不能为负"

/-- The first fault of the settings. -/
def Settings.fault? (settings : Settings) : Option SettingsFault :=
  if !settings.allowPartial.isTruth then some .allowPartialNotTruth
  else if !settings.strictNesting.isTruth then some .strictNestingNotTruth
  else if settings.cacheSize < 0 then some .negativeCacheSize
  else none

end Reckoner
