import Reckoner.Reduction
import Reckoner.Scan
import Reckoner.Validity
import Reckoner.Yard

/-!
# Evaluation

A text is scanned, judged, put into postfix order and worked off. The report tells the value or
the rejection together with the events on the way. Every rejection names the text.
-/

namespace Reckoner

/-- The choices that a caller has. -/
structure Options where
  allowPartial : Bool
  strictNesting : Bool
deriving DecidableEq

/-- The outcome of an evaluation and the events on the way to it. -/
structure Report where
  result : Except Rejection Binary64
  events : List Event

/-- Evaluate a text. -/
def evaluate (options : Options) (text : String) : Report :=
  let terms := scan text
  match objection? options.strictNesting terms with
  | some objection =>
    ⟨.error (Fault.invalid.rejection.about text),
      objection.events ++ [.invalidExpression text]⟩
  | none =>
    match toPostfix terms with
    | .error fault => ⟨.error (fault.rejection.about text), [.infixOrder terms]⟩
    | .ok ordered =>
      match reduce options.allowPartial ordered with
      | .error fault =>
        ⟨.error (fault.rejection.about text), [.infixOrder terms, .postfixOrder ordered]⟩
      | .ok answer =>
        ⟨.ok answer.value, [.infixOrder terms, .postfixOrder ordered] ++ answer.events ordered⟩

end Reckoner
