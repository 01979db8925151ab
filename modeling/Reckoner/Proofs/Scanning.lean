import Reckoner.Proofs.Tree
import Reckoner.Scan

/-!
# Scanning piece by piece

A scan is followed over a known initial part of its text. Digits and points join the run, a sign
joins it unless a digit or point came right before, and any other character ends the run and
becomes a term. After a digit or point it does not matter whether the run is ended at once or by
the next character, so what follows a number can be scanned from an empty run.
-/

namespace Reckoner

/-- A sign is no part of a number. -/
theorem isNumeric_of_isSign {c : Char} (h : isSign c = true) : isNumeric c = false := by
  rcases Bool.or_eq_true_iff.mp h with hplus | hminus
  · rw [of_decide_eq_true hplus]
    decide
  · rw [of_decide_eq_true hminus]
    decide

/-- A digit or point joins the run. -/
theorem scanFrom_numeric {c : Char} (hc : isNumeric c = true) (run : List Char) (after : Bool)
    (rest : List Char) : scanFrom run after (c :: rest) = scanFrom (c :: run) true rest := by
  simp [scanFrom, hc]

/-- A sign joins the run unless it comes right after a digit or point. -/
theorem scanFrom_sign {c : Char} (hc : isSign c = true) (run rest : List Char) :
    scanFrom run false (c :: rest) = scanFrom (c :: run) false rest := by
  simp [scanFrom, hc, isNumeric_of_isSign hc]

/-- Every other character, and a sign right after a digit or point, ends the run and is a term. -/
theorem scanFrom_mark {c : Char} {after : Bool} (hc : isNumeric c = false)
    (hsign : isSign c = true → after = true) (run rest : List Char) :
    scanFrom run after (c :: rest) =
      Term.ofRun run.reverse ++ Term.ofChar c :: scanFrom [] false rest := by
  have hjoin : (isSign c && !after) = false := by
    cases h : isSign c with
    | false => rfl
    | true => rw [hsign h]; rfl
  simp [scanFrom, hc, hjoin]

/-- Digits and points join the run one after the other. -/
theorem scanFrom_numerics {piece : List Char} (hpiece : ∀ c ∈ piece, isNumeric c = true)
    (hne : piece ≠ []) (run : List Char) (after : Bool) (rest : List Char) :
    scanFrom run after (piece ++ rest) = scanFrom (piece.reverse ++ run) true rest := by
  induction piece generalizing run after with
  | nil => exact absurd rfl hne
  | cons c piece ih =>
    rw [List.cons_append, scanFrom_numeric (hpiece c List.mem_cons_self)]
    cases piece with
    | nil => rfl
    | cons d piece =>
      rw [ih (fun e he => hpiece e (List.mem_cons_of_mem c he)) (List.cons_ne_nil d piece)]
      simp

/-- After a digit or point the run ends before anything that does not join it. -/
theorem scanFrom_endRun {rest : List Char} (hrest : ∀ c ∈ rest.head?, isNumeric c = false)
    (run : List Char) :
    scanFrom run true rest = Term.ofRun run.reverse ++ scanFrom [] true rest := by
  cases rest with
  | nil => simp [scanFrom, Term.ofRun]
  | cons c rest =>
    rw [scanFrom_mark (hrest c rfl) (fun _ => rfl), scanFrom_mark (hrest c rfl) (fun _ => rfl)]
    rfl

/-- A mark that is no sign ends the scan of what comes before it, and a new scan starts after it. -/
theorem scanFrom_append_mark {c : Char} (hc : isNumeric c = false) (hsign : isSign c = false)
    (text rest run : List Char) (after : Bool) :
    scanFrom run after (text ++ c :: rest) =
      scanFrom run after text ++ Term.ofChar c :: scanFrom [] false rest := by
  induction text generalizing run after with
  | nil =>
    rw [List.nil_append, scanFrom_mark hc fun h => absurd h (Bool.eq_false_iff.mp hsign)]
    rfl
  | cons d text ih =>
    simp only [List.cons_append, scanFrom]
    split
    · exact ih (d :: run) true
    · split
      · exact ih (d :: run) false
      · rw [ih [] false, List.append_assoc, List.cons_append]

/-- A run ends before an opening parenthesis. -/
theorem scanFrom_before_opening {rest : List Char} (hrest : ∀ c ∈ rest.head?, c = '(')
    (run : List Char) (after : Bool) :
    scanFrom run after rest = Term.ofRun run.reverse ++ scanFrom [] false rest := by
  cases rest with
  | nil => exact (List.append_nil _).symm
  | cons c rest =>
    obtain rfl := hrest c rfl
    have hmark : isSign '(' = true → after = true := fun hsign => absurd hsign (by decide)
    rw [scanFrom_mark (by decide) hmark, scanFrom_mark (by decide) (by decide)]
    rfl

/-- A run with a digit or point in it stands for the number that it writes. -/
theorem Term.ofRun_of_isNumeric {run : List Char} {c : Char} (hc : c ∈ run)
    (hnumeric : isNumeric c = true) : Term.ofRun run = [.number (.ofList run)] := by
  unfold Term.ofRun
  split
  · cases hc
  · rw [List.mem_singleton.mp hc] at hnumeric
    exact absurd hnumeric (by decide)
  · rfl

/-- A finished run is a number or nothing, so it holds no operator. -/
theorem operatorCount_ofRun (run : List Char) : operatorCount (Term.ofRun run) = 0 := by
  unfold Term.ofRun
  split <;> simp [operatorCount, Term.number]

end Reckoner
