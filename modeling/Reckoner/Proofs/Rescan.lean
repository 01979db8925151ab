import Reckoner.Proofs.Runs
import Reckoner.Proofs.Verdict

/-!
# Scanning what was scanned

The texts of the terms of a scan, one right after the other, are scanned into the same terms. They are
the text itself, except that a minus alone has become minus one. The one that is put in there leaves
every boundary where it was: a minus that is scanned by itself is not followed by a sign or a digit, so
the character after it ends the number in either case.

The texts of the terms are therefore a normal form: two texts have the same terms exactly if they have
the same normal form, and a text and its normal form are evaluated alike.
-/

namespace Reckoner

/-- The texts of a sequence of terms, one right after the other. -/
def Term.written (terms : List Term) : String :=
  .ofList (terms.flatMap fun t => t.text.toList)

/-- What a finished run is written as is a run again, and stands for the same number. A sign that would
not have joined the run does not join it now. -/
theorem exists_isRun_written {run : List Char} {after : Bool} (h : IsRun run after) :
    ∃ written after', (Term.ofRun run).flatMap (fun t => t.text.toList) = written ∧
      IsRun written after' ∧ (after = true → after' = true) ∧
      Term.ofRun written = Term.ofRun run := by
  by_cases hnil : run = []
  · rw [hnil] at h ⊢
    exact ⟨[], after, rfl, h, id, rfl⟩
  · by_cases hminus : run = ['-']
    · rw [hminus]
      exact ⟨['-', '1'], true, by decide +kernel, isRun_minusOne, fun _ => rfl, by decide +kernel⟩
    · refine ⟨run, after, ?_, h, id, rfl⟩
      simp [ofRun_of_ne hnil hminus, Term.number]

/-- Whatever run is pending, scanning what the terms are written as gives the terms again. -/
theorem scanFrom_written {run : List Char} {after : Bool} (h : IsRun run after) (rest : List Char) :
    scanFrom [] false ((scanFrom run.reverse after rest).flatMap fun t => t.text.toList) =
      scanFrom run.reverse after rest := by
  refine scanFrom_induct (motive := fun run after rest =>
    scanFrom [] false ((scanFrom run.reverse after rest).flatMap fun t => t.text.toList) =
      scanFrom run.reverse after rest) ?nil ?numeric ?sign ?mark h rest
  case nil =>
    intro run after h
    obtain ⟨written, after', hwritten, hrun, _, hsame⟩ := exists_isRun_written h
    have hscan := hrun.scanFrom_append []
    rw [List.append_nil, scanFrom, List.reverse_reverse] at hscan
    rw [scanFrom, List.reverse_reverse, hwritten, hscan, hsame]
  case numeric =>
    intro run after c rest h hc ih
    rw [scanFrom_numeric hc, ← List.reverse_concat]
    exact ih
  case sign =>
    intro run c rest h hc ih
    rw [scanFrom_sign hc, ← List.reverse_concat]
    exact ih
  case mark =>
    intro run after c rest h hc hsign ih
    obtain ⟨written, after', hwritten, hrun, hafter, hsame⟩ := exists_isRun_written h
    -- the mark ends the run that is written as it ended the run that was scanned
    rw [scanFrom_mark hc hsign, List.reverse_reverse, List.flatMap_append, List.flatMap_cons,
      text_ofChar, hwritten, String.toList_singleton, List.singleton_append, hrun.scanFrom_append,
      scanFrom_mark hc fun hc => hafter (hsign hc), List.reverse_reverse, hsame]
    exact congrArg (fun terms => Term.ofRun run ++ Term.ofChar c :: terms) ih

/-- The texts of the terms of a text, one right after the other, are scanned into the same terms. So they
are a normal form: they are their own normal form, and texts have the same terms exactly if they have
the same one. Under all options a text and its normal form have the same value, or are rejected with the
same kind and message. -/
theorem scan_written (text : String) :
    scan (Term.written (scan text)) = scan text ∧
      Term.written (scan (Term.written (scan text))) = Term.written (scan text) ∧
      (∀ other, scan other = scan text ↔ Term.written (scan other) = Term.written (scan text)) ∧
      ∀ options, (evaluate options (Term.written (scan text))).outcome =
        (evaluate options text).outcome := by
  have hscan (text : String) : scan (Term.written (scan text)) = scan text := by
    rw [scan, Term.written, String.toList_ofList]
    exact scanFrom_written .nil text.toList
  refine ⟨hscan text, by rw [hscan], fun other => ⟨fun h => by rw [h], fun h => ?_⟩, fun options => ?_⟩
  · rw [← hscan other, h, hscan]
  · rw [outcome_evaluate, hscan, outcome_evaluate]

/-- A minus that is scanned by itself is written with its one; all else stays. -/
example : Term.written (scan "-(1+-x) -") = "-1(1+-1x) -1" := by decide +kernel

end Reckoner
