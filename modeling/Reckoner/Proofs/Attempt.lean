import Reckoner.Fault

/-!
# Sequences of attempts

A sequence of attempts succeeds if every attempt does on the result of the one before, and it
fails with the first fault. Both stages that read a sequence of terms step by step are of this
form.
-/

namespace Reckoner

variable {α β σ : Type}

/-- A result that holds a value is that value; this form can be decided. -/
theorem eq_ok_of_toOption {ε : Type} {result : Except ε α} {value : α}
    (h : result.toOption = some value) : result = .ok value := by
  cases result with
  | error _ => cases h
  | ok v =>
    cases h
    rfl

/-- Two attempts in a row succeed if the first does and the second does on its result. -/
theorem bind_eq_ok_iff {attempt : Except Fault α} {next : α → Except Fault β} {result : β} :
    (attempt >>= next) = .ok result ↔ ∃ a, attempt = .ok a ∧ next a = .ok result := by
  cases attempt with
  | error fault => exact ⟨fun h => (nomatch h), fun ⟨_, h, _⟩ => (nomatch h)⟩
  | ok a =>
    constructor
    · intro h
      exact ⟨a, rfl, h⟩
    · rintro ⟨_, heq, h⟩
      cases heq
      exact h

/-- Two attempts in a row fail if the first does or the second does on its result. -/
theorem bind_eq_error_iff {attempt : Except Fault α} {next : α → Except Fault β}
    {fault : Fault} :
    (attempt >>= next) = .error fault ↔
      attempt = .error fault ∨ ∃ a, attempt = .ok a ∧ next a = .error fault := by
  cases attempt with
  | error other =>
    constructor
    · intro h
      cases h
      exact .inl rfl
    · rintro (h | ⟨_, h, _⟩)
      · cases h
        rfl
      · cases h
  | ok a =>
    constructor
    · intro h
      exact .inr ⟨a, rfl, h⟩
    · rintro (h | ⟨_, heq, h⟩)
      · cases h
      · cases heq
        exact h

/-- Where a run starts, after the steps on an initial part it continues from their result. -/
theorem foldlM_append_of_ok {step : σ → α → Except Fault σ} {start middle : σ}
    {first : List α} (h : first.foldlM step start = .ok middle) (second : List α) :
    (first ++ second).foldlM step start = second.foldlM step middle := by
  rw [List.foldlM_append, h]
  rfl

/-- A run starts with its first step. -/
theorem foldlM_cons_of_ok {step : σ → α → Except Fault σ} {start next : σ} {a : α}
    (h : step start a = .ok next) (rest : List α) :
    (a :: rest).foldlM step start = rest.foldlM step next := by
  rw [List.foldlM_cons, h]
  rfl

/-- What every step keeps holds after a run if it holds before. -/
theorem keeps_of_foldlM {step : σ → α → Except Fault σ} {invariant : σ → Prop}
    (hstep : ∀ state a next, invariant state → step state a = .ok next → invariant next)
    {start final : σ} {as : List α} (h : as.foldlM step start = .ok final)
    (hstart : invariant start) : invariant final := by
  induction as generalizing start with
  | nil =>
    cases h
    exact hstart
  | cons a rest ih =>
    rw [List.foldlM_cons, bind_eq_ok_iff] at h
    obtain ⟨next, hnext, hrest⟩ := h
    exact ih hrest (hstep start a next hstart hnext)

/-- A failed run failed at one of its steps, after the steps before it had succeeded. -/
theorem exists_step_of_foldlM_error {step : σ → α → Except Fault σ} {start : σ} {as : List α}
    {fault : Fault} (h : as.foldlM step start = .error fault) :
    ∃ first a rest state, as = first ++ a :: rest ∧ first.foldlM step start = .ok state ∧
      step state a = .error fault := by
  induction as generalizing start with
  | nil => cases h
  | cons a rest ih =>
    rw [List.foldlM_cons] at h
    rcases bind_eq_error_iff.mp h with hstep | ⟨next, hstep, hrest⟩
    · exact ⟨[], a, rest, start, rfl, rfl, hstep⟩
    · obtain ⟨first, b, tail, state, rfl, hfirst, hfault⟩ := ih hrest
      refine ⟨a :: first, b, tail, state, rfl, ?_, hfault⟩
      rw [foldlM_cons_of_ok hstep, hfirst]

end Reckoner
