import Reckoner.Evaluation
import Reckoner.Proofs.Grammar

/-!
# Outcomes of an evaluation

When an evaluation has a value, for every text and all options: the terms of the text raise no
objection and their postfix order is a row of post-orders, whose values are settled for.
-/

namespace Reckoner

/-- An evaluation answers what the values of the trees in its postfix order are settled for. -/
theorem evaluate_eq_ok_iff {options : Options} {text : String} {value : Binary64} :
    (evaluate options text).result = .ok value ↔
      objection? options.strictNesting (scan text) = none ∧
        ∃ (trees : List Tree) (answer : Answer),
          toPostfix (scan text) = .ok (trees.flatMap Tree.postorder) ∧
            settle options.allowPartial (trees.map Tree.value) = .ok answer ∧
              answer.value = value := by
  unfold evaluate
  dsimp only
  split
  · next hobjection => simp [hobjection]
  · next hobjection =>
    split
    · next hfault => simp [hfault]
    · next ordered hordered =>
      split
      · next hfault =>
        refine ⟨fun h => (nomatch h), ?_⟩
        intro ⟨_, trees, answer, horder, hsettle, _⟩
        rw [hordered] at horder
        cases horder
        rw [reduce_eq_ok_iff.mpr ⟨trees, rfl, hsettle⟩] at hfault
        cases hfault
      · next answer hanswer =>
        refine ⟨fun h => ?_, ?_⟩
        · cases h
          obtain ⟨trees, rfl, hsettle⟩ := reduce_eq_ok_iff.mp hanswer
          exact ⟨hobjection, trees, answer, hordered, hsettle, rfl⟩
        · intro ⟨_, trees, other, horder, hsettle, hvalue⟩
          rw [hordered] at horder
          cases horder
          rw [reduce_eq_ok_iff.mpr ⟨trees, rfl, hsettle⟩] at hanswer
          cases hanswer
          rw [← hvalue]

/-- Without leftovers allowed only a single value is settled for. -/
theorem settle_false_eq_ok {values : List Binary64} {answer : Answer}
    (h : settle false values = .ok answer) :
    ∃ value, values = [value] ∧ answer = .single value := by
  match values with
  | [] => cases h
  | [value] =>
    cases h
    exact ⟨value, rfl, rfl⟩
  | _ :: _ :: _ => cases h

/-- With leftovers allowed a single value is settled for, or the product of several. -/
theorem settle_true_eq_ok {values : List Binary64} {answer : Answer}
    (h : settle true values = .ok answer) :
    (∃ value, values = [value] ∧ answer = .single value) ∨
      2 ≤ values.length ∧ answer = .product values := by
  match values with
  | [] => cases h
  | [value] =>
    cases h
    exact .inl ⟨value, rfl, rfl⟩
  | _ :: _ :: _ =>
    cases h
    exact .inr ⟨by simp, rfl⟩

/-- Without leftovers allowed an evaluation answers the value of a single tree. -/
theorem evaluate_strictly_eq_ok_iff {strict : Bool} {text : String} {value : Binary64} :
    (evaluate ⟨false, strict⟩ text).result = .ok value ↔
      objection? strict (scan text) = none ∧
        ∃ e : Tree, toPostfix (scan text) = .ok e.postorder ∧ e.value = value := by
  rw [evaluate_eq_ok_iff]
  refine and_congr_right fun _ => ⟨?_, ?_⟩
  · intro ⟨trees, answer, horder, hsettle, hvalue⟩
    obtain ⟨v, hv, rfl⟩ := settle_false_eq_ok hsettle
    obtain ⟨e, rest, rfl, rfl, hrest⟩ := List.map_eq_cons_iff.mp hv
    obtain rfl := List.map_eq_nil_iff.mp hrest
    exact ⟨e, by simpa using horder, hvalue⟩
  · intro ⟨e, horder, hvalue⟩
    exact ⟨[e], .single e.value, by simpa using horder, rfl, hvalue⟩

/-- A text whose terms are derived has the value of their tree, whatever the options. -/
theorem evaluate_of_derives {text : String} {e : Tree} (h : Derives 0 (scan text) e)
    (options : Options) : (evaluate options text).result = .ok e.value :=
  evaluate_eq_ok_iff.mpr ⟨objection?_derives h options.strictNesting, [e], .single e.value,
    by simpa using toPostfix_derives h, rfl, rfl⟩

end Reckoner
