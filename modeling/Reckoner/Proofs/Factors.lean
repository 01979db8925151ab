import Reckoner.Proofs.Group
import Reckoner.Proofs.Options
import Reckoner.Proofs.Reading

/-!
# Implicit products

Factors that are written one right after the other, without an operator between them. A factor is a
parenthesised text that has a value by itself, a literal, which may be signed, or a minus by itself,
which counts as minus one. Where one of every two neighbours is a group, its parentheses keep them
apart: each factor is scanned and put into postfix order as if it were by itself, and leaves its own
value. The values are multiplied if leftovers are allowed.

The text between the parentheses need not be well formed, it only has to have a value.
-/

namespace Reckoner

/-- A factor together with its value. -/
inductive Factor where
  | group (inner : String) (value : Binary64) (strict : Bool)
      (answers : (evaluate ⟨false, strict⟩ inner).result = .ok value)
  | literal (l : Literal) (sign : Sign)
  | minus

/-- The number that a minus by itself stands for. -/
def Operand.minusOne : Operand :=
  ⟨.number "-1", .ofDecimal true 1 0, by decide +kernel⟩

theorem Operand.value_minusOne : minusOne.value = .ofDecimal true 1 0 := by
  rw [minusOne]

namespace Factor

/-- How the factor is written. -/
def chars : Factor → List Char
  | group inner _ _ _ => '(' :: (inner.toList ++ [')'])
  | literal l sign => sign.chars ++ l.chars
  | minus => ['-']

/-- The value of the factor. -/
def value : Factor → Binary64
  | group _ value _ _ => value
  | literal l sign => l.value sign
  | minus => .ofDecimal true 1 0

/-- Whether the factor is a group. -/
def isGroup : Factor → Bool
  | group _ _ _ _ => true
  | literal _ _ | minus => false

/-- The terms of the factor. -/
def terms : Factor → List Term
  | group inner _ _ _ => .paren "(" :: (scan inner ++ [.paren ")"])
  | literal l sign => [(l.operand sign).term]
  | minus => [Operand.minusOne.term]

/-- What a group encloses is strictly valid, and its postfix order is that of a tree of its value. -/
theorem exists_tree_of_answers {inner : String} {value : Binary64} {strict : Bool}
    (h : (evaluate ⟨false, strict⟩ inner).result = .ok value) :
    objection? true (scan inner) = none ∧
      ∃ e : Tree, toPostfix (scan inner) = .ok e.postorder ∧ e.value = value := by
  have hstrict : (evaluate ⟨false, true⟩ inner).result = .ok value := evaluate_eq_ok_of_imp h id
  exact evaluate_strictly_eq_ok_iff.mp hstrict

/-- The terms of a factor are nested. -/
theorem nested (f : Factor) : Nested f.terms := by
  cases f with
  | group inner value strict answers =>
    exact .group rfl rfl (nested_of_objection?_eq_none (exists_tree_of_answers answers).1) .nil
  | literal l sign => exact .operand (l.operand sign) .nil
  | minus => exact .operand .minusOne .nil

/-- The terms of a factor pass through every yard in the postfix order of a tree of its value. -/
theorem exists_tree (f : Factor) : ∃ e : Tree, e.value = f.value ∧ Passes f.terms e.postorder := by
  cases f with
  | group inner value strict answers =>
    obtain ⟨_, e, horder, hvalue⟩ := exists_tree_of_answers answers
    exact ⟨e, hvalue, (Group.mk (.paren "(") (scan inner) (.paren ")") e.postorder rfl rfl
      horder).passes⟩
  | literal l sign =>
    exact ⟨.leaf (l.operand sign), rfl, passes_number (l.operand sign).kind_term⟩
  | minus =>
    exact ⟨.leaf .minusOne, Operand.value_minusOne, passes_number Operand.minusOne.kind_term⟩

/-- A group starts with its opening parenthesis. -/
theorem head?_chars_of_isGroup {f : Factor} (h : f.isGroup = true) (rest : List Char) :
    (f.chars ++ rest).head? = some '(' := by
  cases f with
  | group _ _ _ _ => rfl
  | literal _ _ => cases h
  | minus => cases h

/-- A factor is scanned by itself, before a group or at the end if it is none. -/
theorem scanFrom_chars (f : Factor) {rest : List Char}
    (hrest : f.isGroup = false → ∀ c ∈ rest.head?, c = '(') :
    scanFrom [] false (f.chars ++ rest) = f.terms ++ scanFrom [] false rest := by
  cases f with
  | group inner value strict answers =>
    have hinner : scanFrom [] false (inner.toList ++ ')' :: rest) =
        scan inner ++ .paren ")" :: scanFrom [] false rest := by
      rw [scanFrom_append_mark (by decide) (by decide), ofChar_closing]
      rfl
    rw [chars, List.cons_append, List.append_assoc, List.singleton_append,
      scanFrom_mark (by decide) (by decide), ofChar_opening, hinner, terms, List.cons_append,
      List.append_assoc]
    rfl
  | literal l sign =>
    have hopening := hrest rfl
    have hmark : ∀ c ∈ rest.head?, isNumeric c = false := fun c hc => by
      rw [hopening c hc]
      decide
    rw [chars, Scans.literal l sign [] rest hmark, scanFrom_before_opening hopening]
    rfl
  | minus =>
    rw [chars, List.singleton_append, scanFrom_sign (by decide),
      scanFrom_before_opening (hrest rfl)]
    rfl

end Factor

section Row

variable {factors : List Factor}

/-- Factors of which one of every two neighbours is a group are scanned one by one. -/
theorem scanFrom_factors (h : factors.IsChain fun f g => f.isGroup = true ∨ g.isGroup = true) :
    scanFrom [] false (factors.flatMap Factor.chars) = factors.flatMap Factor.terms := by
  induction factors with
  | nil => rfl
  | cons f rest ih =>
    rw [List.flatMap_cons, List.flatMap_cons, Factor.scanFrom_chars f ?_, ih h.tail]
    intro hnogroup c hc
    -- after a factor that is no group comes the opening parenthesis of the next one, or nothing
    cases rest with
    | nil => cases hc
    | cons g rest =>
      have hgroup : g.isGroup = true :=
        (List.isChain_cons_cons.mp h).1.resolve_left (Bool.eq_false_iff.mp hnogroup)
      rw [List.flatMap_cons, Factor.head?_chars_of_isGroup hgroup] at hc
      exact (Option.some.inj hc).symm

/-- There is no objection to factors. -/
theorem objection?_factors (strict : Bool) (factors : List Factor) :
    objection? strict (factors.flatMap Factor.terms) = none := by
  induction factors with
  | nil => rfl
  | cons f rest ih =>
    rw [List.flatMap_cons, objection?, objectionFrom_nested f.nested fun _ => Int.le_refl 0]
    exact ih

/-- Factors pass through every yard in the post-orders of trees of their values. -/
theorem exists_forest_of_factors (factors : List Factor) :
    ∃ trees : List Tree, trees.map Tree.value = factors.map Factor.value ∧
      Passes (factors.flatMap Factor.terms) (trees.flatMap Tree.postorder) := by
  induction factors with
  | nil => exact ⟨[], rfl, fun _ => rfl⟩
  | cons f rest ih =>
    obtain ⟨e, hvalue, he⟩ := f.exists_tree
    obtain ⟨trees, hvalues, htrees⟩ := ih
    refine ⟨e :: trees, ?_, ?_⟩
    · rw [List.map_cons, List.map_cons, hvalue, hvalues]
    · rw [List.flatMap_cons, List.flatMap_cons]
      exact he.append htrees

/-- A text of such factors has the outcome that their values are settled for. -/
theorem evaluate_of_factors (h : factors.IsChain fun f g => f.isGroup = true ∨ g.isGroup = true)
    (options : Options) :
    (evaluate options (.ofList (factors.flatMap Factor.chars))).result =
      match settle options.allowPartial (factors.map Factor.value) with
      | .ok answer => .ok answer.value
      | .error fault =>
        .error (fault.rejection.about (.ofList (factors.flatMap Factor.chars))) := by
  have hscan : scan (.ofList (factors.flatMap Factor.chars)) = factors.flatMap Factor.terms := by
    rw [scan, String.toList_ofList, scanFrom_factors h]
  obtain ⟨trees, hvalues, htrees⟩ := exists_forest_of_factors factors
  have hvalid : objection? options.strictNesting
      (scan (.ofList (factors.flatMap Factor.chars))) = none := by
    rw [hscan, objection?_factors]
  have horder : toPostfix (scan (.ofList (factors.flatMap Factor.chars))) =
      .ok (trees.flatMap Tree.postorder) := by
    rw [hscan, htrees.toPostfix_eq]
  have hresult := evaluate_of_forest hvalid horder
  rw [hvalues] at hresult
  exact hresult

end Row

/-- A row of factors, one of every two neighbours a group, has the product of their values from left
to right if leftovers are allowed, under either rule for nesting. If they are not, a single factor
still has its value, and several are refused with their number. -/
theorem evaluate_factors (first : Factor) (rest : List Factor)
    (hapart : (first :: rest).IsChain fun f g => f.isGroup = true ∨ g.isGroup = true)
    (strict : Bool) :
    let text := String.ofList ((first :: rest).flatMap Factor.chars)
    (evaluate ⟨true, strict⟩ text).result =
        .ok ((rest.map Factor.value).foldl Binary64.mul first.value) ∧
      (rest = [] → (evaluate ⟨false, strict⟩ text).result = .ok first.value) ∧
      (rest ≠ [] → (evaluate ⟨false, strict⟩ text).result =
        .error ⟨.malformed, "Stack has " ++ toString (first :: rest).length ++
          " elements after evaluation, expected 1", some text⟩) := by
  intro text
  rw [evaluate_of_factors hapart ⟨true, strict⟩, evaluate_of_factors hapart ⟨false, strict⟩]
  cases rest with
  | nil => exact ⟨rfl, fun _ => rfl, fun hne => absurd rfl hne⟩
  | cons second rest =>
    refine ⟨rfl, fun heq => absurd heq (List.cons_ne_nil _ _), fun _ => ?_⟩
    have hrefused := settle_false_of_two_le
      (show 2 ≤ ((first :: second :: rest).map Factor.value).length by simp)
    rw [hrefused, List.length_map]
    rfl

/-- The text `-(3)4(1+1)` has four factors: minus one, three, four and two. -/
theorem evaluate_factors_four :
    (evaluate ⟨true, true⟩ "-(3)4(1+1)").result = .ok (.ofDecimal true 24 0) ∧
      (evaluate ⟨false, true⟩ "-(3)4(1+1)").result =
        .error ⟨.malformed, "Stack has 4 elements after evaluation, expected 1",
          some "-(3)4(1+1)"⟩ := by
  let three : Factor := .group "3" (.ofDecimal false 3 0) true (eq_ok_of_toOption (by decide +kernel))
  let four : Factor := .literal ⟨['4'], none, by simp, by simp⟩ .none
  let two : Factor := .group "1+1" (.ofDecimal false 2 0) true (eq_ok_of_toOption (by decide +kernel))
  have hapart : [.minus, three, four, two].IsChain fun f g : Factor =>
      f.isGroup = true ∨ g.isGroup = true := by decide
  obtain ⟨hallowed, _, hrefused⟩ := evaluate_factors .minus [three, four, two] hapart true
  have htext : String.ofList ([.minus, three, four, two].flatMap Factor.chars) = "-(3)4(1+1)" := by
    decide +kernel
  have hproduct : ([three, four, two].map Factor.value).foldl Binary64.mul Factor.minus.value =
      .ofDecimal true 24 0 := by decide +kernel
  have hmessage : "Stack has " ++ toString [Factor.minus, three, four, two].length ++
      " elements after evaluation, expected 1" =
        "Stack has 4 elements after evaluation, expected 1" := by decide +kernel
  have hfour := hrefused (List.cons_ne_nil _ _)
  rw [htext] at hallowed hfour
  rw [hproduct] at hallowed
  rw [hmessage] at hfour
  exact ⟨hallowed, hfour⟩

end Reckoner
