import Mathlib.Data.List.Basic
import Mathlib.Data.List.Induction
import Reckoner.Proofs.Agreement

/-!
# Rows of trees

A sequence in postfix order is a row of complete trees, or it has a first term that no row of
complete trees goes on with. A row of trees is read in one way only, and it is worth the value of its
tree if there is a single one, else the product of all values from left to right, where leftovers are
allowed. Any other sequence is rejected for its first term that breaks the row before it, whatever
follows: a number without a value, a term that is neither a number nor an operator, an operator
without a known symbol, or a known operator after fewer than two complete trees.

Terms may be built by hand here: an operator may have any text, and a number may lack a value.
-/

namespace Reckoner

/-- A number term is an operand in one way only. -/
theorem Operand.eq_of_term_eq {x y : Operand} (h : x.term = y.term) : x = y := by
  have hvalue : some x.value = some y.value := by rw [← x.reads, ← y.reads, h]
  obtain ⟨_, _, _⟩ := x
  obtain ⟨_, _, _⟩ := y
  cases h
  cases hvalue
  rfl

/-- An operator term is a connective in one way only. -/
theorem Connective.eq_of_term_eq {c d : Connective} (h : c.term = d.term) : c = d := by
  have hop : some c.op = some d.op := by rw [← c.writes, ← d.writes, h]
  obtain ⟨_, _, _⟩ := c
  obtain ⟨_, _, _⟩ := d
  cases h
  cases hop
  rfl

/-- Whether a sequence is a row of complete trees in postfix order. -/
def IsForest (terms : List Term) : Prop :=
  ∃ trees : List Tree, terms = trees.flatMap Tree.postorder

/-- A number is one more tree of a row. -/
theorem forest_concat_leaf (trees : List Tree) (x : Operand) :
    (trees ++ [Tree.leaf x]).flatMap Tree.postorder = trees.flatMap Tree.postorder ++ [x.term] := by
  simp [Tree.postorder]

/-- An operator joins the last two trees of a row. -/
theorem forest_concat_node (trees : List Tree) (c : Connective) (left right : Tree) :
    (trees ++ [Tree.node c left right]).flatMap Tree.postorder =
      (trees ++ [left, right]).flatMap Tree.postorder ++ [c.term] := by
  simp [Tree.postorder]

/-- The last term of a row of trees is its last tree, or joins the last two trees before it. -/
theorem forest_eq_concat {trees : List Tree} {terms : List Term} {t : Term}
    (h : trees.flatMap Tree.postorder = terms ++ [t]) :
    (∃ (before : List Tree) (x : Operand), trees = before ++ [.leaf x] ∧ x.term = t ∧
        before.flatMap Tree.postorder = terms) ∨
      ∃ (before : List Tree) (c : Connective) (left right : Tree),
        trees = before ++ [.node c left right] ∧ c.term = t ∧
          (before ++ [left, right]).flatMap Tree.postorder = terms := by
  rcases List.eq_nil_or_concat' trees with rfl | ⟨before, e, rfl⟩
  · simp at h
  · cases e with
    | leaf x =>
      rw [forest_concat_leaf] at h
      obtain ⟨hterms, hlast⟩ := List.append_inj' h rfl
      exact .inl ⟨before, x, rfl, List.singleton_inj.mp hlast, hterms⟩
    | node c left right =>
      rw [forest_concat_node] at h
      obtain ⟨hterms, hlast⟩ := List.append_inj' h rfl
      exact .inr ⟨before, c, left, right, rfl, List.singleton_inj.mp hlast, hterms⟩

/-- Only the row of no trees has no terms. -/
theorem eq_nil_of_forest_eq_nil {trees : List Tree} (h : trees.flatMap Tree.postorder = []) :
    trees = [] := by
  refine List.eq_nil_iff_forall_not_mem.mpr fun e he => ?_
  have hempty : e.postorder = [] := List.flatMap_eq_nil_iff.mp h e he
  have hcount := e.numberCount_postorder
  rw [hempty] at hcount
  simp at hcount

/-- A row of trees is read in one way only. -/
theorem forest_unique {trees others : List Tree}
    (h : trees.flatMap Tree.postorder = others.flatMap Tree.postorder) : trees = others := by
  -- the terms are taken away from the end, where each tells how the last tree is made
  generalize hterms : others.flatMap Tree.postorder = terms at h
  induction terms using List.reverseRecOn generalizing trees others with
  | nil => rw [eq_nil_of_forest_eq_nil h, eq_nil_of_forest_eq_nil hterms]
  | append_singleton terms t ih =>
    rcases forest_eq_concat h with
      ⟨before, x, rfl, rfl, hbefore⟩ | ⟨before, c, left, right, rfl, rfl, hbefore⟩
    · rcases forest_eq_concat hterms with
        ⟨before', y, rfl, hy, hbefore'⟩ | ⟨_, d, _, _, _, hd, _⟩
      · rw [ih hbefore hbefore', Operand.eq_of_term_eq hy]
      · have hkind := congrArg Term.kind hd
        simp at hkind
    · rcases forest_eq_concat hterms with
        ⟨_, y, _, hy, _⟩ | ⟨before', d, left', right', rfl, hd, hbefore'⟩
      · have hkind := congrArg Term.kind hy
        simp at hkind
      · obtain ⟨rfl, htrees⟩ := List.append_inj' (ih hbefore hbefore') rfl
        cases htrees
        rw [Connective.eq_of_term_eq hd]

/-- Without its last term a row of trees is still one. -/
theorem IsForest.of_concat {terms : List Term} {t : Term} (h : IsForest (terms ++ [t])) :
    IsForest terms := by
  obtain ⟨trees, htrees⟩ := h
  rcases forest_eq_concat htrees.symm with ⟨before, _, _, _, hterms⟩ | ⟨before, _, left, right, _, _,
    hterms⟩
  · exact ⟨before, hterms.symm⟩
  · exact ⟨before ++ [left, right], hterms.symm⟩

/-- Every initial part of a row of trees is one. -/
theorem IsForest.of_prefix {first terms : List Term} (h : IsForest terms) (hinitial : first <+: terms) :
    IsForest first := by
  obtain ⟨rest, rfl⟩ := hinitial
  induction rest using List.reverseRecOn with
  | nil => rwa [List.append_nil] at h
  | append_singleton rest t ih =>
    rw [← List.append_assoc] at h
    exact ih h.of_concat

/-- A term that a row of complete trees does not go on with, with the rejection that names the
reason. -/
inductive Breaks (trees : List Tree) (t : Term) : Rejection → Prop
  | valueless (hkind : t.kind = .number) (hvalue : t.value = none) :
      Breaks trees t ⟨.malformed, "Unparsable number " ++ Text.quote t.text, none⟩
  | stray (hnumber : t.kind ≠ .number) (hoperator : t.kind ≠ .operator) : Breaks trees t
      ⟨.malformed, "Unexpected term " ++ Text.quote t.text ++ " in postfix sequence", none⟩
  | unknown (hkind : t.kind = .operator) (htext : ∀ op : Operator, t.text ≠ op.symbol) :
      Breaks trees t ⟨.unknownOperator t.text, "Unknown operator " ++ Text.quote t.text, none⟩
  | lacking (op : Operator) (hkind : t.kind = .operator) (htext : t.text = op.symbol)
      (hcount : trees.length < 2) :
      Breaks trees t ⟨.malformed, "Insufficient operands for " ++ op.symbol, none⟩

/-- A term breaks a row of trees exactly if it cannot be worked off on the values of the row. -/
theorem breaks_iff {trees : List Tree} {t : Term} {r : Rejection} :
    Breaks trees t r ↔ ∃ fault, reduceStep (trees.map Tree.value).reverse t = .error fault ∧
      fault.rejection = r := by
  constructor
  · intro h
    cases h with
    | valueless hkind hvalue =>
      exact ⟨.unparsableNumber t.text, by simp [reduceStep, hkind, hvalue], rfl⟩
    | stray hnumber hoperator =>
      refine ⟨.strayPostfixTerm t.text, ?_, rfl⟩
      unfold reduceStep
      split
      · next hkind => exact absurd hkind hnumber
      · next hkind => exact absurd hkind hoperator
      · rfl
    | unknown hkind htext =>
      refine ⟨.unknownOperator t.text, ?_, rfl⟩
      simp [reduceStep, hkind, (operator?_eq_none_iff hkind).mpr htext]
    | lacking op hkind htext hcount =>
      refine ⟨.missingOperands t.text, ?_, by rw [htext]; rfl⟩
      have hop : t.operator? = some op := Term.operator?_eq_some_iff.mpr ⟨hkind, htext⟩
      cases trees with
      | nil => simp [reduceStep, hkind, hop]
      | cons e rest =>
        rw [List.length_cons] at hcount
        obtain rfl : rest = [] := List.eq_nil_of_length_eq_zero (by omega)
        simp [reduceStep, hkind, hop]
  · rintro ⟨fault, hstep, rfl⟩
    rcases reduceStep_eq_error hstep with ⟨hkind, hvalue, rfl⟩ | ⟨hnumber, hoperator, rfl⟩ |
        ⟨hkind, hop, rfl⟩ | ⟨op, hop, hfew, rfl⟩
    · exact .valueless hkind hvalue
    · exact .stray hnumber hoperator
    · exact .unknown hkind ((operator?_eq_none_iff hkind).mp hop)
    · obtain ⟨hkind, htext⟩ := Term.operator?_eq_some_iff.mp hop
      rw [htext]
      exact .lacking op hkind htext (by simpa using hfew)

/-- What a sequence is worth: the value that it is worked off to, or the rejection. -/
def worth (allowPartial : Bool) (terms : List Term) : Except Rejection Binary64 :=
  match reduce allowPartial terms with
  | .ok answer => .ok answer.value
  | .error fault => .error fault.rejection

/-- A row of trees is worth what the values of its trees are settled for. -/
theorem worth_forest (allowPartial : Bool) (trees : List Tree) :
    worth allowPartial (trees.flatMap Tree.postorder) =
      match settle allowPartial (trees.map Tree.value) with
      | .ok answer => .ok answer.value
      | .error fault => .error fault.rejection := by
  rw [worth, reduce_forest]

/-- A row of several trees is worth the product of their values from left to right, or is rejected
with their number. -/
theorem worth_of_two_le (allowPartial : Bool) (first second : Tree) (rest : List Tree) :
    worth allowPartial ((first :: second :: rest).flatMap Tree.postorder) =
      if allowPartial then
        .ok (((second :: rest).map Tree.value).foldl Binary64.mul first.value)
      else
        .error ⟨.malformed, "Stack has " ++ toString (first :: second :: rest).length ++
          " elements after evaluation, expected 1", none⟩ := by
  rw [worth_forest]
  cases allowPartial with
  | true => rfl
  | false =>
    rw [← List.length_map Tree.value]
    rfl

/-- A term that breaks a row of trees decides the rejection, whatever follows. -/
theorem worth_of_breaks {trees : List Tree} {t : Term} {r : Rejection} (h : Breaks trees t r)
    (allowPartial : Bool) (rest : List Term) :
    worth allowPartial (trees.flatMap Tree.postorder ++ t :: rest) = .error r := by
  obtain ⟨fault, hstep, rfl⟩ := breaks_iff.mp h
  have hrun : (trees.flatMap Tree.postorder ++ t :: rest).foldlM reduceStep [] = .error fault := by
    rw [foldlM_append_of_ok (foldlM_reduceStep_forest trees []), List.append_nil, List.foldlM_cons,
      hstep]
    rfl
  have hreduce : reduce allowPartial (trees.flatMap Tree.postorder ++ t :: rest) = .error fault :=
    bind_eq_error_iff.mpr (.inl (bind_eq_error_iff.mpr (.inl hrun)))
  rw [worth, hreduce]

/-- A term that breaks a row of trees leaves no row of trees. -/
theorem not_isForest_of_breaks {trees : List Tree} {t : Term} {r : Rejection}
    (h : Breaks trees t r) : ¬ IsForest (trees.flatMap Tree.postorder ++ [t]) := by
  rintro ⟨others, hothers⟩
  obtain ⟨fault, hstep, _⟩ := breaks_iff.mp h
  have hrun := foldlM_reduceStep_forest others []
  rw [← hothers, foldlM_append_of_ok (foldlM_reduceStep_forest trees []), List.append_nil,
    List.foldlM_cons, hstep] at hrun
  cases hrun

/-- A sequence that is no row of trees has a term that breaks the row before it. -/
theorem exists_breaks_of_not_isForest {terms : List Term} (h : ¬ IsForest terms) :
    ∃ (trees : List Tree) (t : Term) (rest : List Term) (r : Rejection),
      terms = trees.flatMap Tree.postorder ++ t :: rest ∧ Breaks trees t r := by
  cases hrun : terms.foldlM reduceStep [] with
  | ok stack =>
    obtain ⟨trees, _, hterms⟩ := exists_forest_of_foldlM [] hrun
    exact absurd ⟨trees.reverse, hterms.symm⟩ h
  | error fault =>
    obtain ⟨first, t, rest, stack, rfl, hfirst, hstep⟩ := exists_step_of_foldlM_error hrun
    obtain ⟨trees, rfl, hterms⟩ := exists_forest_of_foldlM [] hfirst
    change trees.reverse.flatMap Tree.postorder = first at hterms
    refine ⟨trees.reverse, t, rest, fault.rejection, by rw [hterms], breaks_iff.mpr ⟨fault, ?_, rfl⟩⟩
    rwa [List.map_reverse, List.reverse_reverse]

/-- A row of trees is read in one way only; it is worth the value of its tree if there is a single
one, and the product of all values from left to right if there are several and leftovers are allowed,
and is rejected otherwise. A sequence that is no row of trees has a shortest initial part that is
none, and the last term of this part decides the rejection by what is the matter with it, whatever
follows. -/
theorem worth_forest_or_breaks (allowPartial : Bool) (terms : List Term) :
    (∀ trees : List Tree, terms = trees.flatMap Tree.postorder →
        (∀ others : List Tree, terms = others.flatMap Tree.postorder → others = trees) ∧
        (trees = [] →
          worth allowPartial terms = .error ⟨.malformed, "Empty stack after evaluation", none⟩) ∧
        (∀ e, trees = [e] → worth allowPartial terms = .ok e.value) ∧
        ∀ first second rest, trees = first :: second :: rest →
          worth allowPartial terms =
            if allowPartial then
              .ok (((second :: rest).map Tree.value).foldl Binary64.mul first.value)
            else
              .error ⟨.malformed, "Stack has " ++ toString trees.length ++
                " elements after evaluation, expected 1", none⟩) ∧
      (¬ IsForest terms → ∃ (trees : List Tree) (t : Term) (rest : List Term) (r : Rejection),
        terms = trees.flatMap Tree.postorder ++ t :: rest ∧
          (∀ first, first <+: trees.flatMap Tree.postorder → IsForest first) ∧
          ¬ IsForest (trees.flatMap Tree.postorder ++ [t]) ∧ Breaks trees t r ∧
          ∀ rest', worth allowPartial (trees.flatMap Tree.postorder ++ t :: rest') = .error r) := by
  constructor
  · rintro trees rfl
    refine ⟨fun others h => (forest_unique h).symm, ?_, ?_, ?_⟩
    · rintro rfl
      rfl
    · rintro e rfl
      rw [worth_forest]
      rfl
    · rintro first second rest rfl
      exact worth_of_two_le allowPartial first second rest
  · intro h
    obtain ⟨trees, t, rest, r, hterms, hbreaks⟩ := exists_breaks_of_not_isForest h
    exact ⟨trees, t, rest, r, hterms, fun first => IsForest.of_prefix ⟨trees, rfl⟩,
      not_isForest_of_breaks hbreaks, hbreaks, worth_of_breaks hbreaks allowPartial⟩

/-- The row of `1 2 +` and `3` is worth nine or leaves two values, and `1 & +` is rejected for a term
that breaks the row before it. -/
theorem worth_forest_or_breaks_leftovers :
    worth true [.number "1", .number "2", .operator "+", .number "3"] = .ok (.ofDecimal false 9 0) ∧
      worth false [.number "1", .number "2", .operator "+", .number "3"] =
        .error ⟨.malformed, "Stack has 2 elements after evaluation, expected 1", none⟩ ∧
      ∃ (trees : List Tree) (t : Term) (r : Rejection), Breaks trees t r ∧
        worth true [.number "1", .operator "&", .operator "+"] = .error r := by
  let one : Operand := ⟨.number "1", .ofDecimal false 1 0, by decide +kernel⟩
  let two : Operand := ⟨.number "2", .ofDecimal false 2 0, by decide +kernel⟩
  let three : Operand := ⟨.number "3", .ofDecimal false 3 0, by decide +kernel⟩
  let sum : Tree := .node (.of .add) (.leaf one) (.leaf two)
  have hrow : [.number "1", .number "2", .operator "+", .number "3"] =
      [sum, .leaf three].flatMap Tree.postorder := rfl
  have hnine : ([Tree.leaf three].map Tree.value).foldl Binary64.mul sum.value =
      .ofDecimal false 9 0 := by decide +kernel
  have hmessage : "Stack has " ++ toString [sum, .leaf three].length ++
      " elements after evaluation, expected 1" =
        "Stack has 2 elements after evaluation, expected 1" := by decide +kernel
  have hallowed := ((worth_forest_or_breaks true _).1 _ hrow).2.2.2 _ _ _ rfl
  have hrefused := ((worth_forest_or_breaks false _).1 _ hrow).2.2.2 _ _ _ rfl
  rw [if_pos rfl, hnine] at hallowed
  rw [if_neg (by decide), hmessage] at hrefused
  refine ⟨hallowed, hrefused, ?_⟩
  have hunknown : Breaks [.leaf one] (.operator "&") _ :=
    .unknown rfl fun op => by cases op <;> decide
  have hnone : ¬ IsForest [.number "1", .operator "&", .operator "+"] := fun h =>
    not_isForest_of_breaks hunknown (h.of_prefix ⟨[.operator "+"], rfl⟩)
  obtain ⟨trees, t, rest, r, hterms, _, _, hbreaks, hworth⟩ :=
    (worth_forest_or_breaks true _).2 hnone
  refine ⟨trees, t, r, hbreaks, ?_⟩
  rw [hterms]
  exact hworth rest

end Reckoner
