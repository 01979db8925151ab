import Reckoner.Proofs.Nesting
import Reckoner.Proofs.YardMoves

/-!
# Balance of parentheses

The judgement counts parentheses while the yard holds them back, and the two agree. A sequence of
admissible terms raises no objection exactly if it opens as many groups as it closes and, under
strict nesting, closes none that is not open. The yard, which knows no nesting rule, takes in such
a sequence exactly if it closes no group that is not open, and lets everything go exactly if no
group is left open.

A sequence that closes a group before it is open may have equal counts all the same. Without
strict nesting it is the yard that refuses it.
-/

namespace Reckoner

/-- How many terms of a sequence are opening parentheses. -/
def openingCount (terms : List Term) : Nat :=
  terms.countP fun t => t.kind = .opening

/-- How many terms of a sequence are closing parentheses. -/
def closingCount (terms : List Term) : Nat :=
  terms.countP fun t => t.kind = .closing

@[simp] theorem openingCount_nil : openingCount [] = 0 :=
  rfl

@[simp] theorem closingCount_nil : closingCount [] = 0 :=
  rfl

@[simp] theorem openingCount_cons (t : Term) (rest : List Term) :
    openingCount (t :: rest) = openingCount rest + if t.kind = .opening then 1 else 0 := by
  simp [openingCount, List.countP_cons]

@[simp] theorem closingCount_cons (t : Term) (rest : List Term) :
    closingCount (t :: rest) = closingCount rest + if t.kind = .closing then 1 else 0 := by
  simp [closingCount, List.countP_cons]

@[simp] theorem openingCount_append (first second : List Term) :
    openingCount (first ++ second) = openingCount first + openingCount second :=
  List.countP_append

@[simp] theorem closingCount_append (first second : List Term) :
    closingCount (first ++ second) = closingCount first + closingCount second :=
  List.countP_append

/-- The first term and the others are counted apart. -/
theorem openingCount_cons_eq_add (t : Term) (rest : List Term) :
    openingCount (t :: rest) = openingCount [t] + openingCount rest :=
  openingCount_append [t] rest

/-- The first term and the others are counted apart. -/
theorem closingCount_cons_eq_add (t : Term) (rest : List Term) :
    closingCount (t :: rest) = closingCount [t] + closingCount rest :=
  closingCount_append [t] rest

/-- Without opening parentheses there are none to count. -/
theorem openingCount_eq_zero {terms : List Term} :
    openingCount terms = 0 ↔ ∀ t ∈ terms, t.kind ≠ .opening := by
  simp [openingCount, List.countP_eq_zero]

/-- Whether a sequence, at some depth, closes a group that is not open: some initial part of it
holds more closing parentheses than there are opening ones up to its end. -/
def ClosesUnopened (depth : Int) (terms : List Term) : Prop :=
  ∃ first, first <+: terms ∧ depth + openingCount first < closingCount first

/-- Nothing closes a group that is not open, unless one was closed before. -/
theorem closesUnopened_nil {depth : Int} : ClosesUnopened depth [] ↔ depth < 0 := by
  constructor
  · rintro ⟨first, hprefix, hlt⟩
    rw [List.prefix_nil.mp hprefix] at hlt
    simpa using hlt
  · intro h
    exact ⟨[], List.prefix_rfl, by simpa using h⟩

/-- The first term only changes the depth at which the others stand. -/
theorem closesUnopened_cons {depth : Int} (hdepth : 0 ≤ depth) {t : Term} {rest : List Term} :
    ClosesUnopened depth (t :: rest) ↔
      ClosesUnopened (depth + openingCount [t] - closingCount [t]) rest := by
  constructor
  · rintro ⟨first, hprefix, hlt⟩
    rcases List.prefix_cons_iff.mp hprefix with rfl | ⟨first, rfl, hfirst⟩
    · rw [openingCount_nil, closingCount_nil] at hlt
      omega
    · rw [openingCount_cons_eq_add, closingCount_cons_eq_add] at hlt
      exact ⟨first, hfirst, by omega⟩
  · rintro ⟨first, hprefix, hlt⟩
    refine ⟨t :: first, (List.prefix_cons_inj t).mpr hprefix, ?_⟩
    rw [openingCount_cons_eq_add, closingCount_cons_eq_add]
    omega

/-- At a depth below zero a group was closed already that was not open. -/
theorem closesUnopened_of_neg {depth : Int} (h : depth < 0) (terms : List Term) :
    ClosesUnopened depth terms :=
  ⟨[], List.nil_prefix, by simpa using h⟩

/-- An admissible first term that, under strict nesting, closes no group that is not open is passed
over, and the others stand at the depth after it. -/
theorem objectionFrom_cons_of_admissible {strict : Bool} {depth : Int} {t : Term} {rest : List Term}
    (hterm : t.Admissible) (hnext : strict = true → 0 ≤ depth + openingCount [t] - closingCount [t]) :
    objectionFrom strict depth (t :: rest) =
      objectionFrom strict (depth + openingCount [t] - closingCount [t]) rest := by
  rcases hterm with hkind | hkind | ⟨x, rfl⟩ | ⟨c, rfl⟩
  · rw [objectionFrom_opening _ _ _ hkind]
    simp [hkind]
  · have hopen : strict = true → 0 < depth := by
      intro hstrict
      have := hnext hstrict
      simp [hkind] at this
      omega
    rw [objectionFrom_closing _ _ _ hkind hopen]
    simp [hkind]
  · rw [objectionFrom_operand]
    simp
  · rw [objectionFrom_connective]
    simp

/-- A judgement that reports nothing has passed over the first term: it is admissible and, under strict
nesting, does not close a group that is not open. -/
theorem objectionFrom_cons_eq_iff {strict : Bool} {depth : Int} {t : Term} {rest : List Term}
    {judgement : Option Objection} (hsilent : judgement.elim [] Objection.events = [])
    (hdepth : strict = true → 0 ≤ depth) :
    objectionFrom strict depth (t :: rest) = judgement ↔
      t.Admissible ∧ (strict = true → 0 ≤ depth + openingCount [t] - closingCount [t]) ∧
        objectionFrom strict (depth + openingCount [t] - closingCount [t]) rest = judgement := by
  constructor
  · intro h
    rcases objectionFrom_cons_eq hsilent h with
      ⟨hkind, hrest⟩ | ⟨hkind, hopen, hrest⟩ | ⟨hterm, hrest⟩
    · refine ⟨.inl hkind, fun hstrict => ?_, by simpa [hkind] using hrest⟩
      have := hdepth hstrict
      simp [hkind]
      omega
    · refine ⟨.inr (.inl hkind), fun hstrict => ?_, by simpa [hkind] using hrest⟩
      have := hopen hstrict
      simp [hkind]
      omega
    · refine ⟨.inr (.inr hterm), fun hstrict => ?_, ?_⟩
      · have := hdepth hstrict
        rcases hterm with ⟨x, rfl⟩ | ⟨c, rfl⟩ <;> simpa using this
      · rcases hterm with ⟨x, rfl⟩ | ⟨c, rfl⟩ <;> simpa using hrest
  · rintro ⟨hterm, hnext, hrest⟩
    rw [objectionFrom_cons_of_admissible hterm hnext, hrest]

/-- The judgement reports nothing exactly if the terms are admissible and, under strict nesting, groups
are closed only while they are open. It then has no objection exactly if the groups opened before and in
the sequence are all closed in it. -/
theorem objectionFrom_eq_iff {strict : Bool} {depth : Int} {terms : List Term}
    {judgement : Option Objection} (hsilent : judgement.elim [] Objection.events = [])
    (hdepth : strict = true → 0 ≤ depth) :
    objectionFrom strict depth terms = judgement ↔
      (∀ t ∈ terms, t.Admissible) ∧
        (judgement = none ↔ depth + openingCount terms = closingCount terms) ∧
        (strict = true → ¬ ClosesUnopened depth terms) := by
  induction terms generalizing depth with
  | nil =>
    have hcloses : strict = true → ¬ ClosesUnopened depth [] := by
      intro hstrict hcloses
      have := closesUnopened_nil.mp hcloses
      have := hdepth hstrict
      omega
    have hcount : depth + openingCount [] = closingCount [] ↔ depth = 0 := by simp
    rw [objectionFrom, hcount, and_iff_right (by simp), and_iff_left hcloses]
    by_cases hzero : depth = 0
    · rw [if_pos hzero, iff_true_right hzero]
      exact eq_comm
    · rw [if_neg hzero, iff_false_right hzero]
      cases judgement with
      | none => simp
      | some objection =>
        cases objection with
        | unequalCounts => simp
        | strayClosing => cases hsilent
        | invalidTerm _ => cases hsilent
  | cons t rest ih =>
    rw [objectionFrom_cons_eq_iff hsilent hdepth, openingCount_cons_eq_add t rest,
      closingCount_cons_eq_add t rest]
    constructor
    · rintro ⟨hterm, hnext, hrest⟩
      obtain ⟨hterms, hcount, hcloses⟩ := (ih hnext).mp hrest
      refine ⟨List.forall_mem_cons.mpr ⟨hterm, hterms⟩, hcount.trans (by omega), fun hstrict => ?_⟩
      exact fun hdip => hcloses hstrict ((closesUnopened_cons (hdepth hstrict)).mp hdip)
    · rintro ⟨hterms, hcount, hcloses⟩
      obtain ⟨hterm, hrest⟩ := List.forall_mem_cons.mp hterms
      have hcloses' (hstrict : strict = true) :=
        fun hdip => hcloses hstrict ((closesUnopened_cons (hdepth hstrict)).mpr hdip)
      have hnext (hstrict : strict = true) :
          0 ≤ depth + openingCount [t] - closingCount [t] :=
        Int.not_lt.mp fun hneg => hcloses' hstrict (closesUnopened_of_neg hneg rest)
      exact ⟨hterm, hnext, (ih hnext).mpr ⟨hrest, hcount.trans (by omega), hcloses'⟩⟩

/-- A sequence raises no objection exactly if its terms are admissible, it holds as many opening as
closing parentheses and, under strict nesting, no group is closed that is not open. -/
theorem objection?_eq_none_iff {strict : Bool} {terms : List Term} :
    objection? strict terms = none ↔
      (∀ t ∈ terms, t.Admissible) ∧ openingCount terms = closingCount terms ∧
        (strict = true → ¬ ClosesUnopened 0 terms) := by
  rw [objection?, objectionFrom_eq_iff rfl fun _ => Int.le_refl 0]
  simp only [Int.zero_add, Int.natCast_inj, true_iff]

/-- A sequence is refused without a report exactly if its terms are admissible and its parentheses are
not equal in number but, under strict nesting, closed only while they are open. -/
theorem objection?_eq_unequalCounts_iff {strict : Bool} {terms : List Term} :
    objection? strict terms = some .unequalCounts ↔
      (∀ t ∈ terms, t.Admissible) ∧ openingCount terms ≠ closingCount terms ∧
        (strict = true → ¬ ClosesUnopened 0 terms) := by
  rw [objection?, objectionFrom_eq_iff rfl fun _ => Int.le_refl 0]
  simp only [Int.zero_add, Int.natCast_inj, reduceCtorEq, false_iff, ne_eq]

/-- Without strict nesting only the terms and the counts matter. -/
theorem objection?_false_eq_none_iff {terms : List Term} :
    objection? false terms = none ↔
      (∀ t ∈ terms, t.Admissible) ∧ openingCount terms = closingCount terms := by
  simp [objection?_eq_none_iff]

namespace Yard

/-- A move holds back an opening parenthesis and takes one away for a closing one. -/
theorem Move.openingCount_held {yard next : Yard} {t : Term} (h : Move yard t next) :
    openingCount next.held + closingCount [t] = openingCount yard.held + openingCount [t] := by
  cases h with
  | number hkind => simp [hkind]
  | @operator released kept gone c hreleased hkept =>
    have hnone : openingCount released = 0 := by
      refine openingCount_eq_zero.mpr fun u hu => ?_
      rw [kind_of_yields (hreleased u hu)]
      decide
    simp [hnone]
  | opening hkind => simp [hkind]
  | closing hkind hgroup hbracket =>
    simp [openingCount_eq_zero.mpr hgroup, hkind, hbracket]

/-- A run holds back an opening parenthesis for each group that is open. -/
theorem openingCount_held_of_foldlM {terms : List Term} {yard next : Yard}
    (h : terms.foldlM step yard = .ok next) :
    openingCount next.held + closingCount terms =
      openingCount yard.held + openingCount terms := by
  induction terms generalizing yard with
  | nil =>
    cases h
    rfl
  | cons t rest ih =>
    rw [List.foldlM_cons, bind_eq_ok_iff] at h
    obtain ⟨middle, hstep, hrest⟩ := h
    have hmove := (move_of_step hstep).openingCount_held
    have hrun := ih hrest
    rw [openingCount_cons_eq_add t rest, closingCount_cons_eq_add t rest]
    omega

/-- A run closes no group that is not open. -/
theorem not_closesUnopened_of_foldlM {terms : List Term} {yard next : Yard}
    (h : terms.foldlM step yard = .ok next) : ¬ ClosesUnopened (openingCount yard.held) terms := by
  rintro ⟨first, ⟨rest, rfl⟩, hlt⟩
  rw [List.foldlM_append, bind_eq_ok_iff] at h
  obtain ⟨middle, hfirst, _⟩ := h
  have := openingCount_held_of_foldlM hfirst
  omega

/-- In the end a yard is refused exactly if it still holds an opening parenthesis. -/
theorem finish_eq_error_iff {yard : Yard} {fault : Fault} :
    yard.finish = .error fault ↔ fault = .unmatchedOpening ∧ 0 < openingCount yard.held := by
  constructor
  · intro hfinish
    refine ⟨finish_eq_error hfinish, Nat.pos_of_ne_zero fun hzero => ?_⟩
    rw [finish_eq_ok_iff.mpr ⟨openingCount_eq_zero.mp hzero, rfl⟩] at hfinish
    cases hfinish
  · rintro ⟨rfl, hopen⟩
    cases hfinish : yard.finish with
    | ok ordered =>
      rw [openingCount_eq_zero.mpr (finish_eq_ok_iff.mp hfinish).1] at hopen
      exact absurd hopen (Nat.lt_irrefl 0)
    | error fault => rw [finish_eq_error hfinish]

end Yard

/-- What is put into postfix order closes no group that is not open. -/
theorem not_closesUnopened_of_toPostfix {terms ordered : List Term}
    (h : toPostfix terms = .ok ordered) : ¬ ClosesUnopened 0 terms := by
  obtain ⟨yard, hrun, _⟩ := toPostfix_eq_ok_iff.mp h
  exact Yard.not_closesUnopened_of_foldlM hrun

/-- Admissible terms that cannot be put into postfix order close a group that is not open, or else
leave one open. -/
theorem toPostfix_eq_error {terms : List Term} {fault : Fault}
    (hterms : ∀ t ∈ terms, t.Admissible) (h : toPostfix terms = .error fault) :
    (fault = .unmatchedClosing ∧ ClosesUnopened 0 terms) ∨
      (fault = .unmatchedOpening ∧ ¬ ClosesUnopened 0 terms ∧
        closingCount terms < openingCount terms) := by
  rcases bind_eq_error_iff.mp h with hrun | ⟨yard, hrun, hfinish⟩
  · obtain ⟨first, t, rest, yard, rfl, hfirst, hstep⟩ := exists_step_of_foldlM_error hrun
    have ht : t.Admissible := hterms t (by simp)
    rcases Yard.step_eq_error hstep with ⟨hkind, hop, _⟩ | ⟨hkind, hheld, rfl⟩ | ⟨hkind, _⟩
    · exact absurd hop (operator?_ne_none_of_admissible ht hkind)
    · -- nothing is open before `t`, which closes a group
      have hcount := Yard.openingCount_held_of_foldlM hfirst
      rw [openingCount_eq_zero.mpr hheld] at hcount
      refine .inl ⟨rfl, first ++ [t], ⟨rest, by simp⟩, ?_⟩
      simp [Yard.empty, hkind] at hcount ⊢
      omega
    · exact absurd hkind (kind_ne_unknown_of_admissible ht)
  · obtain ⟨hfault, hopen⟩ := Yard.finish_eq_error_iff.mp hfinish
    refine .inr ⟨hfault, Yard.not_closesUnopened_of_foldlM hrun, ?_⟩
    have hcount := Yard.openingCount_held_of_foldlM hrun
    simp [Yard.empty] at hcount
    omega

/-- Admissible terms that close a group before it is open are refused for that parenthesis. -/
theorem toPostfix_of_closesUnopened {terms : List Term} (hterms : ∀ t ∈ terms, t.Admissible)
    (h : ClosesUnopened 0 terms) : toPostfix terms = .error .unmatchedClosing := by
  cases hordered : toPostfix terms with
  | ok ordered => exact absurd h (not_closesUnopened_of_toPostfix hordered)
  | error fault =>
    rcases toPostfix_eq_error hterms hordered with ⟨rfl, _⟩ | ⟨_, hcloses, _⟩
    · rfl
    · exact absurd h hcloses

/-- A strictly valid sequence is put into postfix order. -/
theorem exists_toPostfix_of_objection?_eq_none {terms : List Term}
    (h : objection? true terms = none) : ∃ ordered, toPostfix terms = .ok ordered := by
  obtain ⟨hterms, hcount, hcloses⟩ := objection?_eq_none_iff.mp h
  cases hordered : toPostfix terms with
  | ok ordered => exact ⟨ordered, rfl⟩
  | error fault =>
    rcases toPostfix_eq_error hterms hordered with ⟨_, hopen⟩ | ⟨_, _, hlt⟩
    · exact absurd hopen (hcloses rfl)
    · omega

end Reckoner
