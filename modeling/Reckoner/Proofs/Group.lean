import Reckoner.Proofs.Held
import Reckoner.Proofs.Outcome

/-!
# Groups in context

A parenthesised group is a unit in every context, well-formed or not. What is gone from the yard
plays no part in what follows, and what is held below an opening parenthesis plays no part until
its group is closed. So a group leaves the yard as it leaves a number: with the same terms held,
and the postfix order of what it encloses in place of the number. If that order is worked off to
the value of the number, nothing that comes later can tell the two apart.

Nothing is said of a group whose inner sequence cannot be put into postfix order.
-/

namespace Reckoner

namespace Yard

/-- The yard with more terms held below its own. -/
def above (yard : Yard) (held : List Term) : Yard :=
  ⟨yard.held ++ held, yard.gone⟩

/-- The yard with more terms gone before its own. -/
def after (yard : Yard) (gone : List Term) : Yard :=
  ⟨yard.held, yard.gone ++ gone⟩

/-- What is gone plays no part in a step. -/
theorem step_after (yard : Yard) (gone : List Term) (t : Term) :
    (yard.after gone).step t = (yard.step t).map (·.after gone) := by
  obtain ⟨held, earlier⟩ := yard
  simp only [step, after, release]
  cases t.kind with
  | number | opening | unknown => rfl
  | operator => cases t.operator? <;> simp [Except.map]
  | closing => cases held.dropWhile _ <;> simp [Except.map]

/-- What is gone plays no part in a run. -/
theorem foldlM_step_after (terms : List Term) (yard : Yard) (gone : List Term) :
    terms.foldlM step (yard.after gone) = (terms.foldlM step yard).map (·.after gone) := by
  induction terms generalizing yard with
  | nil => rfl
  | cons t rest ih =>
    rw [List.foldlM_cons, List.foldlM_cons, step_after]
    cases yard.step t with
    | error fault => rfl
    | ok next => exact ih next

/-- What is gone before comes first in the end. -/
theorem finish_after (yard : Yard) (gone : List Term) :
    (yard.after gone).finish = yard.finish.map (gone.reverse ++ ·) := by
  by_cases hopen : yard.held.any fun t => t.kind = .opening
  · have hyard : yard.finish = .error .unmatchedOpening := if_pos hopen
    have hafter : (yard.after gone).finish = .error .unmatchedOpening := if_pos hopen
    rw [hyard, hafter]
    rfl
  · have hyard : yard.finish = .ok (yard.gone.reverse ++ yard.held) := if_neg hopen
    have hafter : (yard.after gone).finish = .ok ((yard.gone ++ gone).reverse ++ yard.held) :=
      if_neg hopen
    rw [hyard, hafter, List.reverse_append, List.append_assoc]
    rfl

/-- What is held below an opening parenthesis plays no part in a move. -/
theorem Move.above {yard next : Yard} {t bracket : Term} (h : Move yard t next)
    (hbracket : bracket.kind = .opening) (held : List Term) :
    Move (yard.above (bracket :: held)) t (next.above (bracket :: held)) := by
  cases h with
  | number hkind => exact .number hkind
  | @operator released kept gone c hreleased hkept =>
    have hstop : ∀ u ∈ (kept ++ bracket :: held).head?, yields c.op u = false := by
      cases kept with
      | nil =>
        intro u hu
        cases hu
        refine Bool.eq_false_iff.mpr fun hyields => ?_
        rw [kind_of_yields hyields] at hbracket
        cases hbracket
      | cons u kept => exact hkept
    rw [Yard.above, List.append_assoc]
    exact .operator c hreleased hstop
  | opening hkind => exact .opening hkind
  | closing hkind hgroup hinner =>
    rw [Yard.above, List.append_assoc, List.cons_append]
    exact .closing hkind hgroup hinner

/-- What is held below an opening parenthesis plays no part in a run that closes no group that it
has not opened. -/
theorem foldlM_step_above {terms : List Term} {yard next : Yard} {bracket : Term}
    (h : terms.foldlM step yard = .ok next) (hbracket : bracket.kind = .opening)
    (held : List Term) :
    terms.foldlM step (yard.above (bracket :: held)) = .ok (next.above (bracket :: held)) := by
  induction terms generalizing yard with
  | nil =>
    cases h
    rfl
  | cons t rest ih =>
    rw [List.foldlM_cons, bind_eq_ok_iff] at h
    obtain ⟨middle, hstep, hrest⟩ := h
    rw [foldlM_cons_of_ok ((move_of_step hstep).above hbracket held).step_eq, ih hrest]

/-- Take in the rest of a sequence and let everything go. -/
def complete (yard : Yard) (rest : List Term) : Except Fault (List Term) := do
  let last ← rest.foldlM step yard
  last.finish

/-- What is gone before comes first in the end, whatever the rest of the sequence. -/
theorem complete_after (yard : Yard) (gone rest : List Term) :
    (yard.after gone).complete rest = (yard.complete rest).map (gone.reverse ++ ·) := by
  rw [complete, complete, foldlM_step_after]
  cases rest.foldlM step yard with
  | error fault => rfl
  | ok last => exact finish_after last gone

/-- The numbers that were taken in are gone. -/
theorem numberCount_gone_of_foldlM {terms : List Term} {yard : Yard}
    (h : terms.foldlM step .empty = .ok yard) : numberCount yard.gone = numberCount terms := by
  have hheld : numberCount (yard.held.filter fun t => t.kind ≠ .opening) = 0 := by
    refine List.countP_eq_zero.mpr fun t ht => ?_
    simpa using (stacked_of_foldlM h .nil).kind_ne_number t (List.mem_filter.mp ht).1
  have hcontent : numberCount yard.content =
      numberCount ((terms.filter fun t => !t.isParenthesis) ++ empty.content) :=
    (content_perm_of_foldlM h).countP_eq _
  rw [content, numberCount_append, hheld, numberCount_append, numberCount_filter] at hcontent
  exact hcontent

end Yard

/-- A sequence is put into postfix order part by part. -/
theorem toPostfix_append (first second : List Term) :
    toPostfix (first ++ second) = first.foldlM Yard.step .empty >>= (·.complete second) := by
  rw [toPostfix, List.foldlM_append, bind_assoc]
  rfl

/-- Whether terms pass through every yard: they leave the held terms as they are and are gone
themselves, in the given order. -/
def Passes (terms ordered : List Term) : Prop :=
  ∀ yard : Yard, terms.foldlM Yard.step yard = .ok ⟨yard.held, ordered.reverse ++ yard.gone⟩

/-- A number passes through every yard. -/
theorem passes_number {t : Term} (hkind : t.kind = .number) : Passes [t] [t] := fun _ =>
  foldlM_cons_of_ok (Yard.Move.number hkind).step_eq []

/-- Terms that pass through every yard one after the other pass through it together. -/
theorem Passes.append {first second ordered ordered' : List Term} (h : Passes first ordered)
    (h' : Passes second ordered') : Passes (first ++ second) (ordered ++ ordered') := by
  intro yard
  rw [foldlM_append_of_ok (h yard), h' _, List.reverse_append, List.append_assoc]

/-- Terms that pass through every yard are put into the order in which they are gone. -/
theorem Passes.toPostfix_eq {terms ordered : List Term} (h : Passes terms ordered) :
    toPostfix terms = .ok ordered := by
  refine toPostfix_eq_ok_iff.mpr ⟨_, h .empty, Yard.finish_eq_ok_iff.mpr ?_⟩
  simp [Yard.empty]

/-- Terms that pass through every yard leave no trace in it: what comes before and after them is put
into postfix order, or fails, regardless of them. They end up after the numbers before them. -/
theorem exists_order_of_passes (first last : List Term) :
    (∃ before after, numberCount before = numberCount first ∧
      ∀ terms ordered, Passes terms ordered →
        toPostfix (first ++ terms ++ last) = .ok (before ++ ordered ++ after)) ∨
      ∃ fault, ∀ terms ordered, Passes terms ordered →
        toPostfix (first ++ terms ++ last) = .error fault := by
  cases hfirst : first.foldlM Yard.step .empty with
  | error fault =>
    refine .inr ⟨fault, fun terms ordered _ => ?_⟩
    rw [List.append_assoc, toPostfix_append, hfirst]
    rfl
  | ok yard =>
    have hpasses (terms ordered : List Term) (h : Passes terms ordered) :
        toPostfix (first ++ terms ++ last) =
          ((Yard.mk yard.held []).complete last).map (yard.gone.reverse ++ ordered ++ ·) := by
      have hrun : (first ++ terms).foldlM Yard.step .empty =
          .ok ((Yard.mk yard.held []).after (ordered.reverse ++ yard.gone)) := by
        rw [foldlM_append_of_ok hfirst, h yard]
        rfl
      rw [toPostfix_append, hrun]
      refine (Yard.complete_after _ _ last).trans ?_
      rw [List.reverse_append, List.reverse_reverse]
    cases hlast : (Yard.mk yard.held []).complete last with
    | error fault =>
      refine .inr ⟨fault, fun terms ordered h => ?_⟩
      rw [hpasses terms ordered h, hlast]
      rfl
    | ok after =>
      refine .inl ⟨yard.gone.reverse, after, ?_, fun terms ordered h => ?_⟩
      · rw [← Yard.numberCount_gone_of_foldlM hfirst, numberCount, List.countP_reverse]
        rfl
      · rw [hpasses terms ordered h, hlast]
        rfl

/-- A parenthesised sequence together with the postfix order of what the parentheses enclose. -/
structure Group where
  opening : Term
  inner : List Term
  closing : Term
  ordered : List Term
  opens : opening.kind = .opening
  closes : closing.kind = .closing
  orders : toPostfix inner = .ok ordered

namespace Group

/-- The terms of a group. -/
def terms (g : Group) : List Term :=
  g.opening :: (g.inner ++ [g.closing])

/-- A group passes through every yard, in the postfix order of what it encloses. -/
theorem passes (g : Group) : Passes g.terms g.ordered := by
  rintro ⟨held, gone⟩
  -- the run of the inner sequence is repeated on top of what is held and gone already
  obtain ⟨inside, hrun, hfinish⟩ := toPostfix_eq_ok_iff.mp g.orders
  obtain ⟨hheld, hordered⟩ := Yard.finish_eq_ok_iff.mp hfinish
  have hopen : Yard.step ⟨held, gone⟩ g.opening =
      .ok ((Yard.empty.above (g.opening :: held)).after gone) :=
    (Yard.Move.opening g.opens).step_eq
  have hinner : g.inner.foldlM Yard.step ((Yard.empty.above (g.opening :: held)).after gone) =
      .ok ((inside.above (g.opening :: held)).after gone) := by
    rw [Yard.foldlM_step_after, Yard.foldlM_step_above hrun g.opens]
    rfl
  have hclose : Yard.step ((inside.above (g.opening :: held)).after gone) g.closing =
      .ok ⟨held, inside.held.reverse ++ (inside.gone ++ gone)⟩ :=
    (Yard.Move.closing g.closes hheld g.opens).step_eq
  rw [terms, foldlM_cons_of_ok hopen, foldlM_append_of_ok hinner, foldlM_cons_of_ok hclose,
    List.foldlM_nil, hordered, List.reverse_append, List.reverse_reverse, List.append_assoc]
  rfl

end Group

/-- Wherever it stands, a nested sequence leads back to the depth that it starts at. -/
theorem objectionFrom_nested {inner : List Term} (h : Nested inner) {strict : Bool} {depth : Int}
    (hdepth : strict = true → 0 ≤ depth) (rest : List Term) :
    objectionFrom strict depth (inner ++ rest) = objectionFrom strict depth rest := by
  induction h generalizing depth rest with
  | nil => rfl
  | operand x _ ih => rw [List.cons_append, objectionFrom_operand, ih hdepth]
  | connective c _ ih => rw [List.cons_append, objectionFrom_connective, ih hdepth]
  | group hopening hclosing _ _ ihinner ihrest =>
    have hinside (hstrict : strict = true) : 0 < depth + 1 := Int.lt_add_one_of_le (hdepth hstrict)
    rw [List.cons_append, objectionFrom_opening _ _ _ hopening, List.append_assoc,
      ihinner fun hstrict => Int.le_of_lt (hinside hstrict), List.cons_append,
      objectionFrom_closing _ _ _ hclosing hinside, Int.add_sub_cancel, ihrest hdepth]

/-- What the judgement cannot tell apart at any depth, it cannot tell apart after any terms. -/
theorem objectionFrom_append_congr {strict : Bool} {second second' : List Term}
    (h : ∀ depth : Int, (strict = true → 0 ≤ depth) →
      objectionFrom strict depth second = objectionFrom strict depth second')
    (first : List Term) {depth : Int} (hdepth : strict = true → 0 ≤ depth) :
    objectionFrom strict depth (first ++ second) = objectionFrom strict depth (first ++ second') := by
  induction first generalizing depth with
  | nil => exact h depth hdepth
  | cons t first ih =>
    simp only [List.cons_append, objectionFrom]
    split
    · exact ih fun hstrict => Int.le_add_one (hdepth hstrict)
    · split
      · rfl
      · next hopen =>
        refine ih fun hstrict => ?_
        have := not_and.mp hopen hstrict
        omega
    · rw [ih hdepth]

/-- A group whose inner sequence is strictly valid is judged as a number with a value is. -/
theorem objection?_group (g : Group) (x : Operand) (hinner : objection? true g.inner = none)
    (strict : Bool) (first last : List Term) :
    objection? strict (first ++ g.terms ++ last) =
      objection? strict (first ++ [x.term] ++ last) := by
  rw [List.append_assoc, List.append_assoc]
  refine objectionFrom_append_congr (fun depth hdepth => ?_) first fun _ => Int.le_refl 0
  have hgroup : Nested g.terms :=
    .group g.opens g.closes (nested_of_objection?_eq_none hinner) .nil
  rw [objectionFrom_nested hgroup hdepth]
  exact (objectionFrom_operand strict depth last x).symm

/-- Post-orders of trees of one value are worked off alike, whatever stands around them. -/
theorem reduce_postorder_congr {e e' : Tree} (h : e.value = e'.value) (allowPartial : Bool)
    (before after : List Term) :
    reduce allowPartial (before ++ e.postorder ++ after) =
      reduce allowPartial (before ++ e'.postorder ++ after) := by
  have hrun (stack : List Binary64) :
      e.postorder.foldlM reduceStep stack = e'.postorder.foldlM reduceStep stack := by
    rw [foldlM_reduceStep_postorder, foldlM_reduceStep_postorder, h]
  have hleft : leftovers (before ++ e.postorder ++ after) =
      leftovers (before ++ e'.postorder ++ after) := by
    simp only [leftovers, List.foldlM_append, hrun]
  rw [reduce, hleft, reduce]

/-- What is worked off to a single value, leftovers not allowed, is the post-order of a tree of that
value. -/
theorem exists_postorder_of_reduce {terms : List Term} {value : Binary64}
    (h : reduce false terms = .ok (.single value)) :
    ∃ e : Tree, terms = e.postorder ∧ e.value = value := by
  obtain ⟨trees, rfl, hsettle⟩ := reduce_eq_ok_iff.mp h
  obtain ⟨_, hvalues, hanswer⟩ := settle_false_eq_ok hsettle
  cases hanswer
  obtain ⟨e, rest, rfl, hvalue, hrest⟩ := List.map_eq_cons_iff.mp hvalues
  obtain rfl := List.map_eq_nil_iff.mp hrest
  exact ⟨e, by simp, hvalue⟩

/-- In every context, well-formed or not, a group and a number are put into postfix order alike: the
same terms come before and after, the postfix order of the group stands where the number stands, and
both fail with the same fault if one does. If what the group encloses is strictly valid and is worked
off to the value of the number, then the two sequences raise the same objection, if any, and are
worked off to the same answer or fail with the same fault, whatever the options. -/
theorem group_in_context (first last : List Term) :
    ((∃ before after, numberCount before = numberCount first ∧
        (∀ t : Term, t.kind = .number →
          toPostfix (first ++ [t] ++ last) = .ok (before ++ [t] ++ after)) ∧
        ∀ g : Group, toPostfix (first ++ g.terms ++ last) = .ok (before ++ g.ordered ++ after)) ∨
      ∃ fault,
        (∀ t : Term, t.kind = .number → toPostfix (first ++ [t] ++ last) = .error fault) ∧
        ∀ g : Group, toPostfix (first ++ g.terms ++ last) = .error fault) ∧
      ∀ (g : Group) (x : Operand), objection? true g.inner = none →
        reduce false g.ordered = .ok (.single x.value) → ∀ strict allowPartial,
          objection? strict (first ++ g.terms ++ last) =
              objection? strict (first ++ [x.term] ++ last) ∧
            (toPostfix (first ++ g.terms ++ last) >>= reduce allowPartial) =
              (toPostfix (first ++ [x.term] ++ last) >>= reduce allowPartial) := by
  have hcontext := exists_order_of_passes first last
  constructor
  · rcases hcontext with ⟨before, after, hcount, h⟩ | ⟨fault, h⟩
    · exact .inl ⟨before, after, hcount, fun t ht => h [t] [t] (passes_number ht),
        fun g => h g.terms g.ordered g.passes⟩
    · exact .inr ⟨fault, fun t ht => h [t] [t] (passes_number ht),
        fun g => h g.terms g.ordered g.passes⟩
  · intro g x hinner hvalue strict allowPartial
    refine ⟨objection?_group g x hinner strict first last, ?_⟩
    rcases hcontext with ⟨before, after, _, h⟩ | ⟨fault, h⟩
    · obtain ⟨e, hordered, he⟩ := exists_postorder_of_reduce hvalue
      have hleaf : e.value = (Tree.leaf x).value := he
      rw [h g.terms g.ordered g.passes, h [x.term] [x.term] (passes_number x.kind_term), hordered]
      exact reduce_postorder_congr hleaf allowPartial before after
    · rw [h g.terms g.ordered g.passes, h [x.term] [x.term] (passes_number x.kind_term)]

/-- After `2*` and before `5^`, where one operand is missing and one is too many, `(3+4)` is put into
postfix order and worked off like the number 7. -/
theorem group_in_context_seven :
    ∃ (g : Group) (x : Operand), g.terms = scan "(3+4)" ∧ x.term = .number "7" ∧
      objection? true g.inner = none ∧ reduce false g.ordered = .ok (.single x.value) ∧
      (∃ before after,
        toPostfix (scan "2*" ++ [x.term] ++ scan "5^") = .ok (before ++ [x.term] ++ after) ∧
          toPostfix (scan "2*" ++ g.terms ++ scan "5^") = .ok (before ++ g.ordered ++ after)) ∧
      (toPostfix (scan "2*" ++ g.terms ++ scan "5^") >>= reduce false) =
        (toPostfix (scan "2*" ++ [x.term] ++ scan "5^") >>= reduce false) := by
  let g : Group := ⟨.paren "(", [.number "3", .operator "+", .number "4"], .paren ")",
    [.number "3", .number "4", .operator "+"], rfl, rfl, eq_ok_of_toOption (by decide +kernel)⟩
  let x : Operand := ⟨.number "7", .ofDecimal false 7 0, by decide +kernel⟩
  have hinner : objection? true g.inner = none := by decide +kernel
  have hvalue : reduce false g.ordered = .ok (.single x.value) :=
    eq_ok_of_toOption (by decide +kernel)
  have hfine : (toPostfix (scan "2*" ++ [x.term] ++ scan "5^")).toOption ≠ none := by decide +kernel
  obtain ⟨horder, hanswer⟩ := group_in_context (scan "2*") (scan "5^")
  refine ⟨g, x, by decide +kernel, rfl, hinner, hvalue, ?_, (hanswer g x hinner hvalue true false).2⟩
  rcases horder with ⟨before, after, _, hnumber, hgroup⟩ | ⟨fault, hnumber, _⟩
  · exact ⟨before, after, hnumber x.term x.kind_term, hgroup g⟩
  · rw [hnumber x.term x.kind_term] at hfine
    exact absurd rfl hfine

end Reckoner
