import Reckoner.Proofs.Pieces

/-!
# Runs

The characters that a scan has gathered for a number are always some signs followed by some digits and
points: a sign joins only while there is no digit or point. So every number is written that way, and a
scan that starts anew takes up such a run as it stands.
-/

namespace Reckoner

/-- A text of signs first, then digits and points; the flag tells whether there are any of the latter. -/
def IsRun (text : List Char) (afterNumeric : Bool) : Prop :=
  ∃ signs numerics, text = signs ++ numerics ∧ (∀ c ∈ signs, isSign c = true) ∧
    (∀ c ∈ numerics, isNumeric c = true) ∧ (afterNumeric = true ↔ numerics ≠ [])

namespace IsRun

variable {text : List Char} {afterNumeric : Bool}

/-- Before the first character there is nothing. -/
theorem nil : IsRun [] false :=
  ⟨[], [], rfl, fun _ h => (nomatch h), fun _ h => (nomatch h), by simp⟩

/-- A digit or point may always follow. -/
theorem numeric (h : IsRun text afterNumeric) {c : Char} (hc : isNumeric c = true) :
    IsRun (text ++ [c]) true := by
  obtain ⟨signs, numerics, rfl, hsigns, hnumerics, _⟩ := h
  refine ⟨signs, numerics ++ [c], List.append_assoc _ _ _, hsigns, ?_, by simp⟩
  exact List.forall_mem_append.mpr ⟨hnumerics, List.forall_mem_singleton.mpr hc⟩

/-- A sign may follow while there is no digit or point. -/
theorem sign (h : IsRun text false) {c : Char} (hc : isSign c = true) : IsRun (text ++ [c]) false := by
  obtain ⟨signs, numerics, rfl, hsigns, hnumerics, hempty⟩ := h
  have hnil : numerics = [] := by simpa using hempty
  refine ⟨signs ++ [c], [], by rw [hnil, List.append_nil, List.append_nil], ?_, ?_, by simp⟩
  · exact List.forall_mem_append.mpr ⟨hsigns, List.forall_mem_singleton.mpr hc⟩
  · exact fun _ hd => nomatch hd

/-- A run consists of signs, digits and points. -/
theorem isSign_or_isNumeric (h : IsRun text afterNumeric) :
    ∀ c ∈ text, isSign c = true ∨ isNumeric c = true := by
  obtain ⟨signs, numerics, rfl, hsigns, hnumerics, _⟩ := h
  intro c hc
  exact (List.mem_append.mp hc).imp (hsigns c) (hnumerics c)

/-- A scan that starts with a run gathers it. -/
theorem scanFrom_append (h : IsRun text afterNumeric) (rest : List Char) :
    scanFrom [] false (text ++ rest) = scanFrom text.reverse afterNumeric rest := by
  obtain ⟨signs, numerics, rfl, hsigns, hnumerics, hflag⟩ := h
  have hgather (signs run tail : List Char) (hsigns : ∀ c ∈ signs, isSign c = true) :
      scanFrom run false (signs ++ tail) = scanFrom (signs.reverse ++ run) false tail := by
    induction signs generalizing run with
    | nil => rfl
    | cons c signs ih =>
      rw [List.cons_append, scanFrom_sign (hsigns c List.mem_cons_self),
        ih (c :: run) fun d hd => hsigns d (List.mem_cons_of_mem c hd), List.reverse_cons,
        List.append_assoc, List.singleton_append]
  rw [List.append_assoc, hgather signs [] _ hsigns, List.append_nil]
  by_cases hnil : numerics = []
  · have hfalse : afterNumeric = false := by simpa [hnil] using hflag
    rw [hnil, hfalse, List.nil_append, List.append_nil]
  · rw [hflag.mpr hnil, scanFrom_numerics hnumerics hnil, List.reverse_append]

end IsRun

/-- What follows a run in the scan of the rest, together with the terms that it is cut into. A run
either goes on or is ended by a mark, after which a new one starts. -/
theorem scanFrom_induct {motive : List Char → Bool → List Char → Prop}
    (nil : ∀ run after, IsRun run after → motive run after [])
    (numeric : ∀ run after c rest, IsRun run after → isNumeric c = true →
      motive (run ++ [c]) true rest → motive run after (c :: rest))
    (sign : ∀ run c rest, IsRun run false → isSign c = true →
      motive (run ++ [c]) false rest → motive run false (c :: rest))
    (mark : ∀ run after c rest, IsRun run after → isNumeric c = false →
      (isSign c = true → after = true) → motive [] false rest → motive run after (c :: rest))
    {run : List Char} {after : Bool} (h : IsRun run after) (rest : List Char) :
    motive run after rest := by
  induction rest generalizing run after with
  | nil => exact nil run after h
  | cons c rest ih =>
    by_cases hnumeric : isNumeric c = true
    · exact numeric run after c rest h hnumeric (ih (h.numeric hnumeric))
    · by_cases hjoin : isSign c = true ∧ after = false
      · obtain ⟨hsign, rfl⟩ := hjoin
        exact sign run c rest h hsign (ih (h.sign hsign))
      · refine mark run after c rest h (Bool.eq_false_iff.mpr hnumeric) (fun hsign => ?_) (ih .nil)
        exact Bool.not_eq_false _ ▸ fun hafter => hjoin ⟨hsign, hafter⟩

/-- A character by itself is no number. -/
theorem kind_ofChar_ne_number (c : Char) : (Term.ofChar c).kind ≠ .number := by
  unfold Term.ofChar
  split
  · exact Kind.noConfusion
  · split
    · unfold Term.paren
      dsimp only
      split <;> exact Kind.noConfusion
    · exact Kind.noConfusion

/-- Every term of a scan is a finished run or a character by itself. -/
theorem mem_scanFrom_cases {run : List Char} {after : Bool} (h : IsRun run after) {rest : List Char}
    {t : Term} (ht : t ∈ scanFrom run.reverse after rest) :
    (∃ run after, IsRun run after ∧ t ∈ Term.ofRun run) ∨ ∃ c, t = Term.ofChar c := by
  refine scanFrom_induct (motive := fun run after rest => t ∈ scanFrom run.reverse after rest →
    (∃ run after, IsRun run after ∧ t ∈ Term.ofRun run) ∨ ∃ c, t = Term.ofChar c)
    ?nil ?numeric ?sign ?mark h rest ht
  case nil =>
    intro run after h ht
    rw [scanFrom, List.reverse_reverse] at ht
    exact .inl ⟨run, after, h, ht⟩
  case numeric =>
    intro run after c rest h hc ih ht
    rw [scanFrom_numeric hc, ← List.reverse_concat] at ht
    exact ih ht
  case sign =>
    intro run c rest h hc ih ht
    rw [scanFrom_sign hc, ← List.reverse_concat] at ht
    exact ih ht
  case mark =>
    intro run after c rest h hc hsign ih ht
    rw [scanFrom_mark hc hsign, List.reverse_reverse] at ht
    rcases List.mem_append.mp ht with hrun | hrest
    · exact .inl ⟨run, after, h, hrun⟩
    · rcases List.mem_cons.mp hrest with rfl | hrest
      · exact .inr ⟨c, rfl⟩
      · exact ih hrest

/-- A finished run that is neither empty nor a minus alone is written as it stands. -/
theorem ofRun_of_ne {run : List Char} (hnil : run ≠ []) (hminus : run ≠ ['-']) :
    Term.ofRun run = [.number (.ofList run)] := by
  rw [ofRun_eq hnil, if_neg fun htext => hminus (String.ofList_inj.mp htext)]

/-- A minus and a one are a run. -/
theorem isRun_minusOne : IsRun ['-', '1'] true :=
  (IsRun.nil.sign rfl).numeric rfl

/-- Every number of a scan is written as a run that is not empty and not a minus alone. -/
theorem exists_isRun_of_mem_scan {text : String} {t : Term} (ht : t ∈ scan text)
    (hkind : t.kind = .number) :
    ∃ run after, IsRun run after ∧ run ≠ [] ∧ run ≠ ['-'] ∧ t = .number (.ofList run) := by
  rcases mem_scanFrom_cases .nil ht with ⟨run, after, hrun, hmem⟩ | ⟨c, rfl⟩
  · by_cases hnil : run = []
    · rw [hnil] at hmem
      cases hmem
    · by_cases hminus : run = ['-']
      · rw [hminus] at hmem
        exact ⟨_, true, isRun_minusOne, by simp, by simp, List.mem_singleton.mp hmem⟩
      · rw [ofRun_of_ne hnil hminus] at hmem
        exact ⟨run, after, hrun, hnil, hminus, List.mem_singleton.mp hmem⟩
  · exact absurd hkind (kind_ofChar_ne_number c)

/-- A finished run is a number or nothing. -/
theorem kind_of_mem_ofRun {run : List Char} {t : Term} (ht : t ∈ Term.ofRun run) :
    t.kind = .number := by
  unfold Term.ofRun at ht
  split at ht
  · cases ht
  · rw [List.mem_singleton.mp ht, Term.number]
  · rw [List.mem_singleton.mp ht, Term.number]

/-- Every term of a scan that is no number is a character by itself. -/
theorem exists_ofChar_of_mem_scan {text : String} {t : Term} (ht : t ∈ scan text)
    (hkind : t.kind ≠ .number) : ∃ c, t = Term.ofChar c := by
  rcases mem_scanFrom_cases .nil ht with ⟨run, after, _, hmem⟩ | hchar
  · exact absurd (kind_of_mem_ofRun hmem) hkind
  · exact hchar

/-- The characters of the operators and parentheses. -/
def marks : List Char :=
  ['+', '-', '*', '/', '%', '^', '(', ')']

/-- Any other character by itself belongs to no expression. -/
theorem ofChar_of_notMem_marks {c : Char} (h : c ∉ marks) :
    Term.ofChar c = .unknown (.singleton c) := by
  have hoperator (op : Operator) : c ≠ op.char := by
    rintro rfl
    revert h
    cases op <;> decide +kernel
  have hopening : c ≠ '(' := by
    rintro rfl
    exact h (by decide)
  have hclosing : c ≠ ')' := by
    rintro rfl
    exact h (by decide)
  exact ofChar_of_ne hoperator hopening hclosing

/-- A character by itself is the text of its term. -/
theorem text_ofChar (c : Char) : (Term.ofChar c).text = .singleton c := by
  unfold Term.ofChar
  split
  · rfl
  · split <;> rfl

end Reckoner
