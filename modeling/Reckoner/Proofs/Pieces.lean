import Mathlib.Data.List.SplitBy
import Reckoner.Proofs.Spelling
import Reckoner.Proofs.Scanning

/-!
# The pieces of a text

Where a text is cut into terms can be told locally. The kind of a position depends on its character
and the one right before it: a digit or point belongs to a number, a sign does unless it comes right
after a digit or point, and every other character stands by itself. The pieces of the text are the
longest runs of positions that belong to numbers, and each other position alone. Scanning gives one
term for each piece, so it loses, doubles and moves no character, and no two numbers come one right
after the other.

The one text that a scan does not keep is a run that holds nothing but a minus.
-/

namespace Reckoner

/-- Whether a character is a digit from 0 to 9 or a point. -/
def IsDigitOrPoint (c : Char) : Prop :=
  ('0' ≤ c ∧ c ≤ '9') ∨ c = '.'

instance (c : Char) : Decidable (IsDigitOrPoint c) :=
  inferInstanceAs (Decidable (('0' ≤ c ∧ c ≤ '9') ∨ c = '.'))

/-- The kind of a character after the one before it, if there is one. -/
def kindAfter (before : Option Char) (c : Char) : Kind :=
  if IsDigitOrPoint c then .number
  else if c = '+' ∨ c = '-' then
    if before.any (IsDigitOrPoint ·) then .operator else .number
  else if c = '*' ∨ c = '/' ∨ c = '%' ∨ c = '^' then .operator
  else if c = '(' then .opening
  else if c = ')' then .closing
  else .unknown

/-- The positions of a text after a given character: every character with its kind. -/
def positionsAfter (before : Option Char) : List Char → List (Char × Kind)
  | [] => []
  | c :: rest => (c, kindAfter before c) :: positionsAfter (some c) rest

/-- Whether two positions, one right after the other, belong to the same number. -/
def joined (a b : Char × Kind) : Bool :=
  a.2 = .number && b.2 = .number

/-- The pieces of a text: the longest runs of positions that belong to numbers, and every other
position by itself. -/
def pieces (text : List Char) : List (List (Char × Kind)) :=
  (positionsAfter none text).splitBy joined

/-- The term of a piece, of the kind of its positions. Its text is the piece itself; a number that is
nothing but a minus is written as minus one. -/
def Term.ofPiece (piece : List (Char × Kind)) : Term :=
  let text := String.ofList (piece.map Prod.fst)
  match piece with
  | (_, .number) :: _ => .number (if text = "-" then "-1" else text)
  | (_, kind) :: _ => ⟨kind, text, none⟩
  | [] => .unknown text

/-- The positions of a text are its characters in order. -/
theorem map_fst_positionsAfter (before : Option Char) (text : List Char) :
    (positionsAfter before text).map Prod.fst = text := by
  induction text generalizing before with
  | nil => rfl
  | cons c rest ih => rw [positionsAfter, List.map_cons, ih]

/-- Scanning looks for digits and points. -/
theorem isNumeric_iff {c : Char} : isNumeric c = true ↔ IsDigitOrPoint c := by
  simp [isNumeric, IsDigitOrPoint, Char.isDigit, Char.le_def]

/-- A character that belongs to a number is a digit, a point, or a sign that does not come right after
one of these. -/
theorem kindAfter_eq_number_iff {before : Option Char} {c : Char} :
    kindAfter before c = .number ↔
      isNumeric c = true ∨ isSign c = true ∧ before.any isNumeric = false := by
  have hbefore : before.any isNumeric = false ↔ ¬ before.any (IsDigitOrPoint ·) := by
    simp only [← Bool.not_eq_true, Option.any_eq_true, isNumeric_iff, decide_eq_true_eq]
  have hplus : isSign c = true ↔ c = '+' ∨ c = '-' := by simp [isSign]
  rw [isNumeric_iff, hplus, hbefore, kindAfter]
  split
  · next hnumeric => exact iff_of_true rfl (.inl hnumeric)
  · next hnumeric =>
    split
    · next hsign =>
      split
      · next hafter =>
        exact iff_of_false (by decide) (not_or.mpr ⟨hnumeric, fun h => h.2 hafter⟩)
      · next hafter => exact iff_of_true rfl (.inr ⟨hsign, hafter⟩)
    · next hsign =>
      rw [iff_false_right (by simp [hnumeric, hsign])]
      split_ifs <;> decide

/-- The symbol of an operator is its character. -/
theorem symbol_eq_singleton (op : Operator) : op.symbol = .singleton op.char := by
  cases op <;> rfl

/-- A character that writes no operator and is no parenthesis is unknown. -/
theorem ofChar_of_ne {c : Char} (hop : ∀ op : Operator, c ≠ op.char) (hopening : c ≠ '(')
    (hclosing : c ≠ ')') : Term.ofChar c = .unknown (.singleton c) := by
  have hnone : Operator.ofSymbol? (.singleton c) = none := by
    refine Option.eq_none_iff_forall_ne_some.mpr fun op hsome => hop op ?_
    have htext := Operator.ofSymbol?_eq_some_iff.mp hsome
    rw [symbol_eq_singleton] at htext
    exact String.singleton_inj.mp htext
  rw [Term.ofChar, hnone, if_neg (by decide), if_neg (not_or.mpr ⟨hopening, hclosing⟩)]

/-- A character by itself is a term of its kind. -/
theorem ofChar_eq {before : Option Char} {c : Char} (h : kindAfter before c ≠ .number) :
    Term.ofChar c = ⟨kindAfter before c, .singleton c, none⟩ := by
  have hoperator (op : Operator) : Term.ofChar op.char = ⟨.operator, .singleton op.char, none⟩ := by
    rw [Operator.ofChar_char, ← symbol_eq_singleton]
    rfl
  revert h
  rw [kindAfter]
  split_ifs with hnumeric hsign hafter hmark hopening hclosing
  · exact fun h => absurd rfl h
  · intro _
    rcases hsign with rfl | rfl
    · exact hoperator .add
    · exact hoperator .sub
  · exact fun h => absurd rfl h
  · intro _
    rcases hmark with rfl | rfl | rfl | rfl
    · exact hoperator .mul
    · exact hoperator .div
    · exact hoperator .mod
    · exact hoperator .pow
  · intro _
    rw [hopening, ofChar_opening]
    rfl
  · intro _
    rw [hclosing, ofChar_closing]
    rfl
  · intro _
    refine ofChar_of_ne (fun op hc => ?_) hopening hclosing
    cases op <;> simp [hc, Operator.char] at hsign hmark

/-- The positions of a run, each of which belongs to a number. -/
def runPositions (run : List Char) : List (Char × Kind) :=
  run.map fun c => (c, .number)

/-- Each position of a run is joined to the next. -/
theorem isChain_runPositions (run : List Char) :
    (runPositions run).IsChain fun a b => joined a b = true := by
  refine List.Pairwise.isChain (List.pairwise_of_forall_mem_list fun a ha b hb => ?_)
  obtain ⟨_, _, rfl⟩ := List.mem_map.mp ha
  obtain ⟨_, _, rfl⟩ := List.mem_map.mp hb
  rfl

/-- A run that is not empty is a single number, written as the run unless that is a minus. -/
theorem ofRun_eq {run : List Char} (hne : run ≠ []) :
    Term.ofRun run =
      [.number (if String.ofList run = "-" then "-1" else String.ofList run)] := by
  by_cases hminus : run = ['-']
  · rw [hminus]
    rfl
  · rw [if_neg fun htext => hminus (String.ofList_inj.mp htext)]
    unfold Term.ofRun
    split
    · exact absurd rfl hne
    · exact absurd rfl hminus
    · rfl

/-- A finished run is one piece, or none if it is empty. -/
theorem map_splitBy_runPositions (run : List Char) :
    ((runPositions run).splitBy joined).map Term.ofPiece = Term.ofRun run := by
  cases run with
  | nil => rfl
  | cons c run =>
    have hne : runPositions (c :: run) ≠ [] := List.cons_ne_nil _ _
    rw [List.splitBy_of_isChain hne (isChain_runPositions _), ofRun_eq (List.cons_ne_nil c run)]
    simp [Term.ofPiece, runPositions, Function.comp_def]

/-- A position that belongs to no number is a piece by itself. -/
theorem splitBy_append_cons_of_ne {a : Char × Kind} (h : a.2 ≠ .number)
    (first rest : List (Char × Kind)) :
    (first ++ a :: rest).splitBy joined =
      first.splitBy joined ++ [a] :: rest.splitBy joined := by
  have hbefore : ∀ b ∈ first.getLast?, joined b a = false := fun b _ => by simp [joined, h]
  have hafter : ∀ b ∈ [a].getLast?, ∀ d ∈ rest.head?, joined b d = false := by
    intro b hb d _
    cases hb
    simp [joined, h]
  rw [List.splitBy_append_cons rest hbefore, ← List.singleton_append, List.splitBy_append hafter]
  rfl

/-- A position that belongs to no number is a term by itself. -/
theorem ofPiece_singleton {c : Char} {kind : Kind} (h : kind ≠ .number) :
    Term.ofPiece [(c, kind)] = ⟨kind, .singleton c, none⟩ := by
  cases kind with
  | number => exact absurd rfl h
  | operator | opening | closing | unknown =>
    rw [String.singleton_eq_ofList]
    rfl

/-- A scan from some run and character on gives the terms of the pieces of the run and the rest. -/
theorem scanFrom_eq_map (run : List Char) (before : Option Char) (rest : List Char) :
    scanFrom run (before.any isNumeric) rest =
      ((runPositions run.reverse ++ positionsAfter before rest).splitBy joined).map
        Term.ofPiece := by
  induction rest generalizing run before with
  | nil => rw [scanFrom, positionsAfter, List.append_nil, map_splitBy_runPositions]
  | cons c rest ih =>
    rw [positionsAfter]
    by_cases hkind : kindAfter before c = .number
    · -- the character joins the run
      have hjoin : scanFrom run (before.any isNumeric) (c :: rest) =
          scanFrom (c :: run) ((some c).any isNumeric) rest := by
        rcases kindAfter_eq_number_iff.mp hkind with hnumeric | ⟨hsign, hafter⟩
        · rw [scanFrom_numeric hnumeric, Option.any_some, hnumeric]
        · rw [hafter, scanFrom_sign hsign, Option.any_some, isNumeric_of_isSign hsign]
      rw [hjoin, ih, hkind]
      simp [runPositions]
    · -- the character ends the run and is a piece by itself
      obtain ⟨hnumeric, hsign⟩ := not_or.mp (mt kindAfter_eq_number_iff.mpr hkind)
      have hnumeric := Bool.not_eq_true _ ▸ hnumeric
      have hafter (h : isSign c = true) : before.any isNumeric = true :=
        Bool.not_eq_false _ ▸ fun hany => hsign ⟨h, hany⟩
      have hrest := ih [] (some c)
      rw [Option.any_some, hnumeric] at hrest
      rw [scanFrom_mark hnumeric hafter, splitBy_append_cons_of_ne hkind, List.map_append,
        map_splitBy_runPositions, List.map_cons, ofPiece_singleton hkind, ofChar_eq hkind, hrest]
      rfl

/-- Of joined positions all belong to a number, unless it is a single one that does not. -/
theorem joined_cases {piece : List (Char × Kind)} (hne : piece ≠ [])
    (h : piece.IsChain fun a b => joined a b = true) :
    (∃ c kind, piece = [(c, kind)] ∧ kind ≠ .number) ∨ ∀ a ∈ piece, a.2 = .number := by
  induction piece with
  | nil => exact absurd rfl hne
  | cons a rest ih =>
    cases rest with
    | nil =>
      by_cases hkind : a.2 = .number
      · exact .inr fun b hb => by rwa [List.mem_singleton.mp hb]
      · exact .inl ⟨a.1, a.2, rfl, hkind⟩
    | cons b rest =>
      obtain ⟨hab, hrest⟩ := List.isChain_cons_cons.mp h
      obtain ⟨ha, hb⟩ : a.2 = .number ∧ b.2 = .number := by simpa [joined] using hab
      rcases ih (List.cons_ne_nil b rest) hrest with ⟨c, kind, heq, hkind⟩ | hall
      · cases heq
        exact absurd hb hkind
      · exact .inr (List.forall_mem_cons.mpr ⟨ha, hall⟩)

/-- A piece is a position by itself that belongs to no number, or a run of positions that all do. -/
theorem mem_pieces_cases {text : List Char} {piece : List (Char × Kind)} (h : piece ∈ pieces text) :
    (∃ c kind, piece = [(c, kind)] ∧ kind ≠ .number) ∨ ∀ a ∈ piece, a.2 = .number :=
  joined_cases (List.ne_nil_of_mem_splitBy h) (List.isChain_of_mem_splitBy h)

/-- Only positions that belong to a number make up the piece of a number. -/
theorem forall_mem_of_kind_ofPiece {text : List Char} {piece : List (Char × Kind)}
    (h : piece ∈ pieces text) (hkind : (Term.ofPiece piece).kind = .number) :
    ∀ a ∈ piece, a.2 = .number := by
  rcases mem_pieces_cases h with ⟨c, kind, rfl, hne⟩ | hall
  · rw [ofPiece_singleton hne] at hkind
    exact absurd hkind hne
  · exact hall

/-- No two numbers come one right after the other. -/
theorem isChain_map_pieces (text : List Char) :
    ((pieces text).map Term.ofPiece).IsChain fun t u => ¬ (t.kind = .number ∧ u.kind = .number) := by
  refine (List.isChain_map _).mpr
    ((List.isChain_getLast_head_splitBy joined _).imp_of_mem_imp fun p q hp hq hpq hkinds => ?_)
  obtain ⟨hpne, hqne, hapart⟩ := hpq
  have hlast := forall_mem_of_kind_ofPiece hp hkinds.1 _ (List.getLast_mem hpne)
  have hhead := forall_mem_of_kind_ofPiece hq hkinds.2 _ (List.head_mem hqne)
  simp [joined, hlast, hhead] at hapart

/-- A text is scanned into one term for each of its pieces. The pieces are the characters of the text
in order, each by itself or in a run of positions that belong to a number, and no two numbers come one
right after the other. -/
theorem scan_eq_map_pieces (text : String) :
    scan text = (pieces text.toList).map Term.ofPiece ∧
      (pieces text.toList).flatten = positionsAfter none text.toList ∧
      (positionsAfter none text.toList).map Prod.fst = text.toList ∧
      (∀ piece ∈ pieces text.toList,
        (∃ c kind, piece = [(c, kind)] ∧ kind ≠ .number) ∨
          piece ≠ [] ∧ ∀ a ∈ piece, a.2 = .number) ∧
      (scan text).IsChain fun t u => ¬ (t.kind = .number ∧ u.kind = .number) := by
  have hscan : scan text = (pieces text.toList).map Term.ofPiece := scanFrom_eq_map [] none _
  refine ⟨hscan, List.flatten_splitBy joined _, map_fst_positionsAfter none _, fun piece hpiece => ?_,
    ?_⟩
  · exact (mem_pieces_cases hpiece).imp_right fun hall => ⟨List.ne_nil_of_mem_splitBy hpiece, hall⟩
  · rw [hscan]
    exact isChain_map_pieces text.toList

/-- In `1++2)-(x` the second sign belongs to a number, and the sign after the parenthesis is a number by
itself. -/
theorem scan_eq_map_pieces_signs :
    [('-', Kind.number)] ∈ pieces "1++2)-(x".toList ∧
      (∀ a ∈ [('-', Kind.number)], a.2 = .number) ∧
      scan "1++2)-(x" = [.number "1", .operator "+", .number "+2", .paren ")", .number "-1",
        .paren "(", .unknown "x"] := by
  obtain ⟨hscan, _, _, hpieces, _⟩ := scan_eq_map_pieces "1++2)-(x"
  have hminus : [('-', Kind.number)] ∈ pieces "1++2)-(x".toList := by decide +kernel
  refine ⟨hminus, ?_, ?_⟩
  · rcases hpieces _ hminus with ⟨c, kind, heq, hne⟩ | ⟨_, hall⟩
    · cases heq
      exact absurd rfl hne
    · exact hall
  · rw [hscan]
    decide +kernel

end Reckoner
