import BehaviorTree.Proofs.Expression.Sound

/-!
Whatever the grammar derives is read. The readers go on for as long as they can, so a derivation is
read to its end if what comes after it cannot continue it; in every place of the grammar the next
token is such an end.
-/

namespace BehaviorTree.Expr

open Grammar

variable {inner : Reader} {b s t u rest : List Char} {e : Expr} {n : Nat}

/-! ### Ends -/

/-- What cannot continue an atom, after blanks. -/
def EndsAtom (t : List Char) : Prop := ∀ c u, skipBlanks t = c :: u → ¬ NamePart c ∧ (c = '.' → NoDigit u)

/-- What cannot continue a selection. -/
structure EndsPostfix (t : List Char) : Prop where
  atom : EndsAtom t
  selection : ∀ c u, skipBlanks t = c :: u → c ∉ ['.', '[']

/-- What cannot continue a chain of the rows of operators from some place on. -/
structure EndsRows (place : Nat) (t : List Char) : Prop where
  tail : EndsPostfix t
  operator : ∀ row ∈ operatorTable.drop place, readOperator row (skipBlanks t) = none

/-- What cannot continue an expression. -/
structure EndsExpression (t : List Char) : Prop where
  rows : EndsRows 0 t
  query : ∀ c u, skipBlanks t = c :: u → c ≠ '?'

theorem namePart_of_mark {c : Char} (mark : c ∈ ['e', 'E']) : NamePart c := by
  simp only [List.mem_cons, List.not_mem_nil, or_false] at mark
  rcases mark with rfl | rfl <;> exact .inl (by decide)

theorem not_namePart_of_blank {c : Char} (blank : Blank c) : ¬ NamePart c := by
  simp only [Blank, List.mem_cons, List.not_mem_nil, or_false] at blank
  rw [← isNamePart_iff]
  rcases blank with rfl | rfl | rfl | rfl <;> decide

theorem EndsAtom.name (ends : EndsAtom t) : EndsName t := by
  rintro c u rfl
  by_cases blank : Blank c
  · exact not_namePart_of_blank blank
  · exact (ends c u (skipBlanks_cons blank u)).1

theorem EndsAtom.number (ends : EndsAtom t) : EndsNumber t where
  digit c u same digit := ends.name c u same (.inr (.inl digit))
  mark c u same mark := ends.name c u same (namePart_of_mark mark)
  point u same := by
    subst same
    exact (ends '.' u (skipBlanks_cons (by simp [Blank]) u)).2 rfl

theorem EndsAtom.after {after : List Char} (ends : EndsAtom t) (blanks : Blanks after) : EndsAtom (after ++ t) := by
  rwa [EndsAtom, skipBlanks_append blanks]

/-- No operator of a row is read where none begins with the character. -/
theorem readOperator_eq_none {ops : List (List Char × BinaryOp)} {c : Char}
    (other : ∀ entry ∈ ops, entry.1.head?.any (· ≠ c)) (u : List Char) : readOperator ops (c :: u) = none := by
  induction ops with
  | nil => rfl
  | cons entry others ih =>
    obtain ⟨first, rest⟩ := List.forall_mem_cons.mp other
    obtain ⟨_ | ⟨d, ds⟩, op⟩ := entry
    · cases first
    · have apart : d ≠ c := by simpa using first
      rw [readOperator, if_neg (by simp [List.isPrefixOf, apart]), ih rest]

/-- A character ends whatever no operator from some place on begins with. -/
theorem ends_rows {place : Nat} {c : Char} (next : skipBlanks t = c :: u) (part : isNamePart c = false)
    (selection : c ∉ ['.', '['])
    (other : ∀ row ∈ operatorTable.drop place, ∀ entry ∈ row, entry.1.head?.any (· ≠ c)) : EndsRows place t := by
  have first {d : Char} {v : List Char} (same : skipBlanks t = d :: v) : d = c :=
    (List.cons.inj (same.symm.trans next)).1
  have point : c ≠ '.' := fun same => selection (by simp [same])
  refine ⟨⟨fun d v same => ?_, fun d v same => first same ▸ selection⟩, fun row member => ?_⟩
  · rw [first same, ← isNamePart_iff, part]
    exact ⟨Bool.false_ne_true, fun same => absurd same point⟩
  · rw [next]
    exact readOperator_eq_none (other row member) u

theorem ends_query (next : skipBlanks t = '?' :: u) : EndsRows 0 t :=
  ends_rows next (by decide) (by decide) (by decide)

/-- A closing bracket, a comma or a colon ends every expression. -/
theorem ends_expression {c : Char} (closing : c ∈ [')', ']', ',', ':']) (next : skipBlanks t = c :: u) :
    EndsExpression t := by
  have query : c ≠ '?' := by
    rintro rfl
    exact absurd closing (by decide)
  refine ⟨?_, fun d v same => (List.cons.inj (same.symm.trans next)).1 ▸ query⟩
  simp only [List.mem_cons, List.not_mem_nil, or_false] at closing
  rcases closing with rfl | rfl | rfl | rfl <;> exact ends_rows next (by decide) (by decide) (by decide)

theorem ends_nil (next : skipBlanks t = []) : EndsExpression t := by
  have none {c : Char} {v : List Char} (same : skipBlanks t = c :: v) : False := by
    rw [next] at same
    cases same
  refine ⟨⟨⟨fun _ _ same => (none same).elim, fun _ _ same => (none same).elim⟩, fun row member => ?_⟩,
    fun _ _ same => (none same).elim⟩
  rw [next]
  have empty : ∀ row ∈ operatorTable, readOperator row [] = Option.none := by decide
  exact empty row member

/-- What the operators of a level begin with ends their operands. -/
theorem head_operators (l : OperatorLevel) : ∀ entry ∈ l.operators, ∀ c ∈ entry.1.head?,
    isNamePart c = false ∧ c ∉ ['.', '['] ∧ ¬ isBlank c ∧
      ∀ row ∈ operatorTable.drop (l.place + 1), ∀ other ∈ row, other.1.head?.any (· ≠ c) := by
  have all : ∀ entry ∈ l.operators, entry.1.head?.all fun c =>
      !isNamePart c && !(['.', '['].contains c) && !isBlank c &&
        (operatorTable.drop (l.place + 1)).all fun row => row.all fun other => other.1.head?.any (· ≠ c) := by
    cases l <;> decide
  intro entry member c first
  have shown := all entry member
  rw [show entry.1.head? = some c from first, Option.all_some] at shown
  simpa [and_assoc] using shown

theorem operators_ne_nil (l : OperatorLevel) : ∀ entry ∈ l.operators, entry.1 ≠ [] := by
  cases l <;> decide

/-- The operator that comes next is read in full, as no operand begins with an equals sign. -/
theorem readOperator_complete {l : OperatorLevel} {spelling : List Char} {op : BinaryOp}
    (known : (spelling, op) ∈ l.operators)
    (plain : ['='].isPrefixOf u = false) : readOperator l.row (spelling ++ u) = some (op, u) := by
  cases l
  all_goals
    simp only [OperatorLevel.operators, List.mem_cons, Prod.mk.injEq, List.not_mem_nil, or_false] at known
  case or | and =>
    obtain ⟨rfl, rfl⟩ := known
    simp [OperatorLevel.row, OperatorLevel.place, operatorTable, readOperator]
  case equality | comparison =>
    rcases known with ⟨rfl, rfl⟩ | ⟨rfl, rfl⟩ | ⟨rfl, rfl⟩ | ⟨rfl, rfl⟩ <;>
      simp [OperatorLevel.row, OperatorLevel.place, operatorTable, readOperator, plain]
  case additive =>
    rcases known with ⟨rfl, rfl⟩ | ⟨rfl, rfl⟩ <;>
      simp [OperatorLevel.row, OperatorLevel.place, operatorTable, readOperator]
  case term =>
    rcases known with ⟨rfl, rfl⟩ | ⟨rfl, rfl⟩ | ⟨rfl, rfl⟩ <;>
      simp [OperatorLevel.row, OperatorLevel.place, operatorTable, readOperator]

/-! ### Tokens that come next -/

/-- A token is found behind the blanks before it. -/
theorem skip_around {token : List Char} {c : Char} (around : Around (c :: token) s) (shown : ¬ Blank c)
    (blanks : Blanks b) (t : List Char) :
    ∃ after, Blanks after ∧ after.length < s.length ∧ skipBlanks (b ++ s ++ t) = c :: (token ++ (after ++ t)) := by
  obtain ⟨before, after, left, right, rfl⟩ := around
  refine ⟨after, right, by simp only [List.length_append, List.length_cons]; omega, ?_⟩
  rw [List.append_assoc, skipBlanks_append blanks, List.append_assoc, List.append_assoc, skipBlanks_append left,
    List.cons_append, skipBlanks_cons shown]

/-- A token of one character comes next. -/
theorem skip_symbol {c : Char} (around : Around [c] s) (shown : ¬ Blank c) (t : List Char) :
    ∃ after, Blanks after ∧ after.length < s.length ∧ skipBlanks (s ++ t) = c :: (after ++ t) :=
  skip_around around shown blanks_nil t

theorem length_skipBlanks (s : List Char) : (skipBlanks s).length ≤ s.length := List.length_dropWhile_le _ s

theorem not_opens {c : Char} (other : c ∈ [' ', '\t', '\r', '\n', '=', ']', '!', '-']) : ¬ Opens c := by
  rw [Opens, ← isNameStart_iff]
  simp only [List.mem_cons, List.not_mem_nil, or_false] at other
  rcases other with rfl | rfl | rfl | rfl | rfl | rfl | rfl | rfl <;> decide

/-- No derivation begins with a blank, an equals sign or a closing bracket. -/
theorem not_begins {c : Category} {d : Char} (other : d ∈ [' ', '\t', '\r', '\n', '=', ']']) : ¬ c.Begins d := by
  have opens : ¬ Opens d := not_opens (List.mem_append_left ['!', '-'] other)
  have sign : d ∉ ['!', '-'] := by
    intro sign
    simp only [List.mem_cons, List.not_mem_nil, or_false] at sign
    rcases sign with rfl | rfl <;> exact absurd other (by decide)
  cases c <;> first | exact opens | exact not_or.mpr ⟨opens, sign⟩

/-- No operand begins with an equals sign. -/
theorem not_equals {c : Category} (derives : Derives c s e) (blanks : Blanks b) (t : List Char) :
    ['='].isPrefixOf (b ++ s ++ t) = false := by
  obtain ⟨before, d, rest, left, begins, rfl⟩ := derives.heads
  have other : d ≠ '=' := by
    rintro rfl
    exact not_begins (by decide) begins
  rw [← List.append_assoc]
  have all := blanks.append left
  generalize b ++ before = front at all ⊢
  rcases front with _ | ⟨x, xs⟩
  · simp [List.isPrefixOf, other.symm]
  · have apart : '=' ≠ x := by
      rintro rfl
      exact absurd (all '=' List.mem_cons_self) (by simp [Blank])
    simp [List.isPrefixOf, apart]

/-! ### One step of each repetition -/

/-- After a comma and an item the items go on. -/
theorem readItems_cons (inside : Sound .expression inner) (next : skipBlanks s = ',' :: t)
    (read : inner t = .done e rest) :
    readItems inner s = (e :: (readItems inner rest).1, (readItems inner rest).2) := by
  have shorter := inside.shorter read
  have bound := length_skipBlanks s
  rw [next, List.length_cons] at bound
  rw [readItems.eq_def]
  simp only [next, read]
  rw [if_pos (by omega)]

theorem readItems_stop (next : skipBlanks s = ']' :: t) : readItems inner s = ([], s) := by
  rw [readItems.eq_def]
  simp only [next]
  rfl

/-- After a point and a name the selections go on. -/
theorem readSelections_member {token : List Char} (next : skipBlanks s = '.' :: t)
    (read : readName (skipBlanks t) = some (String.ofList token, rest)) :
    readSelections inner e s = readSelections inner (.member e (String.ofList token)) rest := by
  obtain ⟨taken, split, -⟩ := readName_sound read
  have bound := length_skipBlanks s
  have bound' := length_skipBlanks t
  rw [next, List.length_cons] at bound
  rw [split, List.length_append] at bound'
  rw [readSelections.eq_def]
  simp only [next, read]
  rw [if_pos (by omega)]

/-- After a key in brackets the selections go on. -/
theorem readSelections_index (inside : Sound .expression inner) {key : Expr} (next : skipBlanks s = '[' :: t)
    (read : inner t = .done key rest) (closes : skipBlanks rest = ']' :: u) :
    readSelections inner e s = readSelections inner (.index e key) (skipBlanks u) := by
  have shorter := inside.shorter read
  have bound := length_skipBlanks s
  have bound' := length_skipBlanks rest
  have bound'' := length_skipBlanks u
  rw [next, List.length_cons] at bound
  rw [closes, List.length_cons] at bound'
  rw [readSelections.eq_def]
  simp only [next, read, closes]
  rw [if_pos (by omega)]

/-- Where nothing can be selected the selections end. -/
theorem readSelections_stop (ends : EndsPostfix s) : readSelections inner e s = (e, s) := by
  rw [readSelections.eq_def]
  split
  · rename_i next
    exact absurd (ends.selection _ _ next) (by simp)
  · rename_i next
    exact absurd (ends.selection _ _ next) (by simp)
  · rfl

/-- After an operator and its operand the chain goes on. -/
theorem readChain_cons {c : Category} {operand : Reader} (operands : Sound c operand)
    {ops : List (List Char × BinaryOp)} {op : BinaryOp} {rhs : Expr}
    (next : readOperator ops (skipBlanks s) = some (op, t)) (read : operand t = .done rhs rest) :
    readChain operand ops e s = readChain operand ops (.binary op e rhs) rest := by
  obtain ⟨spelling, -, split⟩ := readOperator_sound next
  have shorter := operands.shorter read
  have bound := length_skipBlanks s
  rw [split, List.length_append] at bound
  rw [readChain.eq_def]
  simp only [next, read]
  rw [if_pos (by omega)]

theorem readChain_stop {operand : Reader} {ops : List (List Char × BinaryOp)}
    (none : readOperator ops (skipBlanks s) = Option.none) : readChain operand ops e s = (e, s) := by
  rw [readChain.eq_def]
  simp only [none]

/-! ### Signs and primaries -/

theorem unaryLevel_append (blanks : Blanks b) (s : List Char) : unaryLevel inner (b ++ s) = unaryLevel inner s := by
  induction b with
  | nil => rfl
  | cons c b ih =>
    obtain ⟨first, rest⟩ := List.forall_mem_cons.mp blanks
    rw [List.cons_append, unaryLevel, if_pos (isBlank_iff.mpr first), ih rest]

theorem unaryLevel_sign {sign : Char} {op : UnaryOp} (known : (sign, op) ∈ signs)
    (read : unaryLevel inner t = .done e rest) : unaryLevel inner (sign :: t) = .done (.unary op e) rest := by
  simp only [signs, List.mem_cons, Prod.mk.injEq, List.not_mem_nil, or_false] at known
  rcases known with ⟨rfl, rfl⟩ | ⟨rfl, rfl⟩
  all_goals
    rw [unaryLevel, if_neg (by decide)]
    simp [read]

theorem unaryLevel_opens {c : Char} (opens : Opens c) (t : List Char) :
    unaryLevel inner (c :: t) = postfixed inner (c :: t) := by
  have other {d : Char} (member : d ∈ [' ', '\t', '\r', '\n', '=', ']', '!', '-']) : c ≠ d := by
    rintro rfl
    exact not_opens member opens
  have shown : ¬ isBlank c := by
    intro blank
    rw [isBlank_iff] at blank
    exact not_opens (List.mem_append_left ['=', ']', '!', '-'] blank) opens
  rw [unaryLevel, if_neg shown, if_neg (other (by decide)), if_neg (other (by decide))]

theorem primary_congr (same : skipBlanks s = skipBlanks t) : primary inner s = primary inner t := by
  rw [primary.eq_def, primary.eq_def inner t, same]

theorem postfixed_congr (same : skipBlanks s = skipBlanks t) : postfixed inner s = postfixed inner t := by
  rw [postfixed, postfixed, primary_congr same]

/-- What does not begin with a parenthesis is an atom. -/
theorem primary_atom {c : Char} (next : skipBlanks s = c :: t) (other : c ≠ '(')
    (read : readAtom inner (c :: t) = some (e, rest)) : primary inner s = .done e (skipBlanks rest) := by
  rw [primary.eq_def]
  simp only [next]
  split
  · rename_i same
    exact absurd (List.cons.inj same).1 other
  · simp only [read]

theorem readAtom_other {c : Char} (other : c ∉ ['"', '\'', '[']) (t : List Char) :
    readAtom inner (c :: t) = match readNumeral (c :: t) with
      | some (n, rest) => some (literal (.number n.toFloat), rest)
      | none => (readName (c :: t)).map fun (name, rest) => (ofName name, rest) := by
  simp only [List.mem_cons, List.not_mem_nil, or_false, not_or] at other
  rw [readAtom.eq_def]
  split
  · rename_i same
    exact absurd (List.cons.inj same).1 other.1
  · rename_i same
    exact absurd (List.cons.inj same).1 other.2.1
  · rename_i same
    exact absurd (List.cons.inj same).1 other.2.2
  · rfl

/-- No name begins with a digit. -/
theorem not_isDigit_of_start {c : Char} (start : isNameStart c) : ¬ c.isDigit := by
  intro digit
  delta isNameStart Char.isAlpha Char.isUpper Char.isLower at start
  simp only [Char.isDigit, Bool.or_eq_true, Bool.and_eq_true, decide_eq_true_eq, beq_iff_eq, UInt32.le_iff_toNat_le,
    ge_iff_le] at start digit
  have capital : 'A'.val.toNat = 65 := rfl
  have small : 'a'.val.toNat = 97 := rfl
  have nine : '9'.val.toNat = 57 := rfl
  rcases start with (start | rfl) | rfl
  · omega
  · exact absurd digit (by decide)
  · exact absurd digit (by decide)

/-- What begins a name begins nothing else. -/
theorem other_of_start {c : Char} (start : NameStart c) :
    c ∉ ['"', '\'', '['] ∧ c ≠ '(' ∧ ¬ Blank c ∧ ¬ c.isDigit := by
  rw [← isNameStart_iff] at start
  refine ⟨fun quoted => ?_, ?_, fun blank => ?_, not_isDigit_of_start start⟩
  · simp only [List.mem_cons, List.not_mem_nil, or_false] at quoted
    rcases quoted with rfl | rfl | rfl <;> exact absurd start (by decide)
  · rintro rfl
    exact absurd start (by decide)
  · simp only [Blank, List.mem_cons, List.not_mem_nil, or_false] at blank
    rcases blank with rfl | rfl | rfl | rfl <;> exact absurd start (by decide)

/-- A name is read as the literal or the variable that it is. -/
theorem primary_name {name : List Char} (token : Name name) (spelled : Around name s) (blanks : Blanks b)
    (ends : EndsAtom t) : primary inner (b ++ s ++ t) = .done (ofName (String.ofList name)) (skipBlanks t) := by
  have named := token
  obtain ⟨start, -⟩ := token
  rename_i c parts
  have first := other_of_start start
  obtain ⟨after, right, -, next⟩ := skip_around spelled first.2.2.1 blanks t
  have read : readName (c :: parts ++ (after ++ t)) = some (String.ofList (c :: parts), after ++ t) :=
    readName_complete named (ends.after right).name
  have none : readNumeral (c :: (parts ++ (after ++ t))) = none :=
    readNumeral_eq_none fun d v same => (List.cons.inj same).1 ▸ first.2.2.2
  have atom : readAtom inner (c :: (parts ++ (after ++ t))) = some (ofName (String.ofList (c :: parts)), after ++ t) := by
    rw [readAtom_other first.1, none]
    simp only
    rw [← List.cons_append, read]
    rfl
  rw [primary_atom next first.2.1 atom, skipBlanks_append right]

/-! ### Derivations -/

theorem within_of_lt (shorter : t.length < n) : within n t = expression t := if_pos shorter

/-- What reading a text that a derivation begins comes to, if the rest cannot continue it. The readers of
repetitions may find more where the derivation ends. -/
def Complete : Category → List Char → Expr → Prop
  | .expression, s, e => ∀ b t, Blanks b → EndsExpression t →
      ∃ t', skipBlanks t' = skipBlanks t ∧ expression (b ++ s ++ t) = .done e t'
  | .level l, s, e => ∀ n b t, Blanks b → (b ++ s ++ t).length ≤ n → EndsRows (l.place + 1) t →
      ∃ t', skipBlanks t' = skipBlanks t ∧
        binaryLevel (within n) (operatorTable.drop l.place) (b ++ s ++ t) =
          .done (readChain (binaryLevel (within n) l.below) l.row e t').1
            (readChain (binaryLevel (within n) l.below) l.row e t').2
  | .unary, s, e => ∀ n b t, Blanks b → (b ++ s ++ t).length ≤ n → EndsPostfix t →
      ∃ t', skipBlanks t' = skipBlanks t ∧ unaryLevel (within n) (b ++ s ++ t) = .done e t'
  | .selection, s, e => ∀ n b t, Blanks b → (b ++ s ++ t).length ≤ n → EndsAtom t →
      ∃ t', skipBlanks t' = skipBlanks t ∧ postfixed (within n) (b ++ s ++ t) =
        .done (readSelections (within n) e t').1 (readSelections (within n) e t').2
  | .primary, s, e => ∀ n b t, Blanks b → (b ++ s ++ t).length ≤ n → EndsAtom t →
      primary (within n) (b ++ s ++ t) = .done e (skipBlanks t)
  | .items, s, e => ∀ n b t u, Blanks b → (b ++ s ++ t).length < n → skipBlanks t = ']' :: u →
      ∃ head more t' t'', e = .array (head :: more) ∧ within n (b ++ s ++ t) = .done head t' ∧
        readItems (within n) t' = (more, t'') ∧ skipBlanks t'' = skipBlanks t

/-! ### Levels -/

/-- A whole chain is read where no operator of its level comes next. -/
theorem Complete.chain {l : OperatorLevel} (complete : Complete (.level l) s e) (blanks : Blanks b)
    (short : (b ++ s ++ t).length ≤ n) (ends : EndsRows l.place t) :
    ∃ t', skipBlanks t' = skipBlanks t ∧
      binaryLevel (within n) (operatorTable.drop l.place) (b ++ s ++ t) = .done e t' := by
  have member : l.row ∈ operatorTable.drop l.place := by
    rw [l.rows_eq]
    exact List.mem_cons_self
  have tighter : EndsRows (l.place + 1) t := by
    refine ⟨ends.tail, fun row below => ends.operator row ?_⟩
    rw [l.rows_eq]
    exact List.mem_cons_of_mem _ below
  obtain ⟨t', same, read⟩ := complete n b t blanks short tighter
  have stop : readOperator l.row (skipBlanks t') = none := same ▸ ends.operator _ member
  rw [readChain_stop stop] at read
  exact ⟨t', same, read⟩

/-- An operand is read where none of the tighter operators comes next. -/
theorem Complete.operand {l : OperatorLevel} (complete : Complete l.operands s e) (blanks : Blanks b)
    (short : (b ++ s ++ t).length ≤ n) (ends : EndsRows (l.place + 1) t) :
    ∃ t', skipBlanks t' = skipBlanks t ∧ binaryLevel (within n) l.below (b ++ s ++ t) = .done e t' := by
  cases l with
  | term => exact complete n b t blanks short ends.tail
  | or => exact Complete.chain (l := .and) complete blanks short ends
  | and => exact Complete.chain (l := .equality) complete blanks short ends
  | equality => exact Complete.chain (l := .comparison) complete blanks short ends
  | comparison => exact Complete.chain (l := .additive) complete blanks short ends
  | additive => exact Complete.chain (l := .term) complete blanks short ends

theorem complete_operand {l : OperatorLevel} (ih : Complete l.operands s e) : Complete (.level l) s e := by
  intro n b t blanks short ends
  obtain ⟨t', same, read⟩ := ih.operand blanks short ends
  refine ⟨t', same, ?_⟩
  rw [l.rows_eq, binaryLevel, read]

/-- Two operands with an operator between them are read. -/
theorem complete_joined {l : OperatorLevel} {o spelling : List Char} {op : BinaryOp} {lhs rhs : Expr}
    (ihLeft : Complete (.level l) s lhs) (known : (spelling, op) ∈ l.operators) (spelled : Around spelling o)
    (derives : Derives l.operands u rhs) (ihRight : Complete l.operands u rhs) :
    Complete (.level l) (s ++ o ++ u) (.binary op lhs rhs) := by
  intro n b t blanks short ends
  obtain ⟨c, token, rfl⟩ := List.exists_cons_of_ne_nil (operators_ne_nil l _ known)
  obtain ⟨part, selection, shown, other⟩ := head_operators l _ known c rfl
  obtain ⟨after, right, less, next⟩ := skip_around spelled (mt isBlank_iff.mpr shown) blanks_nil (u ++ t)
  rw [List.nil_append] at next
  have operator : readOperator l.row (skipBlanks (o ++ (u ++ t))) = some (op, after ++ (u ++ t)) := by
    rw [next]
    refine readOperator_complete known ?_
    rw [← List.append_assoc]
    exact not_equals derives right t
  have split : b ++ (s ++ o ++ u) ++ t = b ++ s ++ (o ++ (u ++ t)) := by simp only [List.append_assoc]
  rw [split] at short ⊢
  obtain ⟨t', same, read⟩ := ihLeft n b (o ++ (u ++ t)) blanks short (ends_rows next part selection other)
  have short' : (after ++ u ++ t).length ≤ n := by
    simp only [List.length_append] at short ⊢
    omega
  obtain ⟨t'', same', read'⟩ := ihRight.operand right short' ends
  rw [List.append_assoc] at read'
  have chained := readChain_cons (e := lhs) (operands_sound (within_sound n) l) (same ▸ operator) read'
  exact ⟨t'', same', by rw [read, chained]⟩

/-! ### Signs and selections -/

/-- An operand with an operator in front is read. -/
theorem complete_signed {o : List Char} {sign : Char} {op : UnaryOp} (known : (sign, op) ∈ signs)
    (spelled : Around [sign] o) (ih : Complete .unary s e) : Complete .unary (o ++ s) (.unary op e) := by
  intro n b t blanks short ends
  obtain ⟨before, after, left, right, rfl⟩ := spelled
  have split : b ++ (before ++ [sign] ++ after ++ s) ++ t = b ++ (before ++ sign :: (after ++ s ++ t)) := by simp
  have short' : (after ++ s ++ t).length ≤ n := by
    rw [split] at short
    simp only [List.length_append, List.length_cons] at short ⊢
    omega
  obtain ⟨t', same, read⟩ := ih n after t right short' ends
  refine ⟨t', same, ?_⟩
  rw [split, unaryLevel_append blanks, unaryLevel_append left, unaryLevel_sign known read]

theorem complete_unsigned (derives : Derives .selection s e) (ih : Complete .selection s e) : Complete .unary s e := by
  intro n b t blanks short ends
  obtain ⟨t', same, read⟩ := ih n b t blanks short ends.atom
  have stop : EndsPostfix t' := ⟨by rw [EndsAtom, same]; exact ends.atom, by rw [same]; exact ends.selection⟩
  rw [readSelections_stop stop] at read
  obtain ⟨before, c, rest, left, opens, rfl⟩ := derives.heads
  have split : b ++ (before ++ c :: rest) ++ t = b ++ (before ++ c :: (rest ++ t)) := by simp
  rw [split] at read ⊢
  refine ⟨t', same, ?_⟩
  rw [unaryLevel_append blanks, unaryLevel_append left, unaryLevel_opens opens, ← read]
  refine postfixed_congr ?_
  rw [skipBlanks_append blanks, skipBlanks_append left]

theorem complete_plain (ih : Complete .primary s e) : Complete .selection s e := by
  intro n b t blanks short ends
  exact ⟨skipBlanks t, skipBlanks_skipBlanks t, by rw [postfixed, ih n b t blanks short ends]⟩

/-- The selection of a field is read. -/
theorem complete_member {point name : List Char} (ih : Complete .selection s e) (pointed : Around ['.'] point)
    (token : Name name) (spelled : Around name u) :
    Complete .selection (s ++ point ++ u) (.member e (String.ofList name)) := by
  intro n b t blanks short ends
  have named := token
  obtain ⟨start, -⟩ := token
  rename_i c parts
  have first := other_of_start start
  obtain ⟨after, right, -, next⟩ := skip_symbol pointed (by simp [Blank]) (u ++ t)
  obtain ⟨after', right', -, next'⟩ := skip_around spelled first.2.2.1 right t
  rw [List.append_assoc] at next'
  have split : b ++ (s ++ point ++ u) ++ t = b ++ s ++ (point ++ (u ++ t)) := by simp only [List.append_assoc]
  rw [split] at short ⊢
  -- A point that a name follows is not taken for that of a fraction.
  have digit : NoDigit (after ++ (u ++ t)) := by
    rintro d v same digit
    by_cases blank : Blank d
    · exact not_namePart_of_blank blank (.inr (.inl digit))
    · rw [same, skipBlanks_cons blank] at next'
      exact first.2.2.2 ((List.cons.inj next').1 ▸ digit)
  have stop : EndsAtom (point ++ (u ++ t)) := by
    intro d v same
    obtain ⟨rfl, rfl⟩ := List.cons.inj (same.symm.trans next)
    exact ⟨by rw [← isNamePart_iff]; decide, fun _ => digit⟩
  obtain ⟨t', same, read⟩ := ih n b (point ++ (u ++ t)) blanks short stop
  have found : readName (skipBlanks (after ++ (u ++ t))) = some (String.ofList (c :: parts), after' ++ t) := by
    rw [next']
    exact readName_complete named (ends.after right').name
  refine ⟨after' ++ t, skipBlanks_append right' t, ?_⟩
  rw [read, readSelections_member (same.trans next) found]

/-- The selection by a key is read. -/
theorem complete_index {o c : List Char} {key : Expr} (ih : Complete .selection s e) (opening : Around ['['] o)
    (ihKey : Complete .expression u key) (closing : Around [']'] c) :
    Complete .selection (s ++ o ++ u ++ c) (.index e key) := by
  intro n b t blanks short ends
  obtain ⟨after, right, less, next⟩ := skip_symbol opening (by simp [Blank]) (u ++ (c ++ t))
  obtain ⟨after', right', -, next'⟩ := skip_symbol closing (by simp [Blank]) t
  have split : b ++ (s ++ o ++ u ++ c) ++ t = b ++ s ++ (o ++ (u ++ (c ++ t))) := by simp only [List.append_assoc]
  rw [split] at short ⊢
  have stop : EndsAtom (o ++ (u ++ (c ++ t))) := by
    intro d v same
    obtain ⟨rfl, rfl⟩ := List.cons.inj (same.symm.trans next)
    exact ⟨by rw [← isNamePart_iff]; decide, fun same => absurd same (by decide)⟩
  obtain ⟨t', same, read⟩ := ih n b (o ++ (u ++ (c ++ t))) blanks short stop
  obtain ⟨t'', same', inside⟩ := ihKey after (c ++ t) right (ends_expression (by simp) next')
  have short' : (after ++ u ++ (c ++ t)).length < n := by
    simp only [List.length_append] at short ⊢
    omega
  rw [← within_of_lt short', List.append_assoc] at inside
  refine ⟨skipBlanks (after' ++ t), ?_, ?_⟩
  · rw [skipBlanks_append right', skipBlanks_skipBlanks]
  · rw [read, readSelections_index (within_sound n) (same.trans next) inside (same'.trans next')]

/-! ### Primaries -/

/-- A number is read. -/
theorem complete_number {token : List Char} {x : Number.Numeral} (numeral : Numeral token x) (spelled : Around token s) :
    Complete .primary s (.literal (.number x.toFloat)) := by
  intro n b t blanks short ends
  have first : ∃ c rest, token = c :: rest ∧ c.isDigit := by
    obtain ⟨⟨some, all⟩, -, -⟩ := numeral
    obtain ⟨c, whole, rfl⟩ := List.exists_cons_of_ne_nil some
    exact ⟨c, _, rfl, all c List.mem_cons_self⟩
  obtain ⟨c, rest, rfl, digit⟩ := first
  have other : c ∉ ['"', '\'', '['] ∧ c ≠ '(' ∧ ¬ Blank c := by
    refine ⟨fun quoted => ?_, ?_, fun blank => not_namePart_of_blank blank (.inr (.inl digit))⟩
    · simp only [List.mem_cons, List.not_mem_nil, or_false] at quoted
      rcases quoted with rfl | rfl | rfl <;> exact absurd digit (by decide)
    · rintro rfl
      exact absurd digit (by decide)
  obtain ⟨after, right, -, next⟩ := skip_around spelled other.2.2 blanks t
  have read := readNumeral_complete numeral (ends.after right).number
  have atom : readAtom (within n) (c :: (rest ++ (after ++ t))) = some (literal (.number x.toFloat), after ++ t) := by
    rw [readAtom_other other.1]
    rw [List.cons_append] at read
    simp only [read]
  rw [primary_atom next other.2.1 atom, skipBlanks_append right]

/-- A text is read. -/
theorem complete_text {token body : List Char} {quote : Char} (quotes : quote ∈ ['"', '\''])
    (written : Written quote token body) (spelled : Around (quote :: token ++ [quote]) s) :
    Complete .primary s (.literal (.text (String.ofList body))) := by
  intro n b t blanks short ends
  simp only [List.mem_cons, List.not_mem_nil, or_false] at quotes
  have shown : ¬ Blank quote ∧ quote ≠ '(' ∧ quote ≠ '\\' := by
    rcases quotes with rfl | rfl <;> simp [Blank]
  obtain ⟨after, right, -, next⟩ := skip_around spelled shown.1 blanks t
  have read := readQuoted_complete written shown.2.2 (after ++ t)
  have atom : readAtom (within n) (quote :: (token ++ quote :: (after ++ t))) =
      some (literal (.text (String.ofList body)), after ++ t) := by
    rcases quotes with rfl | rfl
    · rw [readAtom, read]
      rfl
    · rw [readAtom, read]
      rfl
  have next' : skipBlanks (b ++ s ++ t) = quote :: (token ++ quote :: (after ++ t)) := by
    rw [next]
    simp
  rw [primary_atom next' shown.2.1 atom, skipBlanks_append right]

/-- An expression in parentheses is read. -/
theorem complete_parentheses {o c : List Char} (opening : Around ['('] o) (ih : Complete .expression s e)
    (closing : Around [')'] c) : Complete .primary (o ++ s ++ c) e := by
  intro n b t blanks short ends
  obtain ⟨after, right, less, next⟩ := skip_around opening (by simp [Blank]) blanks (s ++ (c ++ t))
  obtain ⟨after', right', -, next'⟩ := skip_symbol closing (by simp [Blank]) t
  obtain ⟨t', same, inside⟩ := ih after (c ++ t) right (ends_expression (by simp) next')
  have short' : (after ++ s ++ (c ++ t)).length < n := by
    simp only [List.length_append] at short ⊢
    omega
  rw [← within_of_lt short', List.append_assoc] at inside
  have split : b ++ (o ++ s ++ c) ++ t = b ++ o ++ (s ++ (c ++ t)) := by simp only [List.append_assoc]
  have opened : skipBlanks (b ++ o ++ (s ++ (c ++ t))) = '(' :: (after ++ (s ++ (c ++ t))) := next
  have closed : skipBlanks t' = ')' :: (after' ++ t) := same.trans next'
  rw [split, primary.eq_def]
  simp only [opened, inside, closed]
  rw [skipBlanks_append right']

/-- An array is read where its items are. -/
theorem primary_array {o : List Char} {items : List Expr} (opening : Around ['['] o) (blanks : Blanks b)
    (read : ∀ after, Blanks after → after.length < o.length → readArray inner (after ++ t) = some (array items, rest)) :
    primary inner (b ++ o ++ t) = .done (array items) (skipBlanks rest) := by
  obtain ⟨after, right, less, next⟩ := skip_around opening (by simp [Blank]) blanks t
  refine primary_atom next (by decide) ?_
  rw [readAtom]
  exact read after right less

theorem complete_empty {o c : List Char} (opening : Around ['['] o) (closing : Around [']'] c) :
    Complete .primary (o ++ c) (.array []) := by
  intro n b t blanks short ends
  obtain ⟨after', right', -, next⟩ := skip_symbol closing (by simp [Blank]) t
  have split : b ++ (o ++ c) ++ t = b ++ o ++ (c ++ t) := by simp only [List.append_assoc]
  rw [split, primary_array opening blanks fun after right _ => ?_, skipBlanks_append right']
  have closed : skipBlanks (after ++ (c ++ t)) = ']' :: (after' ++ t) := (skipBlanks_append right _).trans next
  rw [readArray]
  rcases first : within n (after ++ (c ++ t)) with ⟨e, rest⟩ | stop
  · -- No expression begins with a closing bracket.
    obtain ⟨w, same, derives⟩ := within_sound n _ e rest first
    obtain ⟨before, d, v, left, begins, rfl⟩ := derives.heads
    rw [same, List.append_assoc, skipBlanks_append left, List.cons_append] at closed
    by_cases blank : Blank d
    · exact absurd begins (not_begins (List.mem_append_left ['=', ']'] blank))
    · rw [skipBlanks_cons blank] at closed
      exact absurd begins (not_begins (by simp [(List.cons.inj closed).1]))
  · simp only [closed]

/-- An array is read. -/
theorem complete_array {o c : List Char} {items : List Expr} (opening : Around ['['] o)
    (ih : Complete .items s (.array items)) (closing : Around [']'] c) :
    Complete .primary (o ++ s ++ c) (.array items) := by
  intro n b t blanks short ends
  obtain ⟨after', right', -, next⟩ := skip_symbol closing (by simp [Blank]) t
  have split : b ++ (o ++ s ++ c) ++ t = b ++ o ++ (s ++ (c ++ t)) := by simp only [List.append_assoc]
  rw [split] at short
  rw [split, primary_array opening blanks fun after right less => ?_, skipBlanks_append right']
  have short' : (after ++ s ++ (c ++ t)).length < n := by
    simp only [List.length_append] at short ⊢
    omega
  obtain ⟨head, more, t', t'', same, first, others, left⟩ := ih n after (c ++ t) (after' ++ t) right short' next
  cases same
  rw [List.append_assoc] at first
  rw [readArray, first]
  simp only [others, left.trans next]

theorem complete_last (ih : Complete .expression s e) : Complete .items s (.array [e]) := by
  intro n b t u blanks short next
  obtain ⟨t', same, read⟩ := ih b t blanks (ends_expression (by simp) next)
  exact ⟨e, [], t', t', rfl, (within_of_lt short).trans read, readItems_stop (same.trans next), same⟩

/-- An item with more items behind it is read. -/
theorem complete_more {comma v : List Char} {items : List Expr} (ih : Complete .expression s e)
    (spelled : Around [','] comma) (ihMore : Complete .items v (.array items)) :
    Complete .items (s ++ comma ++ v) (.array (e :: items)) := by
  intro n b t u blanks short next
  obtain ⟨after, right, less, found⟩ := skip_symbol spelled (by simp [Blank]) (v ++ t)
  have split : b ++ (s ++ comma ++ v) ++ t = b ++ s ++ (comma ++ (v ++ t)) := by simp only [List.append_assoc]
  rw [split] at short ⊢
  obtain ⟨t', same, read⟩ := ih b (comma ++ (v ++ t)) blanks (ends_expression (by simp) found)
  have short' : (after ++ v ++ t).length < n := by
    simp only [List.length_append] at short ⊢
    omega
  obtain ⟨head, more, t1, t2, same', first, others, left⟩ := ihMore n after t u right short' next
  cases same'
  rw [List.append_assoc] at first
  refine ⟨e, head :: more, t', t2, rfl, (within_of_lt short).trans read, ?_, left⟩
  rw [readItems_cons (within_sound n) (same.trans found) first, others]

/-! ### Expressions -/

theorem complete_test (ih : Complete (.level .or) s e) : Complete .expression s e := by
  intro b t blanks ends
  obtain ⟨t', same, read⟩ := ih.chain blanks (Nat.le_refl _) ends.rows
  refine ⟨t', same, ?_⟩
  have stop : readBranches (within (b ++ s ++ t).length) t' = none := by
    rw [readBranches.eq_def]
    split
    · rename_i next
      exact absurd rfl (ends.query _ _ (same ▸ next))
    · rfl
  rw [expression_eq, ternary, show operatorTable = operatorTable.drop OperatorLevel.or.place from rfl, read]
  simp only [stop]

/-- A test with two branches is read. -/
theorem complete_conditional {v query colon : List Char} {test yes no : Expr} (ihTest : Complete (.level .or) s test)
    (asks : Around ['?'] query) (ihYes : Complete .expression u yes) (turns : Around [':'] colon)
    (ihNo : Complete .expression v no) :
    Complete .expression (s ++ query ++ u ++ colon ++ v) (.conditional test yes no) := by
  intro b t blanks ends
  have split : b ++ (s ++ query ++ u ++ colon ++ v) ++ t = b ++ s ++ (query ++ (u ++ (colon ++ (v ++ t)))) := by
    simp only [List.append_assoc]
  rw [split, expression_eq]
  obtain ⟨after, right, less, next⟩ := skip_symbol asks (by simp [Blank]) (u ++ (colon ++ (v ++ t)))
  obtain ⟨after', right', less', next'⟩ := skip_symbol turns (by simp [Blank]) (v ++ t)
  obtain ⟨t1, same, read⟩ := ihTest.chain blanks (Nat.le_refl _) (ends_query next)
  obtain ⟨t2, same', first⟩ := ihYes after (colon ++ (v ++ t)) right (ends_expression (by simp) next')
  obtain ⟨t3, same'', second⟩ := ihNo after' t right' ends
  refine ⟨t3, same'', ?_⟩
  generalize bound : (b ++ s ++ (query ++ (u ++ (colon ++ (v ++ t))))).length = n at read ⊢
  rw [← within_of_lt (n := n) (by simp only [List.length_append] at bound ⊢; omega), List.append_assoc] at first second
  have branches : readBranches (within n) t1 = some ((yes, no), t3) := by
    rw [readBranches.eq_def]
    have asked : skipBlanks t1 = '?' :: (after ++ (u ++ (colon ++ (v ++ t)))) := same.trans next
    have turned : skipBlanks t2 = ':' :: (after' ++ (v ++ t)) := same'.trans next'
    simp only [asked, first, turned, second]
  rw [ternary, show operatorTable = operatorTable.drop OperatorLevel.or.place from rfl, read]
  simp only [branches]

/-- Whatever is derived is read. -/
theorem complete {c : Category} (derives : Derives c s e) : Complete c s e := by
  induction derives with
  | test _ ih => exact complete_test ih
  | conditional _ asks _ turns _ ihTest ihYes ihNo => exact complete_conditional ihTest asks ihYes turns ihNo
  | operand _ ih => exact complete_operand ih
  | joined _ known spelled right ihLeft ihRight => exact complete_joined ihLeft known spelled right ihRight
  | signed known spelled _ ih => exact complete_signed known spelled ih
  | unsigned derives ih => exact complete_unsigned derives ih
  | plain _ ih => exact complete_plain ih
  | member _ point token spelled ih => exact complete_member ih point token spelled
  | index _ opening _ closing ih ihKey => exact complete_index ih opening ihKey closing
  | number numeral spelled => exact complete_number numeral spelled
  | text quotes written spelled => exact complete_text quotes written spelled
  | constant token known spelled =>
    intro n b t blanks _ ends
    rw [primary_name token spelled blanks ends, ofName_constant known]
  | var token free spelled =>
    intro n b t blanks _ ends
    rw [primary_name token spelled blanks ends, ofName_var free]
  | parentheses opening _ closing ih => exact complete_parentheses opening ih closing
  | empty opening closing => exact complete_empty opening closing
  | array opening _ closing ih => exact complete_array opening ih closing
  | last _ ih => exact complete_last ih
  | more _ comma _ ih ihMore => exact complete_more ih comma ihMore

/-- A text is read as an expression just when the grammar derives it. -/
theorem read_iff_derives (code : String) (e : Expr) : read code = .ok e ↔ Derives .expression code.toList e := by
  constructor
  · intro ok
    rw [read] at ok
    split at ok
    · rename_i e' rest found
      split at ok
      · rename_i next
        cases ok
        obtain ⟨w, split, derives⟩ := expression_sound _ _ _ found
        obtain ⟨after, blanks, left⟩ := exists_blanks rest
        rw [next, List.append_nil] at left
        rw [split, left]
        exact derives.pad blanks_nil blanks
      · cases ok
    · cases ok
  · intro derives
    obtain ⟨t', same, found⟩ := complete derives [] [] blanks_nil (ends_nil rfl)
    rw [List.nil_append, List.append_nil] at found
    rw [read, found]
    simp only [same, skipBlanks_nil]

end BehaviorTree.Expr
