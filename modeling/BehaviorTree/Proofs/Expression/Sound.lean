import BehaviorTree.Proofs.Expression.Token

/-!
What is read is derived by the grammar. Every reader takes a text off the front that derives the
expression it gives, provided that the reader for the expressions inside does.
-/

namespace BehaviorTree.Expr

open Grammar

/-- What the reader gives is derived by what it has taken off the front. -/
def Sound (c : Category) (reader : Reader) : Prop :=
  ∀ s e rest, reader s = .done e rest → ∃ w, s = w ++ rest ∧ Derives c w e

/-- A sound reader takes something off the front. -/
theorem Sound.shorter {c : Category} {reader : Reader} (sound : Sound c reader) {s rest : List Char} {e : Expr}
    (read : reader s = .done e rest) : rest.length < s.length := by
  obtain ⟨w, rfl, derives⟩ := sound s e rest read
  have some := List.length_pos_of_ne_nil derives.ne_nil
  rw [List.length_append]
  omega

variable {inner : Reader} {s rest : List Char} {e : Expr}

/-- A token that is the next one, with the blanks before it. -/
theorem around_next (token : List Char) (next : skipBlanks s = token ++ rest) :
    ∃ w, s = w ++ rest ∧ Around token w := by
  obtain ⟨before, blanks, split⟩ := exists_blanks s
  refine ⟨before ++ token, ?_, before, [], blanks, blanks_nil, (List.append_nil _).symm⟩
  rw [split, next, List.append_assoc]

/-- A token that is the next one, with all blanks around it. -/
theorem around_skip (token : List Char) (next : skipBlanks s = token ++ rest) :
    ∃ w, s = w ++ skipBlanks rest ∧ Around token w := by
  obtain ⟨before, left, split⟩ := exists_blanks s
  obtain ⟨after, right, split'⟩ := exists_blanks rest
  refine ⟨before ++ token ++ after, ?_, before, after, left, right, rfl⟩
  rw [List.append_assoc, ← split', List.append_assoc, ← next]
  exact split

/-! ### Primaries -/

section

variable (inside : Sound .expression inner)

include inside

/-- The items that are read are derived from what was read. -/
theorem readItems_sound {items : List Expr} (read : readItems inner s = (items, rest)) :
    (items = [] ∧ rest = s) ∨
      ∃ w comma, s = comma ++ w ++ rest ∧ Around [','] comma ∧ Derives .items w (.array items) := by
  induction h : s.length using Nat.strong_induction_on generalizing s items with
  | _ n ih =>
    have none : (([] : List Expr), s) = (items, rest) → (items = [] ∧ rest = s) ∨
        ∃ w comma, s = comma ++ w ++ rest ∧ Around [','] comma ∧ Derives .items w (.array items) := by
      rintro ⟨⟩
      exact .inl ⟨rfl, rfl⟩
    rw [readItems.eq_def] at read
    split at read
    · rename_i t next
      obtain ⟨comma, split, spelled⟩ := around_next [','] next
      rcases first : inner t with ⟨e, after⟩ | stop
      · rw [first] at read
        simp only at read
        split at read
        · rename_i shorter
          rcases others : readItems inner after with ⟨more, left⟩
          rw [others] at read
          cases read
          obtain ⟨w, rfl, derives⟩ := inside t e after first
          refine .inr ?_
          rcases ih after.length (h ▸ shorter) others rfl with ⟨rfl, rfl⟩ | ⟨v, comma', rfl, spelled', items⟩
          · exact ⟨w, comma, by rw [split, List.append_assoc], spelled, .last derives⟩
          · exact ⟨w ++ comma' ++ v, comma, by rw [split]; simp only [List.append_assoc], spelled,
              .more derives spelled' items⟩
        · exact none read
      · rw [first] at read
        exact none read
    · exact none read

/-- An array is read after its opening bracket. -/
theorem readArray_sound (read : readArray inner s = some (e, rest)) :
    (∃ c, s = c ++ rest ∧ Around [']'] c ∧ e = .array []) ∨
      ∃ w c items, s = w ++ c ++ rest ∧ Derives .items w (.array items) ∧ Around [']'] c ∧ e = .array items := by
  rw [readArray] at read
  rcases first : inner s with ⟨head, after⟩ | stop
  · rw [first] at read
    rcases others : readItems inner after with ⟨more, left⟩
    simp only [others] at read
    split at read
    · rename_i t next
      cases read
      obtain ⟨c, split, closing⟩ := around_next [']'] next
      obtain ⟨w, rfl, derives⟩ := inside s head after first
      refine .inr ?_
      rcases readItems_sound inside others with ⟨rfl, rfl⟩ | ⟨v, comma, rfl, spelled, items⟩
      · exact ⟨w, c, _, by rw [split, List.append_assoc], .last derives, closing, rfl⟩
      · exact ⟨w ++ comma ++ v, c, _, by rw [split]; simp only [List.append_assoc], .more derives spelled items,
          closing, rfl⟩
    · cases read
  · rw [first] at read
    simp only at read
    split at read
    · rename_i t next
      cases read
      obtain ⟨c, split, closing⟩ := around_next [']'] next
      exact .inl ⟨c, split, closing, rfl⟩
    · cases read

/-- What an atom is read from derives it, with any blanks around it. -/
theorem readAtom_sound (read : readAtom inner s = some (e, rest)) :
    ∃ w, s = w ++ rest ∧ ∀ before after, Blanks before → Blanks after →
      Derives .primary (before ++ w ++ after) e := by
  have quoted {quote : Char} {t : List Char} (known : quote ∈ ['"', '\''])
      (read : ((readQuoted quote t).map fun found => (literal (.text (String.ofList found.1)), found.2)) =
        some (e, rest)) :
      ∃ w, quote :: t = w ++ rest ∧ ∀ before after, Blanks before → Blanks after →
        Derives .primary (before ++ w ++ after) e := by
    obtain ⟨⟨body, left⟩, found, same⟩ := Option.map_eq_some_iff.mp read
    cases same
    obtain ⟨token, rfl, written⟩ := readQuoted_sound found
    exact ⟨quote :: token ++ [quote], by simp, fun before after one two =>
      .text known written ⟨before, after, one, two, rfl⟩⟩
  rw [readAtom.eq_def] at read
  split at read
  · exact quoted (by simp) read
  · exact quoted (by simp) read
  · rename_i t
    rcases readArray_sound inside read with ⟨c, rfl, closing, rfl⟩ | ⟨w, c, items, rfl, derives, closing, rfl⟩
    · refine ⟨'[' :: c, rfl, fun before after one two => ?_⟩
      have opening : Around ['['] ['['] := ⟨[], [], blanks_nil, blanks_nil, rfl⟩
      exact (Derives.empty opening closing).pad one two
    · refine ⟨'[' :: (w ++ c), rfl, fun before after one two => ?_⟩
      have opening : Around ['['] ['['] := ⟨[], [], blanks_nil, blanks_nil, rfl⟩
      have array := (Derives.array opening derives closing).pad one two
      rwa [List.append_assoc ['['] w c] at array
  · split at read
    · rename_i n left found
      cases read
      obtain ⟨token, rfl, numeral⟩ := readNumeral_sound found
      exact ⟨token, rfl, fun before after one two => .number numeral ⟨before, after, one, two, rfl⟩⟩
    · obtain ⟨⟨name, left⟩, found, same⟩ := Option.map_eq_some_iff.mp read
      cases same
      obtain ⟨token, rfl, named, rfl⟩ := readName_sound found
      exact ⟨token, rfl, fun before after one two => derives_name named ⟨before, after, one, two, rfl⟩⟩

/-- A primary that is read is derived from what was read. -/
theorem primary_sound : Sound .primary (primary inner) := by
  intro s e rest read
  rw [primary.eq_def] at read
  simp only at read
  split at read
  · rename_i t opens
    rcases first : inner t with ⟨e', left⟩ | stop
    · rw [first] at read
      simp only at read
      split at read
      · rename_i u closes
        cases read
        obtain ⟨o, rfl, opening⟩ := around_next ['('] opens
        obtain ⟨w, rfl, derives⟩ := inside t e left first
        obtain ⟨c, rfl, closing⟩ := around_skip [')'] closes
        exact ⟨o ++ w ++ c, by simp only [List.append_assoc], .parentheses opening derives closing⟩
      · cases read
    · rw [first] at read
      cases read
  · rcases found : readAtom inner (skipBlanks s) with _ | ⟨e', left⟩
    · rw [found] at read
      cases read
    · rw [found] at read
      cases read
      obtain ⟨before, one, split⟩ := exists_blanks s
      obtain ⟨w, split', derives⟩ := readAtom_sound inside found
      obtain ⟨after, two, split''⟩ := exists_blanks left
      refine ⟨before ++ w ++ after, ?_, derives before after one two⟩
      rw [List.append_assoc, ← split'', List.append_assoc, ← split']
      exact split

/-! ### Postfixes and signs -/

/-- The selections that are read extend the derivation. -/
theorem readSelections_sound {w : List Char} {e' : Expr} (derives : Derives .selection w e)
    (read : readSelections inner e s = (e', rest)) : ∃ v, s = v ++ rest ∧ Derives .selection (w ++ v) e' := by
  induction h : s.length using Nat.strong_induction_on generalizing s e w with
  | _ n ih =>
    have none : (e, s) = (e', rest) → ∃ v, s = v ++ rest ∧ Derives .selection (w ++ v) e' := by
      rintro ⟨⟩
      exact ⟨[], rfl, by rwa [List.append_nil]⟩
    rw [readSelections.eq_def] at read
    split at read
    · rename_i t next
      obtain ⟨point, split, spelled⟩ := around_next ['.'] next
      split at read
      · rename_i name left found
        split at read
        · rename_i shorter
          obtain ⟨before, blanks, split'⟩ := exists_blanks t
          obtain ⟨token, split'', named, rfl⟩ := readName_sound found
          have here : Around token (before ++ token) := ⟨before, [], blanks, blanks_nil, (List.append_nil _).symm⟩
          obtain ⟨v, rfl, derives'⟩ := ih left.length (h ▸ shorter) (.member derives spelled named here) read rfl
          refine ⟨point ++ (before ++ token) ++ v, ?_, by simpa only [List.append_assoc] using derives'⟩
          rw [split, split', split'']
          simp only [List.append_assoc]
        · exact none read
      · exact none read
    · rename_i t next
      obtain ⟨o, split, opening⟩ := around_next ['['] next
      split at read
      · rename_i key left found
        split at read
        · rename_i u closes
          split at read
          · rename_i shorter
            obtain ⟨c, split', closing⟩ := around_skip [']'] closes
            obtain ⟨k, split'', key⟩ := inside t key left found
            obtain ⟨v, ended, derives'⟩ := ih _ (h ▸ shorter) (.index derives opening key closing) read rfl
            refine ⟨o ++ k ++ c ++ v, ?_, by simpa only [List.append_assoc] using derives'⟩
            rw [split, split'', split', ended]
            simp only [List.append_assoc]
          · exact none read
        · exact none read
      · exact none read
    · exact none read

/-- A primary with selections is derived from what was read. -/
theorem postfixed_sound : Sound .selection (postfixed inner) := by
  intro s e rest read
  rw [postfixed] at read
  split at read
  · rename_i e' left found
    rcases selected : readSelections inner e' left with ⟨e'', rest'⟩
    rw [selected] at read
    cases read
    obtain ⟨w, rfl, derives⟩ := primary_sound inside s e' left found
    obtain ⟨v, rfl, derives⟩ := readSelections_sound inside (.plain derives) selected
    exact ⟨w ++ v, (List.append_assoc _ _ _).symm, derives⟩
  · cases read

/-- A signed operand is derived from what was read. -/
theorem unaryLevel_sound : Sound .unary (unaryLevel inner) := by
  intro s
  induction s with
  | nil =>
    intro e rest read
    obtain ⟨w, split, derives⟩ := postfixed_sound inside [] e rest read
    exact ⟨w, split, .unsigned derives⟩
  | cons c t ih =>
    intro e rest read
    have sign {op : UnaryOp} {operand : Expr} (known : (c, op) ∈ signs)
        (found : unaryLevel inner t = .done operand rest) :
        ∃ w, c :: t = w ++ rest ∧ Derives .unary w (.unary op operand) := by
      obtain ⟨w, rfl, derives⟩ := ih operand rest found
      exact ⟨[c] ++ w, rfl, .signed known ⟨[], [], blanks_nil, blanks_nil, rfl⟩ derives⟩
    rw [unaryLevel] at read
    split at read
    · rename_i blank
      obtain ⟨w, rfl, derives⟩ := ih e rest read
      have blanks : Blanks [c] := fun d member => List.mem_singleton.mp member ▸ isBlank_iff.mp blank
      have padded := derives.pad blanks blanks_nil
      exact ⟨c :: w, rfl, by simpa using padded⟩
    · split at read
      · rename_i same
        split at read
        · rename_i found
          cases read
          exact sign (by simp [signs, same]) found
        · cases read
      · split at read
        · rename_i same
          split at read
          · rename_i found
            cases read
            exact sign (by simp [signs, same]) found
          · cases read
        · obtain ⟨w, split, derives⟩ := postfixed_sound inside (c :: t) e rest read
          exact ⟨w, split, .unsigned derives⟩

end

/-! ### Levels -/

namespace Grammar.OperatorLevel

/-- Place of the level in the table of operators. -/
def place : OperatorLevel → Nat
  | or => 0
  | and => 1
  | equality => 2
  | comparison => 3
  | additive => 4
  | term => 5

/-- The operators of the level as they are read. -/
def row (l : OperatorLevel) : List (List Char × BinaryOp) := operatorTable[l.place]?.getD []

/-- The rows of the tighter levels. -/
def below (l : OperatorLevel) : List (List (List Char × BinaryOp)) := operatorTable.drop (l.place + 1)

theorem row_perm (l : OperatorLevel) : l.row.Perm l.operators := by
  cases l <;> decide

theorem rows_eq (l : OperatorLevel) : operatorTable.drop l.place = l.row :: l.below := by
  cases l <;> rfl

end Grammar.OperatorLevel

/-- A chain of operands joined by the operators of a level. -/
theorem readChain_sound {l : OperatorLevel} {operand : Reader} (operands : Sound l.operands operand) {w : List Char}
    {e' : Expr} (derives : Derives (.level l) w e) (read : readChain operand l.row e s = (e', rest)) :
    ∃ v, s = v ++ rest ∧ Derives (.level l) (w ++ v) e' := by
  induction h : s.length using Nat.strong_induction_on generalizing s e w with
  | _ n ih =>
    have none : (e, s) = (e', rest) → ∃ v, s = v ++ rest ∧ Derives (.level l) (w ++ v) e' := by
      rintro ⟨⟩
      exact ⟨[], rfl, by rwa [List.append_nil]⟩
    rw [readChain.eq_def] at read
    split at read
    · rename_i op t found
      split at read
      · rename_i rhs left joined
        split at read
        · rename_i shorter
          obtain ⟨spelling, member, next⟩ := readOperator_sound found
          obtain ⟨o, split, spelled⟩ := around_next spelling next
          obtain ⟨u, rfl, rhs⟩ := operands t rhs left joined
          obtain ⟨v, rfl, derives'⟩ := ih left.length (h ▸ shorter)
            (.joined derives (l.row_perm.subset member) spelled rhs) read rfl
          refine ⟨o ++ u ++ v, ?_, by simpa only [List.append_assoc] using derives'⟩
          rw [split]
          simp only [List.append_assoc]
        · exact none read
      · exact none read
    · exact none read

/-- A level is sound if the level of its operands is. -/
theorem binaryLevel_cons {l : OperatorLevel} (operands : Sound l.operands (binaryLevel inner l.below)) :
    Sound (.level l) (binaryLevel inner (operatorTable.drop l.place)) := by
  intro s e rest read
  rw [l.rows_eq, binaryLevel] at read
  split at read
  · rename_i lhs left found
    rcases chained : readChain (binaryLevel inner l.below) l.row lhs left with ⟨e', after⟩
    rw [chained] at read
    cases read
    obtain ⟨w, rfl, derives⟩ := operands s lhs left found
    obtain ⟨v, rfl, derives⟩ := readChain_sound operands (.operand derives) chained
    exact ⟨w ++ v, (List.append_assoc _ _ _).symm, derives⟩
  · cases read

section

variable (inside : Sound .expression inner)

include inside

/-- The readers of the operands of every level are sound. -/
theorem operands_sound (l : OperatorLevel) : Sound l.operands (binaryLevel inner l.below) := by
  have term : Sound OperatorLevel.term.operands (binaryLevel inner OperatorLevel.term.below) := unaryLevel_sound inside
  have additive : Sound OperatorLevel.additive.operands (binaryLevel inner OperatorLevel.additive.below) :=
    binaryLevel_cons term
  have comparison : Sound OperatorLevel.comparison.operands (binaryLevel inner OperatorLevel.comparison.below) :=
    binaryLevel_cons additive
  have equality : Sound OperatorLevel.equality.operands (binaryLevel inner OperatorLevel.equality.below) :=
    binaryLevel_cons comparison
  have and : Sound OperatorLevel.and.operands (binaryLevel inner OperatorLevel.and.below) := binaryLevel_cons equality
  have or : Sound OperatorLevel.or.operands (binaryLevel inner OperatorLevel.or.below) := binaryLevel_cons and
  cases l <;> assumption

/-- The branches that are read are derived from what was read. -/
theorem readBranches_sound {yes no : Expr} (read : readBranches inner s = some ((yes, no), rest)) :
    ∃ query t colon u, s = query ++ t ++ colon ++ u ++ rest ∧ Around ['?'] query ∧ Derives .expression t yes ∧
      Around [':'] colon ∧ Derives .expression u no := by
  rw [readBranches.eq_def] at read
  split at read
  · rename_i t asks
    split at read
    · rename_i yes' left first
      split at read
      · rename_i u turns
        split at read
        · rename_i no' after second
          cases read
          obtain ⟨query, rfl, asked⟩ := around_next ['?'] asks
          obtain ⟨w, rfl, yes⟩ := inside t yes left first
          obtain ⟨colon, rfl, turned⟩ := around_next [':'] turns
          obtain ⟨v, rfl, no⟩ := inside u no rest second
          exact ⟨query, w, colon, v, by simp only [List.append_assoc], asked, yes, turned, no⟩
        · cases read
      · cases read
    · cases read
  · cases read

/-- An expression that is read is derived from what was read. -/
theorem ternary_sound : Sound .expression (ternary inner) := by
  intro s e rest read
  rw [ternary] at read
  split at read
  · rename_i test left found
    obtain ⟨w, rfl, derives⟩ := binaryLevel_cons (operands_sound inside .or) s test left found
    split at read
    · rename_i yes no after branched
      cases read
      obtain ⟨query, t, colon, u, rfl, asked, yes, turned, no⟩ := readBranches_sound inside branched
      exact ⟨w ++ query ++ t ++ colon ++ u, by simp only [List.append_assoc], .conditional derives asked yes turned no⟩
    · cases read
      exact ⟨w, rfl, .test derives⟩
  · cases read

end

/-- The reader for the expressions inside a text of some length. -/
def within (bound : Nat) : Reader := fun t => if t.length < bound then expression t else .stuck t

theorem expression_eq (s : List Char) : expression s = ternary (within s.length) s := by
  rw [expression]
  rfl

/-- What is read as an expression is derived as one. -/
theorem expression_sound : Sound .expression expression := by
  intro s
  induction h : s.length using Nat.strong_induction_on generalizing s with
  | _ n ih =>
    have inside : Sound .expression (within n) := by
      intro t e rest read
      rw [within] at read
      split at read
      · rename_i shorter
        exact ih t.length shorter t rfl e rest read
      · cases read
    rw [← h] at inside
    intro e rest read
    exact ternary_sound inside s e rest (expression_eq s ▸ read)

theorem within_sound (bound : Nat) : Sound .expression (within bound) := by
  intro t e rest read
  rw [within] at read
  split at read
  · exact expression_sound t e rest read
  · cases read

end BehaviorTree.Expr
