import BehaviorTree.Proofs.Expression.Grammar
import Mathlib.Data.List.TakeDrop
import Mathlib.Data.List.TakeWhile

/-!
Reading tokens. Each reader of a token takes the text of one off the front, and it takes all of the
token as long as what comes next could not be a part of it.
-/

namespace BehaviorTree.Expr

open Grammar

variable {c : Char} {s t token rest : List Char}

/-! ### Blanks -/

theorem isBlank_iff : isBlank c = true ↔ Blank c := by
  simp [isBlank, Blank, or_assoc]

theorem skipBlanks_append (blanks : Blanks s) (t : List Char) : skipBlanks (s ++ t) = skipBlanks t :=
  List.dropWhile_append_of_pos fun c member => isBlank_iff.mpr (blanks c member)

theorem skipBlanks_cons (shown : ¬ Blank c) (t : List Char) : skipBlanks (c :: t) = c :: t :=
  List.dropWhile_cons_of_neg fun blank => shown (isBlank_iff.mp blank)

theorem skipBlanks_nil : skipBlanks [] = [] := rfl

/-- A text is that without its first blanks after blanks. -/
theorem exists_blanks (s : List Char) : ∃ before, Blanks before ∧ s = before ++ skipBlanks s :=
  ⟨s.takeWhile isBlank, fun _ member => isBlank_iff.mp (List.mem_takeWhile_imp member),
    List.takeWhile_append_dropWhile.symm⟩

/-- What is left of a text once its first blanks are skipped does not begin with one. -/
theorem not_blank_of_skipBlanks (left : skipBlanks s = c :: t) : ¬ Blank c := by
  have first := List.head?_dropWhile_not isBlank s
  rw [show s.dropWhile isBlank = c :: t from left, List.head?_cons] at first
  exact fun blank => Bool.eq_false_iff.mp first (isBlank_iff.mpr blank)

theorem skipBlanks_skipBlanks (s : List Char) : skipBlanks (skipBlanks s) = skipBlanks s := by
  rcases left : skipBlanks s with _ | ⟨c, t⟩
  · rfl
  · exact skipBlanks_cons (not_blank_of_skipBlanks left) t

/-! ### Runs of characters -/

/-- A run ends where the first other character is. -/
theorem takeWhile_append {p : Char → Bool} (all : ∀ c ∈ s, p c) (ends : ∀ c u, t = c :: u → ¬ p c) :
    (s ++ t).takeWhile p = s ∧ (s ++ t).dropWhile p = t := by
  rw [List.takeWhile_append_of_pos all, List.dropWhile_append_of_pos all]
  cases t with
  | nil => exact ⟨List.append_nil s, rfl⟩
  | cons c u =>
    have other := ends c u rfl
    rw [List.takeWhile_cons_of_neg other, List.dropWhile_cons_of_neg other]
    exact ⟨List.append_nil s, rfl⟩

theorem digits_takeWhile (some : s.takeWhile Char.isDigit ≠ []) : Digits (s.takeWhile Char.isDigit) :=
  ⟨some, fun _ member => List.mem_takeWhile_imp member⟩

/-! ### Numbers -/

/-- No digit comes first. -/
def NoDigit (s : List Char) : Prop := ∀ c u, s = c :: u → ¬ c.isDigit

theorem takeWhile_isDigit (digits : Digits s) (ends : NoDigit t) :
    (s ++ t).takeWhile Char.isDigit = s ∧ (s ++ t).dropWhile Char.isDigit = t :=
  takeWhile_append digits.2 ends

theorem takeWhile_noDigit (ends : NoDigit t) : t.takeWhile Char.isDigit = [] ∧ t.dropWhile Char.isDigit = t :=
  takeWhile_append (s := []) nofun ends

/-- What cannot continue a number. -/
structure EndsNumber (s : List Char) : Prop where
  digit : NoDigit s
  mark : ∀ c u, s = c :: u → c ∉ ['e', 'E']
  point : ∀ u, s = '.' :: u → NoDigit u

theorem readFraction_sound {digits : List Char} (read : readFraction s = (digits, rest)) :
    ∃ token, s = token ++ rest ∧ Fraction token digits := by
  rw [readFraction.eq_def] at read
  split at read
  · rename_i t
    split at read
    · cases read
      exact ⟨[], rfl, .none⟩
    · rename_i some
      rw [List.span_eq_takeWhile_dropWhile] at read
      cases read
      exact ⟨'.' :: t.takeWhile Char.isDigit, by rw [List.cons_append, List.takeWhile_append_dropWhile],
        .some (digits_takeWhile some)⟩
  · cases read
    exact ⟨[], rfl, .none⟩

theorem readFraction_complete {digits : List Char} (fraction : Fraction token digits) (digit : NoDigit t)
    (point : ∀ u, t = '.' :: u → NoDigit u) : readFraction (token ++ t) = (digits, t) := by
  cases fraction with
  | none =>
    rw [List.nil_append, readFraction.eq_def]
    split
    · rename_i u
      rw [if_pos (takeWhile_noDigit (point u rfl)).1]
    · rfl
  | some digits =>
    obtain ⟨all, left⟩ := takeWhile_isDigit digits digit
    rw [List.cons_append, readFraction, all, if_neg digits.1, List.span_eq_takeWhile_dropWhile, all, left]

theorem readExponent_sound {negative : Bool} {digits : List Char} (read : readExponent s = ((negative, digits), rest)) :
    ∃ token, s = token ++ rest ∧ Exponent token negative digits := by
  have none : ((false, ([] : List Char)), s) = ((negative, digits), rest) →
      ∃ token, s = token ++ rest ∧ Exponent token negative digits := by
    rintro ⟨⟩
    exact ⟨[], rfl, .none⟩
  rcases s with _ | ⟨c, t⟩
  · exact none read
  by_cases mark : c = 'e' ∨ c = 'E'
  · have marks : c ∈ ['e', 'E'] := by simpa using mark
    simp only [readExponent, if_pos mark] at read
    -- Whatever the sign, it is the digits after it that count.
    have taken {u : List Char} {sign : Bool}
        (read : (if u.takeWhile Char.isDigit = [] then ((false, []), c :: t)
          else ((sign, u.takeWhile Char.isDigit), u.dropWhile Char.isDigit)) = ((negative, digits), rest))
        (before : List Char) (here : c :: t = before ++ u)
        (exponent : ∀ ds, Digits ds → Exponent (before ++ ds) sign ds) :
        ∃ token, c :: t = token ++ rest ∧ Exponent token negative digits := by
      split at read
      · exact none read
      · rename_i some
        cases read
        exact ⟨before ++ u.takeWhile Char.isDigit, by rw [List.append_assoc, List.takeWhile_append_dropWhile, here],
          exponent _ (digits_takeWhile some)⟩
    split at read
    · exact taken read [c, '+'] rfl fun _ => .plus marks
    · exact taken read [c, '-'] rfl fun _ => .minus marks
    · exact taken read [c] rfl fun _ => .bare marks
  · simp only [readExponent, if_neg mark] at read
    exact none read

theorem readExponent_complete {negative : Bool} {digits : List Char} (exponent : Exponent token negative digits)
    (digit : NoDigit t) (mark : ∀ c u, t = c :: u → c ∉ ['e', 'E']) :
    readExponent (token ++ t) = ((negative, digits), t) := by
  cases exponent with
  | none =>
    rcases t with _ | ⟨c, u⟩
    · rfl
    · have other : ¬ (c = 'e' ∨ c = 'E') := by simpa using mark c u rfl
      simp only [List.nil_append, readExponent, if_neg other]
  | bare marks digits =>
    obtain ⟨all, left⟩ := takeWhile_isDigit digits digit
    obtain ⟨d, rest, rfl⟩ := List.exists_cons_of_ne_nil digits.1
    have first := digits.2 d List.mem_cons_self
    have plus : d ≠ '+' := by rintro rfl; exact absurd first (by decide)
    have minus : d ≠ '-' := by rintro rfl; exact absurd first (by decide)
    rw [List.cons_append] at all left
    simp only [List.mem_cons, List.not_mem_nil, or_false] at marks
    simp only [List.cons_append, readExponent, if_pos marks]
    split
    · rename_i same
      exact absurd (List.cons.inj same).1 plus
    · rename_i same
      exact absurd (List.cons.inj same).1 minus
    · rw [all, left, if_neg (List.cons_ne_nil d rest)]
  | plus marks digits =>
    obtain ⟨all, left⟩ := takeWhile_isDigit digits digit
    simp only [List.mem_cons, List.not_mem_nil, or_false] at marks
    simp only [List.cons_append, readExponent, if_pos marks, all, left, if_neg digits.1]
  | minus marks digits =>
    obtain ⟨all, left⟩ := takeWhile_isDigit digits digit
    simp only [List.mem_cons, List.not_mem_nil, or_false] at marks
    simp only [List.cons_append, readExponent, if_pos marks, all, left, if_neg digits.1]

/-- A numeral that is read is spelt by what was read. -/
theorem readNumeral_sound {n : Number.Numeral} (read : readNumeral s = some (n, rest)) :
    ∃ token, s = token ++ rest ∧ Numeral token n := by
  rw [readNumeral] at read
  split at read
  · cases read
  · rename_i some
    rcases fractional : readFraction (s.dropWhile Char.isDigit) with ⟨fraction, t⟩
    rcases exponential : readExponent t with ⟨⟨negative, exponent⟩, u⟩
    simp only [fractional, exponential, Option.some.injEq, Prod.mk.injEq] at read
    obtain ⟨rfl, rfl⟩ := read
    obtain ⟨one, split, fraction⟩ := readFraction_sound fractional
    obtain ⟨two, rfl, exponent⟩ := readExponent_sound exponential
    refine ⟨_, ?_, .mk (digits_takeWhile some) fraction exponent⟩
    rw [List.append_assoc, List.append_assoc, ← split, List.takeWhile_append_dropWhile]

/-- A spelling of a numeral is read to its end. -/
theorem readNumeral_complete {n : Number.Numeral} (numeral : Numeral token n) (ends : EndsNumber t) :
    readNumeral (token ++ t) = some (n, t) := by
  obtain ⟨whole, fraction, exponent⟩ := numeral
  rename_i w f digits x ending negative
  -- No digit follows the fraction, nor the whole digits.
  have marked : NoDigit (x ++ t) := by
    cases exponent with
    | none => exact ends.digit
    | bare marks | plus marks | minus marks =>
      rintro c u ⟨⟩ digit
      simp only [List.mem_cons, List.not_mem_nil, or_false] at marks
      rcases marks with rfl | rfl <;> exact absurd digit (by decide)
  have point : ∀ u, x ++ t = '.' :: u → NoDigit u := by
    cases exponent with
    | none => exact ends.point
    | bare marks | plus marks | minus marks =>
      rintro u ⟨⟩
      exact absurd marks (by decide)
  have pointed : NoDigit (f ++ (x ++ t)) := by
    cases fraction with
    | none => exact marked
    | some =>
      rintro c u ⟨⟩ digit
      exact absurd digit (by decide)
  obtain ⟨all, left⟩ := takeWhile_isDigit whole pointed
  rw [List.append_assoc, List.append_assoc]
  simp only [readNumeral, all, left, if_neg whole.1, readFraction_complete fraction marked point,
    readExponent_complete exponent ends.digit ends.mark]

theorem readNumeral_eq_none (ends : NoDigit s) : readNumeral s = none := by
  rw [readNumeral]
  simp only [(takeWhile_noDigit ends).1, if_pos]

/-! ### Quoted texts -/

theorem unescape?_iff {d : Char} : unescape? c = some d ↔ (c, d) ∈ escapes := by
  simp only [escapes, List.mem_cons, Prod.mk.injEq, List.not_mem_nil, or_false]
  constructor
  · intro found
    rw [unescape?.eq_def] at found
    split at found <;> cases found <;> simp
  · rintro (⟨rfl, rfl⟩ | ⟨rfl, rfl⟩ | ⟨rfl, rfl⟩ | ⟨rfl, rfl⟩ | ⟨rfl, rfl⟩) <;> rfl

/-- A body that is read is written by what was read. -/
theorem readQuoted_sound {quote : Char} {body : List Char} (read : readQuoted quote s = some (body, rest)) :
    ∃ token, s = token ++ quote :: rest ∧ Written quote token body := by
  fun_induction readQuoted quote s generalizing body with
  | case1 => cases read
  | case2 c rest' ih =>
    obtain ⟨d, escaped, read⟩ := Option.bind_eq_some_iff.mp read
    obtain ⟨⟨inner, after⟩, read', same⟩ := Option.bind_eq_some_iff.mp read
    cases same
    obtain ⟨token, rfl, written⟩ := ih read'
    exact ⟨_, rfl, .escape (unescape?_iff.mp escaped) written⟩
  | case3 => 
    cases read
    exact ⟨[], rfl, .nil⟩
  | case4 => cases read
  | case5 c rest' _ other shown ih =>
    obtain ⟨⟨inner, after⟩, read', same⟩ := Option.bind_eq_some_iff.mp read
    cases same
    obtain ⟨token, rfl, written⟩ := ih read'
    exact ⟨_, rfl, .plain other shown written⟩

/-- A written body is read up to the closing quote. -/
theorem readQuoted_complete {quote : Char} {body : List Char} (written : Written quote token body)
    (quotes : quote ≠ '\\') (t : List Char) : readQuoted quote (token ++ quote :: t) = some (body, t) := by
  induction written with
  | nil =>
    rw [List.nil_append, readQuoted.eq_def]
    split
    · rename_i same
      cases same
    · rename_i same
      exact absurd (List.cons.inj same).1 quotes
    · rename_i same
      obtain ⟨rfl, rfl⟩ := List.cons.inj same
      rw [if_pos rfl]
  | plain other shown _ ih =>
    rw [List.cons_append, readQuoted.eq_def]
    split
    · rename_i same
      cases same
    · rename_i same
      exact absurd (List.cons.inj same).1 shown
    · rename_i same
      obtain ⟨rfl, rfl⟩ := List.cons.inj same
      rw [if_neg other, if_neg shown, ih]
      rfl
  | escape known _ ih =>
    rw [List.cons_append, List.cons_append, readQuoted, unescape?_iff.mpr known, ih]
    rfl

/-! ### Names -/

theorem isNameStart_iff : isNameStart c = true ↔ NameStart c := by
  simp [isNameStart, NameStart, or_assoc]

theorem isNamePart_iff : isNamePart c = true ↔ NamePart c := by
  simp [isNamePart, NamePart, Char.isAlphanum, or_assoc]

/-- A name that is read is one. -/
theorem readName_sound {name : String} (read : readName s = some (name, rest)) :
    ∃ token, s = token ++ rest ∧ Name token ∧ name = String.ofList token := by
  rw [readName.eq_def] at read
  split at read
  · rename_i c t
    split at read
    · rename_i start
      cases read
      refine ⟨c :: t.takeWhile isNamePart, by rw [List.cons_append, List.takeWhile_append_dropWhile], ?_, rfl⟩
      exact .mk (isNameStart_iff.mp start) fun _ member => isNamePart_iff.mp (List.mem_takeWhile_imp member)
    · cases read
  · cases read

/-- What cannot continue a name. -/
def EndsName (s : List Char) : Prop := ∀ c u, s = c :: u → ¬ NamePart c

/-- A name is read to its end. -/
theorem readName_complete (name : Name token) (ends : EndsName t) :
    readName (token ++ t) = some (String.ofList token, t) := by
  obtain ⟨start, parts⟩ := name
  rename_i c s
  have known : ∀ d ∈ s, isNamePart d = true := fun d member => isNamePart_iff.mpr (parts d member)
  have stops : ∀ d u, t = d :: u → ¬ isNamePart d = true := fun d u same part =>
    ends d u same (isNamePart_iff.mp part)
  obtain ⟨all, left⟩ := takeWhile_append known stops
  rw [List.cons_append, readName, if_pos (isNameStart_iff.mpr start), all, left]

theorem ofName_constant {name : String} {v : Value} (known : (name, v) ∈ constants) : ofName name = .literal v := by
  simp only [constants, List.mem_cons, Prod.mk.injEq, List.not_mem_nil, or_false] at known
  rcases known with ⟨rfl, rfl⟩ | ⟨rfl, rfl⟩ | ⟨rfl, rfl⟩ | ⟨rfl, rfl⟩ <;> simp [ofName]

theorem ofName_var {name : String} (free : name ∉ constants.map Prod.fst) : ofName name = .var name := by
  simp only [constants, List.map, List.mem_cons, List.not_mem_nil, or_false, not_or] at free
  obtain ⟨one, two, three, four⟩ := free
  rw [ofName, if_neg one, if_neg two, if_neg (not_or.mpr ⟨three, four⟩)]

/-- A name is one of the reserved ones or stands for a variable. -/
theorem derives_name {name s : List Char} (token : Name name) (spelled : Around name s) :
    Derives .primary s (ofName (String.ofList name)) := by
  by_cases free : String.ofList name ∉ constants.map Prod.fst
  · rw [ofName_var free]
    exact .var token free spelled
  · obtain ⟨⟨_, v⟩, member, rfl⟩ := List.mem_map.mp (not_not.mp free)
    rw [ofName_constant member]
    exact .constant token member spelled

/-! ### Operators -/

/-- An operator that is read stands in the row. -/
theorem readOperator_sound {ops : List (List Char × BinaryOp)} {op : BinaryOp}
    (read : readOperator ops s = some (op, rest)) : ∃ spelling, (spelling, op) ∈ ops ∧ s = spelling ++ rest := by
  induction ops with
  | nil => cases read
  | cons entry others ih =>
    obtain ⟨spelling, op'⟩ := entry
    rw [readOperator] at read
    split at read
    · rename_i starts
      cases read
      obtain ⟨after, rfl⟩ := List.isPrefixOf_iff_prefix.mp starts
      exact ⟨spelling, List.mem_cons_self, by rw [List.drop_left]⟩
    · obtain ⟨spelling, member, same⟩ := ih read
      exact ⟨spelling, List.mem_cons_of_mem _ member, same⟩

end BehaviorTree.Expr
