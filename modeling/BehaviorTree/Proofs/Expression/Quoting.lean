import BehaviorTree.Proofs.Expression.Complete

/-!
Quotings. A string is quoted by putting it between two quotes of one kind, with a backslash before every backslash
and every quote of that kind inside; its line breaks and tabs stand as they are or as letters after a backslash.
Every quoting of a string is read as that string. Conversely a literal is a quoting of the string it is read as,
except that the other quote may have a backslash too; what begins like a literal and has another escape, or no
closing quote, is refused.
-/

namespace BehaviorTree.Expr

open Grammar

variable {inner : Reader} {quote c : Char} {s t token rest w : List Char} {e : Expr}

/-! ### Spellings -/

/-- The ways of writing a character between quotes. -/
def spellings (quote c : Char) : List (List Char) :=
  if c = quote ∨ c = '\\' then [['\\', c]]
  else if c = '\n' then [[c], ['\\', 'n']]
  else if c = '\t' then [[c], ['\\', 't']]
  else [[c]]

/-- The ways of writing a character that are read: the other quote may have a backslash too. -/
def readableSpellings (quote c : Char) : List (List Char) :=
  spellings quote c ++ if c ∈ ['"', '\''] ∧ c ≠ quote then [['\\', c]] else []

/-- The text writes out the string, each character in one of its ways. -/
inductive Spelled (ways : Char → List (List Char)) : List Char → List Char → Prop where
  | nil : Spelled ways [] []
  | cons {c : Char} {w s token : List Char} : w ∈ ways c → Spelled ways s token → Spelled ways (c :: s) (w ++ token)

theorem Spelled.mono {ways others : Char → List (List Char)} (spelled : Spelled ways s token)
    (le : ∀ c, ∀ w ∈ ways c, w ∈ others c) : Spelled others s token := by
  induction spelled with
  | nil => exact .nil
  | cons way _ ih => exact .cons (le _ _ way) ih

/-- The string with a backslash before every backslash and every quote. -/
def escaped (quote : Char) (s : List Char) : List Char :=
  s.flatMap fun c => if c = quote ∨ c = '\\' then ['\\', c] else [c]

theorem spelled_escaped (quote : Char) (s : List Char) : Spelled (spellings quote) s (escaped quote s) := by
  induction s with
  | nil => exact .nil
  | cons c s ih =>
    refine .cons ?_ ih
    simp only [spellings]
    split_ifs <;> simp

/-- A readable spelling is the character itself or a known escape for it. -/
theorem mem_readableSpellings (quotes : quote ∈ ['"', '\'']) :
    w ∈ readableSpellings quote c ↔ (w = [c] ∧ c ≠ quote ∧ c ≠ '\\') ∨ ∃ d, w = ['\\', d] ∧ (d, c) ∈ escapes := by
  simp only [List.mem_cons, List.not_mem_nil, or_false] at quotes
  by_cases special : c ∈ ['"', '\'', '\\', '\n', '\t']
  · simp only [List.mem_cons, List.not_mem_nil, or_false] at special
    rcases quotes with rfl | rfl <;> rcases special with rfl | rfl | rfl | rfl | rfl <;>
      simp [readableSpellings, spellings, escapes]
  · simp only [List.mem_cons, List.not_mem_nil, or_false, not_or] at special
    obtain ⟨double, single, backslash, newline, tab⟩ := special
    have other : c ≠ quote := by rcases quotes with rfl | rfl <;> assumption
    simp [readableSpellings, spellings, escapes, *]

/-- What the grammar writes is what is spelt with the readable spellings. -/
theorem written_iff_spelled (quotes : quote ∈ ['"', '\'']) :
    Written quote token s ↔ Spelled (readableSpellings quote) s token := by
  constructor
  · intro written
    induction written with
    | nil => exact .nil
    | @plain c _ _ other shown _ ih =>
      exact .cons (w := [c]) ((mem_readableSpellings quotes).mpr (.inl ⟨rfl, other, shown⟩)) ih
    | @escape d c _ _ known _ ih =>
      exact .cons (w := ['\\', d]) ((mem_readableSpellings quotes).mpr (.inr ⟨d, rfl, known⟩)) ih
  · intro spelled
    induction spelled with
    | nil => exact .nil
    | cons way _ ih =>
      rcases (mem_readableSpellings quotes).mp way with ⟨rfl, other, shown⟩ | ⟨d, rfl, known⟩
      · exact .plain other shown ih
      · exact .escape known ih

/-! ### Between the quotes -/

theorem readQuoted_plain (other : c ≠ quote) (shown : c ≠ '\\') (t : List Char) :
    readQuoted quote (c :: t) = (readQuoted quote t).map fun (body, rest) => (c :: body, rest) := by
  rw [readQuoted.eq_3 _ _ _ fun _ _ same _ => shown same, if_neg other, if_neg shown]
  cases readQuoted quote t <;> rfl

theorem readQuoted_escape {d : Char} (known : (d, c) ∈ escapes) (t : List Char) :
    readQuoted quote ('\\' :: d :: t) = (readQuoted quote t).map fun (body, rest) => (c :: body, rest) := by
  rw [readQuoted, unescape?_iff.mpr known]
  cases readQuoted quote t <;> rfl

/-- Whatever comes after a spelling, the string it spells is read first. -/
theorem readQuoted_append (quotes : quote ∈ ['"', '\'']) (spelled : Spelled (readableSpellings quote) s token)
    (t : List Char) :
    readQuoted quote (token ++ t) = (readQuoted quote t).map fun (body, rest) => (s ++ body, rest) := by
  induction spelled with
  | nil => simp
  | @cons c w s token way _ ih =>
    rcases (mem_readableSpellings quotes).mp way with ⟨rfl, other, shown⟩ | ⟨d, rfl, known⟩
    · rw [List.append_assoc, List.singleton_append, readQuoted_plain other shown, ih, Option.map_map]
      rfl
    · rw [List.append_assoc, List.cons_append, List.singleton_append, readQuoted_escape known, ih, Option.map_map]
      rfl

/-- What follows an opening quote and is not the rest of a literal: it ends within the string, or has an escape that
stands for nothing. -/
inductive Broken (quote : Char) : List Char → Prop where
  | unclosed {s token : List Char} : Spelled (readableSpellings quote) s token → Broken quote token
  | backslash {s token : List Char} : Spelled (readableSpellings quote) s token → Broken quote (token ++ ['\\'])
  | escape {s token rest : List Char} {c : Char} : Spelled (readableSpellings quote) s token →
      c ∉ escapes.map Prod.fst → Broken quote (token ++ '\\' :: c :: rest)

theorem Broken.cons (broken : Broken quote t) (way : w ∈ readableSpellings quote c) : Broken quote (w ++ t) := by
  cases broken with
  | unclosed spelled => exact .unclosed (.cons way spelled)
  | backslash spelled => exact List.append_assoc _ _ _ ▸ .backslash (.cons way spelled)
  | escape spelled unknown => exact List.append_assoc _ _ _ ▸ .escape (.cons way spelled) unknown

theorem unescape?_eq_none_iff : unescape? c = none ↔ c ∉ escapes.map Prod.fst := by
  rw [Option.eq_none_iff_forall_ne_some]
  simp only [ne_eq, unescape?_iff, List.mem_map, Prod.exists, exists_and_right, exists_eq_right, not_exists]

/-- Exactly what is broken is refused. -/
theorem readQuoted_eq_none_iff (quotes : quote ∈ ['"', '\'']) : readQuoted quote t = none ↔ Broken quote t := by
  constructor
  · intro refused
    induction t using readQuoted.induct quote with
    | case1 => exact .unclosed .nil
    | case2 c rest ih =>
      rcases known : unescape? c with _ | d
      · exact .escape .nil (unescape?_eq_none_iff.mp known)
      · have listed := unescape?_iff.mp known
        rw [readQuoted_escape listed, Option.map_eq_none_iff] at refused
        exact (ih refused).cons ((mem_readableSpellings quotes).mpr (.inr ⟨c, rfl, listed⟩))
    | case3 rest bare =>
      rw [readQuoted.eq_3 _ _ _ bare, if_pos rfl] at refused
      cases refused
    | case4 rest bare other =>
      cases rest with
      | nil => exact .backslash .nil
      | cons c rest => exact (bare c rest rfl rfl).elim
    | case5 c rest _ other shown ih =>
      rw [readQuoted_plain other shown, Option.map_eq_none_iff] at refused
      exact (ih refused).cons ((mem_readableSpellings quotes).mpr (.inl ⟨rfl, other, shown⟩))
  · have backslash : '\\' ≠ quote := by
      rintro rfl
      exact absurd quotes (by decide)
    rintro (spelled | spelled | ⟨spelled, unknown⟩)
    · have ended := readQuoted_append quotes spelled []
      rwa [List.append_nil] at ended
    · rw [readQuoted_append quotes spelled, readQuoted.eq_3 _ _ _ (by rintro _ _ - ⟨⟩), if_neg backslash, if_pos rfl]
      rfl
    · rw [readQuoted_append quotes spelled, readQuoted, unescape?_eq_none_iff.mpr unknown]
      rfl

/-! ### Literals -/

theorem readAtom_quote (quotes : quote ∈ ['"', '\'']) (t : List Char) :
    readAtom inner (quote :: t) =
      (readQuoted quote t).map fun (body, rest) => (literal (.text (String.ofList body)), rest) := by
  simp only [List.mem_cons, List.not_mem_nil, or_false] at quotes
  rcases quotes with rfl | rfl <;> rw [readAtom]

/-- A literal is taken off the front just when a readable spelling and the closing quote come next. -/
theorem readAtom_quote_iff (quotes : quote ∈ ['"', '\'']) :
    readAtom inner (quote :: t) = some (e, rest) ↔ ∃ s token, Spelled (readableSpellings quote) s token ∧
      t = token ++ quote :: rest ∧ e = .literal (.text (String.ofList s)) := by
  rw [readAtom_quote quotes]
  constructor
  · intro read
    obtain ⟨⟨s, after⟩, found, same⟩ := Option.map_eq_some_iff.mp read
    cases same
    obtain ⟨token, split, written⟩ := readQuoted_sound found
    exact ⟨s, token, (written_iff_spelled quotes).mp written, split, rfl⟩
  · rintro ⟨s, token, spelled, rfl, rfl⟩
    have backslash : quote ≠ '\\' := by
      rintro rfl
      exact absurd quotes (by decide)
    rw [readQuoted_complete ((written_iff_spelled quotes).mpr spelled) backslash]
    rfl

/-- The text is a quoting of the string with blanks around it, or such a text in parentheses. -/
inductive Enclosed (s : List Char) : List Char → Prop where
  | quoting {w token : List Char} {quote : Char} : quote ∈ ['"', '\''] → Spelled (readableSpellings quote) s token →
      Around (quote :: token ++ [quote]) w → Enclosed s w
  | parentheses {w o c : List Char} : Around ['('] o → Enclosed s w → Around [')'] c → Enclosed s (o ++ w ++ c)

namespace Grammar

/-- A primary is an expression. -/
theorem Derives.expression (derives : Derives .primary s e) : Derives .expression s e :=
  .test (.operand (.operand (.operand (.operand (.operand (.operand (.unsigned (.plain derives))))))))

theorem Derives.enclosed {category : Category} {text : String} (derives : Derives category w e)
    (same : e = .literal (.text text)) : Enclosed text.toList w := by
  induction derives with
  | test _ ih | operand _ ih | unsigned _ ih | plain _ ih => exact ih same
  | parentheses opening _ closing ih => exact .parentheses opening (ih same) closing
  | text quotes written spelled =>
    cases same
    rw [String.toList_ofList]
    exact .quoting quotes ((written_iff_spelled quotes).mp written) spelled
  | constant _ known _ =>
    cases same
    simp [constants] at known
  | _ => cases same

end Grammar

theorem Enclosed.derives (enclosed : Enclosed s w) : Derives .primary w (.literal (.text (String.ofList s))) := by
  induction enclosed with
  | quoting quotes spelled around => exact .text quotes ((written_iff_spelled quotes).mpr spelled) around
  | parentheses opening _ closing ih => exact .parentheses opening ih.expression closing

/-- A text is read as an expression just when nothing but blanks is left of it. -/
theorem read_eq_ok_iff {code : String} :
    read code = .ok e ↔ ∃ rest, expression code.toList = .done e rest ∧ skipBlanks rest = [] := by
  rw [read]
  rcases expression code.toList with ⟨e', rest⟩ | stop
  · rcases left : skipBlanks rest with _ | ⟨c, t⟩
    · simp [left]
    · simp only [left, reduceCtorEq, Reading.done.injEq, false_iff, not_exists]
      rintro _ ⟨⟨_, rfl⟩, ended⟩
      rw [left] at ended
      cases ended
  · simp

/-- A whole text is read as a string just when it is a quoting of it, with nothing but blanks and parentheses around. -/
theorem read_text_iff {code text : String} :
    read code = .ok (.literal (.text text)) ↔ Enclosed text.toList code.toList := by
  rw [read_eq_ok_iff]
  constructor
  · rintro ⟨rest, found, ended⟩
    obtain ⟨w, split, derives⟩ := expression_sound _ _ _ found
    obtain ⟨after, blanks, left⟩ := exists_blanks rest
    rw [ended, List.append_nil] at left
    rw [split, left]
    exact (derives.pad blanks_nil blanks).enclosed rfl
  · intro enclosed
    obtain ⟨rest, same, found⟩ := complete enclosed.derives.expression [] [] blanks_nil (ends_nil rfl)
    rw [List.nil_append, List.append_nil, String.ofList_toList] at found
    exact ⟨rest, found, same⟩

/-! ### Broken literals -/

/-- Where no atom is read the reader is stuck. -/
theorem primary_refused (next : skipBlanks s = c :: t) (other : c ≠ '(') (refused : readAtom inner (c :: t) = none) :
    primary inner s = .stuck (c :: t) := by
  rw [primary.eq_def]
  simp only [next]
  split
  · rename_i same
    exact absurd (List.cons.inj same).1 other
  · simp only [refused]

theorem binaryLevel_stuck {stop : List Char} (stuck : unaryLevel inner s = .stuck stop)
    (rows : List (List (List Char × BinaryOp))) : binaryLevel inner rows s = .stuck stop := by
  induction rows with
  | nil => exact stuck
  | cons row rows ih => rw [binaryLevel, ih]

/-- Reading stops at a broken literal. -/
theorem expression_broken {before : List Char} (quotes : quote ∈ ['"', '\'']) (blanks : Blanks before)
    (broken : Broken quote t) : expression (before ++ quote :: t) = .stuck (quote :: t) := by
  have opens : Opens quote := .inr (.inr (List.mem_append_left ['(', '['] quotes))
  have refused {inner : Reader} : readAtom inner (quote :: t) = none := by
    rw [readAtom_quote quotes, (readQuoted_eq_none_iff quotes).mpr broken]
    rfl
  have shown : ¬ Blank quote ∧ quote ≠ '(' := by
    simp only [List.mem_cons, List.not_mem_nil, or_false] at quotes
    rcases quotes with rfl | rfl <;> simp [Blank]
  have stuck {inner : Reader} : unaryLevel inner (before ++ quote :: t) = .stuck (quote :: t) := by
    rw [unaryLevel_append blanks, unaryLevel_opens opens, postfixed,
      primary_refused (skipBlanks_cons shown.1 t) shown.2 refused]
  rw [expression_eq, ternary, binaryLevel_stuck stuck]

theorem read_broken {before : List Char} (quotes : quote ∈ ['"', '\'']) (blanks : Blanks before)
    (broken : Broken quote t) : read (String.ofList (before ++ quote :: t)) =
      .error (.malformed (String.ofList (before ++ quote :: t)) (String.ofList before).utf8ByteSize) := by
  rw [read, String.toList_ofList, expression_broken quotes blanks broken]
  simp only [String.ofList_append, String.utf8ByteSize_append, Nat.add_sub_cancel]

/-- Every quoting of a string, in quotes of either kind, is read as that string. What is read as a literal is a
quoting of it in which, at most, the other quote has a backslash too, and a whole text is read as a string just
when it is such a literal, perhaps with blanks and parentheses around. A literal without its closing quote or with
any other escape is refused, and the error is where the literal begins. -/
theorem quotings_read_back (quotes : quote ∈ ['"', '\'']) :
    (∀ s, Spelled (spellings quote) s (escaped quote s)) ∧
      (∀ s token, Spelled (spellings quote) s token →
        read (String.ofList (quote :: token ++ [quote])) = .ok (.literal (.text (String.ofList s)))) ∧
      (∀ inner t e rest, readAtom inner (quote :: t) = some (e, rest) ↔
        ∃ s token, Spelled (readableSpellings quote) s token ∧ t = token ++ quote :: rest ∧
          e = .literal (.text (String.ofList s))) ∧
      (∀ code text, read code = .ok (.literal (.text text)) ↔ Enclosed text.toList code.toList) ∧
      (∀ inner t, readAtom inner (quote :: t) = none ↔ Broken quote t) ∧
      ∀ before t, Blanks before → Broken quote t → read (String.ofList (before ++ quote :: t)) =
        .error (.malformed (String.ofList (before ++ quote :: t)) (String.ofList before).utf8ByteSize) := by
  refine ⟨spelled_escaped quote, fun s token spelled => ?_, fun _ _ _ _ => readAtom_quote_iff quotes,
    fun _ _ => read_text_iff, fun inner t => ?_, fun _ _ blanks broken => read_broken quotes blanks broken⟩
  · have readable : Spelled (readableSpellings quote) s token :=
      spelled.mono fun c w way => List.mem_append_left _ way
    rw [read_text_iff, String.toList_ofList, String.toList_ofList]
    exact .quoting quotes readable ⟨[], [], blanks_nil, blanks_nil, by simp⟩
  · rw [readAtom_quote quotes, Option.map_eq_none_iff, readQuoted_eq_none_iff quotes]

/-- A quote, a line break and a backslash are read back; a letter that is no escape is refused. -/
theorem quotings_read_back_letters :
    '"' ∈ ['"', '\''] ∧ Spelled (spellings '"') ['"', '\n', 'é', '\\'] ['\\', '"', '\\', 'n', 'é', '\\', '\\'] ∧
      read "\"\\\"\\né\\\\\"" = .ok (.literal (.text "\"\né\\")) ∧
      Broken '"' ['é', '\\', 'x', '"'] ∧ read " \"é\\x\"" = .error (.malformed " \"é\\x\"" 1) := by
  have quotes : '"' ∈ ['"', '\''] := by decide
  have spelled : Spelled (spellings '"') ['"', '\n', 'é', '\\'] ['\\', '"', '\\', 'n', 'é', '\\', '\\'] :=
    .cons (w := ['\\', '"']) (by decide) <| .cons (w := ['\\', 'n']) (by decide) <|
      .cons (w := ['é']) (by decide) <| .cons (w := ['\\', '\\']) (by decide) .nil
  have broken : Broken '"' ['é', '\\', 'x', '"'] :=
    .escape (s := ['é']) (.cons (w := ['é']) (by decide) .nil) (by decide)
  have blanks : Blanks [' '] := fun c member => List.mem_singleton.mp member ▸ by simp [Blank]
  obtain ⟨-, reads, -, -, -, refuses⟩ := quotings_read_back quotes
  exact ⟨quotes, spelled, reads _ _ spelled, broken, refuses [' '] _ blanks broken⟩

end BehaviorTree.Expr
