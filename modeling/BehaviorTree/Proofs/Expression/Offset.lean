import BehaviorTree.Proofs.Expression.Quoting
import BehaviorTree.Proofs.Expression.Rules

/-!
The readers scan by the rules of the grammar. Where a reader says what it leaves of a text, the scan by its rule leaves
the same, but for the blanks after an array; where it says from where it cannot go on, the scan is stuck there; and
where it only says that nothing can be read, the scan is stuck somewhere. As every scan ends in its text, so does every
reading, and the offset of an error lies on a boundary between characters.
-/

namespace BehaviorTree.Expr

open Grammar Pattern

/-- How a scan by a pattern goes under the rules of the grammar. -/
abbrev Reads (p : Pattern Rule) (s : List Char) (o : Reading Unit) : Prop := Scans Rule.pattern p s o

/-- What the pattern leaves of the text if it is there; nothing if it is not. -/
def Finds (p : Pattern Rule) (s : List Char) : Option (List Char) → Prop
  | some t => Reads p s (.done () t)
  | none => ∃ stop, Reads p s (.stuck stop)

variable {p q : Pattern Rule} {inner : Reader} {n : Nat} {s t : List Char} {o : Reading Unit} {a b : Option (List Char)}

/-! ### Parts of patterns -/

/-- A pattern is found as another one is if a scan by it ends wherever one by the other does. -/
theorem Finds.imp (finds : Finds p s a) (same : ∀ o, Reads p s o → Reads q t o) : Finds q t a := by
  cases a with
  | none =>
    obtain ⟨stop, stuck⟩ := finds
    exact ⟨stop, same _ stuck⟩
  | some u => exact same _ finds

theorem finds_after (first : Reads p s (.done () t)) (second : Finds q t a) : Finds (.pair p q) s a :=
  second.imp fun _ => .pair first

theorem finds_pair {next : List Char → Option (List Char)} (first : Finds p s a)
    (second : ∀ t, a = some t → Finds q t (next t)) : Finds (.pair p q) s (a.bind next) := by
  cases a with
  | none =>
    obtain ⟨stop, stuck⟩ := first
    exact ⟨stop, .pair_stuck stuck⟩
  | some t => exact finds_after first (second t rfl)

/-- The second alternative is tried where the first one fails. -/
theorem finds_either (first : Finds p s a) (second : a = none → Finds q s b) : Finds (.either p q) s (a.or b) := by
  cases a with
  | none =>
    obtain ⟨stop, stuck⟩ := first
    have other := second rfl
    cases b with
    | none =>
      obtain ⟨stop', stuck'⟩ := other
      exact ⟨stop', .right stuck stuck'⟩
    | some t => exact .right stuck other
  | some t => exact .left first

theorem reads_optional (finds : Finds p s a) : Reads (.optional p) s (.done () (a.getD s)) := by
  cases a with
  | none =>
    obtain ⟨stop, stuck⟩ := finds
    exact .absent stuck
  | some t => exact .present finds

theorem finds_rule {r : Rule} (finds : Finds r.pattern s a) : Finds (.rule r) s a :=
  finds.imp fun _ => .rule

theorem finds_run (p : Char → Bool) (s : List Char) :
    Finds (.run p) s (if s.takeWhile p = [] then none else some (s.dropWhile p)) := by
  split
  · rename_i none
    exact ⟨s, .run_stuck none⟩
  · rename_i some
    exact .run some

/-- A word is found where the text begins with it. -/
theorem finds_word (w s : List Char) :
    Finds (.word w) s (if w.isPrefixOf s then some (s.drop w.length) else none) := by
  split
  · rename_i starts
    obtain ⟨t, rfl⟩ := List.isPrefixOf_iff_prefix.mp starts
    rw [List.drop_left]
    exact .word rfl
  · rename_i apart
    exact ⟨s, .word_stuck fun starts => apart (List.isPrefixOf_iff_prefix.mpr starts)⟩

theorem reads_among {c first : Char} {others : List Char} (member : c ∈ first :: others) (t : List Char) :
    Reads (among first others) (c :: t) (.done () t) := by
  induction others generalizing first with
  | nil =>
    obtain rfl := List.mem_singleton.mp member
    exact .word rfl
  | cons d others ih =>
    by_cases here : c = first
    · subst here
      exact .left (.word rfl)
    · have later : c ∈ d :: others := (List.mem_cons.mp member).resolve_left here
      refine .right (.word_stuck ?_) (ih later)
      rintro ⟨u, same⟩
      exact here (List.cons.inj same).1.symm

theorem among_stuck {first : Char} {others : List Char} (other : ∀ c t, s = c :: t → c ∉ first :: others) :
    Reads (among first others) s (.stuck s) := by
  have apart {d : Char} (member : d ∈ first :: others) : Reads (.word [d]) s (.stuck s) := by
    refine .word_stuck ?_
    rintro ⟨t, same⟩
    exact other d t same.symm member
  clear other
  induction others generalizing first with
  | nil => exact apart List.mem_cons_self
  | cons d others ih =>
    exact .right (apart List.mem_cons_self) (ih fun member => apart (List.mem_cons_of_mem _ member))

/-! ### Blanks -/

/-- Reading blanks is skipping them. -/
theorem reads_blanks (s : List Char) : Reads blanks s (.done () (skipBlanks s)) := by
  have optional := reads_optional (finds_run isBlank s)
  rw [skipBlanks]
  split at optional
  · rename_i none
    have all := List.takeWhile_append_dropWhile (p := isBlank) (l := s)
    rw [none, List.nil_append] at all
    rw [all]
    exact optional
  · exact optional

theorem finds_spaced (finds : Finds p (skipBlanks s) a) : Finds (spaced p) s (a.map skipBlanks) := by
  have after (t : List Char) : Finds Pattern.blanks t (some (skipBlanks t)) := reads_blanks t
  rw [Option.map_eq_bind]
  exact finds_after (reads_blanks s) (finds_pair finds fun t _ => after t)

/-- A character that comes next, behind any blanks. -/
theorem reads_symbol {c : Char} (next : skipBlanks s = c :: t) :
    Reads (spaced (.word [c])) s (.done () (skipBlanks t)) :=
  .pair (reads_blanks s) (.pair (.word next) (reads_blanks t))

theorem symbol_stuck {c : Char} (other : ∀ t, skipBlanks s = c :: t → False) :
    Reads (spaced (.word [c])) s (.stuck (skipBlanks s)) := by
  refine .pair (reads_blanks s) (.pair_stuck (.word_stuck ?_))
  rintro ⟨t, same⟩
  exact other t same.symm

/-- Blanks before the text make no difference to the pattern. -/
def Lax (p : Pattern Rule) : Prop := ∀ s o, Reads p (skipBlanks s) o → Reads p s o

theorem lax_spaced (p : Pattern Rule) : Lax (spaced p) := by
  intro s o scans
  have skipped := reads_blanks (skipBlanks s)
  rw [skipBlanks_skipBlanks] at skipped
  cases scans with
  | pair first second =>
    cases skipped.deterministic first
    exact .pair (reads_blanks s) second
  | pair_stuck stuck => cases skipped.deterministic stuck

theorem Lax.pair (lax : Lax p) : Lax (.pair p q) := by
  intro s o scans
  cases scans with
  | pair first second => exact .pair (lax s _ first) second
  | pair_stuck stuck => exact .pair_stuck (lax s _ stuck)

theorem Lax.either (one : Lax p) (two : Lax q) : Lax (.either p q) := by
  intro s o scans
  cases scans with
  | left first => exact .left (one s _ first)
  | right stuck second => exact .right (one s _ stuck) (two s _ second)

theorem Lax.rule {r : Rule} (lax : Lax r.pattern) : Lax (.rule r) := by
  intro s o scans
  cases scans with
  | rule inner => exact .rule (lax s o inner)

theorem lax_selection : Lax (.rule .selection) := (lax_spaced _).rule (r := .primary) |>.pair.rule (r := .selection)

theorem lax_unary : Lax (.rule .unary) :=
  ((lax_spaced _).pair.either ((lax_spaced _).pair.either lax_selection)).rule (r := .unary)

theorem lax_level {l : OperatorLevel} (lax : Lax (.rule (Rule.operands l))) : Lax (.rule (.level l)) :=
  lax.pair.rule (r := .level l)

theorem lax_operands (l : OperatorLevel) : Lax (.rule (Rule.operands l)) := by
  have term : Lax (.rule (Rule.operands .term)) := lax_unary
  have additive : Lax (.rule (Rule.operands .additive)) := lax_level term
  have comparison : Lax (.rule (Rule.operands .comparison)) := lax_level additive
  have equality : Lax (.rule (Rule.operands .equality)) := lax_level comparison
  have and : Lax (.rule (Rule.operands .and)) := lax_level equality
  have or : Lax (.rule (Rule.operands .or)) := lax_level and
  cases l <;> assumption

theorem lax_expression : Lax (.rule .expression) := (lax_level (lax_operands .or)).pair.rule (r := .expression)

theorem reads_skip {r : Rule} (lax : Lax (.rule r)) : Reads (.rule r) (skipBlanks s) o ↔ Reads (.rule r) s o := by
  refine ⟨lax s o, fun scans => ?_⟩
  obtain ⟨o', other⟩ := Scans.ends_rule Rule.grounded r (skipBlanks s)
  rwa [(lax s o' other).deterministic scans]

theorem shorter_of_rule {r : Rule} (scans : Reads (.rule r) s (.done () t)) : t.length < s.length :=
  scans.shorter Rule.grounded.takes rfl rfl

/-! ### Tokens -/

theorem dropWhile_dropWhile {p q : Char → Bool} (le : ∀ c, p c → q c) (s : List Char) :
    (s.dropWhile p).dropWhile q = s.dropWhile q := by
  induction s with
  | nil => rfl
  | cons c s ih =>
    by_cases here : p c
    · rw [List.dropWhile_cons_of_pos here, List.dropWhile_cons_of_pos (le c here), ih]
    · rw [List.dropWhile_cons_of_neg here]

/-- The rule of a fraction ends where its reader does. -/
theorem reads_fraction (s : List Char) :
    Reads (.optional (.pair (.word ['.']) (.run Char.isDigit))) s (.done () (readFraction s).2) := by
  rw [readFraction.eq_def]
  split
  · rename_i t
    by_cases none : t.takeWhile Char.isDigit = []
    · rw [if_pos none]
      exact .absent (.pair (.word rfl) (.run_stuck none))
    · rw [if_neg none, List.span_eq_takeWhile_dropWhile]
      exact .present (.pair (.word rfl) (.run none))
  · rename_i other
    refine .absent (.pair_stuck (.word_stuck ?_))
    rintro ⟨t, same⟩
    exact other t same.symm

/-- The rule of an exponent ends where its reader does. -/
theorem reads_exponent (s : List Char) :
    Reads (.optional (.pair (among 'e' ['E']) (.pair (.optional (among '+' ['-'])) (.run Char.isDigit)))) s
      (.done () (readExponent s).2) := by
  rcases s with _ | ⟨c, t⟩
  · exact .absent (.pair_stuck (among_stuck (by simp)))
  by_cases mark : c = 'e' ∨ c = 'E'
  · have marked : Reads (among 'e' ['E']) (c :: t) (.done () t) := reads_among (by simpa using mark) t
    -- Whatever the sign, it is the digits after it that count.
    have digits {u : List Char} (negative : Bool) (signed : Reads (.optional (among '+' ['-'])) t (.done () u)) :
        Reads (.optional (.pair (among 'e' ['E']) (.pair (.optional (among '+' ['-'])) (.run Char.isDigit)))) (c :: t)
          (.done () (if u.takeWhile Char.isDigit = [] then ((false, []), c :: t)
            else ((negative, u.takeWhile Char.isDigit), u.dropWhile Char.isDigit)).2) := by
      split
      · rename_i none
        exact .absent (.pair marked (.pair signed (.run_stuck none)))
      · rename_i some
        exact .present (.pair marked (.pair signed (.run some)))
    simp only [readExponent, if_pos mark]
    split
    · exact digits false (.present (reads_among (by simp) _))
    · exact digits true (.present (reads_among (by simp) _))
    · rename_i plus minus
      refine digits false (.absent (among_stuck ?_))
      rintro d u rfl sign
      simp only [List.mem_cons, List.not_mem_nil, or_false] at sign
      rcases sign with rfl | rfl
      · exact plus u rfl
      · exact minus u rfl
  · simp only [readExponent, if_neg mark]
    refine .absent (.pair_stuck (among_stuck ?_))
    rintro d u same sign
    exact mark (by simpa [(List.cons.inj same).1] using sign)

theorem finds_number (s : List Char) : Finds (.rule .number) s ((readNumeral s).map Prod.snd) := by
  rw [readNumeral]
  by_cases none : s.takeWhile Char.isDigit = []
  · rw [if_pos none]
    exact ⟨s, .rule (.pair_stuck (.run_stuck none))⟩
  · rw [if_neg none]
    exact .rule (.pair (.run none) (.pair (reads_fraction _) (reads_exponent _)))

/-- Letters and digits are taken in runs, the other parts of a name one by one. -/
theorem reads_parts (s : List Char) :
    Reads (.many (.either (.run Char.isAlphanum) (among '_' ['$']))) s (.done () (s.dropWhile isNamePart)) := by
  induction size : s.length using Nat.strong_induction_on generalizing s with
  | _ n ih =>
    rcases s with _ | ⟨c, t⟩
    · exact .many_end (.right (.run_stuck rfl) (among_stuck (by simp)))
    have next {u : List Char} (item : Reads (.either (.run Char.isAlphanum) (among '_' ['$'])) (c :: t) (.done () u))
        (less : u.length < (c :: t).length) (same : u.dropWhile isNamePart = (c :: t).dropWhile isNamePart) :
        Reads (.many (.either (.run Char.isAlphanum) (among '_' ['$']))) (c :: t)
          (.done () ((c :: t).dropWhile isNamePart)) :=
      same ▸ .many_next item (by omega) (ih u.length (by omega) u rfl)
    by_cases plain : c.isAlphanum
    · refine next (.left (.run (by simp [plain]))) ?_ (dropWhile_dropWhile (fun d part => ?_) _)
      · rw [List.dropWhile_cons_of_pos plain]
        exact Nat.lt_succ_of_le (List.length_dropWhile_le _ t)
      · simp [isNamePart, part]
    · have none : (c :: t).takeWhile Char.isAlphanum = [] := List.takeWhile_cons_of_neg plain
      by_cases mark : c ∈ ['_', '$']
      · have part : isNamePart c := by
          simp only [List.mem_cons, List.not_mem_nil, or_false] at mark
          rcases mark with rfl | rfl <;> decide
        exact next (.right (.run_stuck none) (reads_among mark t)) (Nat.lt_succ_self _)
          (List.dropWhile_cons_of_pos part).symm
      · have other : ¬ isNamePart c := by simpa [isNamePart, plain] using mark
        rw [List.dropWhile_cons_of_neg other]
        refine .many_end (.right (.run_stuck none) (among_stuck ?_))
        rintro d u same
        exact (List.cons.inj same).1 ▸ mark

/-- The rule of a name ends where its reader does. -/
theorem finds_identifier (s : List Char) : Finds (.rule .identifier) s ((readName s).map Prod.snd) := by
  rcases s with _ | ⟨c, t⟩
  · exact ⟨[], .rule (.pair_stuck (.right (.run_stuck rfl) (among_stuck (by simp))))⟩
  rw [readName]
  by_cases start : isNameStart c
  · rw [if_pos start]
    have part : isNamePart c := isNamePart_iff.mpr ((isNameStart_iff.mp start).imp_right .inr)
    have rest : (c :: t).dropWhile isNamePart = t.dropWhile isNamePart := List.dropWhile_cons_of_pos part
    by_cases letter : c.isAlpha
    · have all : ((c :: t).dropWhile Char.isAlpha).dropWhile isNamePart = t.dropWhile isNamePart := by
        rw [dropWhile_dropWhile (fun d letter => ?_), rest]
        exact isNamePart_iff.mpr (.inl letter)
      exact .rule (.pair (.left (.run (by simp [letter]))) (all ▸ reads_parts _))
    · have none : (c :: t).takeWhile Char.isAlpha = [] := List.takeWhile_cons_of_neg letter
      have mark : c ∈ ['_', '$'] := by simpa [isNameStart, letter] using start
      exact .rule (.pair (.right (.run_stuck none) (reads_among mark t)) (reads_parts t))
  · rw [if_neg start]
    have other : ¬ c.isAlpha ∧ c ∉ ['_', '$'] := by simpa [isNameStart, and_assoc] using start
    refine ⟨c :: t, .rule (.pair_stuck (.right (.run_stuck (List.takeWhile_cons_of_neg other.1)) (among_stuck ?_)))⟩
    rintro d u same
    exact (List.cons.inj same).1 ▸ other.2

/-! ### Quoted texts -/

/-- A character of a string, or a run of those that stand for themselves. -/
def piece (quote : Char) : Pattern Rule :=
  .either (.run fun c => c != quote && c != '\\') (.pair (.word ['\\']) (among 'n' ['t', '\\', '"', '\'']))

/-- A piece more at the front. -/
theorem finds_quoted_cons {quote : Char} (first : Reads (piece quote) s (.done () t)) (less : t.length < s.length)
    (finds : Finds (Rule.quoted quote) t a) : Finds (Rule.quoted quote) s a := by
  refine finds.imp fun o scans => ?_
  cases scans with
  | pair pieces closing => exact .pair (.many_next first (by omega) pieces) closing
  | pair_stuck pieces => exact .pair_stuck (.many_next first (by omega) pieces)

/-- Characters that stand for themselves may be read one by one. -/
theorem readQuoted_dropWhile {quote : Char} (s : List Char) :
    (readQuoted quote (s.dropWhile fun c => c != quote && c != '\\')).map Prod.snd =
      (readQuoted quote s).map Prod.snd := by
  induction s with
  | nil => rfl
  | cons c s ih =>
    by_cases plain : c ≠ quote ∧ c ≠ '\\'
    · rw [List.dropWhile_cons_of_pos (by simpa using plain), ih, readQuoted_plain plain.1 plain.2, Option.map_map]
      rfl
    · rw [List.dropWhile_cons_of_neg (by simpa using plain)]

/-- Where no piece comes next, the closing quote is looked for. -/
theorem finds_closing {quote : Char} {stop : List Char} (stuck : Reads (piece quote) s (.stuck stop)) :
    Finds (Rule.quoted quote) s (if [quote].isPrefixOf s then some (s.drop 1) else none) :=
  finds_after (.many_end stuck) (finds_word [quote] s)

/-- The rule of a quoted text ends where its reader does. -/
theorem finds_quoted {quote : Char} (quotes : quote ≠ '\\') (s : List Char) :
    Finds (Rule.quoted quote) s ((readQuoted quote s).map Prod.snd) := by
  induction size : s.length using Nat.strong_induction_on generalizing s with
  | _ n ih =>
    rcases s with _ | ⟨c, t⟩
    · exact finds_closing (.right (.run_stuck rfl) (.pair_stuck (.word_stuck (by simp))))
    by_cases plain : c ≠ quote ∧ c ≠ '\\'
    · have taken : (c :: t).takeWhile (fun c => c != quote && c != '\\') ≠ [] := by simp [plain]
      have less : ((c :: t).dropWhile fun c => c != quote && c != '\\').length < (c :: t).length := by
        rw [List.dropWhile_cons_of_pos (by simpa using plain)]
        exact Nat.lt_succ_of_le (List.length_dropWhile_le _ t)
      rw [← readQuoted_dropWhile]
      exact finds_quoted_cons (.left (.run taken)) less (ih _ (size ▸ less) _ rfl)
    have none : (c :: t).takeWhile (fun c => c != quote && c != '\\') = [] :=
      List.takeWhile_cons_of_neg (by simpa using plain)
    -- What is left begins with a backslash or is the closing quote.
    by_cases escapes : c = '\\'
    · subst escapes
      have closing {stop : List Char} (stuck : Reads (piece quote) ('\\' :: t) (.stuck stop)) :
          Finds (Rule.quoted quote) ('\\' :: t) Option.none := by
        simpa [List.isPrefixOf, quotes] using finds_closing stuck
      rcases t with _ | ⟨d, u⟩
      · rw [readQuoted.eq_3 _ _ _ (by rintro _ _ - ⟨⟩), if_neg (Ne.symm quotes), if_pos rfl]
        exact closing (.right (.run_stuck none) (.pair (.word rfl) (among_stuck (by simp))))
      · rcases known : unescape? d with _ | x
        · rw [readQuoted, known]
          refine closing (.right (.run_stuck none) (.pair (.word rfl) (among_stuck ?_)))
          rintro _ _ same
          exact (List.cons.inj same).1 ▸ unescape?_eq_none_iff.mp known
        · have listed := unescape?_iff.mp known
          have letter : d ∈ Grammar.escapes.map Prod.fst := List.mem_map_of_mem listed
          have item : Reads (piece quote) ('\\' :: d :: u) (.done () u) :=
            .right (.run_stuck none) (.pair (.word rfl) (reads_among letter u))
          have less : u.length < ('\\' :: d :: u).length := by simp only [List.length_cons]; omega
          rw [readQuoted_escape listed, Option.map_map]
          exact finds_quoted_cons item less (ih _ (size ▸ less) u rfl)
    · have same : c = quote := by
        by_contra other
        exact plain ⟨other, escapes⟩
      subst same
      rw [readQuoted.eq_3 _ _ _ fun _ _ same _ => quotes same, if_pos rfl]
      have stuck : Reads (piece c) (c :: t) (.stuck (c :: t)) := by
        refine .right (.run_stuck none) (.pair_stuck (.word_stuck ?_))
        rintro ⟨u, same⟩
        exact quotes (List.cons.inj same).1.symm
      simpa [List.isPrefixOf] using finds_closing stuck

theorem string_stuck {quote : Char} (other : ∀ t, s = quote :: t → False) :
    Finds (.pair (.word [quote]) (Rule.quoted quote)) s none := by
  refine ⟨s, .pair_stuck (.word_stuck ?_)⟩
  rintro ⟨t, same⟩
  exact other t same.symm

theorem text_stuck (double : ∀ t, s = '"' :: t → False) (single : ∀ t, s = '\'' :: t → False) :
    Finds (.rule .text) s none :=
  finds_rule (r := .text) (finds_either (string_stuck double) fun _ => string_stuck single)

theorem finds_text {quote : Char} (quotes : quote ∈ ['"', '\'']) (t : List Char) :
    Finds (.rule .text) (quote :: t) ((readQuoted quote t).map Prod.snd) := by
  refine finds_rule (r := .text) ?_
  simp only [List.mem_cons, List.not_mem_nil, or_false] at quotes
  rcases quotes with rfl | rfl
  · rw [← Option.or_none (o := Option.map _ _)]
    exact finds_either (finds_after (.word rfl) (finds_quoted (by decide) t)) fun _ => string_stuck (by simp)
  · exact finds_either (string_stuck (by simp)) fun _ => finds_after (.word rfl) (finds_quoted (by decide) t)

/-! ### Primaries -/

theorem array_stuck (other : ∀ t, skipBlanks s = '[' :: t → False) : Finds (.rule .array) s none :=
  ⟨_, .rule (.pair_stuck (symbol_stuck other))⟩

/-- What no number and no name begins with. -/
theorem no_word {c : Char} (mark : c ∈ ['"', '\'', '[', '(', '!', '-']) (t : List Char) :
    readNumeral (c :: t) = none ∧ readName (c :: t) = none := by
  have other : ¬ c.isDigit ∧ ¬ isNameStart c := by
    simp only [List.mem_cons, List.not_mem_nil, or_false] at mark
    rcases mark with rfl | rfl | rfl | rfl | rfl | rfl <;> decide
  refine ⟨readNumeral_eq_none fun d u same => (List.cons.inj same).1 ▸ other.1, ?_⟩
  rw [readName, if_neg other.2]

/-- The reader scans by the rule on texts shorter than a bound. -/
def Follows (r : Rule) (reader : Reader) (n : Nat) : Prop := ∀ s, s.length < n → Reads (.rule r) s (reader s).place

section

variable (inside : Follows .expression inner n)

include inside

/-- The expression after some blanks. -/
theorem reads_inside (less : t.length < n) : Reads (.rule .expression) (skipBlanks t) (inner t).place :=
  (reads_skip lax_expression).mpr (inside t less)

/-- An expression between two marks. -/
theorem reads_enclosed {first last : Char} {e : Expr} {rest u : List Char} (opens : skipBlanks s = first :: t)
    (less : t.length < n) (found : inner t = .done e rest) (closes : skipBlanks rest = last :: u) :
    Reads (.pair (spaced (.word [first])) (.pair (.rule .expression) (spaced (.word [last])))) s
      (.done () (skipBlanks u)) := by
  have item := reads_inside inside less
  rw [found] at item
  exact .pair (reads_symbol opens) (.pair item (reads_symbol closes))

theorem enclosed_open {first last : Char} {e : Expr} {rest : List Char} (opens : skipBlanks s = first :: t)
    (less : t.length < n) (found : inner t = .done e rest) (other : ∀ u, skipBlanks rest = last :: u → False) :
    Reads (.pair (spaced (.word [first])) (.pair (.rule .expression) (spaced (.word [last])))) s
      (.stuck (skipBlanks rest)) := by
  have item := reads_inside inside less
  rw [found] at item
  exact .pair (reads_symbol opens) (.pair item (symbol_stuck other))

theorem enclosed_stuck {first last : Char} {stop : List Char} (opens : skipBlanks s = first :: t)
    (less : t.length < n) (found : inner t = .stuck stop) :
    Reads (.pair (spaced (.word [first])) (.pair (.rule .expression) (spaced (.word [last])))) s (.stuck stop) := by
  have item := reads_inside inside less
  rw [found] at item
  exact .pair (reads_symbol opens) (.pair_stuck item)

/-- The rule of further items ends where their reader does. -/
theorem reads_further (short : s.length ≤ n) :
    Reads (.further (spaced (.word [','])) (.rule .expression)) s (.done () (readItems inner s).2) := by
  induction size : s.length using Nat.strong_induction_on generalizing s with
  | _ m ih =>
    rw [readItems.eq_def]
    split
    · rename_i t next
      have comma := reads_symbol next
      have bound := length_skipBlanks s
      have bound' := length_skipBlanks t
      rw [next, List.length_cons] at bound
      have item := reads_inside inside (by omega : t.length < n)
      rcases found : inner t with ⟨e, rest⟩ | stop
      · rw [found] at item
        have shrinks := shorter_of_rule item
        simp only [if_pos (by omega : rest.length < s.length)]
        exact .further_next comma (by omega) item (ih rest.length (by omega) (by omega) rfl)
      · rw [found] at item
        exact .further_last comma (by omega) item
    · rename_i other
      exact .further_end (symbol_stuck fun t => other t)

/-- The rule of an array ends where its reader does. -/
theorem finds_array (next : skipBlanks s = '[' :: t) (less : t.length < n) :
    Finds (.rule .array) s ((readArray inner t).map (skipBlanks ·.2)) := by
  have opening := reads_symbol next
  have bound := length_skipBlanks t
  have item := reads_inside inside less
  have closed {u v : List Char} (closes : skipBlanks u = ']' :: v)
      (list : Reads (.list (spaced (.word [','])) (.rule .expression)) (skipBlanks t) (.done () u)) :
      Finds (.rule .array) s (some (skipBlanks v)) :=
    .rule (.pair opening (.pair list (reads_symbol closes)))
  have unclosed {u : List Char} (other : ∀ v, skipBlanks u = ']' :: v → False)
      (list : Reads (.list (spaced (.word [','])) (.rule .expression)) (skipBlanks t) (.done () u)) :
      Finds (.rule .array) s none :=
    ⟨_, .rule (.pair opening (.pair list (symbol_stuck other)))⟩
  rw [readArray]
  rcases found : inner t with ⟨e, rest⟩ | stop
  · rw [found] at item
    have shrinks := shorter_of_rule item
    have list := reads_further inside (by omega : rest.length ≤ n)
    simp only
    split
    · rename_i v closes
      exact closed closes (.list_some item list)
    · rename_i other
      exact unclosed (fun v => other v) (.list_some item list)
  · rw [found] at item
    have again := skipBlanks_skipBlanks t
    simp only
    split
    · rename_i v closes
      exact closed (again.trans closes) (.list_none item)
    · rename_i other
      exact unclosed (fun v same => other v (again.symm.trans same)) (.list_none item)

/-- An atom is found just when it is read, and the text after it is the same up to blanks. -/
theorem finds_atom (shown : skipBlanks s = s) (short : s.length ≤ n) :
    ∃ a, Finds Rule.atom s a ∧ a.map skipBlanks = (readAtom inner s).map (skipBlanks ·.2) := by
  have number := finds_number s
  have name := finds_rule (r := .name) (finds_identifier s)
  have alternatives {x y : Option (List Char)} (text : Finds (.rule .text) s x) (array : Finds (.rule .array) s y) :
      Finds Rule.atom s _ := finds_either number fun _ => finds_either text fun _ => finds_either name fun _ => array
  rw [readAtom.eq_def]
  split
  · rename_i t
    obtain ⟨noNumber, noName⟩ := no_word (c := '"') (by simp) t
    rw [noNumber, noName] at alternatives
    refine ⟨_, alternatives (finds_text (by simp) t) (array_stuck (by simp [shown])), ?_⟩
    cases readQuoted '"' t <;> rfl
  · rename_i t
    obtain ⟨noNumber, noName⟩ := no_word (c := '\'') (by simp) t
    rw [noNumber, noName] at alternatives
    refine ⟨_, alternatives (finds_text (by simp) t) (array_stuck (by simp [shown])), ?_⟩
    cases readQuoted '\'' t <;> rfl
  · rename_i t
    obtain ⟨noNumber, noName⟩ := no_word (c := '[') (by simp) t
    rw [noNumber, noName] at alternatives
    refine ⟨_, alternatives (text_stuck (by simp) (by simp)) (finds_array inside shown short), ?_⟩
    cases readArray inner t
    · rfl
    · simp [skipBlanks_skipBlanks]
  · rename_i double single bracket
    refine ⟨_, alternatives (text_stuck double single) (array_stuck (by rwa [shown])), ?_⟩
    rcases readNumeral s with _ | ⟨x, rest⟩
    · cases readName s <;> rfl
    · rfl

/-- The rule of a primary ends where its reader does, or is stuck where that one is. -/
theorem follows_primary : Follows .primary (primary inner) (n + 1) := by
  intro s short
  have bound := length_skipBlanks s
  have again := skipBlanks_skipBlanks s
  have done {t : List Char} (body : Reads (.either Rule.atom _) (skipBlanks s) (.done () t)) :
      Reads (.rule .primary) s (.done () (skipBlanks t)) :=
    .rule (.pair (reads_blanks s) (.pair body (reads_blanks t)))
  have stuck {stop : List Char} (body : Reads (.either Rule.atom _) (skipBlanks s) (.stuck stop)) :
      Reads (.rule .primary) s (.stuck stop) :=
    .rule (.pair (reads_blanks s) (.pair_stuck body))
  obtain ⟨a, atom, same⟩ := finds_atom inside again (by omega)
  rw [primary.eq_def]
  simp only
  split
  -- A parenthesis begins no atom; the rule comes to it as its second alternative.
  · rename_i t opens
    have refused : readAtom inner ('(' :: t) = none := by
      rw [readAtom_other (by simp), (no_word (by simp) t).1, (no_word (by simp) t).2]
      rfl
    rw [opens, refused, Option.map_none, Option.map_eq_none_iff] at same
    subst same
    obtain ⟨_, noAtom⟩ := atom
    rw [opens, List.length_cons] at bound
    have less : t.length < n := by omega
    replace opens := again.trans opens
    split
    · rename_i e rest found
      split
      · rename_i u closes
        rw [← skipBlanks_skipBlanks u]
        exact done (.right noAtom (reads_enclosed inside opens less found closes))
      · rename_i other
        exact stuck (.right noAtom (enclosed_open inside opens less found fun u => other u))
    · rename_i stop found
      exact stuck (.right noAtom (enclosed_stuck inside opens less found))
  · rename_i other
    rcases found : readAtom inner (skipBlanks s) with _ | ⟨e, rest⟩
    · rw [found, Option.map_none, Option.map_eq_none_iff] at same
      subst same
      obtain ⟨_, noAtom⟩ := atom
      have unopened := symbol_stuck fun t next => other t (again.symm.trans next)
      rw [again] at unopened
      exact stuck (.right noAtom (.pair_stuck unopened))
    · rw [found] at same
      obtain ⟨u, rfl, left⟩ := Option.map_eq_some_iff.mp same
      change Reads _ _ (.done () (skipBlanks rest))
      rw [← show skipBlanks u = skipBlanks rest from left]
      exact done (.left atom)

/-! ### Selections and signs -/

/-- The rule of selections ends where their reader does. -/
theorem reads_selections (short : s.length ≤ n) (e : Expr) :
    Reads (.many Rule.selector) s (.done () (readSelections inner e s).2) := by
  induction size : s.length using Nat.strong_induction_on generalizing s e with
  | _ m ih =>
    have front := length_skipBlanks s
    have shrinks {u : List Char} (item : Reads Rule.selector s (.done () u)) : u.length < s.length :=
      item.shorter Rule.grounded.takes rfl rfl
    -- A selector takes something, so that the induction reaches what follows it.
    have next {u : List Char} (item : Reads Rule.selector s (.done () u)) (e' : Expr) :
        Reads (.many Rule.selector) s (.done () (readSelections inner e' u).2) := by
      have less := shrinks item
      exact .many_next item (by omega) (ih u.length (by omega) (by omega) e' rfl)
    rw [readSelections.eq_def]
    split
    · rename_i t here
      have point := reads_symbol here
      have named := finds_identifier (skipBlanks t)
      split
      · rename_i name rest found
        rw [found] at named
        have item : Reads Rule.selector s (.done () rest) := .left (.pair point named)
        rw [if_pos (shrinks item)]
        exact next item _
      · rename_i found
        rw [found] at named
        obtain ⟨stop, stuck⟩ := named
        exact .many_end (.right (.pair point stuck) (.pair_stuck (symbol_stuck (by simp [here]))))
    · rename_i t here
      have noPoint : Reads (.pair (spaced (.word ['.'])) (.rule .identifier)) s _ :=
        .pair_stuck (symbol_stuck (by simp [here]))
      rw [here, List.length_cons] at front
      have less : t.length < n := by omega
      split
      · rename_i key rest found
        split
        · rename_i u closes
          have item : Reads Rule.selector s _ := .right noPoint (reads_enclosed inside here less found closes)
          rw [if_pos (shrinks item)]
          exact next item _
        · rename_i other
          exact .many_end (.right noPoint (enclosed_open inside here less found fun u => other u))
      · rename_i stop found
        exact .many_end (.right noPoint (enclosed_stuck inside here less found))
    · rename_i point bracket
      have noPoint : Reads (.pair (spaced (.word ['.'])) (.rule .identifier)) s _ :=
        .pair_stuck (symbol_stuck fun t => point t)
      exact .many_end (.right noPoint (.pair_stuck (symbol_stuck fun t => bracket t)))

/-- The rule of selections from a primary follows its reader. -/
theorem follows_selection : Follows .selection (postfixed inner) (n + 1) := by
  intro s short
  have first := follows_primary inside s short
  rw [postfixed]
  rcases found : primary inner s with ⟨e, rest⟩ | stop
  · rw [found] at first
    have shrinks := shorter_of_rule first
    exact .rule (.pair first (reads_selections inside (by omega) e))
  · rw [found] at first
    exact .rule (.pair_stuck first)

omit inside in
/-- No selection begins with a sign. -/
theorem postfixed_sign {c : Char} (sign : c ∈ ['!', '-']) (t : List Char) :
    postfixed inner (c :: t) = .stuck (c :: t) := by
  have shown : ¬ Blank c ∧ c ≠ '(' ∧ c ∉ ['"', '\'', '['] ∧ c ∈ ['"', '\'', '[', '(', '!', '-'] := by
    simp only [List.mem_cons, List.not_mem_nil, or_false] at sign
    rcases sign with rfl | rfl <;> simp [Blank]
  obtain ⟨blank, parenthesis, quotes, mark⟩ := shown
  have refused : readAtom inner (c :: t) = none := by
    rw [readAtom_other quotes, (no_word mark t).1, (no_word mark t).2]
    rfl
  rw [postfixed, primary_refused (skipBlanks_cons blank t) parenthesis refused]

/-- The rule of signed operands follows its reader. -/
theorem follows_unary : Follows .unary (unaryLevel inner) (n + 1) := by
  intro s
  induction s with
  | nil =>
    intro short
    have none : skipBlanks [] = [] := rfl
    have noSign {c : Char} : Reads (.pair (spaced (.word [c])) (.rule .unary)) [] _ :=
      .pair_stuck (symbol_stuck (by simp [none]))
    exact .rule (.right noSign (.right noSign (follows_selection inside [] short)))
  | cons c t ih =>
    intro short
    have operand := ih (Nat.lt_of_succ_lt short)
    have selection := follows_selection inside (c :: t) short
    rw [unaryLevel]
    split
    · rename_i blank
      have same : skipBlanks (c :: t) = skipBlanks t := List.dropWhile_cons_of_pos blank
      rwa [← reads_skip lax_unary, same, reads_skip lax_unary]
    rename_i shown
    rw [← reads_skip lax_unary] at operand
    have next : skipBlanks (c :: t) = c :: t := List.dropWhile_cons_of_neg shown
    split
    · rename_i bang
      subst bang
      rw [postfixed_sign (by simp)] at selection
      have sign := reads_symbol next
      have other : Reads (.pair (spaced (.word ['-'])) (.rule .unary)) ('!' :: t) _ :=
        .pair_stuck (symbol_stuck (by simp [next]))
      rcases found : unaryLevel inner t with ⟨e, rest⟩ | stop
      · rw [found] at operand
        exact .rule (.left (.pair sign operand))
      · rw [found] at operand
        exact .rule (.right (.pair sign operand) (.right other selection))
    rename_i noBang
    have other : Reads (.pair (spaced (.word ['!'])) (.rule .unary)) (c :: t) _ :=
      .pair_stuck (symbol_stuck (by simp [next, noBang]))
    split
    · rename_i minus
      subst minus
      rw [postfixed_sign (by simp)] at selection
      have sign := reads_symbol next
      rcases found : unaryLevel inner t with ⟨e, rest⟩ | stop
      · rw [found] at operand
        exact .rule (.right other (.left (.pair sign operand)))
      · rw [found] at operand
        exact .rule (.right other (.right (.pair sign operand) selection))
    · rename_i noMinus
      exact .rule (.right other (.right (.pair_stuck (symbol_stuck (by simp [next, noMinus]))) selection))

end

/-! ### Levels -/

theorem map_readOperator (w : List Char) (op : BinaryOp) (others : List (List Char × BinaryOp)) (s : List Char) :
    (readOperator ((w, op) :: others) s).map Prod.snd =
      (if w.isPrefixOf s then some (s.drop w.length) else none).or ((readOperator others s).map Prod.snd) := by
  rw [readOperator]
  split <;> simp

/-- The rule of an operator ends where its reader does. -/
theorem finds_operator (l : OperatorLevel) (s : List Char) :
    Finds (Rule.operator l) s ((readOperator l.row s).map Prod.snd) := by
  have word (w : List Char) := finds_word w s
  have none : (readOperator [] s).map Prod.snd = none := rfl
  cases l <;>
    simp only [OperatorLevel.row, OperatorLevel.place, operatorTable, List.getElem?_cons_succ, List.getElem?_cons_zero,
      Option.getD_some, map_readOperator, none, Option.or_none]
  case or | and => exact word _
  case equality =>
    rw [← Option.or_assoc]
    exact finds_either (finds_either (word _) fun _ => word _) fun _ => finds_either (word _) fun _ => word _
  case comparison =>
    exact finds_either (word _) fun _ => finds_either (word _) fun _ => finds_either (word _) fun _ => word _
  case additive => exact finds_either (word _) fun _ => word _
  case term => exact finds_either (word _) fun _ => finds_either (word _) fun _ => word _

/-- The rule of a chain ends where its reader does. -/
theorem reads_chain {l : OperatorLevel} {operand : Reader} (operands : Follows (Rule.operands l) operand (n + 1))
    (short : s.length ≤ n) (e : Expr) :
    Reads (.loop (.pair (spaced (Rule.operator l)) (.rule (Rule.operands l)))) s
      (.done () (readChain operand l.row e s).2) := by
  induction size : s.length using Nat.strong_induction_on generalizing s e with
  | _ m ih =>
    have front := length_skipBlanks s
    have operator := finds_spaced (finds_operator l (skipBlanks s))
    rw [readChain.eq_def]
    split
    · rename_i op t found
      rw [found] at operator
      replace operator : Reads (spaced (Rule.operator l)) s (.done () (skipBlanks t)) := operator
      obtain ⟨spelling, -, split⟩ := readOperator_sound found
      have before := length_skipBlanks t
      rw [split, List.length_append] at front
      have item := (reads_skip (lax_operands l)).mpr (operands t (by omega))
      split
      · rename_i rhs rest joined
        rw [joined] at item
        have shrinks := shorter_of_rule item
        rw [if_pos (by omega)]
        exact .loop_next (.pair operator item) (ih rest.length (by omega) (by omega) _ rfl)
      · rename_i stop joined
        rw [joined] at item
        exact .loop_end (.pair operator item)
    · rename_i found
      rw [found] at operator
      obtain ⟨stop, stuck⟩ := operator
      exact .loop_end (.pair_stuck stuck)

/-- The rule of a level follows its reader if that of its operands does. -/
theorem follows_level {l : OperatorLevel} (operands : Follows (Rule.operands l) (binaryLevel inner l.below) (n + 1)) :
    Follows (.level l) (binaryLevel inner (operatorTable.drop l.place)) (n + 1) := by
  intro s short
  have first := operands s short
  rw [l.rows_eq, binaryLevel]
  rcases found : binaryLevel inner l.below s with ⟨lhs, rest⟩ | stop
  · rw [found] at first
    have shrinks := shorter_of_rule first
    exact .rule (.pair first (reads_chain operands (by omega) lhs))
  · rw [found] at first
    exact .rule (.pair_stuck first)

section

variable (inside : Follows .expression inner n)

include inside

theorem follows_operands (l : OperatorLevel) : Follows (Rule.operands l) (binaryLevel inner l.below) (n + 1) := by
  have term : Follows (Rule.operands .term) (binaryLevel inner OperatorLevel.term.below) (n + 1) := follows_unary inside
  have additive : Follows (Rule.operands .additive) (binaryLevel inner OperatorLevel.additive.below) (n + 1) :=
    follows_level term
  have comparison : Follows (Rule.operands .comparison) (binaryLevel inner OperatorLevel.comparison.below) (n + 1) :=
    follows_level additive
  have equality : Follows (Rule.operands .equality) (binaryLevel inner OperatorLevel.equality.below) (n + 1) :=
    follows_level comparison
  have and : Follows (Rule.operands .and) (binaryLevel inner OperatorLevel.and.below) (n + 1) := follows_level equality
  have or : Follows (Rule.operands .or) (binaryLevel inner OperatorLevel.or.below) (n + 1) := follows_level and
  cases l <;> assumption

/-- The rule of two branches ends where their reader does. -/
theorem reads_branches (short : s.length ≤ n) :
    Finds (.pair (.pair (spaced (.word ['?'])) (.rule .expression)) (.pair (spaced (.word [':'])) (.rule .expression))) s
      ((readBranches inner s).map Prod.snd) := by
  have front := length_skipBlanks s
  rw [readBranches.eq_def]
  split
  · rename_i t asks
    rw [asks, List.length_cons] at front
    have query := reads_symbol asks
    have first := reads_inside inside (by omega : t.length < n)
    split
    · rename_i yes rest found
      rw [found] at first
      have before := length_skipBlanks t
      have behind := length_skipBlanks rest
      have shrinks := shorter_of_rule first
      split
      · rename_i u turns
        rw [turns, List.length_cons] at behind
        have colon := reads_symbol turns
        have second := reads_inside inside (by omega : u.length < n)
        split
        · rename_i no after found'
          rw [found'] at second
          exact .pair (.pair query first) (.pair colon second)
        · rename_i stop found'
          rw [found'] at second
          exact ⟨stop, .pair (.pair query first) (.pair colon second)⟩
      · rename_i other
        exact ⟨_, .pair (.pair query first) (.pair_stuck (symbol_stuck fun u => other u))⟩
    · rename_i stop found
      rw [found] at first
      exact ⟨stop, .pair_stuck (.pair query first)⟩
  · rename_i other
    exact ⟨_, .pair_stuck (.pair_stuck (symbol_stuck fun t => other t))⟩

/-- The rule of an expression follows its reader. -/
theorem follows_ternary : Follows .expression (ternary inner) (n + 1) := by
  intro s short
  have first := follows_level (follows_operands inside .or) s short
  rw [ternary, show operatorTable = operatorTable.drop OperatorLevel.or.place from rfl]
  rcases found : binaryLevel inner (operatorTable.drop OperatorLevel.or.place) s with ⟨test, rest⟩ | stop
  · rw [found] at first
    have shrinks := shorter_of_rule first
    have branches := reads_optional (reads_branches inside (by omega : rest.length ≤ n))
    simp only
    cases choice : readBranches inner rest <;> rw [choice] at branches <;> exact .rule (.pair first branches)
  · rw [found] at first
    exact .rule (.pair_stuck first)

end

/-! ### Whole texts -/

/-- A text is read as an expression by the rules, as every shorter text inside it is. -/
theorem reads_expression (s : List Char) : Reads (.rule .expression) s (expression s).place := by
  induction size : s.length using Nat.strong_induction_on generalizing s with
  | _ n ih =>
    have inside : Follows .expression (within n) n := by
      intro t less
      rw [within_of_lt less]
      exact ih t.length less t rfl
    rw [expression_eq, size]
    exact follows_ternary inside s (by omega)

theorem follows_within (n : Nat) : Follows .expression (within n) n := by
  intro s short
  rw [within_of_lt short]
  exact reads_expression s

/-- The readers scan by the rules where the expressions inside lie in fewer characters than the bound. -/
structure Followed (n : Nat) : Prop where
  identifier : ∀ s, Finds (.rule .identifier) s ((readName s).map Prod.snd)
  number : ∀ s, Finds (.rule .number) s ((readNumeral s).map Prod.snd)
  text : ∀ quote ∈ ['"', '\''], ∀ t, Finds (.rule .text) (quote :: t) ((readQuoted quote t).map Prod.snd)
  array : ∀ s t, skipBlanks s = '[' :: t → t.length < n →
    Finds (.rule .array) s ((readArray (within n) t).map (skipBlanks ·.2))
  primary : Follows .primary (primary (within n)) (n + 1)
  selection : Follows .selection (postfixed (within n)) (n + 1)
  unary : Follows .unary (unaryLevel (within n)) (n + 1)
  level : ∀ l : OperatorLevel, Follows (.level l) (binaryLevel (within n) (operatorTable.drop l.place)) (n + 1)
  expression : Follows .expression (ternary (within n)) (n + 1)

/-- By induction on the length of the text all rules follow their readers. -/
theorem readers_follow (n : Nat) : Followed n where
  identifier := finds_identifier
  number := finds_number
  text _ quotes t := finds_text quotes t
  array _ _ next less := finds_array (follows_within n) next less
  primary := follows_primary (follows_within n)
  selection := follows_selection (follows_within n)
  unary := follows_unary (follows_within n)
  level l := follows_level (follows_operands (follows_within n) l)
  expression := follows_ternary (follows_within n)

/-- A scan stays in the text: it leaves a shorter end of it, or is stuck at an end of it. -/
def StaysIn (s : List Char) : Reading Unit → Prop
  | .done _ rest => rest <:+ s ∧ rest.length < s.length
  | .stuck stop => stop <:+ s

theorem staysIn_of_reads {r : Rule} (scans : Reads (.rule r) s o) : StaysIn s o := by
  cases o with
  | done _ rest => exact ⟨scans.suffix, shorter_of_rule scans⟩
  | stuck stop => exact scans.suffix

/-- The place in a text, in bytes, at which some of it is left. -/
structure LeftAt (code : String) (stop : List Char) (offset : Nat) : Prop where
  isSuffix : stop <:+ code.toList
  size_le : (String.ofList stop).utf8ByteSize ≤ code.utf8ByteSize
  offset_eq : offset = code.utf8ByteSize - (String.ofList stop).utf8ByteSize
  offset_le : offset ≤ code.utf8ByteSize
  isValid : String.Pos.Raw.IsValid code ⟨offset⟩

theorem leftAt_of_suffix {code : String} {stop : List Char} (suffix : stop <:+ code.toList) :
    LeftAt code stop (code.utf8ByteSize - (String.ofList stop).utf8ByteSize) := by
  obtain ⟨front, split⟩ := suffix
  have whole : code = String.ofList front ++ String.ofList stop := by
    rw [← String.ofList_append, split, String.ofList_toList]
  have size : code.utf8ByteSize = (String.ofList front).utf8ByteSize + (String.ofList stop).utf8ByteSize := by
    rw [← String.utf8ByteSize_append, ← whole]
  refine ⟨⟨front, split⟩, by omega, rfl, by omega, ?_⟩
  refine String.Pos.Raw.isValid_iff_exists_append.mpr ⟨String.ofList front, String.ofList stop, whole, ?_⟩
  rw [String.Pos.Raw.ext_iff, size, Nat.add_sub_cancel]
  rfl

/-- How reading a whole text ends, by how the scan of it does. -/
def Settles (code : String) : Reading Unit → Prop
  | .done _ rest => rest = [] ∧ ∃ e, read code = .ok e
  | .stuck stop => ∃ offset, read code = .error (.malformed code offset) ∧ LeftAt code stop offset

/-- A whole text is scanned to its end, or up to the place that the error names. -/
theorem reads_whole (code : String) : ∃ o, Reads Rule.whole code.toList o ∧ Settles code o := by
  have first := (reads_skip lax_expression).mpr (reads_expression code.toList)
  have stuck {stop : List Char} (scans : Reads Rule.whole code.toList (.stuck stop))
      (refused : read code = .error (.malformed code (code.utf8ByteSize - (String.ofList stop).utf8ByteSize))) :
      ∃ o, Reads Rule.whole code.toList o ∧ Settles code o :=
    ⟨_, scans, _, refused, leftAt_of_suffix scans.suffix⟩
  rcases found : expression code.toList with ⟨e, rest⟩ | stop
  · rw [found] at first
    have inner : Reads (spaced (.rule .expression)) code.toList (.done () (skipBlanks rest)) :=
      .pair (reads_blanks _) (.pair first (reads_blanks rest))
    rcases left : skipBlanks rest with _ | ⟨c, t⟩
    · rw [left] at inner
      refine ⟨_, .pair inner .ending, rfl, e, ?_⟩
      simp only [read, found, left]
    · rw [left] at inner
      refine stuck (.pair inner (.ending_stuck (List.cons_ne_nil c t))) ?_
      simp only [read, found, left]
  · rw [found] at first
    refine stuck (.pair_stuck (.pair (reads_blanks _) (.pair_stuck first))) ?_
    simp only [read, found]

/-- Every scan by a rule of the grammar comes to one end and leaves an end of its text, a shorter one if it can go on;
so does the scan of a whole text. The readers scan by the rules, and the offset of an error is that of the place where
the scan of the whole text is stuck. -/
theorem scans_end_within (r : Rule) (s : List Char) (n : Nat) (code : String) :
    (∃ o, (∀ o', Reads (.rule r) s o' ↔ o' = o) ∧ StaysIn s o) ∧
      Followed n ∧ Reads (.rule .expression) s (expression s).place ∧
      ∃ o, (∀ o', Reads Rule.whole code.toList o' ↔ o' = o) ∧ Settles code o := by
  have only {p : Pattern Rule} {t : List Char} {o : Reading Unit} (scans : Reads p t o) (o' : Reading Unit) :
      Reads p t o' ↔ o' = o := by
    refine ⟨fun other => scans.deterministic other, ?_⟩
    rintro rfl
    exact scans
  refine ⟨?_, readers_follow n, reads_expression s, ?_⟩
  · obtain ⟨o, scans⟩ := Scans.ends_rule Rule.grounded r s
    exact ⟨o, only scans, staysIn_of_reads scans⟩
  · obtain ⟨o, scans, settles⟩ := reads_whole code
    exact ⟨o, only scans, settles⟩

example : read "'é' + * b" = .error (.malformed "'é' + * b" 5) := by cbv

end BehaviorTree.Expr
