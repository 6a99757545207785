import BehaviorTree.Expression.Reader
import Mathlib.Data.List.Infix
import Mathlib.Order.Basic

/-!
Scanning by patterns with ordered choice. A pattern is put together from runs of characters and words, one after the
other, one or else the other, optional or repeated, and from rules that stand for patterns and may go in circles.
`Scans` says step by step how a scan goes and where it ends: with what it leaves of the text, or stuck at the place
from where it cannot go on. A scan that would go on forever has no end in this sense. The main statements:
wherever a scan ends, the text there is an end of the text it began with; a scan has at most one end; and if every
rule takes something, calls only lower rules before it has, and repeats nothing that takes nothing, then every scan
comes to an end.
-/

namespace BehaviorTree

/-- What a text is scanned for. Rules are named by `ρ`. -/
inductive Pattern (ρ : Type) where
  /-- One or more characters of a class, as many as there are. -/
  | run (p : Char → Bool)
  | word (w : List Char)
  /-- The end of the text. -/
  | ending
  | pair (first second : Pattern ρ)
  /-- The second if the first is not there. -/
  | either (first second : Pattern ρ)
  | optional (p : Pattern ρ)
  /-- As often as it is there; stuck at one that takes nothing. -/
  | many (p : Pattern ρ)
  /-- As often as it is there, whether or not it takes anything. -/
  | loop (p : Pattern ρ)
  /-- Items with a separator between any two, or none. -/
  | list (separator item : Pattern ρ)
  /-- The items after the first, each behind a separator; stuck at a separator that takes nothing. -/
  | further (separator item : Pattern ρ)
  | rule (r : ρ)

/-- The text at which a reading ends, whether or not it could go on. -/
def Reading.left {α : Type} : Reading α → List Char
  | .done _ rest => rest
  | .stuck stop => stop

/-- Where a reading ends, without what has been read. -/
def Reading.place {α : Type} : Reading α → Reading Unit
  | .done _ rest => .done () rest
  | .stuck stop => .stuck stop

/-- How a scan by a pattern goes, under rules for which patterns stand. -/
inductive Scans {ρ : Type} (rules : ρ → Pattern ρ) : Pattern ρ → List Char → Reading Unit → Prop where
  | run {p : Char → Bool} {s : List Char} : s.takeWhile p ≠ [] → Scans rules (.run p) s (.done () (s.dropWhile p))
  | run_stuck {p : Char → Bool} {s : List Char} : s.takeWhile p = [] → Scans rules (.run p) s (.stuck s)
  | word {w s t : List Char} : s = w ++ t → Scans rules (.word w) s (.done () t)
  | word_stuck {w s : List Char} : ¬ w <+: s → Scans rules (.word w) s (.stuck s)
  | ending : Scans rules .ending [] (.done () [])
  | ending_stuck {s : List Char} : s ≠ [] → Scans rules .ending s (.stuck s)
  | pair {p q : Pattern ρ} {s t : List Char} {o : Reading Unit} : Scans rules p s (.done () t) → Scans rules q t o →
      Scans rules (.pair p q) s o
  | pair_stuck {p q : Pattern ρ} {s stop : List Char} : Scans rules p s (.stuck stop) →
      Scans rules (.pair p q) s (.stuck stop)
  | left {p q : Pattern ρ} {s t : List Char} : Scans rules p s (.done () t) →
      Scans rules (.either p q) s (.done () t)
  | right {p q : Pattern ρ} {s stop : List Char} {o : Reading Unit} : Scans rules p s (.stuck stop) →
      Scans rules q s o → Scans rules (.either p q) s o
  | present {p : Pattern ρ} {s t : List Char} : Scans rules p s (.done () t) → Scans rules (.optional p) s (.done () t)
  | absent {p : Pattern ρ} {s stop : List Char} : Scans rules p s (.stuck stop) →
      Scans rules (.optional p) s (.done () s)
  | many_end {p : Pattern ρ} {s stop : List Char} : Scans rules p s (.stuck stop) →
      Scans rules (.many p) s (.done () s)
  | many_idle {p : Pattern ρ} {s t : List Char} : Scans rules p s (.done () t) → t.length = s.length →
      Scans rules (.many p) s (.stuck s)
  | many_next {p : Pattern ρ} {s t : List Char} {o : Reading Unit} : Scans rules p s (.done () t) →
      t.length ≠ s.length → Scans rules (.many p) t o → Scans rules (.many p) s o
  | loop_end {p : Pattern ρ} {s stop : List Char} : Scans rules p s (.stuck stop) →
      Scans rules (.loop p) s (.done () s)
  | loop_next {p : Pattern ρ} {s t : List Char} {o : Reading Unit} : Scans rules p s (.done () t) →
      Scans rules (.loop p) t o → Scans rules (.loop p) s o
  | list_none {p q : Pattern ρ} {s stop : List Char} : Scans rules q s (.stuck stop) →
      Scans rules (.list p q) s (.done () s)
  | list_some {p q : Pattern ρ} {s t : List Char} {o : Reading Unit} : Scans rules q s (.done () t) →
      Scans rules (.further p q) t o → Scans rules (.list p q) s o
  | further_end {p q : Pattern ρ} {s stop : List Char} : Scans rules p s (.stuck stop) →
      Scans rules (.further p q) s (.done () s)
  | further_idle {p q : Pattern ρ} {s t : List Char} : Scans rules p s (.done () t) → t.length = s.length →
      Scans rules (.further p q) s (.stuck t)
  | further_last {p q : Pattern ρ} {s t stop : List Char} : Scans rules p s (.done () t) → t.length ≠ s.length →
      Scans rules q t (.stuck stop) → Scans rules (.further p q) s (.done () s)
  | further_next {p q : Pattern ρ} {s t u : List Char} {o : Reading Unit} : Scans rules p s (.done () t) →
      t.length ≠ s.length → Scans rules q t (.done () u) → Scans rules (.further p q) u o →
      Scans rules (.further p q) s o
  | rule {r : ρ} {s : List Char} {o : Reading Unit} : Scans rules (rules r) s o → Scans rules (.rule r) s o

namespace Scans

variable {ρ : Type} {rules : ρ → Pattern ρ} {p q : Pattern ρ} {s t stop : List Char} {o o' : Reading Unit}

/-! ### Where a scan ends -/

/-- Wherever a scan ends, what is left there is an end of the text. -/
theorem suffix (scans : Scans rules p s o) : o.left <:+ s := by
  induction scans with
  | run _ => exact List.dropWhile_suffix _
  | word split => exact split ▸ List.suffix_append _ _
  | pair _ _ first second => exact second.trans first
  | right _ _ _ second => exact second
  | many_next _ _ _ item others => exact others.trans item
  | loop_next _ _ item others => exact others.trans item
  | list_some _ _ item others => exact others.trans item
  | further_idle _ _ separator => exact separator
  | further_next _ _ _ _ separator item others => exact (others.trans item).trans separator
  | pair_stuck _ first | left _ first | present _ first | rule _ first => exact first
  | _ => exact List.suffix_refl _

/-- A scan has no two ends, as the scans that it is made of have not. -/
theorem deterministic (scans : Scans rules p s o) (other : Scans rules p s o') : o' = o := by
  induction scans generalizing o' with
  | run taken => cases other with
    | run => rfl
    | run_stuck none => exact absurd none taken
  | run_stuck none => cases other with
    | run taken => exact absurd none taken
    | run_stuck => rfl
  -- Constructors of the same form agree by their parts; those of different forms exclude each other.
  | word split => cases other with
    | word split' => rw [List.append_cancel_left (split'.symm.trans split)]
    | word_stuck apart => exact absurd (split ▸ List.prefix_append _ _) apart
  | word_stuck apart => cases other with
    | word split' => exact absurd (split' ▸ List.prefix_append _ _) apart
    | word_stuck => rfl
  | ending => cases other with
    | ending => rfl
    | ending_stuck more => exact absurd rfl more
  | ending_stuck more => cases other with
    | ending => exact absurd rfl more
    | ending_stuck => rfl
  | pair _ _ first second => cases other with
    | pair first' second' => cases first first'; exact second second'
    | pair_stuck first' => cases first first'
  | pair_stuck _ first => cases other with
    | pair first' => cases first first'
    | pair_stuck first' => exact first first'
  | left _ first => cases other with
    | left first' => exact first first'
    | right first' => cases first first'
  | right _ _ first second => cases other with
    | left first' => cases first first'
    | right _ second' => exact second second'
  | present _ inner => cases other with
    | present inner' => exact inner inner'
    | absent inner' => cases inner inner'
  | absent _ inner => cases other with
    | present inner' => cases inner inner'
    | absent => rfl
  | many_end _ item => cases other with
    | many_end => rfl
    | many_idle item' | many_next item' => cases item item'
  | many_idle _ same item => cases other with
    | many_end item' => cases item item'
    | many_idle => rfl
    | many_next item' further => cases item item'; exact absurd same further
  | many_next _ further _ item others => cases other with
    | many_end item' => cases item item'
    | many_idle item' same => cases item item'; exact absurd same further
    | many_next item' _ others' => cases item item'; exact others others'
  | loop_end _ item => cases other with
    | loop_end => rfl
    | loop_next item' => cases item item'
  | loop_next _ _ item others => cases other with
    | loop_end item' => cases item item'
    | loop_next item' others' => cases item item'; exact others others'
  | list_none _ item => cases other with
    | list_none => rfl
    | list_some item' => cases item item'
  | list_some _ _ item others => cases other with
    | list_none item' => cases item item'
    | list_some item' others' => cases item item'; exact others others'
  | further_end _ separator => cases other with
    | further_end => rfl
    | further_idle separator' | further_last separator' | further_next separator' => cases separator separator'
  | further_idle _ same separator => cases other with
    | further_end separator' => cases separator separator'
    | further_idle separator' => cases separator separator'; rfl
    | further_last separator' more | further_next separator' more =>
      cases separator separator'; exact absurd same more
  | further_last _ more _ separator item => cases other with
    | further_end separator' => cases separator separator'
    | further_idle separator' same => cases separator separator'; exact absurd same more
    | further_last => rfl
    | further_next separator' _ item' => cases separator separator'; cases item item'
  | further_next _ more _ _ separator item others => cases other with
    | further_end separator' => cases separator separator'
    | further_idle separator' same => cases separator separator'; exact absurd same more
    | further_last separator' _ item' => cases separator separator'; cases item item'
    | further_next separator' _ item' others' =>
      cases separator separator'; cases item item'; exact others others'
  | rule _ inner => cases other with
    | rule inner' => exact inner inner'

end Scans

/-! ### Rules that end -/

namespace Pattern

/-- Whether a scan that can go on has taken something, if the rules do. -/
def takes {ρ : Type} : Pattern ρ → Bool
  | run _ | rule _ => true
  | word w => !w.isEmpty
  | pair p q => p.takes || q.takes
  | either p q => p.takes && q.takes
  | ending | optional _ | many _ | loop _ | list _ _ | further _ _ => false

/-- Whether only rules below the bound are called before anything is taken, and each repetition takes something. -/
def grounded {ρ : Type} (rank : ρ → Nat) (top : Nat) : Nat → Pattern ρ → Bool
  | _, run _ | _, word _ | _, ending => true
  | bound, pair p q => p.grounded rank top bound && q.grounded rank top (if p.takes then top else bound)
  | bound, either p q => p.grounded rank top bound && q.grounded rank top bound
  | bound, optional p => p.grounded rank top bound
  | bound, many p | bound, loop p => p.takes && p.grounded rank top bound
  | bound, list p q | bound, further p q =>
    p.takes && p.grounded rank top bound && q.grounded rank top bound
  | bound, rule r => rank r < bound

end Pattern

/-- Rules under which every scan comes to an end: each takes something, and before it has it calls only rules of a
lower rank. -/
structure Grounded {ρ : Type} (rules : ρ → Pattern ρ) (rank : ρ → Nat) (top : Nat) : Prop where
  takes : ∀ r, (rules r).takes
  grounded : ∀ r, (rules r).grounded rank top (rank r)
  rank_lt : ∀ r, rank r < top

namespace Scans

variable {ρ : Type} {rules : ρ → Pattern ρ} {rank : ρ → Nat} {top : Nat} {p : Pattern ρ} {s : List Char} {o : Reading Unit}

/-- A scan that takes something leaves less. -/
theorem shorter (takes : ∀ r, (rules r).takes) (scans : Scans rules p s o) (taking : p.takes) {t : List Char}
    (done : o = .done () t) : t.length < s.length := by
  induction scans generalizing t with
  | @run p s taken =>
    cases done
    have split := congrArg List.length (s.takeWhile_append_dropWhile (p := p))
    have some := List.length_pos_of_ne_nil taken
    rw [List.length_append] at split
    omega
  | @word w _ _ split =>
    cases done
    have some : 0 < w.length := List.length_pos_of_ne_nil (by simpa [Pattern.takes] using taking)
    rw [split, List.length_append]
    omega
  | pair one two first second =>
    subst done
    have before := one.suffix.length_le
    have after := two.suffix.length_le
    simp only [Reading.left] at before after
    rcases Bool.or_eq_true_iff.mp taking with here | there
    · exact Nat.lt_of_le_of_lt after (first here rfl)
    · exact Nat.lt_of_lt_of_le (second there rfl) before
  | left _ first => exact first (Bool.and_eq_true_iff.mp taking).1 done
  | right _ _ _ second => exact second (Bool.and_eq_true_iff.mp taking).2 done
  | rule _ inner => exact inner (takes _) done
  | run_stuck _ | word_stuck _ | pair_stuck _ _ => cases done
  | _ => cases taking

/-- There is an end to the scan. -/
def Ends (rules : ρ → Pattern ρ) (p : Pattern ρ) (s : List Char) : Prop := ∃ o, Scans rules p s o

/-- A scan that ends either is stuck or goes on with some of the text. -/
theorem Ends.cases (ends : Ends rules p s) :
    (∃ stop, Scans rules p s (.stuck stop)) ∨ ∃ t, Scans rules p s (.done () t) := by
  obtain ⟨o, scans⟩ := ends
  cases o with
  | done _ t => exact .inr ⟨t, scans⟩
  | stuck stop => exact .inl ⟨stop, scans⟩

/-! ### Every scan ends -/

section

variable {n : Nat} (takes : ∀ r, (rules r).takes) (taking : p.takes)
  (items : ∀ t : List Char, t.length ≤ n → Ends rules p t)

include takes taking items

/-- A repetition ends, as each item leaves a shorter text. -/
theorem ends_many (short : s.length ≤ n) : Ends rules (.many p) s := by
  induction size : s.length using Nat.strong_induction_on generalizing s with
  | _ m ih =>
    rcases (items s short).cases with ⟨stop, stuck⟩ | ⟨t, scans⟩
    · exact ⟨_, .many_end stuck⟩
    · have shrinks := scans.shorter takes taking rfl
      obtain ⟨o, others⟩ := ih t.length (by omega) (by omega) rfl
      exact ⟨o, .many_next scans (by omega) others⟩

theorem ends_loop (short : s.length ≤ n) : Ends rules (.loop p) s := by
  induction size : s.length using Nat.strong_induction_on generalizing s with
  | _ m ih =>
    rcases (items s short).cases with ⟨stop, stuck⟩ | ⟨t, scans⟩
    · exact ⟨_, .loop_end stuck⟩
    · have shrinks := scans.shorter takes taking rfl
      obtain ⟨o, others⟩ := ih t.length (by omega) (by omega) rfl
      exact ⟨o, .loop_next scans others⟩

/-- Further items end, as each separator leaves a shorter text. -/
theorem ends_further (others : ∀ t : List Char, t.length ≤ n → Ends rules q t) (short : s.length ≤ n) :
    Ends rules (.further p q) s := by
  induction size : s.length using Nat.strong_induction_on generalizing s with
  | _ m ih =>
    rcases (items s short).cases with ⟨stop, stuck⟩ | ⟨t, scans⟩
    · exact ⟨_, .further_end stuck⟩
    · have shrinks := scans.shorter takes taking rfl
      rcases (others t (by omega)).cases with ⟨stop, stuck⟩ | ⟨u, scans'⟩
      · exact ⟨_, .further_last scans (by omega) stuck⟩
      · have within := scans'.suffix.length_le
        simp only [Reading.left] at within
        obtain ⟨o, rest⟩ := ih u.length (by omega) (by omega) rfl
        exact ⟨o, .further_next scans (by omega) scans' rest⟩

end

/-- Every scan of a text ends if every scan of a shorter one does, and by every lower rule. -/
theorem ends_of_lower {n bound : Nat} (takes : ∀ r, (rules r).takes)
    (less : ∀ t : List Char, t.length < n → ∀ p, p.grounded rank top top → Ends rules p t)
    (lower : ∀ r, rank r < bound → ∀ t : List Char, t.length ≤ n → Ends rules (.rule r) t)
    (grounded : p.grounded rank top bound) (short : s.length ≤ n) : Ends rules p s := by
  induction p generalizing s with
  | run p =>
    by_cases none : s.takeWhile p = []
    · exact ⟨_, .run_stuck none⟩
    · exact ⟨_, .run none⟩
  | word w =>
    by_cases starts : w <+: s
    · obtain ⟨t, split⟩ := starts
      exact ⟨_, .word split.symm⟩
    · exact ⟨_, .word_stuck starts⟩
  | ending =>
    cases s with
    | nil => exact ⟨_, .ending⟩
    | cons c s => exact ⟨_, .ending_stuck (List.cons_ne_nil c s)⟩
  | pair p q first second =>
    simp only [Pattern.grounded, Bool.and_eq_true] at grounded
    rcases (first grounded.1 short).cases with ⟨stop, stuck⟩ | ⟨t, scans⟩
    · exact ⟨_, .pair_stuck stuck⟩
    -- A first part that takes something leaves a shorter text, and the second one may then be of any rank.
    · have next : Ends rules q t := by
        by_cases taking : p.takes
        · have shrinks := scans.shorter takes taking rfl
          rw [if_pos taking] at grounded
          exact less t (by omega) q grounded.2
        · rw [if_neg taking] at grounded
          exact second grounded.2 (scans.suffix.length_le.trans short)
      obtain ⟨o, scans'⟩ := next
      exact ⟨o, .pair scans scans'⟩
  | either p q first second =>
    simp only [Pattern.grounded, Bool.and_eq_true] at grounded
    rcases (first grounded.1 short).cases with ⟨stop, stuck⟩ | ⟨t, scans⟩
    · obtain ⟨o, scans⟩ := second grounded.2 short
      exact ⟨o, .right stuck scans⟩
    · exact ⟨_, .left scans⟩
  | optional p inner =>
    rcases (inner grounded short).cases with ⟨stop, stuck⟩ | ⟨t, scans⟩
    · exact ⟨_, .absent stuck⟩
    · exact ⟨_, .present scans⟩
  | many p item =>
    simp only [Pattern.grounded, Bool.and_eq_true] at grounded
    exact ends_many takes grounded.1 (fun t => item grounded.2) short
  | loop p item =>
    simp only [Pattern.grounded, Bool.and_eq_true] at grounded
    exact ends_loop takes grounded.1 (fun t => item grounded.2) short
  | further p q separator item =>
    simp only [Pattern.grounded, Bool.and_eq_true] at grounded
    exact ends_further takes grounded.1.1 (fun t => separator grounded.1.2) (fun t => item grounded.2) short
  | list p q separator item =>
    simp only [Pattern.grounded, Bool.and_eq_true] at grounded
    rcases (item grounded.2 short).cases with ⟨stop, stuck⟩ | ⟨t, scans⟩
    · exact ⟨_, .list_none stuck⟩
    · obtain ⟨o, others⟩ := ends_further takes grounded.1.1 (fun t => separator grounded.1.2)
        (fun t => item grounded.2) (scans.suffix.length_le.trans short)
      exact ⟨o, .list_some scans others⟩
  | rule r => exact lower r (by simpa [Pattern.grounded] using grounded) s short

/-- Under grounded rules every scan ends: by induction on the length of the text, and on the rank of what is called
before anything of it is taken. -/
theorem ends (sound : Grounded rules rank top) (grounded : p.grounded rank top top) (s : List Char) :
    Ends rules p s := by
  induction size : s.length using Nat.strong_induction_on generalizing s p with
  | _ n shorter =>
    have less : ∀ t : List Char, t.length < n → ∀ p, p.grounded rank top top → Ends rules p t :=
      fun t less p grounded => shorter t.length less grounded t rfl
    have lower : ∀ bound, ∀ r, rank r < bound → ∀ t : List Char, t.length ≤ n → Ends rules (.rule r) t := by
      intro bound
      induction bound with
      | zero => exact fun r below => absurd below (Nat.not_lt_zero _)
      | succ bound ih =>
        intro r below t short
        obtain ⟨o, scans⟩ := ends_of_lower sound.takes less
          (fun r' below' => ih r' (by omega)) (sound.grounded r) short
        exact ⟨o, .rule scans⟩
    exact ends_of_lower sound.takes less (lower top) grounded size.le

theorem ends_rule (sound : Grounded rules rank top) (r : ρ) (s : List Char) : Ends rules (.rule r) s :=
  ends sound (by simpa [Pattern.grounded] using sound.rank_lt r) s

end Scans
end BehaviorTree
