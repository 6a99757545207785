import BehaviorTree.Expression.Cache

/-!
The cache of expressions only grows: a text that has been read is read alike ever after, and
reading it again leaves the cache as it is. What is in it is what its text reads as, so it makes no
difference to a reader what has been read before.
-/

namespace BehaviorTree.ExprCache

variable {cache older newer : ExprCache} {code : String} {e : Expr}

/-- Everything in the older cache is in the newer one. -/
def Kept (older newer : ExprCache) : Prop :=
  ∀ code e, Fields.get? older code = some e → Fields.get? newer code = some e

theorem Kept.refl (cache : ExprCache) : Kept cache cache := fun _ _ h => h

theorem Kept.trans {newest : ExprCache} (h : Kept older newer) (g : Kept newer newest) :
    Kept older newest := fun code e found => g code e (h code e found)

theorem compile_of_get? (found : Fields.get? cache code = some e) :
    cache.compile code = (.ok e, cache) := by
  rw [compile, found]

/-- Compiling keeps what was cached. -/
theorem kept_compile (cache : ExprCache) (code : String) : Kept cache (cache.compile code).2 := by
  rcases found : Fields.get? cache code with _ | e
  · rcases read : Expr.read code with error | e
    · rw [compile, found, read]
      exact .refl cache
    · rw [compile, found, read]
      intro other e' present
      rw [Fields.get?_set]
      split
      · rename_i same
        rw [same, present] at found
        cases found
      · exact present
  · rw [compile_of_get? found]
    exact .refl cache

/-- A text that was read successfully is in the cache. -/
theorem get?_of_compile (read : (cache.compile code).1 = .ok e) :
    Fields.get? (cache.compile code).2 code = some e := by
  rcases found : Fields.get? cache code with _ | e'
  · rcases parsed : Expr.read code with error | e'
    · rw [compile, found, parsed] at read
      cases read
    · rw [compile, found, parsed] at read ⊢
      cases read
      rw [Fields.get?_set, if_pos rfl]
  · rw [compile_of_get? found] at read ⊢
    cases read
    exact found

/-- Everything in the cache is what its text reads as. -/
def Genuine (cache : ExprCache) : Prop := ∀ code e, Fields.get? cache code = some e → Expr.read code = .ok e

theorem genuine_nil : Genuine [] := nofun

/-- From a genuine cache compiling is reading, and the cache stays genuine. -/
theorem Genuine.compile (genuine : cache.Genuine) (code : String) :
    (cache.compile code).1 = Expr.read code ∧ (cache.compile code).2.Genuine := by
  rcases found : Fields.get? cache code with _ | e
  · rcases read : Expr.read code with error | e
    · rw [ExprCache.compile, found, read]
      exact ⟨rfl, genuine⟩
    · rw [ExprCache.compile, found, read]
      refine ⟨rfl, fun other e' present => ?_⟩
      rw [Fields.get?_set] at present
      split at present
      case isTrue same => rw [← same, read, Option.some.inj present]
      case isFalse => exact genuine other e' present
  · rw [compile_of_get? found]
    exact ⟨(genuine code e found).symm, genuine⟩

end BehaviorTree.ExprCache
