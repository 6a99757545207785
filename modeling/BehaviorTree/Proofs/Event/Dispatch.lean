import BehaviorTree.Context
import Mathlib.Logic.Relation

/-!
What events can do to a context. However deep reactions are nested, dispatching an event and
following orders come down to a sequence of a few single changes, and what each of these leaves
alone is left alone, such as the node types and the expressions that have been read.
-/

namespace BehaviorTree

/-- What the names and the texts in a source stand for. -/
structure Lexicon where
  registry : Registry
  cache : ExprCache

namespace Context

/-- The node types, and the expressions read so far. -/
def lexicon (ctx : Context) : Lexicon := ⟨ctx.registry, ctx.cache⟩

/-- One change that an event or an order makes. -/
inductive Stir : Context → Context → Prop
  | note (ctx : Context) (n : Note) : Stir ctx (ctx.note n)
  | deliver (ctx : Context) (listener : Nat) (args : List Value) :
      Stir ctx (ctx.updateMailbox listener (· ++ [args]))
  | request (ctx : Context) (caller : Nat) (target : Target) (actor : String)
      (known : ctx.directory.at? actor = some (caller, target)) : Stir ctx (ctx.request caller)
  | on (ctx : Context) (event : String) (address : Address) (reaction : Reaction) (caller : Nat)
      (target : Target) (actor : String)
      (known : ctx.directory.at? actor = some (caller, target)) :
      Stir ctx (ctx.on event (ctx.resolve address) caller reaction).2
  | off (ctx : Context) (event : String) (caller : Nat) : Stir ctx (ctx.off event caller)
  | offCaller (ctx : Context) (caller : Nat) : Stir ctx (ctx.offCaller caller)
  | advance (ctx : Context) (dt : Float) : Stir ctx (ctx.advance dt)

/-- Any number of changes. -/
abbrev Stirs : Context → Context → Prop := Relation.ReflTransGen Stir

theorem stirs_foldl {α : Type} {f : Context → α → Context} (h : ∀ ctx a, Stirs ctx (f ctx a))
    (items : List α) (ctx : Context) : Stirs ctx (items.foldl f ctx) := by
  induction items generalizing ctx with
  | nil => exact .refl
  | cons a rest ih => exact (h ctx a).trans (ih (f ctx a))

/-- Orders are single changes if dispatching is a sequence of them. -/
theorem stirs_follow {again : Dispatch}
    (nested : ∀ ctx event target args, Stirs ctx (again ctx event target args)) (ctx : Context)
    (order : Order) : Stirs ctx (follow again ctx order) := by
  cases order with
  | interrupt actor =>
    rcases known : ctx.directory.at? actor with _ | ⟨caller, target⟩
    · simp only [follow, known]
      exact .refl
    · simp only [follow, known]
      exact .single (.request ctx caller target actor known)
  | offCaller actor =>
    rcases known : ctx.directory.at? actor with _ | ⟨caller, target⟩
    · simp only [follow, known]
      exact .refl
    · simp only [follow, known]
      exact .single (.offCaller ctx caller)
  | off actor event =>
    rcases known : ctx.directory.at? actor with _ | ⟨caller, target⟩
    · simp only [follow, known]
      exact .refl
    · simp only [follow, known]
      exact .single (.off ctx event caller)
  | on actor event address tag orders =>
    rcases known : ctx.directory.at? actor with _ | ⟨caller, target⟩
    · simp only [follow, known]
      exact .refl
    · simp only [follow, known]
      exact .single (.on ctx event address ⟨tag, orders⟩ caller target actor known)
  | dispatch event args address => exact nested ctx event _ args
  | advance dt => exact .single (.advance ctx dt)

theorem stirs_deliver {again : Dispatch}
    (nested : ∀ ctx event target args, Stirs ctx (again ctx event target args)) (args : List Value)
    (ctx : Context) (listener : Listener Sink) : Stirs ctx (deliver again args ctx listener) := by
  rw [deliver]
  split
  · exact .single (.deliver ctx listener.id args)
  · exact .head (.note ctx _) (stirs_foldl (stirs_follow nested) _ _)

theorem stirs_dispatchWithin (depth : Nat) :
    ∀ ctx event target args, Stirs ctx (dispatchWithin depth ctx event target args) := by
  induction depth with
  | zero => exact fun _ _ _ _ => .refl
  | succ depth ih => exact fun ctx event target args => stirs_foldl (stirs_deliver ih args) _ ctx

theorem stirs_dispatch (ctx : Context) (event : String) (target : Target) (args : List Value) :
    Stirs ctx (ctx.dispatch event target args).2 := stirs_dispatchWithin _ ctx event target args

theorem stirs_obey (ctx : Context) (orders : List Order) : Stirs ctx (ctx.obey orders) :=
  stirs_foldl (stirs_follow (stirs_dispatchWithin _)) orders ctx

/-! ### What changes keep -/

variable {older newer : Context}

/-- What every single change keeps, any number of them keeps. -/
theorem Stirs.keep {α : Type} {view : Context → α} (h : Stirs older newer)
    (step : ∀ a b, Stir a b → view b = view a) : view newer = view older := by
  induction h with
  | refl => rfl
  | tail _ last ih => rw [step _ _ last, ih]

theorem Stirs.lexicon (h : Stirs older newer) : newer.lexicon = older.lexicon :=
  Stirs.keep h fun a b change => by
    cases change with
    | request => rw [Context.request]; split <;> rfl
    | _ => rfl

/-! ### Mailboxes and requests -/

variable (ctx : Context)

@[simp] theorem lexicon_note (n : Note) : (ctx.note n).lexicon = ctx.lexicon := rfl

@[simp] theorem lexicon_request (caller : Nat) : (ctx.request caller).lexicon = ctx.lexicon := by
  rw [request]
  split <;> rfl

@[simp] theorem lexicon_dropRequest (caller : Nat) : (ctx.dropRequest caller).lexicon = ctx.lexicon := rfl

@[simp] theorem lexicon_offCaller (caller : Nat) : (ctx.offCaller caller).lexicon = ctx.lexicon := rfl

@[simp] theorem lexicon_unsubscribe (listener : Nat) :
    (ctx.unsubscribe listener).lexicon = ctx.lexicon := by
  rw [unsubscribe]
  split <;> rfl

theorem lexicon_unsubscribes (listeners : List Nat) :
    (listeners.foldl unsubscribe ctx).lexicon = ctx.lexicon := by
  induction listeners generalizing ctx with
  | nil => rfl
  | cons listener rest ih => exact (ih (ctx.unsubscribe listener)).trans (ctx.lexicon_unsubscribe listener)

@[simp] theorem lexicon_unsubscribeAll (caller : Nat) :
    (ctx.unsubscribeAll caller).lexicon = ctx.lexicon := ctx.lexicon_unsubscribes _

end Context
end BehaviorTree
