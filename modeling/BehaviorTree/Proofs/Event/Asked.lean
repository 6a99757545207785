import BehaviorTree.Proofs.Event.Hushed
import BehaviorTree.Proofs.Event.Mirror

/-!
Who is asked for an interrupt. The orders of hosts, and the events that come of them, ask for interrupts
of certain actors, one after another. Afterwards a request for a caller is pending just when it was so
before or one of the caller's own actors was among them.
-/

namespace BehaviorTree
namespace Context

/-- What comes out of changes that are made one after another. -/
def gather {α β : Type} (step : Context → α → Context) (out : Context → α → List β) (ctx : Context) : List α → List β
  | [] => []
  | a :: rest => out ctx a ++ gather step out (step ctx a) rest

theorem flatMap_gather {α β γ : Type} (step : Context → α → Context) (out : Context → α → List β) (f : β → List γ)
    (ctx : Context) (list : List α) :
    (gather step out ctx list).flatMap f = gather step (fun ctx a => (out ctx a).flatMap f) ctx list := by
  induction list generalizing ctx with
  | nil => rfl
  | cons a rest ih => rw [gather, gather, List.flatMap_append, ih]

/-- Whom an event makes hosts ask for. -/
abbrev Asking := Context → String → Target → List Value → List String

/-- Whom an order makes hosts ask for, itself or by an event. -/
def asked (asking : Asking) (ctx : Context) : Order → List String
  | .interrupt actor => [actor]
  | .dispatch event args address => asking ctx event (ctx.resolve address) args
  | _ => []

/-- Whom orders make hosts ask for when they are carried out in turn. -/
def askedAll (again : Dispatch) (asking : Asking) : Context → List Order → List String :=
  gather (follow again) (asked asking)

/-- Whom a listener asks for when it is handed an event. -/
def askedBy (again : Dispatch) (asking : Asking) (args : List Value) (ctx : Context) (l : Listener Sink) : List String :=
  match l.sink with
  | .mailbox => []
  | .host reaction => askedAll again asking (ctx.note (.heard reaction.tag args)) reaction.orders

/-- Whom an event makes hosts ask for when events are nested up to a depth. -/
def askedWithin : Nat → Asking
  | 0, _, _, _, _ => []
  | depth + 1, ctx, event, target, args =>
    gather (deliver (dispatchWithin depth) args) (askedBy (dispatchWithin depth) (askedWithin depth) args) ctx
      (ctx.bus.listeners event target)

/-- Whom hosts ask for when they carry out orders outside of any event. -/
def askedObeying : Context → List Order → List String :=
  askedAll (dispatchWithin dispatchDepth) (askedWithin dispatchDepth)

variable {own : String → Bool} {caller : Nat} {ctx older newer : Context} {names : List String}

/-- What was asked for between two contexts accounts for the requests. -/
structure Accounts (own : String → Bool) (caller : Nat) (older newer : Context) (names : List String) : Prop where
  named : newer.Named own caller
  pending : newer.isPending caller = (older.isPending caller || names.any own)

theorem Named.congr (named : older.Named own caller) (directory : newer.directory = older.directory) :
    newer.Named own caller := by
  rwa [Named, directory]

namespace Accounts

/-- A change without consequence for requests. -/
theorem of_same (named : older.Named own caller) (directory : newer.directory = older.directory)
    (pending : newer.isPending caller = older.isPending caller) : Accounts own caller older newer [] :=
  ⟨named.congr directory, pending.trans (Bool.or_false _).symm⟩

theorem refl (named : ctx.Named own caller) : Accounts own caller ctx ctx [] := of_same named rfl rfl

theorem trans {between : Context} {more : List String} (one : Accounts own caller older between names)
    (two : Accounts own caller between newer more) : Accounts own caller older newer (names ++ more) where
  named := two.named
  pending := by rw [two.pending, one.pending, List.any_append, Bool.or_assoc]

theorem gather {α : Type} {step : Context → α → Context} {out : Context → α → List String}
    (one : ∀ {ctx : Context} a, ctx.Named own caller → Accounts own caller ctx (step ctx a) (out ctx a)) (list : List α)
    (named : ctx.Named own caller) : Accounts own caller ctx (list.foldl step ctx) (gather step out ctx list) := by
  induction list generalizing ctx with
  | nil => exact .refl named
  | cons a rest ih => exact (one a named).trans (ih (one a named).named)

section

variable {again : Dispatch} {asking : Asking}
  (nested : ∀ {ctx : Context} event target args, ctx.Named own caller →
    Accounts own caller ctx (again ctx event target args) (asking ctx event target args))

include nested

/-- An order makes the requests that it asks for and no others. -/
theorem follow (order : Order) (named : ctx.Named own caller) :
    Accounts own caller ctx (follow again ctx order) (asked asking ctx order) := by
  cases order with
  | interrupt actor =>
    have listed := named actor
    rw [Context.follow, asked]
    rcases known : ctx.directory.at? actor with _ | ⟨other, target⟩
    · rw [known] at listed
      have foreign : own actor = false := by
        rw [← Bool.not_eq_true, listed]
        rintro ⟨⟩
      exact ⟨named, by simp [foreign]⟩
    · rw [known] at listed
      have kept : (ctx.request other).Named own caller := named.congr (by rw [Context.request]; split <;> rfl)
      refine ⟨kept, ?_⟩
      by_cases same : other = caller
      · subst same
        rw [isPending_request_self, List.any_cons, listed.mpr rfl]
        simp
      · have foreign : own actor = false := by
          rw [← Bool.not_eq_true, listed]
          exact fun found => same (Option.some.inj found)
        simp [isPending_request ctx same, foreign]
  | offCaller actor =>
    simp only [Context.follow, asked]
    split <;> exact .of_same named rfl rfl
  | off actor event =>
    simp only [Context.follow, asked]
    split <;> exact .of_same named rfl rfl
  | on actor event address tag orders =>
    simp only [Context.follow, asked]
    split <;> exact .of_same named rfl rfl
  | dispatch event args address => exact nested event (ctx.resolve address) args named
  | advance dt => exact .of_same named rfl rfl

theorem followAll (orders : List Order) (named : ctx.Named own caller) :
    Accounts own caller ctx (followAll again ctx orders) (askedAll again asking ctx orders) :=
  gather (follow nested) orders named

theorem deliver (args : List Value) (l : Listener Sink) (named : ctx.Named own caller) :
    Accounts own caller ctx (deliver again args ctx l) (askedBy again asking args ctx l) := by
  obtain ⟨id, owner, _ | reaction⟩ := l
  · exact .of_same named rfl rfl
  · have heard : Accounts own caller ctx (ctx.note (.heard reaction.tag args)) [] := .of_same named rfl rfl
    exact heard.trans (followAll nested reaction.orders heard.named)

end

theorem within (depth : Nat) : ∀ {ctx : Context} event target args, ctx.Named own caller →
    Accounts own caller ctx (dispatchWithin depth ctx event target args) (askedWithin depth ctx event target args) := by
  induction depth with
  | zero => exact fun _ _ _ named => .refl named
  | succ depth ih => exact fun event target args named => gather (deliver ih args) _ named

theorem obey (orders : List Order) (named : ctx.Named own caller) :
    Accounts own caller ctx (ctx.obey orders) (ctx.askedObeying orders) := followAll (within _) orders named

end Accounts
end Context
end BehaviorTree
