import BehaviorTree.Proofs.Descent.Effect
import Mathlib.Data.List.Basic

/-!
What goes on inside a tick. A tick of a node ticks some of its children, and these tick theirs;
each of these calls is told with the saved state that the child goes on from, with what the calling
node remembers meanwhile, and with the scenes before and at the call.
-/

namespace BehaviorTree.Descent

/-- A tick of a child. -/
structure Call where
  /-- Which child of the calling node it is. -/
  child : Nat
  node : Node
  /-- The saved state to go on from, none on a fresh tick. -/
  state : Option Active
  path : Path
  /-- What the calling node remembers meanwhile. -/
  memory : Memory
  /-- The scene in which the calling node turned to the child. -/
  before : Scene
  scene : Scene

section

variable (visit : Visit)

/-- The fresh ticks of children by which a move is carried out. -/
def entries : Nat → Move → Scene → Scene → List Call
  | turns + 1, .enter i memory, before, s =>
    match visit.node.children[i]? with
    | none => []
    | some child =>
      ⟨i, child, none, visit.path, memory, before, s⟩ ::
        match (tick child none visit.path).play s with
        | (.ok (.done verdict), t) =>
          match (heed visit visit.node.kind memory i verdict).play t with
          | (.ok move, u) => entries turns move t u
          | (.error _, _) => []
        | _ => []
  | _, _, _, _ => []

/-- The fresh ticks of children that follow from a rule. -/
def entriesOf (rule : TickM Move) (s : Scene) : List Call :=
  match rule.play s with
  | (.ok move, t) => entries visit (turns visit t.context move) move s t
  | (.error _, _) => []

/-- The tick of a child of a Parallel node, unless it has completed. -/
def callBeside (i : Nat) (child : Node) (s : Scene) : Option Share → List Call
  | none => [⟨i, child, none, [], .nothing, s, s⟩]
  | some (.settled _) => []
  | some (.active state) => [⟨i, child, some state, [], .nothing, s, s⟩]

/-- The ticks of the children of a Parallel node from the `i`-th on. -/
def entriesBeside (i : Nat) : List Node → List (Option Share) → Scene → List Call
  | child :: children, share :: shares, s =>
    callBeside i child s share ++
      match (tickShare visit (tick child) share).play s with
      | (.ok _, t) => entriesBeside (i + 1) children shares t
      | (.error _, _) => []
  | _, _, _ => []

/-- The scene once an execution of the node has begun. -/
def begun (s : Scene) : Scene :=
  s.noteDebug (.entered visit.node.name visit.node.id (visit.path.length - 1))

/-- The ticks of its children that a tick of a node makes, in order. -/
def inner (s : Scene) : Option Active → List Call
  | none =>
    if visit.node.kind = .parallel then
      entriesBeside visit 0 visit.node.children (visit.node.children.map fun _ => none) (begun visit s)
    else entriesOf visit (start visit visit.node.kind) (begun visit s)
  | some (.resting memory) => entriesOf visit (goOn visit visit.node.kind memory) (begun visit s)
  | some (.beside shares) =>
    entriesBeside visit 0 visit.node.children (shares.map some) (begun visit s)
  | some (.over memory i state) =>
    if (armed? visit.node.kind memory).any (· ≤ s.context.clock) then []
    else
      match visit.node.children[i]? with
      | none => []
      | some child =>
        ⟨i, child, some state, visit.path, memory, s, s⟩ ::
          match (tick child (some state) visit.path).play s with
          | (.ok (.done verdict), t) =>
            entriesOf visit (heed visit visit.node.kind memory i verdict) (begun visit t)
          | _ => []

end

mutual

/-- All the ticks within a tick of a node, each followed by those within it. -/
def calls : Node → Option Active → Path → Scene → List Call
  | ⟨id, kind, name, desc, args, input, output, children⟩, state, path, s =>
    (inner (visitAt ⟨id, kind, name, desc, args, input, output, children⟩ (path ++ [id])) s state).flatMap
      fun call => call :: callsAmong children call.child call

/-- The ticks within a call for one of several nodes. -/
def callsAmong : List Node → Nat → Call → List Call
  | [], _, _ => []
  | node :: _, 0, call => calls node call.state call.path call.scene
  | _ :: rest, i + 1, call => callsAmong rest i call

end

namespace Call

/-- The ticks within a call. -/
def within (call : Call) : List Call := calls call.node call.state call.path call.scene

/-- What comes of a call. -/
def result (call : Call) : Except Fault Report := ((tick call.node call.state call.path).play call.scene).1

/-- The ticks that a call makes itself. -/
def made (call : Call) : List Call :=
  inner (visitAt call.node (call.path ++ [call.node.id])) call.scene call.state

end Call

/-- Calls with the ticks within them. -/
def spread (made : List Call) : List Call := made.flatMap fun call => call :: call.within

@[simp] theorem spread_nil : spread [] = [] := rfl

@[simp] theorem spread_cons (call : Call) (made : List Call) :
    spread (call :: made) = call :: (call.within ++ spread made) := rfl

@[simp] theorem spread_append (made more : List Call) : spread (made ++ more) = spread made ++ spread more :=
  List.flatMap_append

theorem callsAmong_eq {call : Call} : ∀ {nodes : List Node} {i : Nat},
    nodes[i]? = some call.node → callsAmong nodes i call = call.within
  | node :: _, 0, here => by
    rw [List.getElem?_cons_zero, Option.some.injEq] at here
    rw [callsAmong, Call.within, here]
  | _ :: rest, i + 1, here => by
    rw [callsAmong]
    exact callsAmong_eq (by simpa using here)

/-! ### Calls are for children -/

section

variable {visit : Visit} {call : Call}

/-- The entries are calls of children, each at its place. -/
theorem child_entries {turns : Nat} {move : Move} {before s : Scene}
    (member : call ∈ entries visit turns move before s) :
    visit.node.children[call.child]? = some call.node := by
  induction turns generalizing move before s with
  | zero => cases move <;> cases member
  | succ turns ih =>
    cases move with
    | finish | rest => cases member
    | enter i memory =>
      rw [entries] at member
      split at member
      · cases member
      · rename_i child here
        rcases List.mem_cons.mp member with rfl | member
        · exact here
        · split at member
          · split at member
            · exact ih member
            · cases member
          · cases member

theorem child_entriesOf {rule : TickM Move} {s : Scene} (member : call ∈ entriesOf visit rule s) :
    visit.node.children[call.child]? = some call.node := by
  rw [entriesOf] at member
  split at member
  · exact child_entries member
  · cases member

/-- A call beside others is one of the child. -/
theorem mem_callBeside {i : Nat} {child : Node} {s : Scene} {share : Option Share}
    (member : call ∈ callBeside i child s share) : call.child = i ∧ call.node = child := by
  rcases share with _ | (verdict | state)
  · rw [List.mem_singleton.mp member]
    exact ⟨rfl, rfl⟩
  · cases member
  · rw [List.mem_singleton.mp member]
    exact ⟨rfl, rfl⟩

theorem child_entriesBeside {nodes : List Node} {i : Nat} {shares : List (Option Share)} {s : Scene}
    (member : call ∈ entriesBeside visit i nodes shares s) :
    i ≤ call.child ∧ nodes[call.child - i]? = some call.node := by
  induction nodes generalizing i shares s with
  | nil => cases shares <;> cases member
  | cons child children ih =>
    rcases shares with _ | ⟨share, shares⟩
    · cases member
    · rcases List.mem_append.mp member with first | later
      · obtain ⟨same, here⟩ := mem_callBeside first
        simp [same, here]
      · split at later
        · obtain ⟨le, here⟩ := ih later
          obtain ⟨k, same⟩ := Nat.exists_eq_add_of_le le
          rw [same, Nat.add_sub_cancel_left] at here
          rw [same, show i + 1 + k - i = k + 1 by omega, List.getElem?_cons_succ, here]
          exact ⟨by omega, rfl⟩
        · cases later

/-- What a node calls are its children, each at its place. -/
theorem child_inner {s : Scene} {state : Option Active} (member : call ∈ inner visit s state) :
    visit.node.children[call.child]? = some call.node := by
  rcases state with _ | (memory | ⟨memory, i, state⟩ | shares)
  · rw [inner] at member
    split at member
    · exact (child_entriesBeside member).2
    · exact child_entriesOf member
  · exact child_entriesOf member
  · rw [inner] at member
    split at member
    · cases member
    · split at member
      · cases member
      · rename_i child here
        rcases List.mem_cons.mp member with rfl | member
        · exact here
        · split at member
          · exact child_entriesOf member
          · cases member
  · exact (child_entriesBeside member).2

end

/-- The ticks within a tick are those that the node makes itself, and those within them. -/
theorem calls_eq (node : Node) (state : Option Active) (path : Path) (s : Scene) :
    calls node state path s = spread (inner (visitAt node (path ++ [node.id])) s state) := by
  obtain ⟨id, kind, name, desc, args, input, output, children⟩ := node
  rw [calls]
  refine List.flatMap_congr fun call member => ?_
  exact congrArg (call :: ·) (callsAmong_eq (child_inner member))

end BehaviorTree.Descent
