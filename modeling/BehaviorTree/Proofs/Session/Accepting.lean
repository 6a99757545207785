import BehaviorTree.Proofs.Session.Ready
import BehaviorTree.Proofs.Tree.Acceptance
import Mathlib

/-!
Loading in a session. Whatever a host has asked for before, what is in the cache of expressions is what its texts
read as, so it depends on nothing but the source which trees are accepted.
-/

namespace BehaviorTree

namespace Session

open ExprCache (Genuine)

variable {session : Session}

theorem genuine_of_lexicon (genuine : session.context.cache.Genuine) {ctx : Context}
    (lexicon : ctx.lexicon = session.context.lexicon) : ctx.cache.Genuine := by
  rw [show ctx.cache = session.context.cache from congrArg Lexicon.cache lexicon]
  exact genuine

theorem genuine_dropRunner (genuine : session.context.cache.Genuine) (name : String) :
    (session.dropRunner name).context.cache.Genuine := by
  rw [Session.dropRunner]
  split
  · exact genuine
  · exact genuine_of_lexicon genuine (Runner.lexicon_discard _ _)

theorem genuine_unsubscribe (genuine : session.context.cache.Genuine) (label : String) :
    (session.unsubscribe label).context.cache.Genuine := by
  rw [Session.unsubscribe]
  split <;> exact genuine

theorem genuine_evalFor (genuine : session.context.cache.Genuine) (runner : Runner) (code : String) :
    (session.evalFor runner code).2.context.cache.Genuine := by
  have compiled : (session.context.compile code).2.cache.Genuine := (genuine.compile code).2
  simp only [Session.evalFor]
  split
  · exact compiled
  · split <;> exact compiled

namespace Ready

/-- Runners read no expressions, so only the host's own evaluations add to the cache. -/
theorem genuine_performOn (ready : session.Ready) (genuine : session.context.cache.Genuine) {name : String}
    {runner : Runner} (there : session.runners.at? name = some runner) (command : RunnerCommand) :
    (session.performOn name runner command).2.context.cache.Genuine := by
  cases command with
  | run => exact genuine_of_lexicon genuine (ready.runners name runner there).lexicon_run
  | interrupt => exact genuine_of_lexicon genuine (runner.lexicon_interrupt _)
  | clear => exact genuine_of_lexicon genuine (runner.lexicon_clear _)
  | request => exact genuine_of_lexicon genuine (Context.lexicon_request _ _)
  | eval code => exact genuine_evalFor genuine runner code
  | subscribe label event address reaction =>
    have registered : (session.register runner label event address reaction).2.context.cache.Genuine := genuine
    exact genuine_unsubscribe registered label
  | follow stage reaction =>
    simp only [Session.performOn]
    split <;> exact genuine
  | _ => exact genuine

/-- No command puts anything into the cache but what was read. -/
theorem genuine_perform (ready : session.Ready) (genuine : session.context.cache.Genuine) (command : Command) :
    (session.perform command).2.context.cache.Genuine := by
  cases command with
  | load label tree strict source =>
    simp only [Session.perform, Session.load]
    split
    · exact genuine
    · rename_i source _
      have loaded := source.genuine_load tree genuine strict
      simp only [ready.registry]
      rcases result : source.load Registry.builtin session.context.cache tree strict with
        ⟨error | tree, cache⟩ <;> rw [result] at loaded <;> exact loaded
  | spawn label name address debug vars =>
    rw [Session.perform]
    split
    · have counted : { session with context := session.context.newCaller.2 }.context.cache.Genuine := genuine
      rw [spawn_eq]
      exact genuine_dropRunner counted label
    · exact genuine
  | dispatch event args address =>
    exact genuine_of_lexicon genuine (Context.stirs_dispatch session.context event _ args).lexicon
  | compile code =>
    have compiled : (session.context.compile code).2.cache.Genuine := (genuine.compile code).2
    simp only [Session.perform]
    split <;> exact compiled
  | unsubscribe label => exact genuine_unsubscribe genuine label
  | offListener label event address =>
    rw [Session.perform]
    split <;> exact genuine
  | drop name => exact genuine_dropRunner genuine name
  | toRunner name command =>
    rw [Session.perform]
    split
    · rename_i runner found
      exact ready.genuine_performOn genuine found command
    · exact genuine
  | _ => exact genuine

theorem genuine_after (ready : session.Ready) (genuine : session.context.cache.Genuine) (commands : List Command) :
    (session.after commands).context.cache.Genuine := by
  induction commands generalizing session with
  | nil => exact genuine
  | cons command rest ih => exact ih (ready.exchange command) (ready.genuine_perform genuine command)

end Ready

/-- In whatever session of the built-in types: a tree is accepted exactly if it can be loaded, and by a strict
loader exactly if it is declared as well, and the tree that is loaded is the same. -/
theorem load_iff_loadable (input : SourceInput) (commands : List Command) (source : Source) (name : String) :
    let cache := ((new Registry.builtin input).after commands).context.cache
    ((∃ tree, (source.load Registry.builtin cache name false).1 = .ok tree) ↔
      source.Loadable Registry.builtin name) ∧
    ((∃ tree, (source.load Registry.builtin cache name true).1 = .ok tree) ↔
      source.Loadable Registry.builtin name ∧ source.Declared Registry.builtin name) ∧
    ∀ tree tree', (source.load Registry.builtin cache name false).1 = .ok tree →
      (source.load Registry.builtin cache name true).1 = .ok tree' → tree = tree' := by
  intro cache
  have genuine : cache.Genuine := (ready_new input).genuine_after ExprCache.genuine_nil commands
  refine ⟨?_, ?_, fun tree tree' lenient strict => Source.load_unique lenient strict⟩
  · rw [source.loads_iff name genuine]
    simp
  · rw [source.loads_iff name genuine]
    simp

end Session

/-! ### A report -/

/-- Tells of someone's mood once it is calm; the tone of it is not an argument that is known. -/
def reportSource : Source :=
  [{ name := "report"
     root :=
      { name := "Sequence"
        children :=
          [{ name := "Check", args := [("value", .text "mood == 'calm'")] }, { name := "tell" },
            { name := "shout", disabled := true }] } },
    { name := "tell"
      root :=
        { name := "Log", args := [("level", .text "info"), ("message", .text "All is well"), ("tone", .null)]
          input := ["", "who"] } }]

namespace report

/-- A test of a variable. -/
def calm : Node :=
  { id := 2, kind := .check, name := "Check", desc := "", args := [("value", .text "mood == 'calm'")], input := []
    output := [], children := [] }

/-- A note about whoever is wired to its second slot. -/
def tell : Node :=
  { id := 3, kind := .log, name := "Log", desc := ""
    args := [("level", .text "info"), ("message", .text "All is well"), ("tone", .null)]
    input := [none, some "who"], output := [], children := [] }

end report

def report : Tree where
  name := "report"
  desc := ""
  root :=
    { id := 1, kind := .sequence, name := "Sequence", desc := "", args := [], input := [], output := []
      children := [report.calm, report.tell] }

theorem load_report : (reportSource.load Registry.builtin [] "report" false).1 = .ok report := by
  cbv

theorem load_report_strict :
    (reportSource.load Registry.builtin [] "report" true).1 = .error (.unknownArg "Log" "tone") := by
  cbv

theorem load_patrol_lenient : (patrolSource.load Registry.builtin [] "patrol" false).1 = .ok patrol := by
  cbv

/-- The report can be loaded, but not by a strict loader. The patrol can be loaded by both, and is the same. -/
theorem Session.load_iff_loadable_report :
    reportSource.Loadable Registry.builtin "report" ∧ ¬ reportSource.Declared Registry.builtin "report" ∧
      (patrolSource.load Registry.builtin [] "patrol" false).1 = .ok patrol ∧
      ∀ tree, (patrolSource.load Registry.builtin [] "patrol" true).1 = .ok tree → patrol = tree := by
  obtain ⟨lenient, strict, -⟩ := load_iff_loadable (.trees []) [] reportSource "report"
  obtain ⟨-, -, same⟩ := load_iff_loadable (.trees []) [] patrolSource "patrol"
  have loadable := lenient.mp ⟨report, load_report⟩
  refine ⟨loadable, fun declared => ?_, load_patrol_lenient, fun tree => same patrol tree load_patrol_lenient⟩
  obtain ⟨tree, loaded⟩ := strict.mpr ⟨loadable, declared⟩
  have refused : (reportSource.load Registry.builtin [] "report" true).1 = .ok tree := loaded
  rw [load_report_strict] at refused
  cases refused

end BehaviorTree
