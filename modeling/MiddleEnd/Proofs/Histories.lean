import Mathlib.Data.List.DropRight
import MiddleEnd.Analysis
import MiddleEnd.Optimizer

/-!
# Histories of optimizers and analyzers

A session holds an optimizer, an analyzer and the programs they work on, and
serves requests one after the other; optimizing a program changes it in its
place.  What the optimizer and the analyzer remember can be told from the
answers alone: each keeps what it has answered since it was last cleared.  And
they do nothing but remember: a session in which both are replaced by new ones
before every request gives the same answers and leaves the same programs.
-/

namespace MiddleEnd

/-! ## What is kept of a sequence of events -/

section

variable {α β : Type} (clears : β → Bool) (added? : β → Option α)

/--
The entries that the events add, from the last one on that clears; if none
does, those that were there before come first.
-/
def remembered (before : List α) (events : List β) : List α :=
  (if events.any clears then [] else before) ++
    (events.rtakeWhile (!clears ·)).filterMap added?

@[simp]
theorem remembered_nil (before : List α) :
    remembered clears added? before [] = before := by
  simp [remembered]

theorem remembered_concat (before : List α) (events : List β) (event : β) :
    remembered clears added? before (events ++ [event]) =
      if clears event then
        []
      else
        remembered clears added? before events ++ (added? event).toList := by
  cases clearing : clears event with
  | true => simp [remembered, clearing]
  | false =>
      cases new : added? event <;> simp [remembered, clearing, new]

theorem remembered_append (before : List α) (first second : List β) :
    remembered clears added? before (first ++ second) =
      remembered clears added? (remembered clears added? before first) second := by
  -- What is kept depends on the last event that clears, so from the end.
  induction second using List.reverseRecOn with
  | nil => simp
  | append_singleton rest event hypothesis =>
      rw [← List.append_assoc, remembered_concat, remembered_concat, hypothesis]

variable {clears} in
/-- What is there stays in its place as long as nothing clears. -/
theorem prefix_remembered
    {events : List β}
    (keeps : ∀ event ∈ events, clears event = false)
    (before : List α) :
    before <+: remembered clears added? before events := by
  have never : events.any clears = false := by
    simpa using keeps
  rw [remembered, never]
  exact List.prefix_append _ _

end

/-! ## Sessions -/

namespace Optimizer

/-- The passes in the order in which they run, each with whether it is enabled. -/
def passes (optimizer : Optimizer) : List (PassKind × Bool) :=
  PassKind.all.map fun kind => (kind, optimizer.options.enables kind)

/-- The options alone tell what a run does; the history grows by its statistics. -/
theorem optimize_eq (optimizer : Optimizer) (program : Program) :
    optimizer.optimize program =
      ({ optimizer with
          history :=
            optimizer.history ++
              (optimizer.options.optimize program).result.toOption.toList },
        optimizer.options.optimize program) := by
  unfold optimize
  cases outcome : (optimizer.options.optimize program).result with
  | error reason => simp [outcome, Except.toOption]
  | ok statistics => simp [outcome, Except.toOption]

end Optimizer

/-- An optimizer and an analyzer with the programs they work on. -/
structure Session where
  optimizer : Optimizer := {}
  analyzer : Analyzer := {}
  /-- The program in each slot. -/
  programs : String → Program

/-- What a session is asked to do. -/
inductive Request where
  /-- Put a program into a slot. -/
  | load (slot : String) (program : Program)
  /-- Optimize the program in a slot, in its place. -/
  | optimize (slot : String)
  | clearHistory
  /-- Analyze the program in a slot. -/
  | analyze (slot : String)
  | clearReports

/-- What a session answers. -/
inductive Answer where
  | loaded
  /-- The program as it was found, and what the run has left of it. -/
  | optimized (input : Program) (outcome : Optimized)
  | historyCleared
  | analyzed (input : Program) (analysis : Analysis)
  | reportsCleared

namespace Answer

def clearsHistory : Answer → Bool
  | historyCleared => true
  | _ => false

def clearsReports : Answer → Bool
  | reportsCleared => true
  | _ => false

/-- The statistics of a run that succeeded. -/
def statistics? : Answer → Option Statistics
  | optimized _ outcome => outcome.result.toOption
  | _ => none

/-- The analysis of the program that was to be analyzed. -/
def report? : Answer → Option Analysis
  | analyzed input _ => some (.ofProgram input)
  | _ => none

end Answer

namespace Session

/-- Serves one request. -/
def serve (session : Session) : Request → Session × Answer
  | .load slot program =>
      ({ session with
          programs := Function.update session.programs slot program },
        .loaded)
  | .optimize slot =>
      let input := session.programs slot
      let run := session.optimizer.optimize input
      ({ session with
          optimizer := run.1
          programs := Function.update session.programs slot run.2.program },
        .optimized input run.2)
  | .clearHistory =>
      ({ session with optimizer := session.optimizer.clearHistory },
        .historyCleared)
  | .analyze slot =>
      let input := session.programs slot
      let run := session.analyzer.analyze input
      ({ session with analyzer := run.1 }, .analyzed input run.2)
  | .clearReports =>
      ({ session with analyzer := session.analyzer.clearHistory },
        .reportsCleared)

/-- The session with a new optimizer of the same options and a new analyzer. -/
def renew (session : Session) : Session :=
  { session with
    optimizer := { options := session.optimizer.options }
    analyzer := {} }

/-- Serves requests one after the other, each in the given way. -/
def runWith (serve : Session → Request → Session × Answer) :
    Session → List Request → Session × List Answer
  | session, [] => (session, [])
  | session, request :: rest =>
      let served := serve session request
      let later := runWith serve served.1 rest
      (later.1, served.2 :: later.2)

/-- Serves requests one after the other. -/
def run : Session → List Request → Session × List Answer :=
  runWith serve

/-- Serves requests one after the other, each by a new optimizer and analyzer. -/
def runRenewed : Session → List Request → Session × List Answer :=
  runWith fun session => session.renew.serve

theorem run_cons (session : Session) (request : Request) (rest : List Request) :
    session.run (request :: rest) =
      (((session.serve request).1.run rest).1,
        (session.serve request).2 :: ((session.serve request).1.run rest).2) :=
  rfl

theorem run_append (session : Session) (first second : List Request) :
    session.run (first ++ second) =
      (((session.run first).1.run second).1,
        (session.run first).2 ++ ((session.run first).1.run second).2) := by
  induction first generalizing session with
  | nil => rfl
  | cons request rest hypothesis =>
      rw [List.cons_append, run_cons, hypothesis, run_cons]
      rfl

/-! ### One request -/

theorem options_serve (session : Session) (request : Request) :
    (session.serve request).1.optimizer.options = session.optimizer.options := by
  cases request with
  | optimize slot => simp only [serve, Optimizer.optimize_eq]
  | _ => rfl

theorem history_serve (session : Session) (request : Request) :
    (session.serve request).1.optimizer.history =
      remembered Answer.clearsHistory Answer.statistics?
        session.optimizer.history [(session.serve request).2] := by
  rw [← List.nil_append [_], remembered_concat, remembered_nil]
  cases request with
  | optimize slot =>
      simp only [serve, Optimizer.optimize_eq]
      rfl
  | clearHistory => rfl
  | _ => exact (List.append_nil _).symm

theorem reports_serve (session : Session) (request : Request) :
    (session.serve request).1.analyzer.history =
      remembered Answer.clearsReports Answer.report?
        session.analyzer.history [(session.serve request).2] := by
  rw [← List.nil_append [_], remembered_concat, remembered_nil]
  cases request with
  | analyze slot => rfl
  | clearReports => rfl
  | _ => exact (List.append_nil _).symm

theorem eq_clearReports_of_clears
    {session : Session}
    {request : Request}
    (clears : (session.serve request).2.clearsReports = true) :
    request = .clearReports := by
  cases request with
  | clearReports => rfl
  | _ => cases clears

/-- New objects answer in the same way and change the programs in the same way. -/
theorem serve_renew (session : Session) (request : Request) :
    (session.renew.serve request).2 = (session.serve request).2 ∧
      (session.renew.serve request).1.renew =
        (session.serve request).1.renew := by
  cases request with
  | optimize slot => simp only [serve, renew, Optimizer.optimize_eq, and_self]
  | _ => exact ⟨rfl, rfl⟩

/-! ### Runs -/

theorem options_run (session : Session) (requests : List Request) :
    (session.run requests).1.optimizer.options = session.optimizer.options := by
  induction requests generalizing session with
  | nil => rfl
  | cons request rest hypothesis =>
      rw [run_cons, hypothesis, options_serve]

/-- What is kept of every answer is kept of all of them. -/
theorem run_remembered
    {α : Type}
    (log : Session → List α)
    {clears : Answer → Bool}
    {added? : Answer → Option α}
    (step :
      ∀ session request,
        log (session.serve request).1 =
          remembered clears added? (log session) [(session.serve request).2])
    (session : Session)
    (requests : List Request) :
    log (session.run requests).1 =
      remembered clears added? (log session) (session.run requests).2 := by
  induction requests generalizing session with
  | nil => simp [run, runWith]
  | cons request rest hypothesis =>
      rw [run_cons, hypothesis, step, ← remembered_append]
      rfl

theorem history_run (session : Session) (requests : List Request) :
    (session.run requests).1.optimizer.history =
      remembered Answer.clearsHistory Answer.statistics?
        session.optimizer.history (session.run requests).2 :=
  run_remembered (·.optimizer.history) history_serve session requests

theorem reports_run (session : Session) (requests : List Request) :
    (session.run requests).1.analyzer.history =
      remembered Answer.clearsReports Answer.report?
        session.analyzer.history (session.run requests).2 :=
  run_remembered (·.analyzer.history) reports_serve session requests

theorem clearsReports_of_mem_run
    (session : Session)
    {requests : List Request}
    (keeps : .clearReports ∉ requests) :
    ∀ answer ∈ (session.run requests).2, answer.clearsReports = false := by
  induction requests generalizing session with
  | nil => simp [run, runWith]
  | cons request rest hypothesis =>
      rcases List.ne_and_not_mem_of_not_mem_cons keeps with ⟨here, later⟩
      rw [run_cons, List.forall_mem_cons]
      refine ⟨?_, hypothesis _ later⟩
      rw [← Bool.not_eq_true]
      intro clears
      exact here (eq_clearReports_of_clears clears).symm

theorem prefix_reports_run
    (session : Session)
    {requests : List Request}
    (keeps : .clearReports ∉ requests) :
    session.analyzer.history <+: (session.run requests).1.analyzer.history := by
  rw [reports_run]
  exact prefix_remembered _ (session.clearsReports_of_mem_run keeps) _

/-- Sessions that differ in what they remember cannot be told apart. -/
theorem runRenewed_eq
    {session other : Session}
    (same : other.renew = session.renew)
    (requests : List Request) :
    (other.runRenewed requests).2 = (session.run requests).2 ∧
      (other.runRenewed requests).1.renew = (session.run requests).1.renew := by
  induction requests generalizing session other with
  | nil => exact ⟨rfl, same⟩
  | cons request rest hypothesis =>
      -- Both sessions are alike but for what they remember, before and after.
      rcases session.serve_renew request with ⟨answer, next⟩
      rw [← same] at answer next
      rcases hypothesis next with ⟨answers, final⟩
      exact ⟨congrArg₂ List.cons answer answers, final⟩

end Session

/--
What a session remembers, whatever it is asked.  Its options and passes stay as
they are.  The history of the optimizer holds the statistics of the runs that
succeeded since it was last cleared, in order, and that of the analyzer the
analyses of the programs that were analyzed since it was last cleared, which
stay as they are until it is cleared again.  No answer and no program depends on
what is remembered.
-/
theorem Session.answers_determine_histories
    (session : Session)
    (requests : List Request) :
    let final := (session.run requests).1
    let answers := (session.run requests).2
    let statistics :=
      remembered Answer.clearsHistory Answer.statistics?
        session.optimizer.history answers
    let reports :=
      remembered Answer.clearsReports Answer.report?
        session.analyzer.history answers
    final.optimizer.options = session.optimizer.options ∧
    final.optimizer.passes = session.optimizer.passes ∧
    final.optimizer.history = statistics ∧
    final.optimizer.last? = statistics.getLast? ∧
    final.analyzer.history = reports ∧
    final.analyzer.last? = reports.getLast? ∧
    (∀ later : List Request,
      .clearReports ∉ later →
        reports <+: (session.run (requests ++ later)).1.analyzer.history) ∧
    (session.runRenewed requests).2 = answers ∧
    (session.runRenewed requests).1.programs = final.programs := by
  intro final answers statistics reports
  have sameOptions := session.options_run requests
  have history := session.history_run requests
  have analyses : final.analyzer.history = reports :=
    session.reports_run requests
  rcases runRenewed_eq rfl requests with ⟨sameAnswers, sameFinal⟩
  have samePrograms := congrArg Session.programs sameFinal
  refine ⟨sameOptions, ?_, history, congrArg List.getLast? history,
    analyses, congrArg List.getLast? analyses, ?_, sameAnswers, samePrograms⟩
  · rw [Optimizer.passes, sameOptions]
    rfl
  · intro later keeps
    rw [run_append, ← analyses]
    exact final.prefix_reports_run keeps

/-- A program is optimized before and after a clear, and another one fails. -/
theorem Session.answers_determine_histories_cleared :
    let program (body : Expr) : Program := ⟨"m", [.expr body]⟩
    let sum := Expr.binary .add (.literal (.int 1)) (.literal (.int 2))
    let quotient := Expr.binary .divide (.literal (.int 1)) (.literal (.int 0))
    let session : Session := { programs := fun _ => program sum }
    let requests : List Request :=
      [.optimize "a", .clearHistory, .optimize "b", .load "c" (program quotient),
        .optimize "c", .optimize "a", .analyze "a"]
    let later : List Request := [.optimize "a", .clearHistory, .analyze "c"]
    let reports := [Analysis.ofProgram (program (.literal (.int 3)))]
    (session.run requests).1.optimizer.history.map Statistics.transformations =
      [2, 1] ∧
    (session.run requests).1.analyzer.history = reports ∧
    .clearReports ∉ later ∧
    reports <+: (session.run (requests ++ later)).1.analyzer.history := by
  intro program sum quotient session requests later reports
  rcases answers_determine_histories session requests with
    ⟨_, _, history, _, analyses, _, kept, _⟩
  have keeps : .clearReports ∉ later := by
    simp [later]
  have found :
      remembered Answer.clearsReports Answer.report? session.analyzer.history
        (session.run requests).2 = reports := by
    simp only [reports, session, requests, program, sum, quotient]
    rfl
  rw [found] at analyses kept
  refine ⟨?_, analyses, keeps, kept later keeps⟩
  rw [history]
  decide

end MiddleEnd
