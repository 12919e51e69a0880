import Mathlib.Data.List.Basic
import Mathlib.Data.List.Induction
import MiddleEnd.CommandLine

/-!
# What a command line depends on

Arguments come in groups: a flag, a level written as one word, or an option with
its value, which may be any text.  Reading a group raises a flag or replaces a
value, so reading groups one after the other leaves the flags that occur and the
last value of each setting.  Where these are the same, a run leaves the same
behind, except that it may tell another time.

Nothing is written before all arguments are read and the level and the sample are
known, so a command line that is refused has no output.
-/

namespace MiddleEnd

namespace CommandLine

/-! ## Groups of arguments -/

/-- The argument that raises a flag. -/
def Flag.text : Flag → String
  | .showSource => "--ast"
  | .analyze => "--analyze"
  | .optimize => "--optimize"

/-- The argument that a value of the setting follows. -/
def Setting.text : Setting → String
  | .level => "--level"
  | .entryPoint => "--entry"
  | .sample => "--sample"

/-- Arguments that belong together. -/
inductive Group where
  | flag (flag : Flag)
  /-- A level written as one word. -/
  | levelSwitch (rest : String)
  | setting (setting : Setting) (value : String)
deriving DecidableEq

namespace Group

/-- The arguments of a group. -/
def arguments : Group → List String
  | .flag raised => [raised.text]
  | .levelSwitch rest => ["-O" ++ rest]
  | .setting given value => [given.text, value]

/-- The value that a group gives to a setting, if it gives it one. -/
def value? (setting : Setting) : Group → Option String
  | .flag _ => none
  | .levelSwitch rest => if setting = .level then some ("-O" ++ rest) else none
  | .setting given value => if setting = given then some value else none

/-- The last value that is given to a setting. -/
def lastValue? (setting : Setting) (groups : List Group) : Option String :=
  (groups.filterMap (value? setting)).getLast?

theorem lastValue?_concat
    (setting : Setting)
    (groups : List Group)
    (group : Group) :
    lastValue? setting (groups ++ [group]) =
      (group.value? setting).or (lastValue? setting groups) := by
  rw [lastValue?, List.filterMap_append, List.getLast?_append]
  cases given : group.value? setting <;> simp [lastValue?, given]

end Group

theorem Argument.ofText_append (rest : String) :
    Argument.ofText ("-O" ++ rest) = .levelSwitch := by
  have switch : isLevelSwitch ("-O" ++ rest) = true := by
    rw [isLevelSwitch, String.toList_append]
    rfl
  have apart (text : String) (other : isLevelSwitch text = false) :
      "-O" ++ rest ≠ text := by
    rintro rfl
    rw [switch] at other
    cases other
  rw [ofText, if_neg, if_neg (apart _ (by decide)), if_pos switch]
  rw [not_or]
  exact ⟨apart _ (by decide), apart _ (by decide)⟩

namespace Request

/-! ## Reading groups -/

/-- The request with what a group says. -/
def add (request : Request) : Group → Request
  | .flag flag => request.raise flag
  | .levelSwitch rest => request.set ("-O" ++ rest) .level
  | .setting setting value => request.set value setting

/-- A group is read as a whole, whatever its value looks like. -/
theorem read_arguments_append
    (request : Request)
    (group : Group)
    (rest : List String) :
    request.read (group.arguments ++ rest) = (request.add group).read rest := by
  cases group with
  | flag flag => cases flag <;> rfl
  | levelSwitch word =>
      show request.read (("-O" ++ word) :: rest) = _
      rw [read, Argument.ofText_append]
      rfl
  | setting setting value => cases setting <;> rfl

theorem read_flatMap_arguments (request : Request) (groups : List Group) :
    request.read (groups.flatMap Group.arguments) =
      .ok (groups.foldl add request) := by
  induction groups generalizing request with
  | nil => rfl
  | cons group rest hypothesis =>
      rw [List.flatMap_cons, read_arguments_append, hypothesis, List.foldl_cons]

/-! ## What has been read -/

/-- Whether the flag is raised. -/
def raised (request : Request) : Flag → Bool
  | .showSource => request.showSource
  | .analyze => request.analyze
  | .optimize => request.optimize

/-- The value of the setting. -/
def value? (request : Request) : Setting → Option String
  | .level => some request.levelText
  | .entryPoint => request.entryPoint
  | .sample => some request.sample

/-- Flags and values are all there is. -/
theorem eq_of_raised_of_value?
    {request other : Request}
    (flags : ∀ flag, request.raised flag = other.raised flag)
    (values : ∀ setting, request.value? setting = other.value? setting) :
    request = other := by
  have showSource := flags .showSource
  have analyze := flags .analyze
  have optimize := flags .optimize
  have levelText := Option.some.inj (values .level)
  have entryPoint := values .entryPoint
  have sample := Option.some.inj (values .sample)
  cases request
  cases other
  cases showSource
  cases analyze
  cases optimize
  cases levelText
  cases entryPoint
  cases sample
  rfl

theorem raised_add (request : Request) (group : Group) (flag : Flag) :
    (request.add group).raised flag =
      (request.raised flag || decide (group = .flag flag)) := by
  cases group with
  | flag other => cases other <;> cases flag <;> simp [add, raise, raised]
  | levelSwitch rest => cases flag <;> simp [add, set, raised]
  | setting setting value =>
      cases setting <;> cases flag <;> simp [add, set, raised]

theorem value?_add (request : Request) (group : Group) (setting : Setting) :
    (request.add group).value? setting =
      (group.value? setting).or (request.value? setting) := by
  cases group with
  | flag flag => cases flag <;> cases setting <;> rfl
  | levelSwitch rest => cases setting <;> rfl
  | setting other value => cases other <;> cases setting <;> rfl

theorem raised_foldl_add
    (request : Request)
    (groups : List Group)
    (flag : Flag) :
    (groups.foldl add request).raised flag =
      (request.raised flag || decide (.flag flag ∈ groups)) := by
  induction groups using List.reverseRecOn with
  | nil => simp
  | append_singleton rest group hypothesis =>
      rw [List.foldl_concat, raised_add, hypothesis, Bool.or_assoc]
      simp [eq_comm]

/-- The last value that is given to a setting stays. -/
theorem value?_foldl_add
    (request : Request)
    (groups : List Group)
    (setting : Setting) :
    (groups.foldl add request).value? setting =
      (Group.lastValue? setting groups).or (request.value? setting) := by
  induction groups using List.reverseRecOn with
  | nil => rfl
  | append_singleton rest group hypothesis =>
      rw [List.foldl_concat, value?_add, hypothesis, Group.lastValue?_concat,
        Option.or_assoc]

theorem value?_foldl_add_of_lastValue?
    {groups : List Group}
    {setting : Setting}
    {value : String}
    (last : Group.lastValue? setting groups = some value)
    (request : Request) :
    (groups.foldl add request).value? setting = some value := by
  rw [value?_foldl_add, last, Option.some_or]

end Request

/-- The same flags occur, and every setting has the same last value. -/
structure Agree (groups others : List Group) : Prop where
  flags : ∀ flag, .flag flag ∈ groups ↔ .flag flag ∈ others
  values :
    ∀ setting,
      Group.lastValue? setting groups = Group.lastValue? setting others

theorem Agree.foldl_add_eq
    {groups others : List Group}
    (agree : Agree groups others)
    (request : Request) :
    groups.foldl Request.add request = others.foldl Request.add request := by
  apply Request.eq_of_raised_of_value?
  · intro flag
    rw [Request.raised_foldl_add, Request.raised_foldl_add]
    simp only [agree.flags]
  · intro setting
    rw [Request.value?_foldl_add, Request.value?_foldl_add, agree.values]

/-! ## Runs -/

/-- No arguments ask for nothing, so they need no case of their own. -/
theorem run_eq (programName : String) (elapsed : Int) (arguments : List String) :
    run programName elapsed arguments =
      match ({} : Request).read arguments with
      | .error interruption => interruption.output programName
      | .ok request => request.output programName elapsed := by
  cases arguments <;> rfl

theorem run_flatMap_arguments
    (programName : String)
    (elapsed : Int)
    (groups : List Group) :
    run programName elapsed (groups.flatMap Group.arguments) =
      (groups.foldl Request.add {}).output programName elapsed := by
  rw [run_eq, Request.read_flatMap_arguments]

/-! ### The time that a run took -/

/-- What a run leaves behind, with the time that it took left open. -/
structure Masked where
  exitCode : Nat
  /-- The output, up to the time if it tells one. -/
  out : String := ""
  /-- Whether the output ends by telling the time. -/
  timed : Bool := false
  err : String := ""

/-- What is left behind after the given time. -/
def Masked.after (masked : Masked) (elapsed : Int) : Output where
  exitCode := masked.exitCode
  out :=
    if masked.timed then
      masked.out ++ ("Optimization time: " ++ toString elapsed ++ " us\n")
    else
      masked.out
  err := masked.err

/-- What is written first does not depend on the time. -/
theorem Masked.exists_behind (masked : Masked) (before : String) :
    ∃ later : Masked, ∀ elapsed,
      { masked.after elapsed with out := before ++ (masked.after elapsed).out } =
        later.after elapsed := by
  refine ⟨{ masked with out := before ++ masked.out }, ?_⟩
  intro elapsed
  cases timed : masked.timed with
  | false => simp [after, timed]
  | true => simp [after, timed, String.append_assoc]

theorem exists_report_eq (statistics : Statistics) :
    ∃ before, ∀ elapsed,
      { statistics with elapsed }.report =
        before ++ ("Optimization time: " ++ toString elapsed ++ " us\n") := by
  have regroup (first second third fourth : String) :
      first ++ second ++ third ++ fourth =
        first ++ (second ++ third ++ fourth) := by
    simp only [String.append_assoc]
  unfold Statistics.report
  cases empty : statistics.passes.isEmpty with
  | true =>
      simp only [empty, if_true]
      exact ⟨_, fun elapsed => regroup _ _ _ _⟩
  | false =>
      simp only [empty]
      exact ⟨_, fun elapsed => regroup _ _ _ _⟩

theorem exists_optimizeOutput_eq (options : Options) (program : Program) :
    ∃ masked : Masked, ∀ elapsed,
      optimizeOutput elapsed options program = masked.after elapsed := by
  cases outcome : (options.optimize program).result with
  | error reason =>
      refine ⟨{ exitCode := 2
                out := options.passTable ++ "\n"
                err := errorLine reason.message }, ?_⟩
      intro elapsed
      rw [optimizeOutput, outcome]
      rfl
  | ok statistics =>
      rcases exists_report_eq statistics with ⟨before, report⟩
      refine ⟨{ exitCode := 0
                out :=
                  options.passTable ++ "\n" ++
                    (options.optimize program).program.source ++ "\n" ++ before
                timed := true }, ?_⟩
      intro elapsed
      simp only [optimizeOutput, outcome, Masked.after, report,
        String.append_assoc, if_true]

theorem exists_process_eq
    (request : Request)
    (options : Options)
    (program : Program) :
    ∃ masked : Masked, ∀ elapsed,
      request.process elapsed options program = masked.after elapsed := by
  have optimized :
      ∃ masked : Masked, ∀ elapsed,
        (if request.optimize then optimizeOutput elapsed options program
          else { exitCode := 0 }) = masked.after elapsed := by
    cases request.optimize with
    | false => exact ⟨{ exitCode := 0 }, fun _ => rfl⟩
    | true => exact exists_optimizeOutput_eq options program
  rcases optimized with ⟨masked, same⟩
  rcases masked.exists_behind
    ((if request.showSource then program.source ++ "\n" else "") ++
      (if request.analyze then analysisText program else "")) with ⟨later, behind⟩
  refine ⟨later, fun elapsed => ?_⟩
  rw [← behind, ← same]
  rfl

theorem exists_output_eq (request : Request) (programName : String) :
    ∃ masked : Masked, ∀ elapsed,
      request.output programName elapsed = masked.after elapsed := by
  unfold Request.output
  split
  · exact ⟨{ exitCode := 1, err := usage programName }, fun _ => rfl⟩
  · split
    · rename_i message _
      exact ⟨{ exitCode := 2, err := errorLine message }, fun _ => rfl⟩
    · rename_i options program _
      exact exists_process_eq request.orAll options program

/-- The exit code and the errors never tell the time, and the output only last. -/
theorem exists_run_eq (programName : String) (arguments : List String) :
    ∃ masked : Masked, ∀ elapsed,
      run programName elapsed arguments = masked.after elapsed := by
  simp only [run_eq]
  cases ({} : Request).read arguments with
  | ok request => exact exists_output_eq request programName
  | error interruption =>
      refine ⟨{ exitCode := (interruption.output programName).exitCode
                out := (interruption.output programName).out
                err := (interruption.output programName).err }, fun _ => rfl⟩

/-! ### Exit codes -/

theorem exitCode_process_ne_one
    (request : Request)
    (elapsed : Int)
    (options : Options)
    (program : Program) :
    (request.process elapsed options program).exitCode ≠ 1 := by
  show (if request.optimize then optimizeOutput elapsed options program
    else { exitCode := 0 } : Output).exitCode ≠ 1
  cases request.optimize with
  | false => exact Nat.zero_ne_one
  | true =>
      rw [if_pos rfl, optimizeOutput]
      cases (options.optimize program).result with
      | error reason => exact Nat.succ_ne_self 1
      | ok statistics => exact Nat.zero_ne_one

/-- Arguments that are refused leave no output. -/
theorem out_run_of_exitCode
    {programName : String}
    {elapsed : Int}
    {arguments : List String}
    (refused : (run programName elapsed arguments).exitCode = 1) :
    (run programName elapsed arguments).out = "" := by
  rw [run_eq] at refused ⊢
  cases outcome : ({} : Request).read arguments with
  | error interruption =>
      rw [outcome] at refused
      cases interruption with
      | listSamples => cases refused
      | _ => rfl
  | ok request =>
      simp only [outcome, Request.output] at refused ⊢
      split at refused
      · rename_i missing
        rw [if_pos missing]
      · split at refused
        · cases refused
        · exact absurd refused (exitCode_process_ne_one _ _ _ _)

theorem find_eq_error
    {name : String}
    (unknown : ∀ sample ∈ Sample.catalog, sample.name ≠ name) :
    Sample.find name = .error ⟨name⟩ := by
  have missing : Sample.catalog.find? (·.name == name) = none := by
    simpa using unknown
  rw [Sample.find, missing]

/-- A request whose level cannot be read or whose sample is not known. -/
theorem exists_resolve_eq_error
    {request : Request}
    (unknown :
      (request.levelText ≠ "" ∧
        ∀ level, Level.parse request.levelText ≠ .ok level) ∨
      ∀ sample ∈ Sample.catalog, sample.name ≠ request.sample) :
    ∃ message, request.resolve = .error message := by
  rcases unknown with ⟨given, refused⟩ | unknown
  · have nonempty : ¬ request.levelText.isEmpty = true := by
      rw [String.isEmpty_iff]
      exact given
    cases outcome : Level.parse request.levelText with
    | ok level => exact absurd outcome (refused level)
    | error reason =>
        refine ⟨reason.message, ?_⟩
        rw [Request.resolve, if_neg nonempty, outcome]
        rfl
  · rw [Request.resolve, find_eq_error unknown]
    split
    · exact ⟨_, rfl⟩
    · -- The level is read first, and may fail before the sample does.
      cases Level.parse request.levelText with
      | error reason => exact ⟨_, rfl⟩
      | ok level => exact ⟨_, rfl⟩

theorem output_of_resolve_eq_error
    {request : Request}
    {message : String}
    (named : request.sample ≠ "")
    (fails : request.resolve = .error message)
    (programName : String)
    (elapsed : Int) :
    request.output programName elapsed =
      { exitCode := 2, err := errorLine message } := by
  have nonempty : ¬ request.sample.isEmpty = true := by
    rw [String.isEmpty_iff]
    exact named
  rw [Request.output, if_neg nonempty, fails]

/-! ## Groups in any order -/

namespace Group

/-- Whether the group gives a value to the setting. -/
def gives (setting : Setting) (group : Group) : Bool :=
  (group.value? setting).isSome

theorem filterMap_value?_filter_gives (setting : Setting) (groups : List Group) :
    (groups.filter (gives setting)).filterMap (value? setting) =
      groups.filterMap (value? setting) := by
  rw [List.filterMap_filter]
  congr 1
  funext group
  cases given : group.value? setting <;> simp [gives, given]

end Group

/-- Groups may change places unless they give values to the same setting. -/
theorem Agree.of_perm
    {groups others : List Group}
    (permuted : groups.Perm others)
    (kept :
      ∀ setting,
        groups.filter (Group.gives setting) =
          others.filter (Group.gives setting)) :
    Agree groups others where
  flags := fun _ => permuted.mem_iff
  values := by
    intro setting
    rw [Group.lastValue?, Group.lastValue?,
      ← Group.filterMap_value?_filter_gives, kept,
      Group.filterMap_value?_filter_gives]

theorem Agree.of_repeated_flag
    {before after : List Group}
    {flag : Flag}
    (raised : .flag flag ∈ before ++ after) :
    Agree (before ++ .flag flag :: after) (before ++ after) where
  flags := by
    intro other
    rw [List.mem_append, List.mem_cons, List.mem_append]
    constructor
    · rintro (inside | same | inside)
      · exact Or.inl inside
      · cases same
        exact List.mem_append.1 raised
      · exact Or.inr inside
    · rintro (inside | inside)
      · exact Or.inl inside
      · exact Or.inr (Or.inr inside)
  values := by
    intro setting
    rw [Group.lastValue?, Group.lastValue?, List.filterMap_append,
      List.filterMap_append]
    rfl

/-- Both leave the same behind, but for the time that each of them took. -/
def SameResult (programName : String) (arguments others : List String) : Prop :=
  ∃ masked : Masked, ∀ elapsed,
    run programName elapsed arguments = masked.after elapsed ∧
      run programName elapsed others = masked.after elapsed

theorem Agree.sameResult
    {groups others : List Group}
    (agree : Agree groups others)
    (programName : String) :
    SameResult programName
      (groups.flatMap Group.arguments) (others.flatMap Group.arguments) := by
  rcases exists_run_eq programName (groups.flatMap Group.arguments) with
    ⟨masked, same⟩
  refine ⟨masked, fun elapsed => ⟨same elapsed, ?_⟩⟩
  rw [← same, run_flatMap_arguments, run_flatMap_arguments,
    agree.foldl_add_eq]

/-- A level that cannot be read or a sample that is not known leaves no output. -/
theorem run_of_unknown
    {groups : List Group}
    {sample : String}
    (last : Group.lastValue? .sample groups = some sample)
    (named : sample ≠ "")
    (unknown :
      (∃ text,
        Group.lastValue? .level groups = some text ∧ text ≠ "" ∧
          ∀ level, Level.parse text ≠ .ok level) ∨
      ∀ known ∈ Sample.catalog, known.name ≠ sample)
    (programName : String)
    (elapsed : Int) :
    ∃ message,
      run programName elapsed (groups.flatMap Group.arguments) =
        { exitCode := 2, err := errorLine message } := by
  let request := groups.foldl Request.add {}
  have sampleRead : request.sample = sample :=
    Option.some.inj (Request.value?_foldl_add_of_lastValue? last {})
  have unresolved : ∃ message, request.resolve = .error message := by
    apply exists_resolve_eq_error
    rcases unknown with ⟨text, level, given, refused⟩ | missing
    · have levelRead : request.levelText = text :=
        Option.some.inj (Request.value?_foldl_add_of_lastValue? level {})
      rw [levelRead]
      exact Or.inl ⟨given, refused⟩
    · rw [sampleRead]
      exact Or.inr missing
  rcases unresolved with ⟨message, fails⟩
  rw [run_flatMap_arguments]
  exact ⟨message, output_of_resolve_eq_error (sampleRead ▸ named) fails _ _⟩

/--
What groups of arguments leave behind depends on the flags that occur and on the
last value of each setting, but for the time that the run took.  So groups may
change places unless they give values to one setting, and a flag may be repeated.
Whatever the arguments are, the exit code 1 comes without output.  A last level
that cannot be read or an unknown last sample ends a run with the exit code 2 and
without output.
-/
theorem run_depends_on_last_values (programName : String) :
    (∀ groups others,
      Agree groups others →
        SameResult programName
          (groups.flatMap Group.arguments) (others.flatMap Group.arguments)) ∧
    (∀ groups others : List Group,
      groups.Perm others →
      (∀ setting,
        groups.filter (Group.gives setting) =
          others.filter (Group.gives setting)) →
        SameResult programName
          (groups.flatMap Group.arguments) (others.flatMap Group.arguments)) ∧
    (∀ (before after : List Group) (flag : Flag),
      .flag flag ∈ before ++ after →
        SameResult programName
          ((before ++ .flag flag :: after).flatMap Group.arguments)
          ((before ++ after).flatMap Group.arguments)) ∧
    (∀ elapsed arguments,
      (run programName elapsed arguments).exitCode = 1 →
        (run programName elapsed arguments).out = "") ∧
    (∀ elapsed groups sample,
      Group.lastValue? .sample groups = some sample →
      sample ≠ "" →
      ((∃ text,
        Group.lastValue? .level groups = some text ∧ text ≠ "" ∧
          ∀ level, Level.parse text ≠ .ok level) ∨
        ∀ known ∈ Sample.catalog, known.name ≠ sample) →
        (run programName elapsed (groups.flatMap Group.arguments)).exitCode = 2 ∧
        (run programName elapsed (groups.flatMap Group.arguments)).out = "") := by
  refine ⟨?_, ?_, ?_, ?_, ?_⟩
  · intro groups others agree
    exact agree.sameResult programName
  · intro groups others permuted kept
    exact (Agree.of_perm permuted kept).sameResult programName
  · intro before after flag raised
    exact (Agree.of_repeated_flag raised).sameResult programName
  · intro elapsed arguments refused
    exact out_run_of_exitCode refused
  · intro elapsed groups sample last named unknown
    rcases run_of_unknown last named unknown programName elapsed with
      ⟨message, outcome⟩
    rw [outcome]
    exact ⟨rfl, rfl⟩

/--
A level that looks like a flag and is replaced, a flag that is repeated, a value
that is missing, and a level that cannot be read.
-/
theorem run_depends_on_last_values_mixed :
    let groups : List Group :=
      [.setting .level "--ast", .flag .optimize, .levelSwitch "1",
        .setting .sample "loops"]
    let others : List Group :=
      [.setting .sample "loops", .setting .level "--ast", .levelSwitch "1",
        .flag .optimize]
    let refused : List Group :=
      [.levelSwitch "22", .setting .sample "loops"]
    groups.Perm others ∧
    SameResult "optimizer"
      ["--level", "--ast", "--optimize", "-O1", "--sample", "loops"]
      ["--sample", "loops", "--level", "--ast", "-O1", "--optimize"] ∧
    SameResult "optimizer"
      ["--level", "--ast", "--optimize", "-O1", "--sample", "loops",
        "--optimize"]
      ["--level", "--ast", "--optimize", "-O1", "--sample", "loops"] ∧
    (run "optimizer" 0 ["--ast", "--sample"]).exitCode = 1 ∧
    (run "optimizer" 0 ["--ast", "--sample"]).out = "" ∧
    Group.lastValue? .level refused = some "-O22" ∧
    (run "optimizer" 0 ["-O22", "--sample", "loops"]).exitCode = 2 ∧
    (run "optimizer" 0 ["-O22", "--sample", "loops"]).out = "" := by
  intro groups others refused
  rcases run_depends_on_last_values "optimizer" with
    ⟨_, permuted, repeated, silent, unknown⟩
  have moved : groups.Perm others := by
    decide
  have kept (setting : Setting) :
      groups.filter (Group.gives setting) =
        others.filter (Group.gives setting) := by
    cases setting <;> decide
  have missing : (run "optimizer" 0 ["--ast", "--sample"]).exitCode = 1 :=
    rfl
  have unreadable : ∀ level, Level.parse "-O22" ≠ .ok level := by
    intro level read
    cases read
  have stopped := unknown 0 refused "loops" rfl (by decide)
    (Or.inl ⟨"-O22", rfl, by decide, unreadable⟩)
  exact ⟨moved, permuted groups others moved kept,
    repeated groups [] .optimize (by decide), missing, silent 0 _ missing, rfl,
    stopped⟩

end CommandLine

end MiddleEnd
