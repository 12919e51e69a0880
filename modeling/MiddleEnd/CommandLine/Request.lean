/-!
# Requests

Arguments are read from left to right into a request, and a later value
replaces an earlier one.  An argument that asks for help or for the list of
samples, that is not known or that lacks its value ends the reading at once.
-/

namespace MiddleEnd

namespace CommandLine

/-- What the arguments ask for. -/
structure Request where
  showSource : Bool := false
  analyze : Bool := false
  optimize : Bool := false
  /-- The text of the level, empty if none was given. -/
  levelText : String := ""
  entryPoint : Option String := none
  /-- The name of the sample, empty if none was given. -/
  sample : String := ""
deriving DecidableEq, Repr

/-- What may end the reading of the arguments. -/
inductive Interruption where
  | help
  | listSamples
  | missingValue (argument : String)
  | unknownOption (argument : String)
deriving DecidableEq, Repr

/-! ## Options -/

/-- An option that is followed by a value. -/
inductive Setting where
  | level
  | entryPoint
  | sample
deriving DecidableEq, Repr

/-- An option that stands by itself. -/
inductive Flag where
  | showSource
  | analyze
  | optimize
deriving DecidableEq, Repr

/-- What an argument is, where an option is expected. -/
inductive Argument where
  | help
  | listSamples
  /-- A level written as one word, which is its own value. -/
  | levelSwitch
  | setting (setting : Setting)
  | flag (flag : Flag)
  | unknown
deriving DecidableEq, Repr

/-- Whether the text starts like a level written as one word. -/
def isLevelSwitch (text : String) : Bool :=
  ['-', 'O'].isPrefixOf text.toList

/-- What a text is, where an option is expected. -/
def Argument.ofText (text : String) : Argument :=
  if text = "--help" ∨ text = "-h" then
    .help
  else if text = "--list-samples" then
    .listSamples
  else if isLevelSwitch text then
    .levelSwitch
  else if text = "--level" then
    .setting .level
  else if text = "--entry" then
    .setting .entryPoint
  else if text = "--sample" then
    .setting .sample
  else if text = "--ast" then
    .flag .showSource
  else if text = "--analyze" then
    .flag .analyze
  else if text = "--optimize" then
    .flag .optimize
  else
    .unknown

namespace Request

/-- The request with a value given. -/
def set (request : Request) (value : String) : Setting → Request
  | .level => { request with levelText := value }
  | .entryPoint => { request with entryPoint := some value }
  | .sample => { request with sample := value }

/-- The request with a flag raised. -/
def raise (request : Request) : Flag → Request
  | .showSource => { request with showSource := true }
  | .analyze => { request with analyze := true }
  | .optimize => { request with optimize := true }

/-- Adds what the arguments say to a request. -/
def read (request : Request) : List String → Except Interruption Request
  | [] => .ok request
  | text :: rest =>
      match Argument.ofText text with
      | .help => .error .help
      | .listSamples => .error .listSamples
      | .levelSwitch => (request.set text .level).read rest
      | .flag flag => (request.raise flag).read rest
      | .unknown => .error (.unknownOption text)
      | .setting setting =>
          match rest with
          | [] => .error (.missingValue text)
          | value :: rest => (request.set value setting).read rest

/-- The request with everything asked for, if nothing was. -/
def orAll (request : Request) : Request :=
  if request.showSource || request.analyze || request.optimize then
    request
  else
    { request with showSource := true, analyze := true, optimize := true }

end Request

end CommandLine

end MiddleEnd
