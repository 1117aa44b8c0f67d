import VideoRegistry.Run

/-!
# The command line

One option, `-f FILE`, names the registry to read; a variable of the environment
may name a settings file.  Arguments are taken from left to right, and the first
that asks for help or is out of place decides.
-/

namespace VideoRegistry

/-- What the arguments ask for. -/
inductive Request where
  | run (input : Option String)
  | help
  | version
  | misuse
deriving DecidableEq, Repr

namespace Request

/-- Whether an argument cannot be the value of an option. -/
def isOption (argument : String) : Bool :=
  Text.beginsWith argument "-" && argument != "-"

/-- Takes the name of a registry unless it is empty or there is one already. -/
def input? (found : Option String) (name : String) : Option String :=
  if found.isSome || name.isEmpty then none else some name

/-- Reads the arguments after those that named the given registry. -/
def ofArgsAfter (found : Option String) : List String → Request
  | [] => .run found
  | ["--"] => .run found
  | ["-f"] => .misuse
  | "-f" :: name :: rest =>
      if isOption name then .misuse
      else
        match input? found name with
        | none => .misuse
        | some name => ofArgsAfter (some name) rest
  | argument :: rest =>
      if argument = "--help" || Text.beginsWith argument "-h" then .help
      else if argument = "--version" || Text.beginsWith argument "-V" then .version
      else
        match Text.after? ['-', 'f'] argument.toList with
        | none => .misuse
        | some attached =>
            let name := (Text.after? ['='] attached).getD attached
            match input? found (String.ofList name) with
            | none => .misuse
            | some name => ofArgsAfter (some name) rest

def ofArgs (args : List String) : Request :=
  ofArgsAfter none args

end Request

/-- How a call ends: with an exit code, and with the chain of causes if the run
failed. -/
structure Outcome where
  code : Nat
  failure : Option (List String) := none
deriving DecidableEq, Repr

/-- The exit code of everything that goes wrong. -/
def Outcome.failed (chain : List String) : Outcome :=
  ⟨255, some chain⟩

/-- The line that reports a chain of causes. -/
def complaint (chain : List String) : String :=
  "video-hpp-gen: error: " ++ ": ".intercalate chain

variable {τ : Type} {m : Type → Type} [Monad m]

/-- The configuration of a call: that of the settings file, if one is named, or
else the default. -/
def Files.configOf (files : Files τ m) (settings : Option String) :
    m (Except (List String) Config) := do
  match settings with
  | none => return .ok {}
  | some path =>
      match ← files.loadConfig path with
      | .error failure =>
          return .error [s!"loading config from {path}", failure.message]
      | .ok config => return .ok config

/-- Does what the arguments ask for. -/
def Files.call (files : Files τ m) (settings : Option String)
    (args : List String) : m Outcome := do
  match Request.ofArgs args with
  | .help | .version => return ⟨0, none⟩
  | .misuse => return ⟨255, none⟩
  | .run input =>
      match ← files.configOf settings with
      | .error chain => return .failed chain
      | .ok config =>
          match ← files.run config input with
          | .error failure => return .failed failure.chain
          | .ok _ => return ⟨0, none⟩

end VideoRegistry
