import GuildPolicy.Build.Report

namespace GuildPolicy

open Build

structure Build.Outcome where
  exitCode : Nat
  errors : String
  deriving DecidableEq

def Build.errorText (message : String) (causes : List String) : String :=
  "Error: " ++ message ++ "\n" ++
    if causes.isEmpty then ""
    else "\nCaused by:\n" ++ String.join (causes.map fun cause => "    " ++ cause ++ "\n")

def Build.failureText (failure : Uuid × PolicyError) : String :=
  "guild " ++ failure.1.text ++ ":\n" ++ failure.2.describe ++ "\n"

def BuildReport.outcome (r : BuildReport) : Outcome :=
  let failures := String.join (r.failed.map failureText)
  if r.isSuccess then ⟨0, failures⟩
  else
    let failed := r.failed.length
    let total := failed + r.built.length
    ⟨1, failures ++ errorText s!"{failed} of {total} guilds failed to build" []⟩

/-- The build tool as a command: it takes its settings from variables, builds all guilds, and
reports those that failed. -/
def Build.run (lookup : String → Option String) (files : Files) : Outcome × Files :=
  match BuildConfig.read lookup with
  | .error e => (⟨1, errorText e.message e.causes⟩, files)
  | .ok c =>
    match buildAll c files with
    | (.error e, files) => (⟨1, errorText e.message e.causes⟩, files)
    | (.ok report, files) => (report.outcome, files)

end GuildPolicy
