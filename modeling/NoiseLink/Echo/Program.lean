import NoiseLink.Echo.Client

/-! A run of the echo program as a whole, with what it reports and how it ends. A server has nothing
to do by itself, so its run ends by serving. -/
namespace NoiseLink.Echo

namespace Run

def serve (chance : Chance) (config : Config) (port : Nat) : Run Server := do
  let progress ← get
  if progress.surroundings.taken port then throw (.bind (.network .bindFailed))
  report (.listening (shownAddress ⟨.v4 .unspecified, port⟩) config.staticKey.publicKey)
  return Server.start config chance.generator

def perform (chance : Chance) : Job → Run (Option Server)
  | .serve config port => some <$> serve chance config port
  | .dial config peer address messages => do
    client chance config peer address messages
    return none

def program (chance : Chance) (arguments : Arguments) : Run (Option Server) := do
  let (entries, job) := Job.prepare arguments
  entries.forM report
  match job with
  | .ok job => perform chance job
  | .error crash => throw crash

end Run

inductive Exit where
  | finished
  /-- The arguments are no job, or ask for help. -/
  | refused (refusal : Refusal)
  | crashed (crash : Crash)
  /-- The run goes on as a server until it is stopped. -/
  | serving (server : Server)

structure Report where
  log : Array Entry
  exit : Exit

namespace Report

def code (r : Report) : Option Nat :=
  match r.exit with
  | .finished | .refused .help => some 0
  | .refused _ => some 2
  | .crashed _ => some 101
  | .serving _ => none

def output (r : Report) : List String :=
  match r.exit with
  | .refused .help => helpLines
  | _ => []

def complaint (r : Report) : Option String :=
  match r.exit with
  | .refused .help => none
  | .refused refusal => some refusal.message
  | _ => none

def cause (r : Report) : Option String :=
  match r.exit with
  | .crashed crash => some crash.message
  | _ => none

/-- The log as lines. The amounts of data in it came about by chance. -/
def lines (r : Report) : List String := r.log.toList.map (Entry.line true)

end Report

/-- Runs the program. A connection that it still has is closed when it exits. -/
def run (chance : Chance) (arguments : List String) (w : Surroundings) : Report × Surroundings :=
  match Arguments.parse arguments with
  | .error refusal => (⟨#[], .refused refusal⟩, w)
  | .ok arguments =>
    let (result, progress) := (Run.program chance arguments).run.run { surroundings := w }
    let w := match progress.near with
      | some near => progress.surroundings.leave near
      | none => progress.surroundings
    let exit := match result with
      | .ok none => .finished
      | .ok (some server) => .serving server
      | .error crash => .crashed crash
    (⟨progress.log, exit⟩, w)

end NoiseLink.Echo
