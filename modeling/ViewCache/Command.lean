import ViewCache.Command.Bench
import ViewCache.Command.Locate

namespace ViewCache.Command

structure Outcome where
  code : Nat
  output : String := ""
  errors : String := ""
  deriving DecidableEq, Repr

def usage : String := "Usage: grace [-v] locate [OPTIONS] --root <ROOT> <VIEWS>...\n" ++
  "       grace [-v] bench [OPTIONS]\n"

def refused : Refusal → Outcome
  | .usage => { code := 2, errors := usage }
  | .help => { code := 0, output := usage }
  | .version => { code := 0, output := "grace 0.1.0\n" }

def conclude : Except Complaint String → Outcome
  | .ok output => { code := 0, output }
  | .error complaint => { code := 1, errors := complaint.text }

def invocation (around : Surroundings) (args : List String) : Except Refusal Invocation :=
  readCommand (around.environment Convention.configVariable) args {}

def run (around : Surroundings) (args : List String) : Outcome :=
  match invocation around args with
  | .error refusal => refused refusal
  | .ok (.locate options) => conclude (runLocate around options)
  | .ok (.bench options) => conclude (runBench (around.clock 0) options)

end ViewCache.Command
