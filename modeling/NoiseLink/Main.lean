import NoiseLink.Echo.Program

/-! The echo program as a command. Its network is its own process, where nobody else listens, so a
client reaches nobody and a server is left as soon as it listens. -/
namespace NoiseLink.Echo

/-- Prints what a run leaves: its log and output, and on the other channel what went wrong. -/
def Report.print (r : Report) : IO Unit := do
  (r.lines ++ r.output).forM IO.println
  (r.complaint.toList ++ r.cause.toList).forM IO.eprintln

end NoiseLink.Echo

def main (arguments : List String) : IO UInt32 := do
  let seed ← IO.rand 0 ((1 <<< 64) - 1)
  let chance := NoiseLink.Echo.Chance.ofSeed (UInt64.ofNat seed)
  let (report, _) := NoiseLink.Echo.run chance arguments { port := 0 }
  report.print
  return UInt32.ofNat (report.code.getD 0)
