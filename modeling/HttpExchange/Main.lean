import HttpExchange.Address.Literal
import HttpExchange.CommandLine
import HttpExchange.Script.Peer

/-!
# The program

Runs the command line against a far end that has already spoken: what it says stands on
the standard input. Hosts are addresses, so nothing has to be looked up.
-/

namespace HttpExchange

namespace Main

/-- A network on which every address leads to the one far end. -/
def network (heard : Bytes) : Network Script where
  resolve := Literal.resolve
  dial _ _ := .ok { Script.empty with inbound := [heard] }

def thresholdVariable : String := "REQLITE_LOG"

def program : Bytes := ascii "reqlite-cli"

partial def readAll (input : IO.FS.Stream) (before : ByteArray) : IO ByteArray := do
  let piece ← input.read 65536
  if piece.isEmpty then return before else readAll input (before ++ piece)

def put (output : IO.FS.Stream) (data : Bytes) : IO Unit := do
  output.write ⟨data.toArray⟩
  output.flush

def run (words : List String) : IO UInt32 := do
  let threshold := ((← IO.getEnv thresholdVariable).bind fun s =>
    Level.ofText? s.toUTF8.toList).getD .warn
  let heard ← readAll (← IO.getStdin) ByteArray.empty
  let outcome := CommandLine.run program (words.map fun w => w.toUTF8.toList)
    (network heard.toList)
  put (← IO.getStdout) outcome.standardOutput
  put (← IO.getStderr) (Journal.text threshold outcome.journal ++ outcome.errorOutput)
  return outcome.exitCode

end Main

end HttpExchange

def main (words : List String) : IO UInt32 := HttpExchange.Main.run words
