/-
BrokerExam/Main.lean

The program.
-/
import BrokerExam.CommandLine.Perform
import BrokerExam.Live

open BrokerExam

def main (arguments : List String) : IO UInt32 := do
  let code ← (CommandLine.perform arguments : Live Nat).run
  return code.toUInt32
