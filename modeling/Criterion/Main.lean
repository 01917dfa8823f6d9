/-
# Criterion.Main — the program

Reads the words of the command line, writes what the run writes and ends with its code.
-/
import Criterion.CommandLine.Arguments

open Criterion.CommandLine in
def main (words : List String) : IO UInt32 := do
  match Outcome.ofWords words with
  | some outcome =>
      IO.print outcome.output
      IO.eprint outcome.errors
      return outcome.code.toUInt32
  | none =>
      IO.eprintln ("usage: [--tier=TIER] [--punctuation=CHARS] [--bind=NAME=VALUE]... " ++
        "[--check] [-v]... -- EXPRESSION")
      return 2
