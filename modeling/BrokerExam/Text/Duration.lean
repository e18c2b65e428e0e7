/-
BrokerExam/Text/Duration.lean

Spans of time in messages: whole milliseconds below a second, and seconds with
as many decimals as they need from there on.
-/
namespace BrokerExam.Duration

/-- Three decimals without the zeros at their end. -/
def decimals (milliseconds : Nat) : List Char :=
  let digit (k : Nat) := Nat.digitChar (milliseconds / k % 10)
  ([digit 100, digit 10, digit 1].reverse.dropWhile (· = '0')).reverse

def text (milliseconds : Nat) : String :=
  if milliseconds = 0 then "0ns"
  else if milliseconds < 1000 then s!"{milliseconds}ms"
  else
    let rest := decimals (milliseconds % 1000)
    s!"{milliseconds / 1000}" ++ (if rest = [] then "" else "." ++ String.ofList rest) ++ "s"

end BrokerExam.Duration
