import VaultTransfers.Json.Reader

/-!
Passing over a value that nobody asked for. Its grammar is checked and nothing
else: numbers may be out of range, strings may hold any bytes, and lists and
objects may nest as deep as they like. The open brackets are kept on a stack.
-/

namespace VaultTransfers.Json

inductive Bracket where
  | square
  | curly
deriving DecidableEq, Repr

def Bracket.closing : Bracket → Char
  | square => ']'
  | curly => '\x7d'

/-- A value without members, or the bracket that one with members opens. -/
def skipPlain (input : Input) : Except ReadFault (Option Bracket × Input) :=
  match skipSpace input with
  | [] => .error .ended
  | none :: _ => .error .malformed
  | some c :: rest =>
    if c = '"' then do .ok (none, ← skipString rest)
    else if c = '[' then .ok (some .square, rest)
    else if c = '\x7b' then .ok (some .curly, rest)
    else if c.isDigit then do .ok (none, (← numeral .malformed (some c :: rest)).2)
    else if c = '-' then do .ok (none, (← numeral .malformed rest).2)
    else if c = 'n' then do .ok (none, ← word ['u', 'l', 'l'] rest)
    else if c = 't' then do .ok (none, ← word ['r', 'u', 'e'] rest)
    else if c = 'f' then do .ok (none, ← word ['a', 'l', 's', 'e'] rest)
    else .error .malformed

/-- Closes brackets as long as they are closed in the text. What is left is the stack with its
innermost open bracket and the input at its next element, behind the comma; an empty stack is
the end of the value. -/
def closeBrackets : List Bracket → (fresh : Bool) → Input → Except ReadFault (List Bracket × Input)
  | [], _, input => .ok ([], input)
  | b :: open', fresh, input =>
    match skipSpace input with
    | [] => .error .ended
    | s :: rest =>
      if s = some b.closing then closeBrackets open' false rest
      else if fresh then .ok (b :: open', s :: rest)
      else if s = some ',' then .ok (b :: open', rest)
      else .error .malformed

/-- The name and the colon in front of a member's value. -/
def skipName (input : Input) : Except ReadFault Input :=
  match skipSpace input with
  | [] => .error .ended
  | s :: rest =>
    if s = some '"' then do colon (← skipString rest)
    else .error .malformed

/-- Passes over a value inside of open brackets and over all that they hold. -/
def skipWithin (stack : List Bracket) (input : Input) : Except ReadFault Input :=
  match skipPlain input with
  | .error fault => .error fault
  | .ok (opened, rest) =>
    match closeBrackets (opened.toList ++ stack) opened.isSome rest with
    | .error fault => .error fault
    | .ok ([], rest) => .ok rest
    | .ok (b :: stack, rest) =>
      match if b = .curly then skipName rest else .ok rest with
      | .error fault => .error fault
      | .ok start =>
        if start.length < input.length then skipWithin (b :: stack) start else .error .malformed
termination_by input.length

def skipValue (input : Input) : Except ReadFault Input :=
  skipWithin [] input

end VaultTransfers.Json
