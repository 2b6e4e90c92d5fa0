import Stencil.Json.Basic

/-!
# Patterns for strings

A `Pattern` describes the stretches of a text that it matches. `Pattern.ends` lists the places where
a match that begins at one place can end; a text fits a pattern if some place in it has such an end.
`Pattern.read?` reads the usual notation of regular expressions.
-/

namespace Stencil

/-- A closed range of characters. -/
abbrev CharRange := Char × Char

/-- A pattern. -/
inductive Pattern where
  | empty
  /-- One character of the ranges, or, if negated, of none of them. -/
  | oneOf (negated : Bool) (ranges : List CharRange)
  | seq (first second : Pattern)
  | either (left right : Pattern)
  /-- Between `least` and `most` repetitions, no upper bound if none is given. -/
  | repeated (p : Pattern) (least : Nat) (most : Option Nat)
  | textStart
  | textEnd
  /-- A place between a word character and another, or not such a place. -/
  | boundary (negated : Bool)
  /-- A place where the pattern matches, or does not, without moving on. -/
  | ahead (negated : Bool) (p : Pattern)
deriving Inhabited

namespace Pattern

/-- A place in a text: the character before it, and the characters behind it. -/
structure Place where
  before : Option Char
  rest : List Char
deriving DecidableEq

def Place.next? (p : Place) : Option (Char × Place) :=
  match p.rest with
  | [] => none
  | c :: rest => some (c, ⟨some c, rest⟩)

def inRange (c : Char) (ranges : List CharRange) : Bool := ranges.any fun r => r.1 ≤ c && c ≤ r.2

def digit : List CharRange := [('0', '9')]
def wordChars : List CharRange := [('A', 'Z'), ('a', 'z'), ('0', '9'), ('_', '_')]
def spaceChars : List CharRange :=
  [('\t', '\r'), (' ', ' '), ('\u00a0', '\u00a0'), ('\u1680', '\u1680'), ('\u2000', '\u200a'),
   ('\u2028', '\u2029'), ('\u202f', '\u202f'), ('\u205f', '\u205f'), ('\u3000', '\u3000'),
   ('\ufeff', '\ufeff')]

def isWord (c : Option Char) : Bool := c.any fun c => inRange c wordChars

/-- The places without those that occur earlier in the list. -/
def distinct (ps : List Place) : List Place :=
  (ps.foldl (fun acc p => if acc.any (·.rest.length == p.rest.length) then acc else p :: acc) []).reverse

/-- The ends of any number of matches one after another; each one has to move on. -/
def closure (step : Place → List Place) : Nat → List Place → List Place
  | 0, ps => ps
  | fuel + 1, ps =>
    let more := distinct (ps ++ ps.flatMap step)
    if more.length = ps.length then ps else closure step fuel more

/-- The ends of exactly `n` matches one after another. -/
def times (step : Place → List Place) : Nat → List Place → List Place
  | 0, ps => ps
  | n + 1, ps => times step n (distinct (ps.flatMap step))

/-- The ends of at most `n` matches one after another. -/
def upTo (step : Place → List Place) : Nat → List Place → List Place
  | 0, ps => ps
  | n + 1, ps => upTo step n (distinct (ps ++ ps.flatMap step))

/-- The places where a match that begins here can end. -/
def ends : Pattern → Place → List Place
  | .empty, p => [p]
  | .oneOf negated ranges, p =>
    match p.next? with
    | some (c, q) => if inRange c ranges != negated then [q] else []
    | none => []
  | .seq a b, p => distinct ((ends a p).flatMap (ends b))
  | .either a b, p => distinct (ends a p ++ ends b p)
  | .repeated a least most, p =>
    let base := times (ends a) least [p]
    match most with
    | none => closure (ends a) (p.rest.length + 1) base
    | some m => upTo (ends a) (min (m - least) (p.rest.length + 1)) base
  | .textStart, p => if p.before.isNone then [p] else []
  | .textEnd, p => if p.rest.isEmpty then [p] else []
  | .boundary negated, p =>
    if (isWord p.before != isWord p.rest.head?) != negated then [p] else []
  | .ahead negated a, p => if (ends a p).isEmpty == negated then [p] else []

/-- Some stretch from this place on matches. -/
def foundFrom (pat : Pattern) : Option Char → List Char → Bool
  | before, [] => !(pat.ends ⟨before, []⟩).isEmpty
  | before, c :: rest => !(pat.ends ⟨before, c :: rest⟩).isEmpty || foundFrom pat (some c) rest

/-- Some stretch of the text matches. -/
def foundIn (pat : Pattern) (text : String) : Bool := foundFrom pat none text.toList

/-! ### Notation -/

/-- The ranges outside of some ranges. -/
def outside (ranges : List CharRange) : List CharRange :=
  let sorted := ranges.mergeSort fun a b => a.1 ≤ b.1
  let (next, acc) := sorted.foldl (fun (next, acc) r =>
    let acc := if next < r.1.toNat then (Char.ofNat next, Char.ofNat (r.1.toNat - 1)) :: acc else acc
    (max next (r.2.toNat + 1), acc)) ((0, []) : Nat × List CharRange)
  (if next ≤ 0x10FFFF then (Char.ofNat next, Char.ofNat 0x10FFFF) :: acc else acc).reverse

/-- The ranges that a letter behind a backslash stands for. -/
def classOf (c : Char) : Option (List CharRange) :=
  if c = 'd' then some digit
  else if c = 'D' then some (outside digit)
  else if c = 'w' then some wordChars
  else if c = 'W' then some (outside wordChars)
  else if c = 's' then some spaceChars
  else if c = 'S' then some (outside spaceChars)
  else none

def hexValue? (c : Char) : Option Nat :=
  if c.isDigit then some (c.toNat - 48)
  else if 'a' ≤ c ∧ c ≤ 'f' then some (c.toNat - 87)
  else if 'A' ≤ c ∧ c ≤ 'F' then some (c.toNat - 55)
  else none

/-- Takes hexadecimal digits, exactly as many as asked for. -/
def hexNumber : Nat → Nat → List Char → Option (Nat × List Char)
  | 0, n, s => some (n, s)
  | count + 1, n, c :: s => (hexValue? c).bind fun d => hexNumber count (n * 16 + d) s
  | _ + 1, _, [] => none

/-- The character that an escape spells. -/
def escapedChar : List Char → Option (Char × List Char)
  | 'n' :: s => some ('\n', s)
  | 't' :: s => some ('\t', s)
  | 'r' :: s => some ('\r', s)
  | 'f' :: s => some ('\x0c', s)
  | 'v' :: s => some ('\x0b', s)
  | 'x' :: s => (hexNumber 2 0 s).map fun (n, s) => (Char.ofNat n, s)
  | 'u' :: s => (hexNumber 4 0 s).map fun (n, s) => (Char.ofNat n, s)
  | c :: s => if c.isAlphanum then none else some (c, s)
  | [] => none

/-- Reads one member of a bracketed class. -/
def classItem : List Char → Option (List CharRange × Option Char × List Char)
  | '\\' :: 'b' :: s => some ([('\x08', '\x08')], some '\x08', s)
  | '\\' :: c :: s =>
    match classOf c with
    | some ranges => some (ranges, none, s)
    | none => (escapedChar (c :: s)).map fun (d, s) => ([(d, d)], some d, s)
  | '\\' :: [] => none
  | c :: s => some ([(c, c)], some c, s)
  | [] => none

/-- Reads the members of a bracketed class up to its end. -/
def classItems : Nat → List CharRange → List Char → Option (List CharRange × List Char)
  | 0, _, _ => none
  | _ + 1, acc, ']' :: s => some (acc, s)
  | fuel + 1, acc, s =>
    match classItem s with
    | none => none
    | some (_, some low, '-' :: s) =>
      if s.head? = some ']' then classItems fuel ((low, low) :: acc) ('-' :: s)
      else
        match classItem s with
        | some (_, some high, s) => if low ≤ high then classItems fuel ((low, high) :: acc) s else none
        | _ => none
    | some (ranges, _, s) => classItems fuel (ranges ++ acc) s

/-- Reads a decimal number. -/
def readNat (s : List Char) : Option (Nat × List Char) :=
  match s.takeWhile Char.isDigit with
  | [] => none
  | ds => some (ds.foldl (fun n c => n * 10 + (c.toNat - 48)) 0, s.dropWhile Char.isDigit)

/-- Reads the bounds of a repetition behind the opening brace. -/
def readBounds (s : List Char) : Option (Nat × Option Nat × List Char) :=
  match readNat s with
  | some (n, '}' :: s) => some (n, some n, s)
  | some (n, ',' :: '}' :: s) => some (n, none, s)
  | some (n, ',' :: s) =>
    match readNat s with
    | some (m, '}' :: s) => if n ≤ m then some (n, some m, s) else none
    | _ => none
  | _ => none

/-- A repetition may be marked as reluctant, which changes no answer. -/
def dropReluctant : List Char → List Char
  | '?' :: s => s
  | s => s

/-- Applies the repetitions that follow an atom. -/
def suffixes : Nat → Pattern → List Char → Option (Pattern × List Char)
  | 0, p, s => some (p, s)
  | fuel + 1, p, s =>
    match s with
    | '*' :: s => suffixes fuel (.repeated p 0 none) (dropReluctant s)
    | '+' :: s => suffixes fuel (.repeated p 1 none) (dropReluctant s)
    | '?' :: s => suffixes fuel (.repeated p 0 (some 1)) (dropReluctant s)
    | '{' :: r => (readBounds r).bind fun (n, m, r) => suffixes fuel (.repeated p n m) (dropReluctant r)
    | s => some (p, s)

/-- What a group holds: the way it is used, and the text behind its opening. -/
def groupKind : List Char → Option (Option Bool × List Char)
  | '?' :: ':' :: s => some (none, s)
  | '?' :: '=' :: s => some (some false, s)
  | '?' :: '!' :: s => some (some true, s)
  | '?' :: _ => none
  | s => some (none, s)

/-- Reads alternatives: `done` holds the ones before, `current` the sequence so far. -/
def alternatives : Nat → Option Pattern → Pattern → List Char → Option (Pattern × List Char)
  | 0, _, _, _ => none
  | fuel + 1, done, current, s =>
    let close := match done with
      | none => current
      | some p => .either p current
    let goOn (p : Pattern) (s : List Char) : Option (Pattern × List Char) :=
      (suffixes fuel p s).bind fun (p, s) => alternatives fuel done (.seq current p) s
    match s with
    | [] => some (close, [])
    | ')' :: s => some (close, ')' :: s)
    | '|' :: s => alternatives fuel (some close) .empty s
    | '(' :: s =>
      (groupKind s).bind fun (look, s) =>
        match alternatives fuel none .empty s with
        | some (p, ')' :: s) =>
          goOn (match look with
            | none => p
            | some negated => .ahead negated p) s
        | _ => none
    | '[' :: '^' :: s => (classItems fuel [] s).bind fun (r, s) => goOn (.oneOf true r) s
    | '[' :: s => (classItems fuel [] s).bind fun (r, s) => goOn (.oneOf false r) s
    | '.' :: s => goOn (.oneOf true [('\n', '\n')]) s
    | '^' :: s => goOn .textStart s
    | '$' :: s => goOn .textEnd s
    | '\\' :: 'b' :: s => goOn (.boundary false) s
    | '\\' :: 'B' :: s => goOn (.boundary true) s
    | '\\' :: c :: s =>
      match classOf c with
      | some r => goOn (.oneOf false r) s
      | none => (escapedChar (c :: s)).bind fun (d, s) => goOn (.oneOf false [(d, d)]) s
    | '\\' :: [] => none
    | '*' :: _ => none
    | '+' :: _ => none
    | '?' :: _ => none
    | '{' :: _ => none
    | c :: s => goOn (.oneOf false [(c, c)]) s

/-- The pattern that a text denotes. -/
def read? (text : String) : Option Pattern :=
  match alternatives (2 * text.length + 2) none .empty text.toList with
  | some (p, []) => some p
  | _ => none

end Pattern

end Stencil
