import Joinery.Yaml.Folding

/-!
# Block scalars

## Lines that are kept as they are

A block scalar is made of the lines after its header that are indented enough.  The
header says whether line ends are kept or folded, what becomes of the line ends after
the last line, and sometimes how far the lines are indented.
-/

namespace Joinery
namespace Yaml

/-- What becomes of the line ends after the last line. -/
inductive Chomping where
  /-- all of them are dropped -/
  | strip
  /-- the first of them is kept -/
  | clip
  /-- all of them are kept -/
  | keep
deriving DecidableEq, Repr

structure BlockHeader where
  chomping : Chomping
  /-- how much further than its parent the scalar is indented, if the header says it -/
  indentation : Option Nat
deriving DecidableEq, Repr

def chomping? (p : Place) : Option Chomping :=
  match p.peek with
  | some '+' => some .keep
  | some '-' => some .strip
  | _ => none

def indentation? (p : Place) : Option Nat :=
  match p.peek with
  | some c => if c.isDigit then some (c.toNat - '0'.toNat) else none
  | none => none

def headerAt (p : Place) : Except Fault (BlockHeader × Place) :=
  let (chomping, indentation, q) :=
    match chomping? p with
    | some sign =>
        match indentation? p.next with
        | some digit => (sign, some digit, p.skip 2)
        | none => (sign, none, p.next)
    | none =>
        match indentation? p with
        | some digit =>
            match chomping? p.next with
            | some sign => (sign, some digit, p.skip 2)
            | none => (.clip, some digit, p.next)
        | none => (.clip, none, p)
  if indentation = some 0 || !endsName q.peek then .error .malformed
  else .ok ({ chomping := chomping, indentation := indentation }, q)

def skipComment (p : Place) : Except Fault Place :=
  let p := p.skipSpaces
  let p := if p.peek == some '#' then p.skipLine else p
  if endsLine p.peek then .ok p.skipBreak else .error .malformed

def leadingLines : Nat -> Place -> Nat -> List Char × Nat × Place
  | 0, p, widest => ([], widest, p)
  | fuel + 1, p, widest =>
      let p := p.skipSpaces
      let widest := max widest p.column
      match p.lineBreak? with
      | none => ([], widest, p)
      | some (c, q) =>
          let (others, widest, r) := leadingLines fuel q widest
          (c :: others, widest, r)

def skipIndent (indent : Nat) (p : Place) : Place :=
  p.skip (min (indent - p.column) (p.run fun c => c == ' ').1.length)

def emptyBlockLines (indent : Nat) : Nat -> Place -> List Char × Place
  | 0, p => ([], p)
  | fuel + 1, p =>
      let p := skipIndent indent p
      match p.lineBreak? with
      | none => ([], p)
      | some (c, q) =>
          let (others, r) := emptyBlockLines indent fuel q
          (c :: others, r)

def blockLines (isFolded : Bool) (indent : Nat) :
    Nat -> List Char -> Place -> List Char × List Char × List Char × Place
  | 0, before, p => ([], [], before, p)
  | fuel + 1, before, p =>
      if p.column ≠ indent || p.peek == none then ([], [], before, p)
      else
        let (text, q) := p.run fun c => !isBreak c
        let (lineEnd, q) :=
          match q.lineBreak? with
          | some (c, r) => ([c], r)
          | none => ([], q)
        let (empty, r) := emptyBlockLines indent (q.rest.length + 1) q
        if r.column = indent && r.peek != none then
          let joins :=
            isFolded && lineEnd == ['\n'] && !p.peek.any isGap && !r.peek.any isGap
          let glue := if joins then (if empty.isEmpty then [' '] else []) else lineEnd
          let (more, last, after, s) := blockLines isFolded indent fuel empty r
          (before ++ text ++ glue ++ more, last, after, s)
        else (before ++ text, lineEnd, empty, r)

/-- The block scalar whose mark stands at a place, inside of a parent with some indentation. -/
def blockAt (isFolded : Bool) (indent : Int) (p : Place) :
    Except Fault (List Char × Place) := do
  let (header, q) <- headerAt p.next
  let q <- skipComment q
  let least := max 1 (indent + 1).toNat
  let fuel := q.rest.length + 1
  let (before, own, r) :=
    match header.indentation with
    | none =>
        let (before, widest, r) := leadingLines fuel q 0
        (before, max least widest, r)
    | some further =>
        let own := least + further - 1
        let (before, r) := emptyBlockLines own fuel q
        (before, own, r)
  let (text, last, after, s) := blockLines isFolded own fuel before r
  match header.chomping with
  | .strip => return (text, s)
  | .clip => return (text ++ last, s)
  | .keep => return (text ++ last ++ after, s)

end Yaml
end Joinery
