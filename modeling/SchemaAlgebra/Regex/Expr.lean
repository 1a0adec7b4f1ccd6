import SchemaAlgebra.Regex.CharSet

/-!
# Regular expressions and their matches

An expression is run on all start positions at once: a set of positions is a natural
number whose bit `i` stands for the place before character `i`. Running an expression
turns the positions where a match may begin into those where it may end.
-/
namespace SchemaAlgebra.Regex

/-- Conditions on the two characters around a position. -/
inductive Look where
  | textStart
  | textEnd
  | lineStart
  | lineEnd
  | crlfLineStart
  | crlfLineEnd
  | wordBoundary
  | notWordBoundary
  | wordStart
  | wordEnd
  | wordStartHalf
  | wordEndHalf
  deriving DecidableEq

/-- Whether the condition holds between two characters; `word` tells the word characters. -/
def Look.holds (word : Char → Bool) (before after : Option Char) : Look → Bool
  | textStart => before.isNone
  | textEnd => after.isNone
  | lineStart => before.isNone || before == some '\n'
  | lineEnd => after.isNone || after == some '\n'
  | crlfLineStart =>
    before.isNone || before == some '\n' || (before == some '\r' && after != some '\n')
  | crlfLineEnd =>
    after.isNone || after == some '\r' || (after == some '\n' && before != some '\r')
  | wordBoundary => before.any word != after.any word
  | notWordBoundary => before.any word == after.any word
  | wordStart => !before.any word && after.any word
  | wordEnd => before.any word && !after.any word
  | wordStartHalf => !before.any word
  | wordEndHalf => !after.any word

inductive Expr where
  | nothing
  | chars (s : CharSet)
  | look (unicode : Bool) (l : Look)
  | concat (e f : Expr)
  | alternate (e f : Expr)
  /-- At least `least` times, and at most `most` times if there is a limit. -/
  | times (e : Expr) (least : Nat) (most : Option Nat)

/-- The positions before a character of the set. -/
def charMask (p : Char → Bool) : List Char → Nat
  | [] => 0
  | c :: r => (if p c then 1 else 0) + 2 * charMask p r

/-- The positions whose neighbours satisfy the condition. -/
def lookMask (p : Option Char → Option Char → Bool) (before : Option Char) : List Char → Nat
  | [] => if p before none then 1 else 0
  | c :: r => (if p before (some c) then 1 else 0) + 2 * lookMask p (some c) r

def iterate (step : Nat → Nat) : Nat → Nat → Nat
  | 0, m => m
  | n + 1, m => if m = 0 then 0 else iterate step n (step m)

def reach (step : Nat → Nat) : Nat → Nat → Nat
  | 0, m => m
  | n + 1, m =>
    let next := m ||| step m
    if next = m then m else reach step n next

namespace Expr

def run (text : List Char) : Expr → Nat → Nat
  | nothing, m => m
  | chars s, m => (m &&& charMask s.contains text) <<< 1
  | look unicode l, m =>
    let word := if unicode then Text.isWord else CharSet.asciiWord.contains
    m &&& lookMask (fun before after => l.holds word before after) none text
  | concat e f, m => f.run text (e.run text m)
  | alternate e f, m => e.run text m ||| f.run text m
  | times e least none, m => reach (e.run text) (text.length + 1) (iterate (e.run text) least m)
  | times e least (some most), m =>
    reach (e.run text) (most - least) (iterate (e.run text) least m)

def isMatch (e : Expr) (text : String) : Bool :=
  let cs := text.toList
  e.run cs (Nat.pow 2 (cs.length + 1) - 1) != 0

def weightOf : CharSet → Nat
  | .range lo hi => if lo = hi then 32 * lo.utf8Size else if hi.toNat < 0x80 then 32 else 256
  | .digit => 2048
  | .blank => 512
  | .word => 12000
  | .ranges table => 16 * table.length
  | .categories _ => 8000
  | .script _ => 1000
  | .sharedScript _ => 1000
  | .lowered => 8000
  | .uppered => 8000
  | .union s t => weightOf s + weightOf t
  | .intersection s t => max (weightOf s) (weightOf t)
  | .complement s => 256 + weightOf s
  | .folded s => 2 * weightOf s
  | .foldedAscii s => weightOf s
  | .empty => 32

/-- About how many bytes an automaton for the expression takes. -/
def weight : Expr → Nat
  | nothing => 0
  | chars s => weightOf s
  | look _ _ => 32
  | concat e f => e.weight + f.weight
  | alternate e f => e.weight + f.weight + 32
  | times e least most => (max 1 (most.getD (least + 1))) * (e.weight + 32)

end Expr

end SchemaAlgebra.Regex
