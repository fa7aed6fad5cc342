/-
Regular expressions as JavaScript runs them: a backtracking matcher over the
characters of a text, with greedy and lazy repetition, captures, anchors, word
boundaries and look-around. A repetition that consumes nothing is given up.

Ignoring case compares characters by a folding function, which the flags of an
expression carry, as they carry what counts as a word character.
-/
import Zenod.Lib.Text

namespace Zenod

structure RegexFlags where
  fold : Char → Char := id
  isWord : Char → Bool

inductive Regex
  | empty
  /-- One of some characters, up to case. -/
  | lit (cs : List Char)
  | one (p : Char → Bool)
  | seq (a b : Regex)
  | alt (a b : Regex)
  | star (greedy : Bool) (a : Regex)
  /-- `a{0,n}`. -/
  | upTo (n : Nat) (a : Regex)
  | group (i : Nat) (a : Regex)
  | start
  | stop
  | boundary
  | ahead (a : Regex)
  | notAhead (a : Regex)
  /-- No such character stands before. -/
  | notBehind (p : Char → Bool)

/-- What JavaScript takes from the Unicode character database. -/
structure Unicode where
  isLetter : Char → Bool
  isNumber : Char → Bool
  isUpper : Char → Bool
  /-- How the flag `i` compares characters, without and with the flag `u`. -/
  toUpperCase : Char → Char
  foldCase : Char → Char
  nfkc : Text → Text

/-- The ASCII part of it. -/
def Unicode.ascii : Unicode where
  isLetter := Char.isAlpha
  isNumber := Char.isDigit
  isUpper := Char.isUpper
  toUpperCase := Char.toUpper
  foldCase := Char.toLower
  nfkc := id

namespace Regex

open Text

/-- `\w` without flags. -/
def isWordChar (c : Char) : Bool := c.isAlpha || c.isDigit || c == '_'

/-- No flag. -/
def plain : RegexFlags := { isWord := isWordChar }

/-- The flag `i`. -/
def ignoreCase (unicode : Unicode) : RegexFlags := { fold := unicode.toUpperCase, isWord := isWordChar }

/-- The flags `iu`. -/
def ignoreCaseUnicode (unicode : Unicode) : RegexFlags :=
  { fold := unicode.foldCase, isWord := fun c => isWordChar c || isWordChar (unicode.foldCase c) }

/-- What stands before, last character first, and what is still to be matched. -/
structure State where
  before : Text
  rest : Text
  groups : List (Nat × Text) := []

def State.advance (s : State) (c : Char) (t : Text) : State := { s with before := c :: s.before, rest := t }

/-- A repetition, by what one turn of it and what follows it do; it ends for want of characters at the latest. -/
def repeatFrom (greedy : Bool) (turn : (State → Option State) → State → Option State) :
    Nat → (State → Option State) → State → Option State
  | 0, k, s => k s
  | n + 1, k, s =>
    let again := turn (fun s' => if s'.rest.length < s.rest.length then repeatFrom greedy turn n k s' else none) s
    if greedy then again.orElse fun _ => k s else (k s).orElse fun _ => again

def run (flags : RegexFlags) : Regex → (State → Option State) → State → Option State
  | empty, k, s => k s
  | lit cs, k, s =>
    match s.rest with
    | c :: t => if cs.any (flags.fold · == flags.fold c) then k (s.advance c t) else none
    | [] => none
  | one p, k, s =>
    match s.rest with
    | c :: t => if p c then k (s.advance c t) else none
    | [] => none
  | seq a b, k, s => run flags a (fun s' => run flags b k s') s
  | alt a b, k, s => (run flags a k s).orElse fun _ => run flags b k s
  | star greedy a, k, s => repeatFrom greedy (fun k' s' => run flags a k' s') (s.rest.length + 1) k s
  | upTo n a, k, s => repeatFrom true (fun k' s' => run flags a k' s') n k s
  | group i a, k, s =>
    run flags a (fun s' => k { s' with groups := (i, s.rest.take (s.rest.length - s'.rest.length)) :: s'.groups }) s
  | start, k, s => if s.before = [] then k s else none
  | stop, k, s => if s.rest = [] then k s else none
  | boundary, k, s => if s.before.head?.any flags.isWord != s.rest.head?.any flags.isWord then k s else none
  | ahead a, k, s => (run flags a some s).bind fun s' => k { s with groups := s'.groups }
  | notAhead a, k, s => if (run flags a some s).isNone then k s else none
  | notBehind p, k, s => if s.before.head?.any p then none else k s

structure Match where
  text : Text
  groups : List (Nat × Text)

def Match.group (m : Match) (i : Nat) : Option Text := (m.groups.find? (·.1 = i)).map (·.2)

/-- The match that starts at a place. -/
def matchAt (flags : RegexFlags) (re : Regex) (before rest : Text) : Option Match :=
  (run flags re some { before := before, rest := rest }).map fun s =>
    { text := rest.take (rest.length - s.rest.length), groups := s.groups }

def matchesFrom (flags : RegexFlags) (re : Regex) : Nat → Text → Text → List Match
  | _, before, [] => (matchAt flags re before []).toList
  | skip + 1, before, c :: t => matchesFrom flags re skip (c :: before) t
  | 0, before, c :: t =>
    match matchAt flags re before (c :: t) with
    | some m => m :: matchesFrom flags re (m.text.length - 1) (c :: before) t
    | none => matchesFrom flags re 0 (c :: before) t

/-- `[...t.matchAll(re)]`. -/
def matchAll (flags : RegexFlags) (re : Regex) (t : Text) : List Match := matchesFrom flags re 0 [] t

/-- `re.exec(t)`. -/
def exec (flags : RegexFlags) (re : Regex) (t : Text) : Option Match := (matchAll flags re t).head?

def test (flags : RegexFlags) (re : Regex) (t : Text) : Bool := (exec flags re t).isSome

def replaceFrom (flags : RegexFlags) (re : Regex) (other : Text) : Nat → Text → Text → Text
  | _, _, [] => []
  | skip + 1, before, c :: t => replaceFrom flags re other skip (c :: before) t
  | 0, before, c :: t =>
    match matchAt flags re before (c :: t) with
    | some m => other ++ replaceFrom flags re other (m.text.length - 1) (c :: before) t
    | none => c :: replaceFrom flags re other 0 (c :: before) t

/-- `t.replace(re, other)` with the flag `g`, for an expression that matches no empty text. -/
def replaceAll (flags : RegexFlags) (re : Regex) (other t : Text) : Text := replaceFrom flags re other 0 [] t

/-! ## Writing expressions -/

def many (a : Regex) : Regex := star true a

def some1 (a : Regex) : Regex := seq a (star true a)

def opt (a : Regex) : Regex := upTo 1 a

def sequence (parts : List Regex) : Regex := parts.foldr seq empty

def oneOf : List Regex → Regex
  | [] => notAhead empty
  | [a] => a
  | a :: rest => alt a (oneOf rest)

def text (t : Text) : Regex := sequence (t.map fun c => lit [c])

def word (s : String) : Regex := text s.toList

def words (ws : List String) : Regex := oneOf (ws.map word)

def space : Regex := one Js.isSpace

def spaces : Regex := many space

def digit : Regex := one Char.isDigit

def times (n : Nat) (a : Regex) : Regex := sequence (List.replicate n a)

/-- A character that is none of some. -/
def noneOf (cs : String) : Regex := one fun c => !cs.toList.contains c

/-- `\b(w1|w2|...)\b`. -/
def wholeWord (ws : List Regex) : Regex := sequence [boundary, oneOf ws, boundary]

/-- `\d{4}-\d{2}-\d{2}`. -/
def date : Regex := sequence [times 4 digit, lit ['-'], times 2 digit, lit ['-'], times 2 digit]

def hexDigit : Regex := one fun c => "0123456789abcdef".toList.contains c

end Regex

end Zenod
