import SqlGateway.Text.Basic

/-!
# Text patterns

A pattern describes pieces of text.  Matching tries the alternatives of a pattern in a fixed order
and takes the first way that lets the whole pattern match; pieces of the text can be kept under a
name.  Repetition is repetition of single characters, so matching is a structural recursion: on the
pattern, and inside a repetition on the text.
-/

namespace SqlGateway.Text

inductive Pattern where
  | nothing
  | one (p : Char → Bool)
  /-- Characters of a class, as many as possible. -/
  | many (p : Char → Bool)
  /-- Characters of a class, as few as possible. -/
  | few (p : Char → Bool)
  | seq (a b : Pattern)
  /-- The first pattern or, failing that, the second. -/
  | alt (a b : Pattern)
  | keep (name : String) (a : Pattern)
  /-- The empty piece, where `a` could follow. -/
  | ahead (a : Pattern)
  | notAhead (a : Pattern)
  /-- The empty piece between a word character and another character or an end of the text. -/
  | edge
  /-- The empty piece at the end of the text or before a line end that closes the text. -/
  | finish
  | last

namespace Pattern

instance : Append Pattern := ⟨seq⟩
instance : OrElse Pattern := ⟨fun a b => alt a (b ())⟩

/-- A place in a text: the character before it, and what follows. -/
structure Cursor where
  before : Option Char
  rest : List Char

/-- The piece of a text that ends where `behind` begins. -/
def pieceBefore (behind s : List Char) : List Char :=
  s.take (s.length - behind.length)

/-- A piece that is kept: the text from its beginning on, and the text behind it. -/
structure Piece where
  text : List Char
  behind : List Char

def Piece.chars (p : Piece) : List Char :=
  pieceBefore p.behind p.text

abbrev Kept := List (String × Piece)

variable {α : Type}

def longest (p : Char → Bool) (next : Cursor → Option α) (before : Option Char) :
    List Char → Option α
  | [] => next ⟨before, []⟩
  | c :: rest =>
    if p c then longest p next (some c) rest <|> next ⟨before, c :: rest⟩
    else next ⟨before, c :: rest⟩

def shortest (p : Char → Bool) (next : Cursor → Option α) (before : Option Char) :
    List Char → Option α
  | [] => next ⟨before, []⟩
  | c :: rest =>
    next ⟨before, c :: rest⟩ <|> if p c then shortest p next (some c) rest else none

def Cursor.atEdge (here : Cursor) : Bool :=
  (here.before.any isWord) != (here.rest.head?.any isWord)

def Cursor.atFinish (here : Cursor) : Bool :=
  here.rest.isEmpty || here.rest == ['\n']

/-- Matches a pattern at a place and hands the place behind the match to `next`; when `next` fails,
the next way to match is tried. -/
def run : Pattern → {α : Type} → Cursor → Kept → (Cursor → Kept → Option α) → Option α
  | nothing, _, here, kept, next => next here kept
  | one p, _, here, kept, next =>
    match here.rest with
    | [] => none
    | c :: rest => if p c then next ⟨some c, rest⟩ kept else none
  | many p, _, here, kept, next => longest p (next · kept) here.before here.rest
  | few p, _, here, kept, next => shortest p (next · kept) here.before here.rest
  | seq a b, _, here, kept, next => run a here kept fun there kept => run b there kept next
  | alt a b, _, here, kept, next => run a here kept next <|> run b here kept next
  | keep name a, _, here, kept, next =>
    run a here kept fun there kept => next there ((name, ⟨here.rest, there.rest⟩) :: kept)
  | ahead a, _, here, kept, next =>
    match run a here kept fun _ kept => some kept with
    | some kept => next here kept
    | none => none
  | notAhead a, _, here, kept, next =>
    match run a here kept fun _ _ => some () with
    | some () => none
    | none => next here kept
  | edge, _, here, kept, next => if here.atEdge then next here kept else none
  | finish, _, here, kept, next => if here.atFinish then next here kept else none
  | last, _, here, kept, next => if here.rest.isEmpty then next here kept else none

end Pattern

structure Match where
  /-- How many characters stand before the piece. -/
  start : Nat
  text : List Char
  rest : List Char
  kept : Pattern.Kept

namespace Match

def stop (m : Match) : Nat :=
  m.start + m.text.length

def get? (m : Match) (name : String) : Option (List Char) :=
  (m.kept.lookup name).map Pattern.Piece.chars

def get (m : Match) (name : String) : List Char :=
  (m.get? name).getD []

end Match

namespace Pattern

/-- Matches a pattern at the place that `start` characters and last of all `before` precede. -/
def matchAt? (p : Pattern) (start : Nat) (before : Option Char) (rest : List Char) :
    Option Match :=
  p.run ⟨before, rest⟩ [] fun there kept =>
    some ⟨start, pieceBefore there.rest rest, there.rest, kept⟩

def matches? (p : Pattern) (s : List Char) : Option Match :=
  p.matchAt? 0 none s

def findFrom? (p : Pattern) (start : Nat) (before : Option Char) : List Char → Option Match
  | [] => p.matchAt? start before []
  | c :: rest => p.matchAt? start before (c :: rest) <|> p.findFrom? (start + 1) (some c) rest

def find? (p : Pattern) (s : List Char) : Option Match :=
  p.findFrom? 0 none s

def occursIn (p : Pattern) (s : List Char) : Bool :=
  (p.find? s).isSome

/-- The matches at or behind a place, from left to right and without overlap; the first `skip`
characters belong to the match before. -/
def findAllFrom (p : Pattern) (start skip : Nat) (before : Option Char) : List Char → List Match
  | [] => if skip == 0 then (p.matchAt? start before []).toList else []
  | c :: rest =>
    match skip with
    | skip + 1 => p.findAllFrom (start + 1) skip (some c) rest
    | 0 =>
      match p.matchAt? start before (c :: rest) with
      | some m => m :: p.findAllFrom (start + 1) (m.text.length - 1) (some c) rest
      | none => p.findAllFrom (start + 1) 0 (some c) rest

def findAll (p : Pattern) (s : List Char) : List Match :=
  p.findAllFrom 0 0 none s

/-- The pieces of a text between the given matches; `origin` is where the next piece begins. -/
def piecesBetween (s : List Char) (origin : Nat) : List Match → List (List Char)
  | [] => [s.drop origin]
  | m :: ms => (s.drop origin).take (m.start - origin) :: piecesBetween s m.stop ms

def split (p : Pattern) (s : List Char) : List (List Char) :=
  piecesBetween s 0 (p.findAll s)

/-! ### Common patterns -/

def exactly (s : String) : Pattern :=
  s.toList.foldr (fun c p => one (· == c) ++ p) nothing

/-- The text `s`, the case of its letters left aside. -/
def lit (s : String) : Pattern :=
  s.toList.foldr (fun c p => one (sameLetter c) ++ p) nothing

def many1 (p : Char → Bool) : Pattern :=
  one p ++ many p

def gap : Pattern :=
  many isBlank

def space : Pattern :=
  many1 isBlank

/-- The words of a phrase, with blanks between them and case left aside. -/
def phrase : List String → Pattern
  | [] => nothing
  | [w] => lit w
  | w :: ws => lit w ++ space ++ phrase ws

def opt (p : Pattern) : Pattern :=
  alt p nothing

def oneOf : List Pattern → Pattern
  | [] => one fun _ => false
  | [p] => p
  | p :: ps => alt p (oneOf ps)

def anyChar : Char → Bool :=
  fun _ => true

def inLine : Char → Bool :=
  (· != '\n')

def noneOf (cs : List Char) : Char → Bool :=
  fun c => !cs.contains c

/-- The characters that are neither blank nor among `cs`. -/
def solid (cs : List Char) : Char → Bool :=
  fun c => !isBlank c && !cs.contains c

end Pattern

end SqlGateway.Text
