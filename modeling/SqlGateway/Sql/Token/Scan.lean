import SqlGateway.Sql.Token.Reserved
import SqlGateway.Text.Pattern

/-!
# Scanning

A statement is cut into tokens by rules that are tried in order at each place; the first rule that
matches gives the next token.  Every character belongs to a token, so the tokens spell the statement.
-/

namespace SqlGateway.Sql.Token

open Text Pattern

def isFirstLetter (c : Char) : Bool :=
  c.isAlpha || (decide (0xC0 ≤ c.toNat) && decide (c.toNat ≤ 0xDC)) ||
    (decide (0xE0 ≤ c.toNat) && decide (c.toNat ≤ 0xFC) && c.toNat != 0xF7) ||
    [0x130, 0x131, 0x17F, 0x212A, 0x212B].contains c.toNat

def isFirstOrUnderscore (c : Char) : Bool :=
  isFirstLetter c || c == '_'

def lineEnd : Pattern :=
  exactly "\r\n" <|> (exactly "\r" <|> exactly "\n")

def digits : Pattern :=
  many1 isDecimal

def noLetter : Pattern :=
  notAhead (one isFirstOrUnderscore)

def wordTail : Pattern :=
  many isWord

/-- Words with blanks between them that end at the edge of a word. -/
def fixedPhrase (ws : List String) : Pattern :=
  phrase ws ++ edge

/-- A text between two marks `q`.  A doubled mark, or one behind a backslash if `escapes` holds, does
not end the text; when the marks do not come out even, the text ends at the last mark there is. -/
def between (escapes : Bool) (q : Char) : List Char → Option (List Char)
  | [] => none
  | c :: rest =>
    match rest with
    | [] => if c == q then some [c] else none
    | d :: rest' =>
      if c == q then
        if d == q then ((between escapes q rest').map fun s => c :: d :: s) <|> some [c]
        else some [c]
      else if escapes && c == '\\' && d == q then
        ((between escapes q rest').map fun s => c :: d :: s) <|> some [c, d]
      else (between escapes q (d :: rest')).map (c :: ·)

def beginsWith : (tag s : List Char) → Bool
  | [], _ => true
  | _, [] => false
  | t :: tag, c :: rest => lowerChar t == lowerChar c && beginsWith tag rest

def throughTag (tag : List Char) : List Char → Option (List Char)
  | [] => if tag.isEmpty then some [] else none
  | c :: rest =>
    if beginsWith tag (c :: rest) then some ((c :: rest).take tag.length)
    else (throughTag tag rest).map (c :: ·)

/-- The mark before and behind a text: a name, perhaps none, between two dollar signs. -/
def tagPattern : Pattern :=
  exactly "$" ++ opt (one isFirstOrUnderscore ++ wordTail) ++ exactly "$"

def tagged? (before : Option Char) (s : List Char) : Option Token :=
  if before.any fun c => isWord c || c == '"' || c == '$' then none
  else do
    let tag ← tagPattern.matchAt? 0 before s
    let body ← throughTag tag.text tag.rest
    return ⟨.tagged, tag.text ++ body⟩

/-- A rule: when it applies, given the character before, and what it matches. -/
structure Rule where
  kind : Kind
  after : Option Char → Bool
  pattern : Pattern

def rule (kind : Kind) (pattern : Pattern) : Rule :=
  ⟨kind, fun _ => true, pattern⟩

/-- The rules up to the quoted names. -/
def leadingRules : List Rule :=
  [rule .lineComment ((exactly "--" <|> exactly "# ") ++ few inLine ++ (lineEnd <|> finish)),
    rule .blockComment (exactly "/*" ++ few anyChar ++ exactly "*/"),
    rule .newline lineEnd,
    rule .blank (one isBlank),
    rule .assignment (exactly ":="),
    rule .punctuation (exactly "::"),
    rule .wildcard (exactly "*")]

/-- The rules between the quoted names and the quoted texts. -/
def wordRules : List Rule :=
  [rule .placeholder (exactly "?"),
    rule .placeholder (exactly "%" ++ opt (exactly "(" ++ many1 isWord ++ exactly ")") ++ lit "s"),
    ⟨.placeholder, fun before => !before.any isWord,
      one (fun c => c == '$' || c == ':' || c == '?') ++ many1 isWord⟩,
    rule .other (exactly "\\" ++ many1 isWord),
    rule .keyword
      (oneOf [lit "CASE", lit "IN", lit "VALUES", lit "USING", lit "FROM", lit "AS"] ++ edge),
    rule .name
      ((exactly "@" <|> (exactly "##" <|> exactly "#")) ++ one isFirstLetter ++ many1 isWord),
    rule .name (one isFirstLetter ++ wordTail ++ ahead (gap ++ exactly ".")),
    ⟨.name, fun before => before == some '.', one isFirstLetter ++ wordTail⟩,
    rule .name (one isFirstLetter ++ wordTail ++ ahead (exactly "(")),
    rule .hexNumber
      (opt (exactly "-") ++ lit "0x" ++ many1 fun c => isDecimal c || "abcdefABCDEF".contains c),
    rule .number
      (opt (exactly "-") ++ digits ++ opt (exactly "." ++ digits) ++ lit "E" ++
        opt (exactly "-") ++ digits),
    rule .number
      (noLetter ++ opt (exactly "-") ++
        ((digits ++ exactly "." ++ many isDecimal) <|> (exactly "." ++ digits)) ++ noLetter),
    rule .number (noLetter ++ opt (exactly "-") ++ digits ++ noLetter)]

/-- A word, with the signs that may stand inside it. -/
def wordPattern : Pattern :=
  one isWord ++ many fun c => isWord c || c == '$' || c == '#'

def zonePattern : Pattern :=
  (lit "AT" <|> lit "WITH'") ++ space ++ phrase ["TIME", "ZONE"] ++ space ++ exactly "'" ++
    many1 (noneOf ['\'']) ++ exactly "'"

/-- The rules between the quoted texts and the plain words. -/
def phraseRules : List Rule :=
  [⟨.name, fun before => !before.any fun c => isWord c || c == ']' || c == ')',
      exactly "[" ++ many1 (noneOf [']', '[']) ++ exactly "]"⟩,
    rule .keyword
      (opt (oneOf [lit "LEFT" ++ space, lit "RIGHT" ++ space, lit "FULL" ++ space]) ++
        opt (oneOf [lit "INNER" ++ space, lit "OUTER" ++ space, lit "STRAIGHT" ++ space]) ++
        lit "JOIN" ++ edge),
    rule .keyword ((lit "CROSS" <|> lit "NATURAL") ++ space ++ lit "JOIN" ++ edge),
    rule .keyword
      (lit "END" ++
        opt (oneOf [space ++ lit "IF", space ++ lit "LOOP", space ++ lit "WHILE"]) ++ edge),
    rule .keyword (fixedPhrase ["NOT", "NULL"]),
    rule .keyword (lit "NULLS" ++ space ++ (lit "FIRST" <|> lit "LAST") ++ edge),
    rule .keyword (fixedPhrase ["UNION", "ALL"]),
    rule .schemaKeyword (lit "CREATE" ++ opt (space ++ phrase ["OR", "REPLACE"]) ++ edge),
    rule .typeName (fixedPhrase ["DOUBLE", "PRECISION"]),
    rule .keyword (fixedPhrase ["GROUP", "BY"]),
    rule .keyword (fixedPhrase ["ORDER", "BY"]),
    rule .keyword (fixedPhrase ["PRIMARY", "KEY"]),
    rule .keyword (fixedPhrase ["HANDLER", "FOR"]),
    rule .keyword (lit "GO" ++ one isBlank ++ digits ++ edge),
    rule .keyword
      (phrase ["LATERAL", "VIEW"] ++ space ++
        oneOf [lit "EXPLODE", lit "INLINE", lit "PARSE_URL_TUPLE", lit "POSEXPLODE", lit "STACK"] ++
        edge),
    rule .zoneKeyword zonePattern,
    rule .comparison (opt (lit "NOT" ++ space) ++
      oneOf [lit "LIKE", lit "ILIKE", lit "RLIKE", lit "REGEXP"] ++ edge)]

/-- The rules behind the plain words. -/
def trailingRules : List Rule :=
  [rule .punctuation (one fun c => ";:()[],.".contains c),
    rule .operator
      (oneOf [exactly "->" ++ opt (exactly ">"), exactly "#>" ++ opt (exactly ">"), exactly "@>",
        exactly "<@", exactly "-", exactly "#-"]),
    rule .comparison (many1 fun c => "<>=~!".contains c),
    rule .operator (many1 fun c => "+/@#%^&|-".contains c)]

/-- The piece that a rule matches at a place; an empty piece does not count. -/
def Rule.token? (r : Rule) (before : Option Char) (s : List Char) : Option Token :=
  if r.after before then
    match r.pattern.matchAt? 0 before s with
    | some m => if m.text.isEmpty then none else some ⟨r.kind, m.text⟩
    | none => none
  else none

def enclosed? (kind : Kind) (escapes : Bool) (q : Char) : List Char → Option Token
  | c :: rest => if c == q then (between escapes q rest).map fun s => ⟨kind, c :: s⟩ else none
  | [] => none

def next (before : Option Char) (s : List Char) : Token :=
  let found? : Option Token :=
    leadingRules.findSome? (·.token? before s) <|>
    enclosed? .name false '`' s <|>
    enclosed? .name false '´' s <|>
    tagged? before s <|>
    wordRules.findSome? (·.token? before s) <|>
    enclosed? .string true '\'' s <|>
    enclosed? .symbol true '"' s <|>
    phraseRules.findSome? (·.token? before s) <|>
    ((wordPattern.matchAt? 0 before s).map fun m => ⟨wordKind m.text, m.text⟩) <|>
    trailingRules.findSome? (·.token? before s)
  found?.getD ⟨.other, s.take 1⟩

/-- The tokens of a text, of which `skip` characters belong to the token before. -/
def scan (before : Option Char) (skip : Nat) : List Char → List Token
  | [] => []
  | c :: rest =>
    match skip with
    | skip + 1 => scan (some c) skip rest
    | 0 =>
      let token := next before (c :: rest)
      token :: scan (some c) (token.text.length - 1) rest

def tokens (s : List Char) : List Token :=
  scan none 0 s

end SqlGateway.Sql.Token
