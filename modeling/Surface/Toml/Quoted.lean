import Surface.Text.Hexadecimal

/-! # TOML strings and line ends

Basic strings know escapes, literal strings do not, and both may run over several lines between
three quotes. Line ends inside a string are read as line feeds.
-/

namespace Surface.Toml

open Reader

def isSpace (c : Char) : Bool := c == ' ' || c == '\t'

/-- No control character but the tab may stand in a string or a comment. -/
def isPlain (c : Char) : Bool := c == '\t' || (0x20 ≤ c.toNat && c.toNat != 0x7F)

def space : Reader Text := takeWhile isSpace

def newline : Reader Text := (fun _ => ['\n']) <$> (literal ['\n'] <|> literal ['\r', '\n'])

def comment : Reader Text := char '#' *> takeWhile isPlain

/-- What may follow an expression on its line. -/
def lineEnd : Reader Unit := do
  let _ ← space
  let _ ← optional comment
  (fun _ => ()) <$> newline <|> endOfText

/-- Spaces, comments and line ends between the parts of an array. -/
def spread : Reader Unit :=
  (fun _ => ()) <$> many (takeWhile1 isSpace <|> newline <|> comment <* newline)

/-- A scalar value written with a fixed number of hexadecimal digits. -/
def scalar (digits : Nat) : Reader Char := do
  let n ← hexNumber digits
  if n.isValidChar then return Char.ofNat n else failure

def escape : Reader Char := do
  let _ ← char '\\'
  match ← next with
  | 'b' => return '\x08'
  | 't' => return '\t'
  | 'n' => return '\n'
  | 'f' => return '\x0c'
  | 'r' => return '\r'
  | '"' => return '"'
  | '\\' => return '\\'
  | 'u' => scalar 4
  | 'U' => scalar 8
  | _ => failure

def basicChar : Reader Char := satisfy fun c => isPlain c && c != '"' && c != '\\'

def literalChar : Reader Char := satisfy fun c => isPlain c && c != '\''

def basicString : Reader Text := char '"' *> many (basicChar <|> escape) <* char '"'

def literalString : Reader Text := char '\'' *> many literalChar <* char '\''

/-- A backslash at the end of a line hides the line end and all blanks behind it. -/
def hiddenLineEnd : Reader Text := do
  let _ ← char '\\' *> space *> newline
  let _ ← many (takeWhile1 isSpace <|> newline)
  return []

/-- One quote or two, if they stand in front of what `follower` reads. -/
def quotesBefore (quote : Char) (follower : Reader Text) : Reader Text :=
  literal [quote, quote] <* lookingAt follower <|> literal [quote] <* lookingAt follower

/-- A string between three quotes. Up to two quotes may stand anywhere in it, its end included, and
a line end right behind the opening quotes is left out. -/
def multiline (quote : Char) (part : Reader Text) : Reader Text := do
  let delimiter := [quote, quote, quote]
  let _ ← literal delimiter *> optional newline
  let parts ← many (part <|> quotesBefore quote part)
  let last ← quotesBefore quote (literal delimiter) <|> pure []
  let _ ← literal delimiter
  return parts.flatten ++ last

def single (c : Char) : Text := [c]

def multilineBasic : Reader Text :=
  multiline '"' (single <$> basicChar <|> hiddenLineEnd <|> single <$> escape <|> newline)

def multilineLiteral : Reader Text := multiline '\'' (single <$> literalChar <|> newline)

def string : Reader Text := fun t =>
  if ['"', '"', '"'].isPrefixOf t then multilineBasic t
  else if ['\'', '\'', '\''].isPrefixOf t then multilineLiteral t
  else (basicString <|> literalString) t

end Surface.Toml
