import FlowAudit.Toml.Quoted
import FlowAudit.Toml.Scalar
import FlowAudit.Toml.Table

set_option autoImplicit false

/-!
Reading TOML documents. A document is a row of key settings and headers, one a line; a setting
belongs to the table that the header before it names. Inside braces a setting may go over several
lines. At most eighty arrays and inline tables may be open at once, and a key has at most eighty
parts.
-/
namespace FlowAudit.Toml

def skipSpaces (text : List Char) : List Char :=
  text.dropWhile Quoted.isSpace

/-- Skips spaces, line ends and comments. A control inside a comment is refused. -/
def skipFiller (inComment : Bool) : List Char → Option (List Char)
  | [] => some []
  | '\n' :: rest => skipFiller false rest
  | '\r' :: '\n' :: rest => skipFiller false rest
  | char :: rest =>
      if inComment then if Quoted.isPlain char then skipFiller true rest else none
      else if Quoted.isSpace char then skipFiller false rest
      else if char = '#' then skipFiller true rest
      else some (char :: rest)

/-- Whether nothing but a comment stands before the end of the line. -/
def endsLine (text : List Char) : Bool :=
  match skipSpaces text with
  | [] => true
  | '\n' :: _ => true
  | '\r' :: '\n' :: _ => true
  | '#' :: _ => true
  | _ => false

def isBareKeyChar (char : Char) : Bool :=
  char.isAlphanum || char == '-' || char == '_'

/-- One part of a key at the start of a text, and what follows it. -/
def readKeyPart? (text : List Char) : Option (String × List Char) :=
  match text with
  | '"' :: rest => (Quoted.basic? rest).map fun (key, rest) => (String.ofList key, rest)
  | '\'' :: rest => (Quoted.literal? rest).map fun (key, rest) => (String.ofList key, rest)
  | _ =>
      let key := text.takeWhile isBareKeyChar
      if key.isEmpty then none else some (String.ofList key, text.dropWhile isBareKeyChar)

/-- The parts of a key, at most so many, and what follows it and its spaces. -/
def readKey? : Nat → List Char → Option (List String × List Char)
  | 0, _ => none
  | limit + 1, text =>
      match readKeyPart? (skipSpaces text) with
      | none => none
      | some (key, rest) =>
          match skipSpaces rest with
          | '.' :: rest => (readKey? limit rest).map fun (keys, rest) => (key :: keys, rest)
          | rest => some ([key], rest)

/-- What may stand in a word of a scalar. A quote does so after the first character. -/
def isScalarChar (char : Char) : Bool :=
  !(" \t\r\n,=#[]\x7b\x7d".toList.contains char)

/-- Whether a word after a space begins with a quote. -/
def hasQuotedWord (text : List Char) : Bool :=
  (text.zip text.tail).any fun (first, second) =>
    Quoted.isSpace first && (second == '"' || second == '\'')

/-- A scalar without quotes, and what follows it and its spaces. Words with spaces between them are
one scalar, such as a date and a time. -/
def readScalar? (text : List Char) : Option (Item × List Char) :=
  let isRun (char : Char) : Bool := isScalarChar char || Quoted.isSpace char
  let run := text.takeWhile isRun
  let token := (run.reverse.dropWhile Quoted.isSpace).reverse
  if hasQuotedWord token then none
  else (Scalar.read? token).map fun item => (item, text.dropWhile isRun)

/-- The last part of a key and the parts before it. -/
def splitKey? (keys : List String) : Option (List String × String) :=
  keys.getLast?.map fun key => (keys.dropLast, key)

/-- How many arrays and inline tables may be open at once, and how many parts a key may have. -/
def depthLimit : Nat := 80

/-- Skips what may stand beside an equals sign: spaces, and inside braces also line ends and
comments. -/
def skipGap (inBraces : Bool) (text : List Char) : Option (List Char) :=
  if inBraces then skipFiller false text else some (skipSpaces text)

mutual

/-- One value at the start of a text, and what follows it. Each step uses one unit of fuel, and
each array or inline table one unit of depth. -/
def readValue? : Nat → Nat → List Char → Option (Item × List Char)
  | 0, _, _ => none
  | fuel + 1, depth, text =>
      match Quoted.read? text with
      | some read => read.map fun (meaning, rest) => (.text (String.ofList meaning), rest)
      | none =>
          match text with
          | '[' :: rest =>
              match depth with
              | 0 => none
              | depth + 1 => readItems? fuel depth [] rest
          | '\x7b' :: rest =>
              match depth with
              | 0 => none
              | depth + 1 => readMembers? fuel depth [] rest
          | _ => readScalar? text

/-- The items of an array from the next one on; those before it are held in reverse. -/
def readItems? : Nat → Nat → List Item → List Char → Option (Item × List Char)
  | 0, _, _, _ => none
  | fuel + 1, depth, before, text =>
      match skipFiller false text with
      | none => none
      | some (']' :: rest) => some (.array before.reverse, rest)
      | some text =>
          match readValue? fuel depth text with
          | none => none
          | some (item, rest) =>
              match skipFiller false rest with
              | some (',' :: rest) => readItems? fuel depth (item :: before) rest
              | some (']' :: rest) => some (.array (item :: before).reverse, rest)
              | _ => none

/-- The settings of an inline table from the next one on. -/
def readMembers? : Nat → Nat → Members → List Char → Option (Item × List Char)
  | 0, _, _, _ => none
  | fuel + 1, depth, before, text =>
      match skipFiller false text with
      | none => none
      | some ('\x7d' :: rest) => some (.table .inline before, rest)
      | some text =>
          match readSetting? true fuel depth text with
          | none => none
          | some ((keys, item), rest) =>
              match (splitKey? keys).bind fun (path, key) =>
                Table.set? .inline path key item before with
              | none => none
              | some members =>
                  match skipFiller false rest with
                  | some (',' :: rest) => readMembers? fuel depth members rest
                  | some ('\x7d' :: rest) => some (.table .inline members, rest)
                  | _ => none

/-- A key, an equals sign and a value. -/
def readSetting? (inBraces : Bool) : Nat → Nat → List Char →
    Option ((List String × Item) × List Char)
  | 0, _, _ => none
  | fuel + 1, depth, text =>
      match readKey? depthLimit text with
      | none => none
      | some (keys, rest) =>
          match skipGap inBraces rest with
          | some ('=' :: rest) =>
              match skipGap inBraces rest with
              | none => none
              | some rest =>
                  (readValue? fuel depth rest).map fun (item, rest) => ((keys, item), rest)
          | _ => none

end

/-- Reads the rest of a document, line by line, into the tables that are there. Each line uses one
unit of fuel. -/
def readLines? : Nat → List String → Members → List Char → Option Members
  | 0, _, _, _ => none
  | fuel + 1, header, root, text =>
      match skipFiller false text with
      | none => none
      | some [] => some root
      | some ('[' :: '[' :: rest) =>
          match readKey? depthLimit rest with
          | some (keys, ']' :: ']' :: rest) =>
              match (splitKey? keys).bind fun (path, key) => Table.appendTable? path key root with
              | some root => if endsLine rest then readLines? fuel keys root rest else none
              | none => none
          | _ => none
      | some ('[' :: rest) =>
          match readKey? depthLimit rest with
          | some (keys, ']' :: rest) =>
              match (splitKey? keys).bind fun (path, key) => Table.openTable? path key root with
              | some root => if endsLine rest then readLines? fuel keys root rest else none
              | none => none
          | _ => none
      | some text =>
          match readSetting? false (3 * text.length + 3) depthLimit text with
          | some ((keys, item), rest) =>
              match (splitKey? keys).bind fun (path, key) =>
                Table.setUnder? header path key item root with
              | some root => if endsLine rest then readLines? fuel header root rest else none
              | none => none
          | none => none

/-- A byte order mark at the start of a document says nothing. -/
def dropByteOrderMark : List Char → List Char
  | '\ufeff' :: rest => rest
  | text => text

/-- The members of the table that a whole document spells. -/
def readDocument? (text : List Char) : Option Members :=
  let text := dropByteOrderMark text
  readLines? (text.length + 1) [] [] text

end FlowAudit.Toml
