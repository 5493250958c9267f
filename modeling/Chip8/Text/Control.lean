/-!
# Control sequences

Text for a terminal can hold control characters, and escape sequences that set
colours, move the cursor or name the window.  `plain` is what such a text says
to a reader without a terminal: the characters that print, with blanks and line
ends, and nothing of what lies inside a sequence.

A sequence begins with the escape character.  It may be a short one, a control
sequence (`[` and then parameters up to a letter), a command to the system
(`]`, ended by the bell) or a string to a device (ended by the byte `9C`).  A
new escape character breaks off the sequence before it.

A blank or a line end inside a short or a control sequence prints.  Whether the
sequence goes on behind it is up to the reader (`BlankRule`): a text that is
read as a whole is done with the sequence, while on a stream the sequence is
only suspended, until something comes that does not print.
-/

namespace Chip8

/-- Where a text stands: outside of all sequences, or inside of one. -/
inductive ControlState where
  /-- Outside of all sequences. -/
  | ground
  /-- Behind the escape character. -/
  | escape
  /-- Inside a short sequence that goes on. -/
  | intermediate
  /-- Inside a control sequence. -/
  | sequence
  /-- Inside a command to the system. -/
  | command
  /-- At the beginning of the head of a device string. -/
  | deviceEntry
  /-- Among the parameters of a device string. -/
  | deviceParameter
  /-- Behind the parameters of a device string. -/
  | deviceIntermediate
  /-- Inside a string that is passed over up to its end. -/
  | controlString
  deriving DecidableEq, Repr

namespace ControlState

/-- Whether a character lies between two others, both included. -/
def within (low high c : Char) : Bool :=
  low ≤ c && c ≤ high

/-- The control characters that print: tabulator, line feed, form feed and
carriage return. -/
def isBlank (c : Char) : Bool :=
  c == '\t' || c == '\n' || c == '\x0c' || c == '\r'

/-- Whether a character prints outside of all sequences. -/
def prints (c : Char) : Bool :=
  isBlank c || (' ' ≤ c && c != '\x7f')

/-- Whether one of the bytes of a character ends a string. -/
def endsString (c : Char) : Bool :=
  (String.utf8EncodeChar c).contains 0x9C

/-- The state behind a character that belongs to a sequence. -/
def inside (s : ControlState) (c : Char) : ControlState :=
  match s with
  | .ground => .ground
  | .escape =>
      if within ' ' '/' c then .intermediate
      else if c == '[' then .sequence
      else if c == ']' then .command
      else if c == 'P' then .deviceEntry
      else if c == 'X' || c == '^' || c == '_' then .controlString
      else if within '0' '~' c then .ground
      else .escape
  | .intermediate => if within '0' '~' c then .ground else .intermediate
  | .sequence => if within '@' '~' c then .ground else .sequence
  | .command => if c == '\x07' then .ground else .command
  | .deviceEntry =>
      if within ' ' '/' c then .deviceIntermediate
      else if within '0' '?' c then .deviceParameter
      else if within '@' '~' c then .controlString
      else .deviceEntry
  | .deviceParameter =>
      if within ' ' '/' c then .deviceIntermediate
      else if within '<' '~' c then .controlString
      else .deviceParameter
  | .deviceIntermediate => if within '0' '~' c then .controlString else .deviceIntermediate
  | .controlString => if endsString c then .ground else .controlString

/-- Whether a blank inside of the sequence prints. -/
def showsBlank : ControlState → Bool
  | .escape | .intermediate | .sequence => true
  | _ => false

end ControlState

/-- What a blank that prints inside a sequence does to it. -/
inductive BlankRule where
  /-- The sequence is over. -/
  | ends
  /-- The sequence goes on behind the characters that print. -/
  | suspends
  deriving DecidableEq, Repr

/-- Where the reader of a text stands. -/
structure TextPosition where
  state : ControlState := .ground
  /-- Whether the sequence of the state is suspended. -/
  suspended : Bool := false
  deriving DecidableEq, Repr

namespace TextPosition

/-- The position behind a character, and whether the character prints.  Three
characters have their meaning everywhere: escape begins a sequence, cancel and
substitute end one.  A suspended sequence is taken up again by a character that
does not print, and is over with one beyond ASCII. -/
def next (rule : BlankRule) (p : TextPosition) (c : Char) : TextPosition × Bool :=
  if c == '\x1b' then ({ state := .escape }, false)
  else if c == '\x18' || c == '\x1a' then ({}, false)
  else if p.state == .ground then ({}, ControlState.prints c)
  else if p.suspended then
    if !ControlState.prints c then ({ state := p.state }, false)
    else if c ≤ '\x7f' then (p, true)
    else ({}, true)
  else if p.state.showsBlank && ControlState.isBlank c then
    match rule with
    | .ends => ({}, true)
    | .suspends => ({ p with suspended := true }, true)
  else ({ state := p.state.inside c }, false)

/-- The characters that print in a text that begins at `p`. -/
def printed (rule : BlankRule) (p : TextPosition) : List Char → List Char
  | [] => []
  | c :: cs =>
      let (p', shown) := p.next rule c
      if shown then c :: p'.printed rule cs else p'.printed rule cs

end TextPosition

/-- What a text says without a terminal. -/
def plain (rule : BlankRule) (text : String) : String :=
  String.ofList (({} : TextPosition).printed rule text.toList)

/-- A text set off from its surroundings on a terminal. -/
def emphasized (text : String) : String :=
  "\x1b[1m" ++ text ++ "\x1b[0m"

/-- The characters before the first line end, which is a line feed with or
without a carriage return before it. -/
def lineChars : List Char → List Char
  | [] => []
  | '\n' :: _ => []
  | '\r' :: '\n' :: _ => []
  | c :: cs => c :: lineChars cs

/-- The first line of a text. -/
def firstLine (text : String) : String :=
  String.ofList (lineChars text.toList)

end Chip8
