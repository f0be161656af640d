/-!
# Plain text

A terminal obeys some characters instead of showing them: control characters, and sequences that
an escape character opens. Plain text is what is left without them. Tabs and line ends stay.
-/

namespace ChipReplay.Text

/-- What a terminal takes the next character for. -/
inductive Expected where
  /-- Text to show. -/
  | text
  /-- What an escape character is followed by. -/
  | escape
  /-- More of an escape sequence. -/
  | escapeEnd
  /-- More of a control sequence. -/
  | control
  /-- More of a command to the system around the terminal. -/
  | command
  /-- What a command to a device begins with. -/
  | device
  /-- More of the parameters of a command to a device. -/
  | deviceParameters
  /-- More of what stands between these and the command. -/
  | deviceMiddle
  /-- More of a text that is not shown, such as a command to a device. -/
  | hidden
deriving DecidableEq

/-- The byte that ends a hidden text, also as a part of a longer character. -/
def hiddenEnd : UInt8 := 0x9C

namespace Expected

/-- What is expected behind `c`, unless `c` opens or breaks off a sequence. -/
def behind (c : Char) : Expected → Expected
  | text => text
  | escape =>
    if c = '[' then control
    else if c = ']' then command
    else if c = 'P' then device
    else if c = 'X' ∨ c = '^' ∨ c = '_' then hidden
    else if '0' ≤ c ∧ c ≤ '~' then text
    else if ' ' ≤ c ∧ c ≤ '/' then escapeEnd
    else escape
  | escapeEnd => if '0' ≤ c ∧ c ≤ '~' then text else escapeEnd
  | control => if '@' ≤ c ∧ c ≤ '~' then text else control
  | command => if c = '\x07' then text else command
  | device =>
    if '@' ≤ c ∧ c ≤ '~' then hidden
    else if '0' ≤ c ∧ c ≤ '?' then deviceParameters
    else if ' ' ≤ c ∧ c ≤ '/' then deviceMiddle
    else device
  | deviceParameters =>
    if '<' ≤ c ∧ c ≤ '~' then hidden
    else if ' ' ≤ c ∧ c ≤ '/' then deviceMiddle
    else deviceParameters
  | deviceMiddle => if '0' ≤ c ∧ c ≤ '~' then hidden else deviceMiddle
  | hidden => if hiddenEnd ∈ String.utf8EncodeChar c then text else hidden

/-- What is expected behind `c`. An escape character opens a sequence anywhere, and two control
characters break off any. -/
def after (e : Expected) (c : Char) : Expected :=
  if c = '\x1B' then escape
  else if c = '\x18' ∨ c = '\x1A' then text
  else e.behind c

end Expected

/-- Whether `c` is a tab or ends a line or a page. -/
def isLayout (c : Char) : Bool := c == '\t' || c == '\n' || c == '\x0C' || c == '\r'

/-- Whether `c` is no control character, layout apart. -/
def isPlain (c : Char) : Bool := (' ' ≤ c && c ≠ '\x7F') || isLayout c

/-- Whether `c` is shown where `e` is expected: text is, and layout is also within a short
sequence. -/
def Expected.shows (e : Expected) (c : Char) : Bool :=
  match e with
  | text => isPlain c
  | escape | escapeEnd | control => isLayout c
  | command | device | deviceParameters | deviceMiddle | hidden => false

/-- `cs` as it is shown where `e` is expected. While `showing`, all that follows is shown up to
the next control character; a sequence that layout has cut goes on there, unless a character
beyond ASCII came in between. -/
def plainFrom (e : Expected) (showing : Bool) : List Char → List Char
  | [] => []
  | c :: cs =>
    if showing && isPlain c then
      c :: plainFrom (if c.toNat < 0x80 then e else .text) true cs
    else if e.shows c then c :: plainFrom (e.after c) true cs
    else plainFrom (e.after c) false cs

/-- The plain text of `text`. -/
def plain (text : String) : String := String.ofList (plainFrom .text true text.toList)

end ChipReplay.Text
